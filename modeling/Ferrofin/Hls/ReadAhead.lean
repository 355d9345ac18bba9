import Ferrofin.Hls.SegmentFiles

/-!
# Reading ahead of a running transcode

A request just ahead of the running job waits for it, and any other one restarts it.
Where the job is, is read off the names in the output directory: it is taken to be the
highest number there, whatever job left the file, and the init segment counts as `-1`.
-/

namespace Ferrofin.Hls

open Util
open Option (bind_none bind_some getD_none)

/-! ### The numbers in names -/

def stripPrefix (start s : Path) : Option Path :=
  if start <+: s then some (s.drop start.length) else none

def stripSuffix (ending s : Path) : Option Path :=
  if ending <:+ s then some (s.take (s.length - ending.length)) else none

theorem stripPrefix_append (start rest : Path) : stripPrefix start (start ++ rest) = some rest := by
  rw [stripPrefix, if_pos (List.prefix_append ..), List.drop_left']
  rfl

theorem stripSuffix_append (rest ending : Path) :
    stripSuffix ending (rest ++ ending) = some rest := by
  have hlength : (rest ++ ending).length - ending.length = rest.length := by
    rw [List.length_append, Nat.add_sub_cancel]
  rw [stripSuffix, if_pos (List.suffix_append ..), hlength, List.take_left']
  rfl

theorem stripSuffix_append_of_ne {rest ending ending' : Path} (hne : ending' ≠ [])
    (hlast : ending.getLast? ≠ ending'.getLast?) (hending : ending ≠ []) :
    stripSuffix ending (rest ++ ending') = none := by
  rw [stripSuffix, if_neg]
  rintro ⟨front, hfront⟩
  have hlast' := congrArg List.getLast? hfront
  rw [List.getLast?_append_of_ne_nil front hending,
    List.getLast?_append_of_ne_nil rest hne] at hlast'
  exact hlast hlast'

/-- The number in the name of an entry (in `current_transcoding_index`). -/
def segmentNumber (stem suffix name : Path) : Option Int :=
  let name := (stripSuffix ".tmp".toList name).getD name
  (stripPrefix stem name).bind fun rest => (stripSuffix suffix rest).bind (parseInt 32)

def currentTranscodingIndexIn (names : List Path) (playlist ext : Path) : Option Int :=
  (fileStem playlist).bind fun stem =>
    let suffix := if ext.head? = some '.' then ext else '.' :: ext
    (names.filterMap (segmentNumber stem suffix)).max?

def OutputFile.name (stem ext : Path) : OutputFile → Path
  | .playlist => stem ++ ".m3u8".toList
  | .init _ => segmentName stem (-1) ext
  | .segment index => segmentName stem index ext
  | .tmp index => segmentName stem index ext ++ ".tmp".toList

/-- The number of a segment is an `i32`. -/
def OutputFile.Numbered (f : OutputFile) : Prop := ∀ index ∈ f.index, -1 ≤ index ∧ index < 2 ^ 31

instance (f : OutputFile) : Decidable f.Numbered :=
  inferInstanceAs (Decidable (∀ index ∈ f.index, -1 ≤ index ∧ index < 2 ^ 31))

/-! ### The names of an output -/

variable {hash : UInt64} {segmentContainer : String}

/-- The extension of segments ends otherwise than `.tmp` and `.m3u8`. -/
theorem getLast?_segmentExtension (segmentContainer : String) :
    segmentExtension segmentContainer ≠ [] ∧
      ".tmp".toList.getLast? ≠ (segmentExtension segmentContainer).getLast? ∧
      (segmentExtension segmentContainer).getLast? ≠ ".m3u8".toList.getLast? := by
  unfold segmentExtension
  split <;> decide

theorem segmentNumber_segmentName (stem : Path) {index : Int} (hmin : -2 ^ 31 ≤ index)
    (hmax : index < 2 ^ 31) :
    segmentNumber stem (segmentExtension segmentContainer)
      (segmentName stem index (segmentExtension segmentContainer)) = some index := by
  obtain ⟨hne, htmp, -⟩ := getLast?_segmentExtension segmentContainer
  unfold segmentNumber segmentName
  rw [stripSuffix_append_of_ne hne htmp (by decide)]
  dsimp only
  rw [getD_none, List.append_assoc, stripPrefix_append, bind_some,
    stripSuffix_append, bind_some]
  exact parseInt_decimal hmin hmax

theorem segmentNumber_name (stem : Path) {f : OutputFile} (h : f.Numbered) :
    segmentNumber stem (segmentExtension segmentContainer)
      (f.name stem (segmentExtension segmentContainer)) = f.index := by
  have hrange : ∀ index ∈ f.index, -2 ^ 31 ≤ index ∧ index < 2 ^ 31 := fun index hi => by
    have := h index hi
    omega
  cases f with
  | playlist =>
    obtain ⟨-, -, hm3u8⟩ := getLast?_segmentExtension segmentContainer
    have hnil : stripSuffix (segmentExtension segmentContainer) ([] ++ ".m3u8".toList) = none :=
      stripSuffix_append_of_ne (by decide) hm3u8 (getLast?_segmentExtension segmentContainer).1
    unfold segmentNumber OutputFile.name
    rw [stripSuffix_append_of_ne (by decide) (by decide) (by decide)]
    dsimp only
    rw [getD_none, stripPrefix_append, bind_some]
    rw [List.nil_append] at hnil
    rw [hnil]
    rfl
  | init filled => exact segmentNumber_segmentName stem (hrange _ rfl).1 (hrange _ rfl).2
  | segment index => exact segmentNumber_segmentName stem (hrange _ rfl).1 (hrange _ rfl).2
  | tmp index =>
    have hname : segmentNumber stem (segmentExtension segmentContainer)
        (segmentName stem index (segmentExtension segmentContainer)) = some index :=
      segmentNumber_segmentName stem (hrange _ rfl).1 (hrange _ rfl).2
    unfold segmentNumber at hname ⊢
    unfold OutputFile.name
    obtain ⟨hne, htmp, -⟩ := getLast?_segmentExtension segmentContainer
    rw [segmentName, stripSuffix_append_of_ne hne htmp (by decide)] at hname
    rw [stripSuffix_append]
    exact hname

theorem mod_pow_eq_of_digits {x y b : Nat} {n : Nat}
    (h : ∀ k < n, x / b ^ k % b = y / b ^ k % b) : x % b ^ n = y % b ^ n := by
  induction n with
  | zero => rw [Nat.pow_zero, Nat.mod_one, Nat.mod_one]
  | succ n ih =>
    rw [Nat.mod_pow_succ, Nat.mod_pow_succ, ih fun k hk => h k (Nat.lt_succ_of_lt hk),
      h n (Nat.lt_succ_self n)]

theorem hexDigits_injective : ∀ x y : Fin 16,
    hexDigits.getD x '0' = hexDigits.getD y '0' → x = y := by decide

theorem hex16_injective {a b : UInt64} (h : hex16 a = hex16 b) : a = b := by
  have hdigit : ∀ k < 16, a.toNat / 16 ^ k % 16 = b.toNat / 16 ^ k % 16 := fun k hk => by
    have hchar := List.map_inj_left.mp h (15 - k) (List.mem_range.mpr (by omega))
    rw [show 15 - (15 - k) = k by omega] at hchar
    exact Fin.ext_iff.mp (hexDigits_injective ⟨_, Nat.mod_lt _ (by decide)⟩
      ⟨_, Nat.mod_lt _ (by decide)⟩ hchar)
  have hmod := mod_pow_eq_of_digits (n := 16) hdigit
  have ha : a.toNat < 16 ^ 16 := a.toNat_lt
  have hb : b.toNat < 16 ^ 16 := b.toNat_lt
  rw [Nat.mod_eq_of_lt ha, Nat.mod_eq_of_lt hb] at hmod
  exact UInt64.toNat_inj.mp hmod

theorem stripPrefix_hex16_of_ne {a b : UInt64} (hne : a ≠ b) (rest : Path) :
    stripPrefix (hex16 a) (hex16 b ++ rest) = none := by
  rw [stripPrefix, if_neg]
  intro hprefix
  have hlength : (hex16 a).length = (hex16 b).length := by rw [length_hex16, length_hex16]
  have hle := List.prefix_of_prefix_length_le hprefix (List.prefix_append (hex16 b) rest) hlength.le
  exact hne (hex16_injective (hle.eq_of_length hlength))

theorem segmentNumber_other {a b : UInt64} (hne : a ≠ b) (f : OutputFile) (suffix : Path) :
    segmentNumber (hex16 a) suffix (f.name (hex16 b) (segmentExtension segmentContainer)) =
      none := by
  obtain ⟨hnil, htmp, -⟩ := getLast?_segmentExtension segmentContainer
  have hsegment : ∀ index, segmentNumber (hex16 a) suffix
      (segmentName (hex16 b) index (segmentExtension segmentContainer)) = none := fun index => by
    unfold segmentNumber segmentName
    rw [stripSuffix_append_of_ne hnil htmp (by decide)]
    dsimp only
    rw [getD_none, List.append_assoc, stripPrefix_hex16_of_ne hne, bind_none]
  cases f with
  | playlist =>
    unfold segmentNumber OutputFile.name
    rw [stripSuffix_append_of_ne (by decide) (by decide) (by decide)]
    dsimp only
    rw [getD_none, stripPrefix_hex16_of_ne hne, bind_none]
  | init filled => exact hsegment (-1)
  | segment index => exact hsegment index
  | tmp index =>
    unfold segmentNumber OutputFile.name
    rw [stripSuffix_append]
    dsimp only
    rw [Option.getD_some, segmentName, List.append_assoc, stripPrefix_hex16_of_ne hne,
      bind_none]

def Disk.names (disk : Disk) (ext : Path) : List Path :=
  disk.map fun f => f.2.name (hex16 f.1) ext

/-- **The number read off the names** is the highest number of the output's files. -/
theorem currentTranscodingIndexIn_eq (root : String) {disk : Disk}
    (h : ∀ f, (hash, f) ∈ disk → f.Numbered) :
    currentTranscodingIndexIn (disk.names (segmentExtension segmentContainer))
      (playlistPath root hash).toList (segmentExtension segmentContainer) =
      currentTranscodingIndex disk hash := by
  obtain ⟨e, he, -, -⟩ := segmentExtension_eq segmentContainer
  have hdot : (segmentExtension segmentContainer).head? = some '.' := by rw [he]; rfl
  have hnumber : ∀ f ∈ disk, segmentNumber (hex16 hash) (segmentExtension segmentContainer)
      (f.2.name (hex16 f.1) (segmentExtension segmentContainer)) =
        if f.1 = hash then f.2.index else none := fun f hf => by
    obtain ⟨id, f⟩ := f
    dsimp only
    split
    · next hid =>
      subst hid
      exact segmentNumber_name _ (h f hf)
    · next hid => exact segmentNumber_other (Ne.symm hid) f _
  have hnumbers : (disk.names (segmentExtension segmentContainer)).filterMap
      (segmentNumber (hex16 hash) (segmentExtension segmentContainer)) =
        (disk.filter fun f => f.1 = hash).filterMap fun f => f.2.index := by
    rw [Disk.names, List.filterMap_map, List.filterMap_filter]
    refine List.filterMap_congr fun f hf => ?_
    rw [Function.comp_apply, hnumber f hf]
    simp only [decide_eq_true_eq]
  rw [currentTranscodingIndexIn, fileStem_playlistPath, bind_some]
  dsimp only
  rw [if_pos hdot, hnumbers, currentTranscodingIndex]

/-! ### When a request waits -/

/-- A request waits if there is no number at all, or none past it and one close before.
The difference from an init segment wraps at the last `i32`. -/
theorem shouldWait_max? {numbers : List Int} {id : Int} (h : ∀ i ∈ numbers, -1 ≤ i) (h0 : 0 ≤ id)
    (hid : id < 2 ^ 31) : shouldWaitForRunningJob numbers.max? id = true ↔ numbers = [] ∨
      (∀ i ∈ numbers, i ≤ id) ∧
        ((∃ i ∈ numbers, id - 2 ≤ i) ∨ id = 2 ^ 31 - 1 ∧ ∀ i ∈ numbers, i = -1) := by
  cases hm : numbers.max? with
  | none =>
    rw [List.max?_eq_none_iff] at hm
    exact iff_of_true rfl (.inl hm)
  | some c =>
    obtain ⟨hmem, hmax⟩ := List.max?_eq_some_iff.mp hm
    have hne : numbers ≠ [] := fun hnil => by rw [hnil] at hmem; cases hmem
    have hc := h c hmem
    have hwrap : c ≤ id → ((id - c).bmod (2 ^ 32) ≤ 2 ↔ id - 2 ≤ c ∨ id = 2 ^ 31 - 1 ∧ c = -1) := by
      intro hle
      rw [Int.bmod_def]
      omega
    have hall : (∀ i ∈ numbers, i ≤ id) ↔ c ≤ id :=
      ⟨fun hall => hall c hmem, fun hle i hi => Int.le_trans (hmax i hi) hle⟩
    have hnear : (∃ i ∈ numbers, id - 2 ≤ i) ↔ id - 2 ≤ c :=
      ⟨fun ⟨i, hi, hle⟩ => Int.le_trans hle (hmax i hi), fun hle => ⟨c, hmem, hle⟩⟩
    have hinit : (∀ i ∈ numbers, i = -1) ↔ c = -1 := by
      refine ⟨fun hinit => hinit c hmem, fun he i hi => ?_⟩
      have hlow := h i hi
      have hhigh := hmax i hi
      omega
    rw [or_iff_right hne, hall, hnear, hinit, shouldWaitForRunningJob, Bool.and_eq_true,
      decide_eq_true_eq, decide_eq_true_eq]
    exact and_congr_right hwrap

/-- What the running job has written: the segments from `start` on, so many; the one it
is encoding, under its `.tmp` name; and the init segment. -/
structure Written where
  start : Int
  count : Nat
  encoding : Bool := false
  init : Option Bool := none

def Written.files (job : Written) : List OutputFile :=
  job.init.toList.map .init ++ (List.range job.count).map (fun k => .segment (job.start + k)) ++
    if job.encoding then [.tmp (job.start + job.count)] else []

/-- The request is the job's first one while nothing is written, and else at most
`SEGMENT_WAIT_GAP` ahead of the last segment written. -/
def Written.Ahead (job : Written) (id : Int) : Prop :=
  if job.count = 0 then id = job.start
  else job.start + job.count - 1 < id ∧ id ≤ job.start + job.count - 1 + segmentWaitGap

instance (job : Written) (id : Int) : Decidable (job.Ahead id) := by
  unfold Written.Ahead
  infer_instance

theorem Written.mem_numbers {job : Written} {i : Int} :
    (∃ f ∈ job.files, f.index = some i) ↔ (job.init.isSome = true ∧ i = -1) ∨
      (job.start ≤ i ∧ i < job.start + job.count) ∨
      (job.encoding = true ∧ i = job.start + job.count) := by
  constructor
  · rintro ⟨f, hf, hi⟩
    rcases List.mem_append.mp hf with hf | hf
    · rcases List.mem_append.mp hf with hf | hf
      · obtain ⟨filled, hfilled, rfl⟩ := List.mem_map.mp hf
        cases hi
        exact .inl ⟨Option.isSome_iff_exists.mpr ⟨filled, Option.mem_toList.mp hfilled⟩, rfl⟩
      · obtain ⟨k, hk, rfl⟩ := List.mem_map.mp hf
        have hlt := List.mem_range.mp hk
        cases hi
        exact .inr (.inl ⟨by omega, by omega⟩)
    · split at hf
      · next hencoding =>
        rw [List.mem_singleton.mp hf] at hi
        cases hi
        exact .inr (.inr ⟨hencoding, rfl⟩)
      · cases hf
  · rintro (⟨hinit, rfl⟩ | ⟨hle, hlt⟩ | ⟨hencoding, rfl⟩)
    · obtain ⟨filled, hfilled⟩ := Option.isSome_iff_exists.mp hinit
      exact ⟨.init filled, List.mem_append_left _ (List.mem_append_left _
        (List.mem_map_of_mem (Option.mem_toList.mpr hfilled))), rfl⟩
    · refine ⟨.segment i, List.mem_append_left _ (List.mem_append_right _
        (List.mem_map.mpr ⟨(i - job.start).toNat, List.mem_range.mpr (by omega), ?_⟩)), rfl⟩
      congr 1
      omega
    · exact ⟨.tmp (job.start + job.count), List.mem_append_right _ (by
        rw [if_pos hencoding]
        exact List.mem_singleton.mpr rfl), rfl⟩

/-- The numbers of the job itself are near a request ahead of it, unless it has written
nothing but its init segment. -/
theorem near_iff {job : Written} {id : Int} {numbers earlier : List Int}
    (hmem : ∀ i, i ∈ numbers ↔ i ∈ earlier ∨ (job.init.isSome = true ∧ i = -1) ∨
      (job.start ≤ i ∧ i < job.start + job.count) ∨
      (job.encoding = true ∧ i = job.start + job.count))
    (h0 : 0 ≤ id) (hahead : job.Ahead id) :
    (numbers = [] ∨ (∀ i ∈ numbers, i ≤ id) ∧
        ((∃ i ∈ numbers, id - 2 ≤ i) ∨ id = 2 ^ 31 - 1 ∧ ∀ i ∈ numbers, i = -1)) ↔
      (∀ i ∈ earlier, i ≤ id) ∧
      (job.count = 0 → job.encoding = false →
        (earlier = [] ∧ job.init = none) ∨ (∃ i ∈ earlier, job.start - 2 ≤ i) ∨
        (job.init.isSome = true ∧ job.start ≤ 1) ∨
        (job.start = 2 ^ 31 - 1 ∧ ∀ i ∈ earlier, i = -1)) := by
  have hearlier : ∀ i ∈ earlier, i ∈ numbers := fun i hi => (hmem i).mpr (.inl hi)
  by_cases hown : job.count = 0 ∧ job.encoding = false
  · obtain ⟨hcount, hencoding⟩ := hown
    have hid : id = job.start := by
      rw [Written.Ahead, if_pos hcount] at hahead
      exact hahead
    -- only the init segment is the job's
    have hmem : ∀ i, i ∈ numbers ↔ i ∈ earlier ∨ (job.init.isSome = true ∧ i = -1) := fun i => by
      rw [hmem i]
      simp only [hencoding, hcount]
      constructor
      · rintro (h | h | ⟨h1, h2⟩ | ⟨h, -⟩)
        · exact .inl h
        · exact .inr h
        · omega
        · cases h
      · rintro (h | h)
        · exact .inl h
        · exact .inr (.inl h)
    simp only [hcount, hencoding, forall_true_left, hid]
    cases hinit : job.init with
    | none =>
      have hsame : ∀ i, i ∈ numbers ↔ i ∈ earlier := fun i => by simp [hmem i, hinit]
      have hnil : numbers = [] ↔ earlier = [] := by
        rw [List.eq_nil_iff_forall_not_mem, List.eq_nil_iff_forall_not_mem]
        exact forall_congr' fun i => not_congr (hsame i)
      simp only [hnil, hsame, and_true, Option.isSome_none, Bool.false_eq_true, false_and, false_or]
      constructor
      · rintro (h | ⟨hall, hnear⟩)
        · exact ⟨fun i hi => (by rw [h] at hi; cases hi), .inl h⟩
        · exact ⟨hall, .inr hnear⟩
      · rintro ⟨hall, h | hnear⟩
        · exact .inl h
        · exact .inr ⟨hall, hnear⟩
    | some filled =>
      have hsome : ∀ i, i ∈ numbers ↔ i ∈ earlier ∨ i = -1 := fun i => by simp [hmem i, hinit]
      have hne : numbers ≠ [] := List.ne_nil_of_mem ((hsome (-1)).mpr (.inr rfl))
      simp only [hne, false_or, hsome, reduceCtorEq, and_false, Option.isSome_some, true_and]
      constructor
      · rintro ⟨hall, ⟨i, hi | rfl, hnear⟩ | ⟨hmax, hinit⟩⟩
        · exact ⟨fun i hi => hall i (.inl hi), .inl ⟨i, hi, hnear⟩⟩
        · exact ⟨fun i hi => hall i (.inl hi), .inr (.inl (by omega))⟩
        · exact ⟨fun i hi => hall i (.inl hi), .inr (.inr ⟨hmax, fun i hi => hinit i (.inl hi)⟩)⟩
      · rintro ⟨hall, ⟨i, hi, hnear⟩ | hnear | ⟨hmax, hinit⟩⟩
        · exact ⟨fun i hi => hi.elim (hall i) (by omega), .inl ⟨i, .inl hi, hnear⟩⟩
        · exact ⟨fun i hi => hi.elim (hall i) (by omega), .inl ⟨-1, .inr rfl, by omega⟩⟩
        · exact ⟨fun i hi => hi.elim (hall i) (by omega),
            .inr ⟨hmax, fun i hi => hi.elim (hinit i) fun h => h⟩⟩
  · -- a segment of the job itself is near, and none is past the request
    have hnear : ∃ i ∈ numbers, id - 2 ≤ i := by
      unfold Written.Ahead at hahead
      split at hahead
      · next hcount =>
        have hencoding : job.encoding = true := by simpa [hcount] using hown
        exact ⟨_, (hmem _).mpr (.inr (.inr (.inr ⟨hencoding, rfl⟩))), by omega⟩
      · rw [segmentWaitGap] at hahead
        exact ⟨job.start + job.count - 1, (hmem _).mpr (.inr (.inr (.inl ⟨by omega, by omega⟩))),
          by omega⟩
    have hahead' : job.start + job.count ≤ id := by
      unfold Written.Ahead at hahead
      split at hahead <;> omega
    have hne : numbers ≠ [] := by
      obtain ⟨i, hi, -⟩ := hnear
      exact List.ne_nil_of_mem hi
    rw [or_iff_right hne, and_iff_left (.inl hnear), and_iff_left fun hcount hencoding =>
      absurd ⟨hcount, hencoding⟩ hown]
    refine ⟨fun hall i hi => hall i (hearlier i hi), fun hall i hi => ?_⟩
    rcases (hmem i).mp hi with hi | ⟨-, rfl⟩ | ⟨-, hi⟩ | ⟨-, rfl⟩
    · exact hall i hi
    · omega
    · omega
    · exact hahead'

/-- **Reading ahead waits** exactly if no file that earlier jobs left has a number past
the request, and, while the running job has no segment on disk, not even a `.tmp`, no
number is on disk at all or one is close before the request: of an earlier job, or of
the job's own init segment. -/
theorem read_ahead_waits (root : String) (hash : UInt64) (segmentContainer : String)
    {disk : Disk} {left : List OutputFile} {job : Written} {id : Int}
    (hdisk : ∀ f, (hash, f) ∈ disk ↔ f ∈ left ∨ f ∈ job.files)
    (hleft : ∀ f ∈ left, f.Numbered) (hjob : ∀ f ∈ job.files, f.Numbered)
    (hstart : 0 ≤ job.start) (hid : id < 2 ^ 31) (hahead : job.Ahead id) :
    shouldWaitForRunningJob
      (currentTranscodingIndexIn (disk.names (segmentExtension segmentContainer))
        (playlistPath root hash).toList (segmentExtension segmentContainer)) id = true ↔
      (∀ i ∈ left.filterMap (·.index), i ≤ id) ∧
      (job.count = 0 → job.encoding = false →
        (left.filterMap (·.index) = [] ∧ job.init = none) ∨
        (∃ i ∈ left.filterMap (·.index), job.start - 2 ≤ i) ∨
        (job.init.isSome = true ∧ job.start ≤ 1) ∨
        (job.start = 2 ^ 31 - 1 ∧ ∀ i ∈ left.filterMap (·.index), i = -1)) := by
  have hnumbered : ∀ f, (hash, f) ∈ disk → f.Numbered := fun f hf =>
    ((hdisk f).mp hf).elim (hleft f) (hjob f)
  rw [currentTranscodingIndexIn_eq root hnumbered, currentTranscodingIndex]
  have hmem : ∀ i, i ∈ (disk.filter fun f => f.1 = hash).filterMap (fun f => f.2.index) ↔
      i ∈ left.filterMap (·.index) ∨ (job.init.isSome = true ∧ i = -1) ∨
        (job.start ≤ i ∧ i < job.start + job.count) ∨
        (job.encoding = true ∧ i = job.start + job.count) := fun i => by
    rw [← Written.mem_numbers, List.mem_filterMap, List.mem_filterMap]
    constructor
    · rintro ⟨⟨id, f⟩, hf, hi⟩
      obtain ⟨hf, hid⟩ := List.mem_filter.mp hf
      have hid : id = hash := by simpa using hid
      rw [hid] at hf
      exact ((hdisk f).mp hf).imp (fun h => ⟨f, h, hi⟩) fun h => ⟨f, h, hi⟩
    · rintro (⟨f, hf, hi⟩ | ⟨f, hf, hi⟩)
      · exact ⟨(hash, f), List.mem_filter.mpr ⟨(hdisk f).mpr (.inl hf), by simp⟩, hi⟩
      · exact ⟨(hash, f), List.mem_filter.mpr ⟨(hdisk f).mpr (.inr hf), by simp⟩, hi⟩
  generalize (disk.filter fun f => f.1 = hash).filterMap (fun f => f.2.index) = numbers at hmem ⊢
  have hlow : ∀ i ∈ left.filterMap (·.index), -1 ≤ i := fun i hi => by
    obtain ⟨f, hf, hi⟩ := List.mem_filterMap.mp hi
    exact (hleft f hf i hi).1
  have h0 : 0 ≤ id := by
    unfold Written.Ahead at hahead
    split at hahead <;> omega
  have hnumbers : ∀ i ∈ numbers, -1 ≤ i := fun i hi => by
    rcases (hmem i).mp hi with hi | ⟨-, rfl⟩ | ⟨hi, -⟩ | ⟨-, rfl⟩
    · exact hlow i hi
    · exact Int.le_refl (-1)
    · omega
    · omega
  rw [shouldWait_max? hnumbers h0 hid]
  exact near_iff hmem h0 hahead

def leftBehind : Disk := [(7, .segment 0), (7, .segment 2), (7, .segment 3), (9, .segment 40)]

theorem read_ahead_waits_leftBehind :
    shouldWaitForRunningJob (currentTranscodingIndexIn (leftBehind.names (segmentExtension "ts"))
      (playlistPath "/transcodes" 7).toList (segmentExtension "ts")) 5 = true := by
  have hdisk : ∀ f, ((7 : UInt64), f) ∈ leftBehind ↔
      f ∈ [OutputFile.segment 0] ∨ f ∈ (Written.mk 2 2 false none).files := fun f => by
    simp [leftBehind, Written.files, List.range_succ]
  exact (read_ahead_waits "/transcodes" 7 "ts" hdisk (by decide) (by decide) (by decide)
    (by decide) (by decide)).mpr (by decide)

/-- A job at segment 3, and a segment an earlier one left far ahead of it. -/
def leftAhead : Disk :=
  [(7, .segment 12), (7, .segment 0), (7, .segment 1), (7, .segment 2), (7, .segment 3)]

/-- **Reading ahead may restart the job**: one that an earlier job left a segment ahead
of. -/
theorem read_ahead_restarts :
    ¬ ∀ (root : String) (hash : UInt64) (segmentContainer : String) (disk : Disk)
      (left : List OutputFile) (job : Written) (id : Int),
      (∀ f, (hash, f) ∈ disk ↔ f ∈ left ∨ f ∈ job.files) → (∀ f ∈ left, f.Numbered) →
      (∀ f ∈ job.files, f.Numbered) → 0 ≤ job.start → id < 2 ^ 31 → job.Ahead id →
      (hash, .segment id) ∉ disk →
      shouldWaitForRunningJob
        (currentTranscodingIndexIn (disk.names (segmentExtension segmentContainer))
          (playlistPath root hash).toList (segmentExtension segmentContainer)) id = true := by
  intro h
  have hwaits := h "/transcodes" 7 "ts" leftAhead [.segment 12] { start := 0, count := 4 } 4
    (fun f => by simp [leftAhead, Written.files, List.range_succ]) (by decide) (by decide)
    (by decide) (by decide) (by decide) (by decide)
  have hnumbered : ∀ f ∈ leftAhead, f.2.Numbered := by decide
  rw [currentTranscodingIndexIn_eq "/transcodes" fun f hf => hnumbered _ hf] at hwaits
  exact absurd hwaits (by decide)

end Ferrofin.Hls
