import Ferrofin.Lib.KeyedMap
import Ferrofin.Lib.Machine
import Ferrofin.Util.Decimal
import Ferrofin.Util.Paths

/-!
# The rolling cleanup of segments

While a transcode runs, `SegmentCleanerTask` deletes the segments its client has
left behind.  It knows what the client finished from the responses
(`DownloadObserver`): how far the furthest one reaches, and where each segment that
was served ends.
-/

namespace Ferrofin.Transcode

open Lib Util

/-- `EncodingOptions`, as far as the cleaner reads it. -/
structure EncodingOptions where
  enableSegmentDeletion : Bool := false
  segmentKeepSeconds : Int := 720

def ticksPerSecond : Int := 10000000

def EncodingOptions.keepTicks (options : EncodingOptions) : Int :=
  max options.segmentKeepSeconds 20 * ticksPerSecond

def highestServedSegmentEndingAtOrBefore (served : KeyedMap Int Int) (positionTicks : Int) :
    Option Int :=
  ((served.entries.filter fun e => 0 ≤ e.1 ∧ e.2 ≤ positionTicks).map (·.1)).max?

def maximumDeletedIndex (options : EncodingOptions) (downloadPositionTicks : Option Int)
    (served : KeyedMap Int Int) : Option Int :=
  if !options.enableSegmentDeletion then none
  else
    let downloadTicks := downloadPositionTicks.getD 0
    if downloadTicks ≤ options.keepTicks then none
    else (highestServedSegmentEndingAtOrBefore served (downloadTicks - options.keepTicks)).filter
      (0 < ·)

/-! ### The files -/

/-- `str::replace(pattern, "")`: all occurrences from the left. -/
def removeAll (pattern : List Char) : List Char → List Char
  | [] => []
  | c :: s =>
    if pattern ≠ [] ∧ pattern <+: c :: s then removeAll pattern ((c :: s).drop pattern.length)
    else c :: removeAll pattern s
termination_by s => s.length
decreasing_by
  · next h =>
    have := List.length_pos_of_ne_nil h.1
    simp only [List.length_drop, List.length_cons]
    omega
  · simp

/-- The blanks `segment_index` trims. -/
def isBlankChar (c : Char) : Bool := (0x9 ≤ c.toNat && c.toNat ≤ 0xd) || c == ' '

/-- `segment_index`: the number that is left of a name without the playlist's stem. -/
def segmentIndex (path playlistStem : Path) : Option Int :=
  (fileStem path).bind fun stem =>
    parseInt 64 (((removeAll playlistStem stem).dropWhile isBlankChar).rdropWhile isBlankChar)

/-- An entry of a directory: its path, and whether it is one itself, which may be
refused. -/
structure DirEntry where
  path : Path
  isDir : Except String Bool

/-- The loop of `delete_segments_with`, after `seen` entries: the files whose removal
is tried, and the answer. -/
def removeExpired (removeFile : Path → Option String) (stopped : Nat → Bool) (stem : Path)
    (maximum : Int) : Nat → List (Except String DirEntry) → Option String →
      List Path × Except String Unit
  | _, [], firstError => ([], firstError.elim (.ok ()) .error)
  | seen, entry :: rest, firstError =>
    if stopped seen then ([], firstError.elim (.ok ()) .error)
    else
      match entry with
      | .error error => ([], .error error)
      | .ok entry =>
        if (segmentIndex entry.path stem).any fun index => 0 ≤ index ∧ index ≤ maximum then
          match entry.isDir with
          | .error error => ([], .error error)
          | .ok true => removeExpired removeFile stopped stem maximum (seen + 1) rest firstError
          | .ok false =>
            let (removed, result) := removeExpired removeFile stopped stem maximum (seen + 1) rest
              (firstError.or (removeFile entry.path))
            (entry.path :: removed, result)
        else removeExpired removeFile stopped stem maximum (seen + 1) rest firstError

/-- `delete_segments_with`: the files whose removal is tried, and the answer. -/
def deleteSegmentsWith (readDir : Path → Except String (List (Except String DirEntry)))
    (removeFile : Path → Option String) (stopped : Nat → Bool) (playlist : Path)
    (maximum : Int) : List Path × Except String Unit :=
  match parent playlist with
  | none => ([], .error "playlist has no parent")
  | some directory =>
    match fileStem playlist with
    | none => ([], .error "playlist has no stem")
    | some stem =>
      match readDir directory with
      | .error error => ([], .error error)
      | .ok entries => removeExpired removeFile stopped stem maximum 0 entries none

theorem index_of_mem_removeExpired {removeFile : Path → Option String} {stopped : Nat → Bool}
    {stem : Path} {maximum : Int} {entries : List (Except String DirEntry)} {path : Path}
    {seen : Nat} {firstError : Option String}
    (h : path ∈ (removeExpired removeFile stopped stem maximum seen entries firstError).1) :
    ∃ index, segmentIndex path stem = some index ∧ 0 ≤ index ∧ index ≤ maximum := by
  induction entries generalizing seen firstError with
  | nil => cases h
  | cons entry rest ih =>
    unfold removeExpired at h
    split at h
    · cases h
    cases entry with
    | error => cases h
    | ok entry =>
      dsimp only at h
      split at h
      · next hindex =>
        cases hdir : entry.isDir with
        | error =>
          rw [hdir] at h
          cases h
        | ok isDir =>
          rw [hdir] at h
          cases isDir with
          | true => exact ih h
          | false =>
            rcases List.mem_cons.mp h with rfl | h
            · cases hi : segmentIndex entry.path stem with
              | none => simp [hi] at hindex
              | some index => exact ⟨index, rfl, by simpa [hi] using hindex⟩
            · exact ih h
      · exact ih h

/-- **The cleaner removes only files with a number up to the maximum.** -/
theorem index_of_mem_deleteSegmentsWith
    {readDir : Path → Except String (List (Except String DirEntry))}
    {removeFile : Path → Option String} {stopped : Nat → Bool} {playlist path : Path}
    {maximum : Int}
    (h : path ∈ (deleteSegmentsWith readDir removeFile stopped playlist maximum).1) :
    ∃ stem, fileStem playlist = some stem ∧
      ∃ index, segmentIndex path stem = some index ∧ 0 ≤ index ∧ index ≤ maximum := by
  unfold deleteSegmentsWith at h
  split at h
  · cases h
  split at h
  · cases h
  next stem hstem =>
  split at h
  · cases h
  · exact ⟨stem, hstem, index_of_mem_removeExpired h⟩

theorem removeAll_append {pattern rest : List Char} (hne : pattern ≠ [])
    (hshort : rest.length < pattern.length) : removeAll pattern (pattern ++ rest) = rest := by
  have hkeep : ∀ s : List Char, s.length < pattern.length → removeAll pattern s = s := by
    intro s hs
    induction s with
    | nil => rw [removeAll]
    | cons c s ih =>
      rw [removeAll, if_neg fun h => absurd h.2.length_le (by omega), ih]
      rw [List.length_cons] at hs
      omega
  cases hp : pattern with
  | nil => exact absurd hp hne
  | cons c p =>
    rw [← hp, ← hkeep rest hshort]
    conv_lhs => rw [hkeep rest hshort]
    have happend : pattern ++ rest = c :: (p ++ rest) := by rw [hp, List.cons_append]
    rw [happend, removeAll, ← happend, if_pos ⟨hne, List.prefix_append ..⟩, List.drop_left']
    rfl

theorem trim_decimal (n : Int) :
    ((decimal n).dropWhile isBlankChar).rdropWhile isBlankChar = decimal n := by
  have hblank : ∀ c ∈ decimal n, ¬ isBlankChar c = true := by
    intro c hc hb
    rcases mem_decimal hc with hd | rfl
    · simp only [Char.isDigit, Bool.and_eq_true, decide_eq_true_eq] at hd
      have h1 : 48 ≤ c.toNat := hd.1
      simp only [isBlankChar, Bool.or_eq_true, Bool.and_eq_true, decide_eq_true_eq,
        beq_iff_eq] at hb
      rcases hb with hb | rfl
      · omega
      · exact absurd h1 (by decide)
    · exact absurd hb (by decide)
  rw [List.dropWhile_eq_self_iff.mpr, List.rdropWhile_eq_self_iff.mpr]
  · exact fun hl => hblank _ (List.getLast_mem hl)
  · exact fun hl => hblank _ (List.getElem_mem hl)

/-- **The number in the name of a segment** of a playlist whose stem is longer than the
number. -/
theorem segmentIndex_of_fileStem {path stem : Path} {index : Int} (hlength : 12 ≤ stem.length)
    (hpath : fileStem path = some (stem ++ decimal index)) (hmin : -2 ^ 31 ≤ index)
    (hmax : index < 2 ^ 31) : segmentIndex path stem = some index := by
  have hdigits : (decimal index).length ≤ 10 + 1 :=
    length_decimal_le (k := 10) (by omega) (by decide)
  have hne : stem ≠ [] := fun h => by simp [h] at hlength
  rw [segmentIndex, hpath, Option.bind_some, removeAll_append hne (by omega), trim_decimal]
  exact parseInt_decimal (by omega) (by omega)

/-! ### The responses -/

/-- `DownloadObserver`, as far as a response that completes reads it. -/
structure Downloads.DownloadObserver where
  endingTicks : Option Int
  segmentIndex : Option Int
  completed : Bool := false

def Downloads.DownloadObserver.done (o : DownloadObserver) : DownloadObserver :=
  { o with completed := true }

/-- What a running job knows of its responses, and these. -/
structure Downloads where
  downloadPositionTicks : Option Int := none
  servedSegments : KeyedMap Int Int := ∅
  observers : List Downloads.DownloadObserver := []

namespace Downloads

/-- `DownloadObserver::complete`, past the test that it is the first call. -/
def record (d : Downloads) (o : DownloadObserver) : Downloads :=
  match o.endingTicks with
  | none => d
  | some endingTicks =>
    { d with
      downloadPositionTicks := some (max (d.downloadPositionTicks.getD endingTicks) endingTicks)
      servedSegments :=
        match o.segmentIndex with
        | none => d.servedSegments
        | some index =>
          if 0 ≤ index then d.servedSegments.insert index endingTicks else d.servedSegments }

/-- One event: a response is tracked (`stream_progress`, `segment_progress`), or one
completes or is dropped. -/
inductive Event
  | track (endingTicks segmentIndex : Option Int)
  | complete (observer : Nat)

def step (d : Downloads) : Event → Option Downloads
  | .track endingTicks segmentIndex =>
    some { d with observers := d.observers ++ [{ endingTicks, segmentIndex }] }
  | .complete k => d.observers[k]?.map fun o =>
    if o.completed then d
    else { d.record o with observers := d.observers.set k o.done }

def reported (d : Downloads) : List Int :=
  (d.observers.filter (·.completed)).filterMap (·.endingTicks)

end Downloads

def downloads : Machine Downloads Downloads.Event where
  init := {}
  step := Downloads.step

namespace Downloads

variable {d d' : Downloads} {ends : Int → Option Int}

/-- A response of a segment reports the ending position of its number. -/
def Reports (ends : Int → Option Int) (endingTicks segmentIndex : Option Int) : Prop :=
  ∀ index ∈ segmentIndex, 0 ≤ index → ∃ t ∈ ends index, endingTicks = some t

def ReportsOf (ends : Int → Option Int) (_ : Downloads) : Event → Prop
  | .track endingTicks segmentIndex => Reports ends endingTicks segmentIndex
  | .complete _ => True

instance (ends : Int → Option Int) (endingTicks segmentIndex : Option Int) :
    Decidable (Reports ends endingTicks segmentIndex) :=
  inferInstanceAs (Decidable (∀ index ∈ segmentIndex, 0 ≤ index →
    ∃ t ∈ ends index, endingTicks = some t))

instance (ends : Int → Option Int) (d : Downloads) (event : Event) :
    Decidable (ReportsOf ends d event) := by
  unfold ReportsOf
  split <;> infer_instance

/-- What the job knows of its responses is what the completed ones reported. -/
structure Faithful (ends : Int → Option Int) (d : Downloads) : Prop where
  observers : ∀ o ∈ d.observers, Reports ends o.endingTicks o.segmentIndex
  position : ∀ t, d.downloadPositionTicks = some t → t ∈ d.reported
  furthest : ∀ u ∈ d.reported, ∃ t, d.downloadPositionTicks = some t ∧ u ≤ t
  served : ∀ index t, d.servedSegments.lookup index = some t → 0 ≤ index ∧ ends index = some t

structure Extends (d d' : Downloads) : Prop where
  position : ∀ t, d.downloadPositionTicks = some t →
    ∃ t', d'.downloadPositionTicks = some t' ∧ t ≤ t'
  served : ∀ index t, d.servedSegments.lookup index = some t →
    d'.servedSegments.lookup index = some t

theorem Extends.refl : d.Extends d := ⟨fun t h => ⟨t, h, Int.le_refl t⟩, fun _ _ h => h⟩

theorem Extends.trans {d'' : Downloads} (h : d.Extends d') (h' : d'.Extends d'') :
    d.Extends d'' where
  position t ht := by
    obtain ⟨t', ht', hle⟩ := h.position t ht
    obtain ⟨t'', ht'', hle'⟩ := h'.position t' ht'
    exact ⟨t'', ht'', Int.le_trans hle hle'⟩
  served index t ht := h'.served index t (h.served index t ht)

theorem mem_reported {t : Int} :
    t ∈ d.reported ↔ ∃ (k : Nat) (o : DownloadObserver), d.observers[k]? = some o ∧
      o.completed = true ∧ o.endingTicks = some t := by
  rw [reported, List.mem_filterMap]
  constructor
  · rintro ⟨o, ho, ht⟩
    obtain ⟨hmem, hc⟩ := List.mem_filter.mp ho
    obtain ⟨k, hk⟩ := List.mem_iff_getElem?.mp hmem
    exact ⟨k, o, hk, hc, ht⟩
  · rintro ⟨k, o, hk, hc, ht⟩
    exact ⟨o, List.mem_filter.mpr ⟨List.mem_of_getElem? hk, hc⟩, ht⟩

/-- A response that completes adds its ending position to those reported. -/
theorem mem_reported_complete {k : Nat} {o : DownloadObserver} (hk : d.observers[k]? = some o)
    (hc : o.completed = false) {t : Int} :
    t ∈ ({ d.record o with observers := d.observers.set k o.done } :
      Downloads).reported ↔ t ∈ d.reported ∨ o.endingTicks = some t := by
  have hlt : k < d.observers.length := (List.getElem?_eq_some_iff.mp hk).1
  rw [mem_reported, mem_reported]
  constructor
  · rintro ⟨j, o', hj, hc', ht⟩
    rw [List.getElem?_set] at hj
    split at hj
    · cases hj
      exact .inr ht
    · exact .inl ⟨j, o', hj, hc', ht⟩
  · rintro (⟨j, o', hj, hc', ht⟩ | ht)
    · refine ⟨j, o', ?_, hc', ht⟩
      have hne : k ≠ j := by
        rintro rfl
        rw [hk] at hj
        cases hj
        rw [hc] at hc'
        cases hc'
      rw [List.getElem?_set_ne hne, hj]
    · exact ⟨k, _, List.getElem?_set_self hlt, rfl, ht⟩

theorem mem_reported_track {endingTicks segmentIndex : Option Int} {t : Int} :
    t ∈ ({ d with observers := d.observers ++ [{ endingTicks, segmentIndex }] } :
      Downloads).reported ↔ t ∈ d.reported := by
  simp [reported]

theorem position_record {o : DownloadObserver} {e : Int} (he : o.endingTicks = some e) :
    (d.record o).downloadPositionTicks = some (max (d.downloadPositionTicks.getD e) e) := by
  rw [record, he]

theorem record_of_none {o : DownloadObserver} (he : o.endingTicks = none) : d.record o = d := by
  rw [record, he]

/-- What was served, after a response that reported the end of its segment. -/
theorem lookup_record {o : DownloadObserver} {e : Int} (he : o.endingTicks = some e) (index : Int) :
    (d.record o).servedSegments.lookup index =
      if o.segmentIndex = some index ∧ 0 ≤ index then some e
      else d.servedSegments.lookup index := by
  rw [record, he]
  cases ho : o.segmentIndex with
  | none => simp
  | some i =>
    dsimp only
    split
    · next hi =>
      rw [KeyedMap.lookup_insert_eq]
      by_cases hindex : index = i
      · subst hindex
        rw [if_pos rfl, if_pos ⟨rfl, hi⟩]
      · rw [if_neg hindex, if_neg]
        rintro ⟨heq, -⟩
        exact hindex (Option.some.inj heq).symm
    · next hi =>
      rw [if_neg]
      rintro ⟨heq, h0⟩
      exact hi (Option.some.inj heq ▸ h0)

/-- **A step keeps what the job knows faithful.** -/
theorem Faithful.step (h : d.Faithful ends) {event : Event} (hok : ReportsOf ends d event)
    (hs : d.step event = some d') : d'.Faithful ends := by
  cases event with
  | track endingTicks segmentIndex =>
    cases hs
    refine ⟨fun o ho => ?_, fun t ht => mem_reported_track.mpr (h.position t ht),
      fun u hu => h.furthest u (mem_reported_track.mp hu), h.served⟩
    rcases List.mem_append.mp ho with ho | ho
    · exact h.observers o ho
    · rw [List.mem_singleton.mp ho]
      exact hok
  | complete k =>
    obtain ⟨o, hk, rfl⟩ := Option.map_eq_some_iff.mp hs
    split
    · exact h
    next hc =>
    have hreports := h.observers o (List.mem_of_getElem? hk)
    have hmem := fun t => mem_reported_complete (t := t) hk (by simpa using hc)
    have hobservers : ∀ o' ∈ d.observers.set k o.done,
        Reports ends o'.endingTicks o'.segmentIndex := fun o' ho' => by
      rcases List.mem_or_eq_of_mem_set ho' with ho' | rfl
      · exact h.observers o' ho'
      · exact hreports
    cases he : o.endingTicks with
    | none =>
      refine ⟨hobservers, fun t ht => ?_, fun u hu => ?_, fun index t ht => ?_⟩
      · rw [record_of_none he] at ht
        exact (hmem t).mpr (.inl (h.position t ht))
      · rw [record_of_none he]
        rcases (hmem u).mp hu with hu | hu
        · exact h.furthest u hu
        · rw [he] at hu
          cases hu
      · rw [record_of_none he] at ht
        exact h.served index t ht
    | some e =>
      refine ⟨hobservers, fun t ht => ?_, fun u hu => ?_, fun index t ht => ?_⟩
      · rw [position_record he] at ht
        cases ht
        rw [hmem]
        cases hp : d.downloadPositionTicks with
        | none => exact .inr (by simp [he])
        | some p =>
          rw [Option.getD_some]
          rcases Int.le_total p e with hle | hle
          · exact .inr (by rw [he, Int.max_eq_right hle])
          · exact .inl (by rw [Int.max_eq_left hle]; exact h.position p hp)
      · refine ⟨_, position_record he, ?_⟩
        rcases (hmem u).mp hu with hu | hu
        · obtain ⟨p, hp, hle⟩ := h.furthest u hu
          rw [hp, Option.getD_some]
          omega
        · rw [he] at hu
          cases hu
          omega
      · rw [lookup_record he] at ht
        split at ht
        · next hindex =>
          cases ht
          obtain ⟨t, ht, hreported⟩ := hreports index hindex.1 hindex.2
          rw [he] at hreported
          cases hreported
          exact ⟨hindex.2, ht⟩
        · exact h.served index t ht

theorem faithful_init : Faithful ends {} where
  observers _ ho := by cases ho
  position _ ht := by cases ht
  furthest _ hu := by cases hu
  served index t ht := by simp at ht

/-- **A step takes nothing back** of what was completed. -/
theorem Faithful.extends_step (h : d.Faithful ends) {event : Event}
    (hs : d.step event = some d') : d.Extends d' := by
  cases event with
  | track endingTicks segmentIndex =>
    cases hs
    exact ⟨fun t ht => ⟨t, ht, Int.le_refl t⟩, fun _ _ ht => ht⟩
  | complete k =>
    obtain ⟨o, hk, rfl⟩ := Option.map_eq_some_iff.mp hs
    split
    · exact .refl
    cases he : o.endingTicks with
    | none =>
      rw [record_of_none he]
      exact ⟨fun t ht => ⟨t, ht, Int.le_refl t⟩, fun _ _ ht => ht⟩
    | some e =>
      refine ⟨fun t ht => ⟨_, position_record he, ?_⟩, fun index t ht => ?_⟩
      · rw [ht, Option.getD_some]
        omega
      · rw [lookup_record he]
        split
        · next hindex =>
          -- the segment was served before: both times it reported the playlist's position
          obtain ⟨u, hu, hreported⟩ :=
            h.observers o (List.mem_of_getElem? hk) index hindex.1 hindex.2
          have hends := (h.served index t ht).2
          rw [he] at hreported
          rw [Option.mem_def, hends] at hu
          rw [hreported, ← hu]
        · exact ht

/-- **In every run** the job's knowledge is faithful. -/
theorem faithful_of_reaches (h : downloads.Reaches (ReportsOf ends) d) : d.Faithful ends :=
  h.invariant faithful_init fun _ _ _ hd hok hs => hd.step hok hs

/-- **Along every path** nothing that was completed is taken back. -/
theorem Faithful.extends_of_path (h : d.Faithful ends)
    (hpath : downloads.Path (ReportsOf ends) d d') : d'.Faithful ends ∧ d.Extends d' := by
  refine hpath.invariant (I := fun d' => d'.Faithful ends ∧ d.Extends d') ⟨h, .refl⟩ ?_
  rintro d₁ event d₂ ⟨hd, hext⟩ hok hs
  exact ⟨hd.step hok hs, hext.trans (hd.extends_step hs)⟩

end Downloads

/-! ### What is deleted -/

theorem lookup_of_highestServed {served : KeyedMap Int Int} {positionTicks index : Int}
    (h : highestServedSegmentEndingAtOrBefore served positionTicks = some index) :
    ∃ t, served.lookup index = some t ∧ t ≤ positionTicks := by
  have hmem := List.max?_mem h
  obtain ⟨⟨i, t⟩, hentry, rfl⟩ := List.mem_map.mp hmem
  obtain ⟨hentry, hrange⟩ := List.mem_filter.mp hentry
  exact ⟨t, AList.mem_lookup_iff.mpr hentry, (by simpa using hrange : 0 ≤ i ∧ t ≤ positionTicks).2⟩

/-- Every index that was served and ends in time is at most the one found. -/
theorem le_highestServed {served : KeyedMap Int Int} {positionTicks index t : Int}
    (hlookup : served.lookup index = some t) (h0 : 0 ≤ index) (hle : t ≤ positionTicks) :
    ∃ m, highestServedSegmentEndingAtOrBefore served positionTicks = some m ∧ index ≤ m := by
  have hmem : index ∈
      (served.entries.filter fun e => 0 ≤ e.1 ∧ e.2 ≤ positionTicks).map (·.1) :=
    List.mem_map.mpr ⟨⟨index, t⟩, List.mem_filter.mpr
      ⟨AList.mem_lookup_iff.mp hlookup, by simp [h0, hle]⟩, rfl⟩
  cases hm : highestServedSegmentEndingAtOrBefore served positionTicks with
  | none =>
    rw [highestServedSegmentEndingAtOrBefore, List.max?_eq_none_iff] at hm
    rw [hm] at hmem
    cases hmem
  | some m => exact ⟨m, rfl, (List.max?_eq_some_iff.mp hm).2 index hmem⟩

/-- What `maximum_deleted_index` answers: deletion is on, and the index was served and
ends before what is kept of the position. -/
theorem maximumDeletedIndex_eq_some {options : EncodingOptions} {position : Option Int}
    {served : KeyedMap Int Int} {m : Int}
    (h : maximumDeletedIndex options position served = some m) :
    options.enableSegmentDeletion = true ∧ 0 < m ∧ ∃ p, position = some p ∧
      options.keepTicks < p ∧ ∃ t, served.lookup m = some t ∧ t ≤ p - options.keepTicks := by
  unfold maximumDeletedIndex at h
  split at h
  · cases h
  next hon =>
  dsimp only at h
  split at h
  · cases h
  next hkeep =>
  obtain ⟨hserved, hpos⟩ := Option.filter_eq_some_iff.mp h
  have hkept : 0 ≤ options.keepTicks := by
    simp only [EncodingOptions.keepTicks, ticksPerSecond]
    omega
  cases position with
  | none => exact absurd hkept hkeep
  | some p =>
    rw [Option.getD_some] at hkeep hserved
    obtain ⟨t, ht, hle⟩ := lookup_of_highestServed hserved
    exact ⟨by simpa using hon, by simpa using hpos, p, rfl, Int.not_le.mp hkeep, t, ht, hle⟩

/-- **A later answer is no lower**: of a position that is no lower, and of what was
served then and since. -/
theorem maximumDeletedIndex_mono {options : EncodingOptions} {d₁ d₂ d₃ d₄ : Downloads}
    {ends : Int → Option Int} (h₂ : d₂.Faithful ends) (h₁₃ : d₁.Extends d₃) (h₂₄ : d₂.Extends d₄)
    {m : Int}
    (hm : maximumDeletedIndex options d₁.downloadPositionTicks d₂.servedSegments = some m) :
    ∃ m', maximumDeletedIndex options d₃.downloadPositionTicks d₄.servedSegments = some m' ∧
      m ≤ m' := by
  obtain ⟨hon, hpos, p, hp, hkeep, t, ht, hle⟩ := maximumDeletedIndex_eq_some hm
  obtain ⟨p', hp', hpp⟩ := h₁₃.position p hp
  have hle' : t ≤ p' - options.keepTicks := by omega
  obtain ⟨m', hm', hmm⟩ := le_highestServed (h₂₄.served m t ht) (h₂.served m t ht).1 hle'
  refine ⟨m', ?_, hmm⟩
  rw [maximumDeletedIndex, if_neg (by simp [hon])]
  dsimp only
  rw [hp', Option.getD_some, if_neg (by omega), hm']
  simp only [Option.filter_some]
  rw [if_pos (by simp; omega)]

end Ferrofin.Transcode
