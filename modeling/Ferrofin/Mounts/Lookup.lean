import Ferrofin.Lib.ByteSlices
import Ferrofin.Lib.Fallible
import Ferrofin.Lib.Longest
import Ferrofin.Lib.Words
import Ferrofin.Util.Text
import Ferrofin.Util.Utf8

/-!
# The mount of a path

`/proc/mounts` has a line for each mount, with the fields of the mount between blanks and some of
their characters as octal escapes.  `parse_mount_table` reads the mount points and file system
types; `fs_type_for_path` looks for the mount that a path belongs to.

A slice of a text that does not stand between characters stops the program (`none`).

A path belongs to the mounts that it lies within, by whole components
(`pathHasPrefix_iff_components`).
`fs_type_for_path` finds the last one of the longest (`fsTypeForPath_eq_some`).
-/

namespace Ferrofin.Mounts

open Lib Util

abbrev Text := List Char

/-- A row of `/proc/mounts`. -/
structure MountEntry where
  target : Text
  fsType : Text
  deriving DecidableEq

/-! ### Reading -/

def octalDigits : (value : ℕ) → Text → Option ℕ
  | value, [] => some value
  | value, c :: s =>
    if '0' ≤ c ∧ c ≤ '7' then octalDigits (8 * value + (c.toNat - '0'.toNat)) s else none

/-- `u8::from_str_radix(digits, 8)`. -/
def parseOctal (digits : Text) : Option ℕ :=
  let unsigned := if digits.head? = some '+' then digits.tail else digits
  if unsigned = [] then none else (octalDigits 0 unsigned).filter (· < 256)

/-- The loop of `unescape` from the byte `i` on, behind `skip` bytes that an escape has used. -/
def unescapeFrom (field : Text) : (i skip : ℕ) → List UInt8 → Option Text
  | _, _, [] => some []
  | i, skip + 1, _ :: rest => unescapeFrom field (i + 1) skip rest
  | i, 0, b :: rest =>
    if b.toNat = '\\'.toNat ∧ i + 3 < utf8Len field then
      (sliceBytes field (i + 1) (i + 4)).bind fun digits =>
        match parseOctal digits with
        | some code => (unescapeFrom field (i + 1) 3 rest).map (Char.ofNat code :: ·)
        | none => (unescapeFrom field (i + 1) 0 rest).map (Char.ofNat b.toNat :: ·)
    else (unescapeFrom field (i + 1) 0 rest).map (Char.ofNat b.toNat :: ·)

def unescape (field : Text) : Option Text := unescapeFrom field 0 0 (asBytes field)

def isAsciiWhitespace (c : Char) : Bool := c ∈ [' ', '\t', '\n', '\x0c', '\r']

def parseLine (line : Text) : Option (Option MountEntry) :=
  match words isAsciiWhitespace line with
  | _source :: target :: fsType :: _ => do
    let target ← unescape target
    let fsType ← unescape fsType
    return some ⟨target, fsType⟩
  | _ => some none

def parseMountTable (text : Text) : Option (List MountEntry) :=
  ((lines text).mapM parseLine).map (·.filterMap id)

theorem length_asBytes (s : Text) : (asBytes s).length = utf8Len s := by
  rw [asBytes, List.length_flatMap, utf8Len]
  simp

/-! ### Looking up -/

def pathHasPrefix (path pre : Text) : Bool :=
  if pre = ['/'] then path.head? = some '/'
  else if !pre.isPrefixOf path then false
  else (asBytes path)[utf8Len pre]?.all fun b => b.toNat = '/'.toNat

def better (path : Text) (best : Option MountEntry) (entry : MountEntry) : Option MountEntry :=
  if !pathHasPrefix path entry.target then best
  else if best.all fun b => utf8Len b.target ≤ utf8Len entry.target then some entry
  else best

def fsTypeForPath (mounts : List MountEntry) (path : Text) : Option Text :=
  (mounts.foldl (better path) none).map MountEntry.fsType

variable {path target fsType : Text} {mounts : List MountEntry}

def Within (path target : Text) : Prop :=
  path = target ∨ (if target = ['/'] then target else target ++ ['/']) <+: path

theorem head?_asBytes {c : Char} (hc : c.toNat < 128) (s : Text) :
    ((asBytes s).head?.all fun b => b.toNat = c.toNat) = true ↔ s = [] ∨ s.head? = some c := by
  cases s with
  | nil => simp [asBytes]
  | cons d s =>
    obtain ⟨b, rest, hbytes⟩ := List.exists_cons_of_ne_nil (String.utf8EncodeChar_ne_nil (c := d))
    have hhead : (asBytes (d :: s)).head? = some b := by
      rw [asBytes, List.flatMap_cons, hbytes]
      rfl
    rw [hhead]
    simp only [Option.all_some, decide_eq_true_eq, reduceCtorEq, List.head?_cons, Option.some.injEq,
      false_or]
    constructor
    · intro hb
      have hmem : b ∈ String.utf8EncodeChar d := hbytes ▸ List.mem_cons_self
      have hd := toNat_of_mem_encodeChar hmem (by omega)
      exact Char.toNat_inj.mp (hd.trans hb)
    · rintro rfl
      rw [encodeChar_ascii hc] at hbytes
      rw [← (List.cons.inj hbytes).1, toNat_ofNat_of_lt (by omega)]

theorem pathHasPrefix_iff (path target : Text) :
    pathHasPrefix path target = true ↔ Within path target := by
  rw [pathHasPrefix, Within]
  by_cases hroot : target = ['/']
  · rw [if_pos hroot, if_pos hroot, hroot, decide_eq_true_eq, List.head?_eq_some_iff]
    constructor
    · rintro ⟨rest, rfl⟩
      exact .inr ⟨rest, rfl⟩
    · rintro (rfl | ⟨rest, rfl⟩)
      · exact ⟨[], rfl⟩
      · exact ⟨rest, rfl⟩
  · rw [if_neg hroot, if_neg hroot]
    by_cases hbegins : target <+: path
    · obtain ⟨rest, rfl⟩ := hbegins
      have hnext : (asBytes (target ++ rest))[utf8Len target]? = (asBytes rest).head? := by
        rw [asBytes_append, ← length_asBytes, List.getElem?_append_right (Nat.le_refl _),
          Nat.sub_self, List.head?_eq_getElem?]
      have hbegin : target.isPrefixOf (target ++ rest) = true :=
        List.isPrefixOf_iff_prefix.mpr ⟨rest, rfl⟩
      rw [hbegin, Bool.not_true, if_neg Bool.false_ne_true, hnext,
        head?_asBytes (by decide : ('/').toNat < 128)]
      refine or_congr ?_ ?_
      · rw [List.append_right_eq_self]
      · rw [List.prefix_append_right_inj, List.head?_eq_some_iff]
        exact ⟨fun ⟨r, h⟩ => ⟨r, h.symm⟩, fun ⟨r, h⟩ => ⟨r, h.symm⟩⟩
    · have hnot : target.isPrefixOf path = false := by
        rw [← Bool.not_eq_true, List.isPrefixOf_iff_prefix]
        exact hbegins
      rw [hnot, Bool.not_false, if_pos rfl]
      refine iff_of_false Bool.false_ne_true ?_
      rintro (rfl | h)
      · exact hbegins List.prefix_rfl
      · exact hbegins ((List.prefix_append target ['/']).trans h)

/-! ### The longest of them -/

def notLonger (a b : MountEntry) : Bool := utf8Len a.target ≤ utf8Len b.target

theorem foldl_better (path : Text) (mounts : List MountEntry) :
    mounts.foldl (better path) none =
      lastMax notLonger (mounts.filter (pathHasPrefix path ·.target)) := by
  induction mounts using List.reverseRecOn with
  | nil => rfl
  | append_singleton mounts entry ih =>
    rw [List.foldl_append, List.foldl_cons, List.foldl_nil, ih, List.filter_append, better]
    cases hpath : pathHasPrefix path entry.target with
    | false => simp [hpath]
    | true =>
      have hone : [entry].filter (pathHasPrefix path ·.target) = [entry] := by simp [hpath]
      rw [hone, lastMax_concat]
      rcases lastMax notLonger (mounts.filter (pathHasPrefix path ·.target)) with _ | best
      · rfl
      · by_cases hle : utf8Len best.target ≤ utf8Len entry.target <;> simp [notLonger, hle]

/-- **The type of the last one of the longest mounts that the path lies within.** -/
theorem fsTypeForPath_eq_some : fsTypeForPath mounts path = some fsType ↔
    ∃ front entry back, mounts = front ++ entry :: back ∧ entry.fsType = fsType ∧
      Within path entry.target ∧
      (∀ b ∈ front, Within path b.target → utf8Len b.target ≤ utf8Len entry.target) ∧
      ∀ b ∈ back, Within path b.target → utf8Len b.target < utf8Len entry.target := by
  have htotal : ∀ a b, notLonger a b = true ∨ notLonger b a = true := fun a b => by
    simpa [notLonger] using Nat.le_total _ _
  have htrans : ∀ a b c, notLonger a b = true → notLonger b c = true → notLonger a c = true :=
    fun a b c hab hbc => by
      simp only [notLonger, decide_eq_true_eq] at hab hbc ⊢
      exact hab.trans hbc
  simp only [fsTypeForPath, foldl_better, Option.map_eq_some_iff, lastMax_eq_some htotal htrans,
    IsLastMax]
  constructor
  · rintro ⟨entry, ⟨front, back, hfilter, hfront, hback⟩, rfl⟩
    obtain ⟨l₁, l₂, rfl, rfl, htail⟩ := List.filter_eq_append_iff.mp hfilter
    obtain ⟨l₃, l₄, rfl, hnone, hentry, rfl⟩ := List.filter_eq_cons_iff.mp htail
    refine ⟨l₁ ++ l₃, entry, l₄, by simp, rfl, (pathHasPrefix_iff _ _).mp hentry, ?_, ?_⟩
    · intro b hb hwithin
      have hbegin := (pathHasPrefix_iff _ _).mpr hwithin
      rcases List.mem_append.mp hb with hb | hb
      · simpa [notLonger] using hfront b (List.mem_filter.mpr ⟨hb, hbegin⟩)
      · exact absurd hbegin (hnone b hb)
    · intro b hb hwithin
      have hbegin := (pathHasPrefix_iff _ _).mpr hwithin
      simpa [notLonger] using hback b (List.mem_filter.mpr ⟨hb, hbegin⟩)
  · rintro ⟨front, entry, back, rfl, rfl, hentry, hfront, hback⟩
    have hbegin := (pathHasPrefix_iff _ _).mpr hentry
    refine ⟨entry, ⟨front.filter (pathHasPrefix path ·.target),
      back.filter (pathHasPrefix path ·.target), by simp [hbegin], ?_, ?_⟩, rfl⟩
    · intro b hb
      obtain ⟨hb, hpath⟩ := List.mem_filter.mp hb
      simpa [notLonger] using hfront b hb ((pathHasPrefix_iff _ _).mp hpath)
    · intro b hb
      obtain ⟨hb, hpath⟩ := List.mem_filter.mp hb
      simpa [notLonger] using hback b hb ((pathHasPrefix_iff _ _).mp hpath)

theorem fsTypeForPath_eq_none : fsTypeForPath mounts path = none ↔
    ∀ entry ∈ mounts, ¬ Within path entry.target := by
  rw [fsTypeForPath, Option.map_eq_none_iff, foldl_better, lastMax_eq_none,
    List.filter_eq_nil_iff]
  exact forall₂_congr fun entry _ => not_congr (pathHasPrefix_iff _ _)

theorem intercalate_append {sep : Text} {front back : List Text} (hfront : front ≠ [])
    (hback : back ≠ []) : sep.intercalate (front ++ back) =
      sep.intercalate front ++ sep ++ sep.intercalate back := by
  induction front with
  | nil => exact absurd rfl hfront
  | cons first front ih =>
    by_cases hnil : front = []
    · rw [hnil, List.singleton_append, List.intercalate_cons_of_ne_nil hback,
        List.intercalate_singleton]
    · rw [List.cons_append, List.intercalate_cons_of_ne_nil (by simp [hnil]), ih hnil,
        List.intercalate_cons_of_ne_nil hnil]
      simp only [List.append_assoc]

/-- **A prefix is one of whole components.** -/
theorem pathHasPrefix_iff_components (htarget : target ≠ ['/']) :
    pathHasPrefix path target = true ↔ target.splitOn '/' <+: path.splitOn '/' := by
  rw [pathHasPrefix_iff, Within, if_neg htarget]
  constructor
  · rintro (rfl | ⟨rest, rfl⟩)
    · exact List.prefix_rfl
    · rw [List.append_assoc, List.singleton_append, List.splitOn_append_cons_self]
      exact List.prefix_append ..
  · rintro ⟨rest, hrest⟩
    have hpath : ['/'].intercalate (path.splitOn '/') = path := List.intercalate_splitOn '/'
    have hself : ['/'].intercalate (target.splitOn '/') = target := List.intercalate_splitOn '/'
    rw [← hrest] at hpath
    by_cases hnil : rest = []
    · rw [hnil, List.append_nil, hself] at hpath
      exact .inl hpath.symm
    · rw [intercalate_append (List.splitOn_ne_nil '/' target) hnil, hself] at hpath
      exact .inr ⟨_, hpath⟩

theorem pathHasPrefix_iff_components_mnt :
    ¬pathHasPrefix "/mnt/media2/film".toList "/mnt/media".toList = true := by
  rw [pathHasPrefix_iff_components (by decide)]
  decide

end Ferrofin.Mounts
