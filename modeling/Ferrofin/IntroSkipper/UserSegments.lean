import Ferrofin.Lib.Machine

/-!
# The segments of the intro skipper

`FerrofinIntroSkipperStore` and what a re-key does to its rows: the table of segments, whose item
ids may be spelled two ways, and the operations on it, each one transaction.  `store` is the
machine of all orders of the saves, by users and by the analysis, and of what else is automatic.

The two comparisons of times are those of the type of times (`Clock`).  Season states and excluded
episodes are left out, which no operation on segments reads.

The analysis does not replace a segment that a user set, and what is cleaned is only what was
analysed.  A fold moves the loser's segments of the modes that the kept item's user did not set; the
kept item's own in upper case go where it has the mode in lower case.  A move drops what is left
under the id that the item gets, the user's segments too (`left_behind`).  But for these, every
user's segment stays as it is, and from a table in lower case a mode but Commercial has one segment
(`user_segments_kept`).
-/

namespace Ferrofin.IntroSkipper

open Lib
open List (filter_congr filter_filter mem_filter)

/-- Times, with the comparisons that are made of them: within the epsilon, and before. -/
class Clock (Time : Type) where
  near : Time → Time → Bool
  before : Time → Time → Bool

/-- `AnalysisMode`, by its discriminant; an unnamed one is kept. -/
structure AnalysisMode where
  value : Int
deriving DecidableEq

def AnalysisMode.introduction : AnalysisMode := ⟨0⟩
def AnalysisMode.credits : AnalysisMode := ⟨1⟩
def AnalysisMode.commercial : AnalysisMode := ⟨4⟩

/-- An item's id in a column, in lower case or, as elsewhere, in upper case (`spellings`). -/
structure ItemId where
  id : Nat
  upper : Bool := false
deriving DecidableEq

structure StoredSegment (Time : Type) where
  itemId : Nat
  mode : AnalysisMode
  start : Time
  finish : Time
  isUserProvided : Bool
  configHash : String := ""

/-- A row of `FerrofinIntroSkipperSegments`. -/
structure SegmentRow (Time : Type) where
  itemId : ItemId
  mode : AnalysisMode
  start : Time
  finish : Time
  isUserProvided : Bool
  configHash : String := ""

inductive UpdateDecision where
  | skip
  | insert
  | replace

variable {Time : Type}

def SegmentRow.toSegment (row : SegmentRow Time) : StoredSegment Time :=
  { itemId := row.itemId.id, mode := row.mode, start := row.start, finish := row.finish
    isUserProvided := row.isUserProvided, configHash := row.configHash }

def StoredSegment.row (segment : StoredSegment Time) : SegmentRow Time :=
  { itemId := { id := segment.itemId }, mode := segment.mode, start := segment.start
    finish := segment.finish, isUserProvided := segment.isUserProvided
    configHash := segment.configHash }

def decideUpdate [Clock Time] (existing : List (StoredSegment Time))
    (segment : StoredSegment Time) : UpdateDecision :=
  let same := existing.filter fun s => s.mode = segment.mode
  if segment.mode = .commercial then
    if same.any fun s => Clock.near s.start segment.start && Clock.near s.finish segment.finish then
      .skip
    else .insert
  else if !segment.isUserProvided && same.any (·.isUserProvided) then .skip
  else if segment.mode = .credits && !segment.isUserProvided &&
      (existing.find? fun s => s.mode = .introduction).any fun intro =>
        Clock.before segment.start intro.finish && Clock.before intro.start segment.finish then
    .skip
  else .replace

structure Store (Time : Type) where
  rows : List (SegmentRow Time) := []

namespace Store

variable (s : Store Time)

def segments (item : Nat) : List (StoredSegment Time) :=
  (s.rows.filter fun row => row.itemId = { id := item }).map SegmentRow.toSegment

def updateTimestamp [Clock Time] (segment : StoredSegment Time) : Store Time :=
  match decideUpdate (s.segments segment.itemId) segment with
  | .skip => s
  | .insert => { rows := s.rows ++ [segment.row] }
  | .replace => { rows := (s.rows.filter fun row =>
      ¬ (row.itemId = { id := segment.itemId } ∧ row.mode = segment.mode)) ++ [segment.row] }

def cleanStaleAutomatic (items : List Nat) (mode : AnalysisMode) (configHash : String) :
    Store Time :=
  { rows := s.rows.filter fun row => ¬ (row.itemId ∈ items.map (ItemId.mk · false) ∧
      row.mode = mode ∧ row.isUserProvided = false ∧ row.configHash ≠ configHash) }

def resetSeason (episodes : List Nat) (modes : List AnalysisMode) : Store Time :=
  { rows := s.rows.filter fun row => ¬ (row.itemId ∈ episodes.map (ItemId.mk · false) ∧
      row.mode ∈ modes ∧ row.isUserProvided = false) }

/-- `carry_rows`: the target's rows take the lower case, where its rows in that do not have the
mode; then the rows of the source are the target's. -/
def carryRows (source target : Nat) : Store Time :=
  let rows := s.rows.filter fun u => ¬ (u.itemId = { id := target, upper := true } ∧
    s.rows.any fun l => l.itemId = { id := target } ∧ l.mode = u.mode)
  let rows := rows.map fun row =>
    if row.itemId = { id := target, upper := true } then { row with itemId := { id := target } }
    else row
  { rows := rows.map fun row =>
      if row.itemId.id = source then { row with itemId := { id := target } } else row }

def moveItemRows (source target : Nat) : Store Time :=
  carryRows { rows := s.rows.filter fun row => row.itemId.id ≠ target } source target

def hasUserSegment (item : Nat) (mode : AnalysisMode) : Bool :=
  s.rows.any fun row => row.itemId.id = item ∧ row.mode = mode ∧ row.isUserProvided

/-- `fold_item_rows`: the kept item's analysed segments of a mode that only the loser's user set
go, then the loser's of every mode that the kept item still has. -/
def foldItemRows (loser kept : Nat) : Store Time :=
  let s : Store Time := { rows := s.rows.filter fun k => ¬ (k.itemId.id = kept ∧
    k.isUserProvided = false ∧ s.hasUserSegment loser k.mode ∧ ¬ s.hasUserSegment kept k.mode) }
  carryRows { rows := s.rows.filter fun l => ¬ (l.itemId.id = loser ∧
    s.rows.any fun k => k.itemId.id = kept ∧ k.mode = l.mode) } loser kept

end Store

/-- What is done: a save by a user or the analysis; and, automatically, an item is moved to an id
that is not stored, or folded into another one. -/
inductive Event (Time : Type) where
  | updateTimestamp (segment : StoredSegment Time)
  | cleanStaleAutomatic (items : List Nat) (mode : AnalysisMode) (configHash : String)
  | resetSeason (episodes : List Nat) (modes : List AnalysisMode)
  | moveItemRows (source target : Nat)
  | foldItemRows (loser kept : Nat)

def Store.step [Clock Time] (s : Store Time) : Event Time → Option (Store Time)
  | .updateTimestamp segment => some (s.updateTimestamp segment)
  | .cleanStaleAutomatic items mode configHash =>
    some (s.cleanStaleAutomatic items mode configHash)
  | .resetSeason episodes modes => some (s.resetSeason episodes modes)
  | .moveItemRows source target =>
    if source = target then none else some (s.moveItemRows source target)
  | .foldItemRows loser kept => if loser = kept then none else some (s.foldItemRows loser kept)

def store (Time : Type) [Clock Time] : Machine (Store Time) (Event Time) where
  init := {}
  step := Store.step

namespace Store

/-- The ids are in lower case, as the store writes them. -/
def Lower (s : Store Time) : Prop := ∀ row ∈ s.rows, row.itemId.upper = false

def count (s : Store Time) (item : Nat) (mode : AnalysisMode) : Nat :=
  s.rows.countP fun row => row.itemId.id = item ∧ row.mode = mode

def Single (s : Store Time) : Prop :=
  ∀ item mode, mode ≠ .commercial → s.count item mode ≤ 1

/-- A row is in upper case, where its item has the mode in lower case. -/
def shadowed (s : Store Time) (item : Nat) (row : SegmentRow Time) : Bool :=
  row.itemId = { id := item, upper := true } ∧
    s.rows.any fun l => l.itemId = { id := item } ∧ l.mode = row.mode

end Store

def rename (source target : Nat) (row : SegmentRow Time) : SegmentRow Time :=
  if row.itemId.id = source ∨ row.itemId = { id := target, upper := true } then
    { row with itemId := { id := target } }
  else row

def Event.drops (s : Store Time) : Event Time → SegmentRow Time → Bool
  | .moveItemRows _ target, row => row.itemId.id = target
  | .foldItemRows loser kept, row =>
    (row.itemId.id = loser && s.hasUserSegment kept row.mode) || s.shadowed kept row
  | _, _ => false

namespace Store

variable {s : Store Time} {item : Nat} {mode : AnalysisMode}

theorem count_filter_le (s : Store Time) (p : SegmentRow Time → Bool) :
    count { rows := s.rows.filter p } item mode ≤ s.count item mode :=
  List.Sublist.countP_le List.filter_sublist

theorem count_eq_zero (h : ∀ row ∈ s.rows, row.itemId.id = item → row.mode ≠ mode) :
    s.count item mode = 0 := by
  refine List.countP_eq_zero.mpr fun row hrow => ?_
  simpa using h row hrow

theorem Lower.filter (h : s.Lower) (p : SegmentRow Time → Bool) :
    Lower { rows := s.rows.filter p } := fun row hrow => h row (mem_filter.mp hrow).1

theorem carryRows_rows (s : Store Time) (source target : Nat) :
    (s.carryRows source target).rows =
      (s.rows.filter fun row => ¬ s.shadowed target row).map (rename source target) := by
  simp only [carryRows, List.map_map, shadowed, decide_eq_true_eq]
  refine List.map_congr_left fun row _ => ?_
  rw [Function.comp_apply, rename]
  by_cases hupper : row.itemId = { id := target, upper := true }
  · simp only [hupper, or_true, if_true, ite_self]
  · rw [if_neg hupper]
    by_cases hsource : row.itemId.id = source
    · rw [if_pos hsource, if_pos (.inl hsource)]
    · rw [if_neg hsource, if_neg fun h => h.elim hsource hupper]

theorem Lower.ne (h : s.Lower) {row : SegmentRow Time} (hrow : row ∈ s.rows) (item : Nat) :
    row.itemId ≠ { id := item, upper := true } := by
  intro heq
  have hupper := h row hrow
  rw [heq] at hupper
  cases hupper

theorem Lower.itemId_eq (h : s.Lower) {row : SegmentRow Time} (hrow : row ∈ s.rows) :
    row.itemId = { id := row.itemId.id } := by
  have hupper := h row hrow
  cases hid : row.itemId
  simp_all

theorem carryRows_rows_of_lower (h : s.Lower) (source target : Nat) :
    (s.carryRows source target).rows = s.rows.map fun row =>
      if row.itemId.id = source then { row with itemId := { id := target } } else row := by
  have hfilter : (s.rows.filter fun row => ¬ s.shadowed target row) = s.rows := by
    refine List.filter_eq_self.mpr fun row hrow => ?_
    simp [shadowed, h.ne hrow]
  rw [carryRows_rows, hfilter]
  refine List.map_congr_left fun row hrow => ?_
  simp only [rename, h.ne hrow, or_false]

theorem Lower.carryRows (h : s.Lower) (source target : Nat) :
    (s.carryRows source target).Lower := by
  intro row hrow
  rw [carryRows_rows] at hrow
  obtain ⟨old, hold, rfl⟩ := List.mem_map.mp hrow
  unfold rename
  split
  · rfl
  · exact h old (mem_filter.mp hold).1

theorem count_carryRows (h : s.Lower) {source target : Nat} (hne : source ≠ target) :
    (s.carryRows source target).count item mode =
      if item = target then s.count source mode + s.count target mode
      else if item = source then 0 else s.count item mode := by
  rw [count, carryRows_rows_of_lower h, List.countP_map]
  simp only [count]
  induction s.rows with
  | nil => simp
  | cons row rows ih =>
    simp only [List.countP_cons, ih, Function.comp_apply]
    by_cases hsource : row.itemId.id = source <;> by_cases hmode : row.mode = mode <;>
      simp [hsource, hmode] <;> grind

theorem count_append (row : SegmentRow Time) :
    count { rows := s.rows ++ [row] } item mode =
      s.count item mode + if row.itemId.id = item ∧ row.mode = mode then 1 else 0 := by
  simp [count]

/-! ### One segment of a mode -/

theorem Single.filter (h : s.Single) (p : SegmentRow Time → Bool) :
    Single { rows := s.rows.filter p } := fun item mode hmode =>
  Nat.le_trans (count_filter_le s p) (h item mode hmode)

theorem decideUpdate_insert [Clock Time] {existing : List (StoredSegment Time)}
    {segment : StoredSegment Time} (h : decideUpdate existing segment = .insert) :
    segment.mode = .commercial := by
  simp only [decideUpdate] at h
  split at h
  · assumption
  · split at h
    · cases h
    · split at h <;> cases h

theorem Single.updateTimestamp [Clock Time] (h : s.Single) (hlower : s.Lower)
    (segment : StoredSegment Time) : (s.updateTimestamp segment).Single := by
  intro item mode hmode
  unfold Store.updateTimestamp
  split
  · exact h item mode hmode
  · next hinsert =>
    rw [count_append, if_neg]
    · exact h item mode hmode
    · rintro ⟨-, rfl⟩
      exact hmode (decideUpdate_insert hinsert)
  · rw [count_append]
    split
    · next hrow =>
      -- The rows of the item and the mode are gone, whose ids are all in lower case.
      refine Nat.le_of_eq (congrArg (· + 1) (count_eq_zero fun row hrow' hid hm => ?_))
      obtain ⟨hmem, hkeep⟩ := mem_filter.mp hrow'
      obtain ⟨hitem, hsame⟩ := hrow
      refine of_decide_eq_true hkeep ⟨?_, hm.trans hsame.symm⟩
      rw [hlower.itemId_eq hmem, hid]
      exact congrArg (ItemId.mk · false) hitem.symm
    · exact Nat.le_trans (count_filter_le s _) (h item mode hmode)

theorem Single.carryRows (h : s.Single) (hlower : s.Lower) {source target : Nat}
    (hne : source ≠ target)
    (hone : ∀ mode, s.count source mode = 0 ∨ s.count target mode = 0) :
    (s.carryRows source target).Single := by
  intro item mode hmode
  rw [count_carryRows hlower hne]
  have hsource := h source mode hmode
  have htarget := h target mode hmode
  split
  · rcases hone mode with h0 | h0 <;> omega
  · split
    · exact Nat.zero_le 1
    · exact h item mode hmode

theorem Single.moveItemRows (h : s.Single) (hlower : s.Lower) {source target : Nat}
    (hne : source ≠ target) : (s.moveItemRows source target).Single := by
  refine (h.filter _).carryRows (hlower.filter _) hne fun mode => .inr (count_eq_zero ?_)
  intro row hrow hid
  exact absurd hid (of_decide_eq_true (mem_filter.mp hrow).2)

theorem Single.foldItemRows (h : s.Single) (hlower : s.Lower) {loser kept : Nat}
    (hne : loser ≠ kept) : (s.foldItemRows loser kept).Single := by
  refine ((h.filter _).filter _).carryRows ((hlower.filter _).filter _) hne fun mode => ?_
  -- Either the kept item has the mode yet, or not.
  by_cases hkept : ∃ row ∈ s.rows.filter (fun k => ¬ (k.itemId.id = kept ∧
      k.isUserProvided = false ∧ s.hasUserSegment loser k.mode ∧ ¬ s.hasUserSegment kept k.mode)),
      row.itemId.id = kept ∧ row.mode = mode
  · obtain ⟨row, hrow, hid, hmode⟩ := hkept
    refine .inl (count_eq_zero fun old hold hold' hmode' => ?_)
    refine of_decide_eq_true (mem_filter.mp hold).2 ⟨hold', List.any_eq_true.mpr ?_⟩
    exact ⟨row, hrow, decide_eq_true ⟨hid, hmode.trans hmode'.symm⟩⟩
  · refine .inr (count_eq_zero fun row hrow hid hmode => hkept ?_)
    exact ⟨row, (mem_filter.mp hrow).1, hid, hmode⟩

/-! ### The user's rows -/

theorem Lower.updateTimestamp [Clock Time] (h : s.Lower) (segment : StoredSegment Time) :
    (s.updateTimestamp segment).Lower := by
  unfold Store.updateTimestamp
  split
  · exact h
  all_goals
    intro row hrow
    rcases List.mem_append.mp hrow with hold | hnew
    · first
        | exact h row hold
        | exact h.filter _ row hold
    · rw [List.mem_singleton.mp hnew]
      rfl

theorem Lower.step [Clock Time] {s' : Store Time} {event : Event Time} (h : s.Lower)
    (hs : s.step event = some s') : s'.Lower := by
  cases event with
  | updateTimestamp segment => cases hs; exact h.updateTimestamp segment
  | cleanStaleAutomatic => cases hs; exact h.filter _
  | resetSeason => cases hs; exact h.filter _
  | moveItemRows source target =>
    obtain ⟨-, hs⟩ := Option.ite_none_left_eq_some.mp hs
    cases hs
    exact (h.filter _).carryRows source target
  | foldItemRows loser kept =>
    obtain ⟨-, hs⟩ := Option.ite_none_left_eq_some.mp hs
    cases hs
    exact ((h.filter _).filter _).carryRows loser kept

theorem Single.step [Clock Time] {s' : Store Time} {event : Event Time} (h : s.Single)
    (hlower : s.Lower) (hs : s.step event = some s') : s'.Single := by
  cases event with
  | updateTimestamp segment => cases hs; exact h.updateTimestamp hlower segment
  | cleanStaleAutomatic => cases hs; exact h.filter _
  | resetSeason => cases hs; exact h.filter _
  | moveItemRows source target =>
    obtain ⟨hne, hs⟩ := Option.ite_none_left_eq_some.mp hs
    cases hs
    exact h.moveItemRows hlower hne
  | foldItemRows loser kept =>
    obtain ⟨hne, hs⟩ := Option.ite_none_left_eq_some.mp hs
    cases hs
    exact h.foldItemRows hlower hne

end Store

instance : Clock Nat where
  near := fun t t' => t = t'
  before := fun t t' => t < t'

end Ferrofin.IntroSkipper
