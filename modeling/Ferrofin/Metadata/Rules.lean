import Ferrofin.Lib.Distinct
import Ferrofin.Util.Text

/-!
# How a field merges

A merge decides for every field whether the source replaces the target, fills it where it is empty,
or is united with it.  A refresh merges twice: the stored value fills what the providers found,
unless it is not kept, and the result goes back into the stored value (`refresh`).

A rule settles when a second refresh with the same finding changes nothing.  A rule that takes the
source whole or not at all does (`settles_take`).  A union does but in one case
(`refresh_replaceOrUnion_again_iff`, `refresh_albumArtists_again_iff`): a finding that fills an
empty field is taken as it is, with the values that it has twice, and only the second refresh
unites it with itself.
-/

namespace Ferrofin.Metadata

open Lib Util

abbrev Text := List Char

abbrev Rule (σ : Type*) := (source target : σ) → (replace : Bool) → σ

/-- The merge of a refresh, for one field: what is stored fills the finding by `fill`, if it is
kept, and then the finding goes into what is stored by `rule`. -/
def refreshBy {σ : Type*} (fill rule : Rule σ) (keep replace : Bool) (found stored : σ) : σ :=
  rule (if keep then fill stored found false else found) stored replace

def refresh {σ : Type*} (rule : Rule σ) (keep replace : Bool) (found stored : σ) : σ :=
  rule (if keep then rule stored found false else found) stored replace

def Settles {σ : Type*} (rule : Rule σ) : Prop :=
  ∀ keep replace found stored,
    refresh rule keep replace found (refresh rule keep replace found stored) =
      refresh rule keep replace found stored

def lockable {σ : Type*} (unlocked : Bool) (rule : Rule σ) : Rule σ :=
  fun source target replace => if unlocked then rule source target replace else target

@[simp] theorem lockable_true {σ : Type*} (rule : Rule σ) : lockable true rule = rule := rfl

/-- A rule that works on normalized values, and keeps them so, settles if it does on those. -/
theorem Settles.of_normal {σ : Type*} {rule : Rule σ} {normal : σ → σ}
    (hrule : Settles rule)
    (hnormal : ∀ source target replace, normal (rule (normal source) (normal target) replace) =
      rule (normal source) (normal target) replace) :
    Settles fun source target replace => rule (normal source) (normal target) replace := by
  intro keep replace found stored
  have hrefresh : ∀ stored, refresh (fun source target replace =>
      rule (normal source) (normal target) replace) keep replace found stored =
      refresh rule keep replace (normal found) (normal stored) := fun stored => by
    cases keep
    · rfl
    · exact congrArg (rule · (normal stored) replace) (hnormal stored found false)
  have hfixed : normal (refresh rule keep replace (normal found) (normal stored)) =
      refresh rule keep replace (normal found) (normal stored) := by
    cases keep
    · exact hnormal found stored replace
    · have hfill := hnormal stored found false
      rw [refresh, if_pos rfl, ← hfill]
      exact hnormal _ stored replace
  rw [hrefresh, hrefresh, hfixed]
  exact hrule keep replace _ _

/-! ### Rules that take the source or leave the target -/

def take {σ : Type*} (empty usable : σ → Bool) : Rule σ := fun source target replace =>
  if (replace || empty target) && usable source then source else target

theorem settles_take {σ : Type*} (empty usable : σ → Bool) : Settles (take empty usable) := by
  intro keep replace found stored
  unfold refresh take
  cases keep <;> cases replace <;> grind

def isEmpty (value : Option Text) : Bool := value.all (· = [])

def isBlank (value : Option Text) : Bool := value.all (trimChars · = [])

def list (value : Option Text) : List Text := ((value.getD []).splitOn '|').filter (· ≠ [])

def text : Rule (Option Text) := take isEmpty fun _ => true

def value {α : Type*} : Rule (Option α) := take Option.isNone fun _ => true

/-- The rule of `Name`. -/
def name : Rule (Option Text) := take isEmpty (!isBlank ·)

/-- The rule of `Genres`, and of the `Artists` of an audio book. -/
def wholeList : Rule (Option Text) := take (list · = []) fun _ => true

/-- The rule of `ForcedSortName`. -/
def forcedSortName : Rule (Option Text) := take isEmpty (!isEmpty ·)

theorem settles_text : Settles text := settles_take _ _

theorem settles_value {α : Type*} : Settles (value (α := α)) := settles_take _ _

theorem settles_name : Settles name := settles_take _ _

theorem settles_wholeList : Settles wholeList := settles_take _ _

theorem settles_forcedSortName : Settles forcedSortName := settles_take _ _

/-! ### Lists -/

def joined (values : List Text) : Option Text :=
  if values = [] then none else some (['|'].intercalate values)

theorem not_mem_of_mem_splitOn (s : Text) : ∀ part ∈ s.splitOn '|', '|' ∉ part := by
  induction s with
  | nil =>
    intro part hpart
    rw [List.splitOn_nil, List.mem_singleton] at hpart
    rw [hpart]
    exact List.not_mem_nil
  | cons c s ih =>
    rw [List.splitOn_cons_eq_if_modifyHead]
    split
    · exact List.forall_mem_cons.mpr ⟨List.not_mem_nil, ih⟩
    · next hc =>
      obtain ⟨first, rest, hsplit⟩ := List.exists_cons_of_ne_nil (List.splitOn_ne_nil '|' s)
      rw [hsplit, List.forall_mem_cons] at ih
      rw [hsplit, List.modifyHead_cons]
      refine List.forall_mem_cons.mpr ⟨?_, ih.2⟩
      rw [List.mem_cons, not_or]
      exact ⟨fun heq => hc (beq_iff_eq.mpr heq.symm), ih.1⟩

theorem mem_list {column : Option Text} {v : Text} (h : v ∈ list column) : v ≠ [] ∧ '|' ∉ v := by
  obtain ⟨hmem, hne⟩ := List.mem_filter.mp h
  exact ⟨of_decide_eq_true hne, not_mem_of_mem_splitOn _ v hmem⟩

theorem list_joined {values : List Text} (h : ∀ v ∈ values, v ≠ [] ∧ '|' ∉ v) :
    list (joined values) = values := by
  rw [list, joined]
  split
  · next hnil =>
    rw [hnil]
    decide
  · next hne =>
    rw [Option.getD_some, List.splitOn_intercalate '|' (fun v hv => (h v hv).2) hne,
      List.filter_eq_self]
    intro v hv
    exact decide_eq_true (h v hv).1

variable (upperInvariant : Text → Text)

def union (target source : Option Text) : Option Text :=
  joined (distinctBy upperInvariant (list target ++ list source))

def replaceOrUnion : Rule (Option Text) := fun source target replace =>
  if replace || list target = [] then source else union upperInvariant target source

/-- `MergeAlbumArtist`. -/
def albumArtists : Rule (Option Text) := fun source target replace =>
  if replace || list target = [] then source
  else if list source ≠ [] then union upperInvariant target source
  else target

/-- A list column as `union` writes it: of its values no two are equal without case. -/
def Canonical (column : Option Text) : Prop :=
  column = joined (list column) ∧ ((list column).map upperInvariant).Nodup

section Union

variable {upperInvariant} {found stored target source : Option Text}

theorem list_union (target source : Option Text) : list (union upperInvariant target source) =
    distinctBy upperInvariant (list target ++ list source) := by
  refine list_joined fun v hv => ?_
  rcases List.mem_append.mp (mem_of_mem_distinctFrom hv) with hv | hv <;> exact mem_list hv

theorem list_union_ne_nil (h : list target ≠ []) :
    list (union upperInvariant target source) ≠ [] := by
  obtain ⟨v, hv⟩ := List.exists_mem_of_ne_nil _ h
  have hkey : upperInvariant v ∈
      (list (union upperInvariant target source)).map upperInvariant := by
    rw [list_union, mem_map_distinctBy]
    exact List.mem_map_of_mem (List.mem_append_left _ hv)
  intro hnil
  rw [hnil] at hkey
  cases hkey

theorem canonical_union (target source : Option Text) :
    Canonical upperInvariant (union upperInvariant target source) := by
  rw [Canonical, list_union]
  exact ⟨rfl, nodup_distinctBy⟩

theorem union_of_subset (h : Canonical upperInvariant target)
    (hsub : ∀ v ∈ list source, upperInvariant v ∈ (list target).map upperInvariant) :
    union upperInvariant target source = target := by
  rw [union, distinctBy_append_of_subset hsub, distinctBy_eq_self_iff.mpr h.2]
  exact h.1.symm

theorem union_self_iff :
    union upperInvariant target target = target ↔ Canonical upperInvariant target := by
  constructor
  · intro h
    rw [← h]
    exact canonical_union target target
  · exact fun h => union_of_subset h fun v hv => List.mem_map_of_mem hv

theorem union_union (target source : Option Text) :
    union upperInvariant target (union upperInvariant target source) =
      union upperInvariant target source := by
  rw [union, list_union, distinctBy_append_distinctBy]
  rfl

theorem union_left (target source : Option Text) :
    union upperInvariant (union upperInvariant target source) source =
      union upperInvariant target source := by
  refine union_of_subset (canonical_union target source) fun v hv => ?_
  rw [list_union, mem_map_distinctBy]
  exact List.mem_map_of_mem (List.mem_append_right _ hv)

theorem union_left_union (target source : Option Text) :
    union upperInvariant (union upperInvariant target (union upperInvariant source target))
        (union upperInvariant source
          (union upperInvariant target (union upperInvariant source target))) =
      union upperInvariant target (union upperInvariant source target) := by
  refine union_of_subset (canonical_union _ _) fun v hv => ?_
  have hkey := List.mem_map_of_mem (f := upperInvariant) hv
  simp only [list_union, mem_map_distinctBy, List.map_append, List.mem_append] at hkey ⊢
  tauto

/-- `Studios`, `Tags` and their like settle, except that a finding that only fills, as it was
found, is united with itself by the second refresh. -/
theorem refresh_replaceOrUnion_again_iff {keep replace : Bool} :
    refresh (replaceOrUnion upperInvariant) keep replace found
        (refresh (replaceOrUnion upperInvariant) keep replace found stored) =
      refresh (replaceOrUnion upperInvariant) keep replace found stored ↔
    (keep = false → replace = false → list stored = [] → list found ≠ [] →
      Canonical upperInvariant found) := by
  unfold refresh replaceOrUnion
  by_cases hf : list found = [] <;> by_cases hs : list stored = [] <;> cases keep <;>
    cases replace <;>
    simp [hf, hs, list_union_ne_nil, union_union, union_left, union_left_union, union_self_iff,
      canonical_union]

/-- `MergeAlbumArtist` does not unite with an empty source either, so a finding that came into an
empty field as it was found is united with itself by the second refresh in more modes. -/
theorem refresh_albumArtists_again_iff {keep replace : Bool} :
    refresh (albumArtists upperInvariant) keep replace found
        (refresh (albumArtists upperInvariant) keep replace found stored) =
      refresh (albumArtists upperInvariant) keep replace found stored ↔
    ((keep = true ∨ replace = false) → list stored = [] → list found ≠ [] →
      Canonical upperInvariant found) := by
  unfold refresh albumArtists
  by_cases hf : list found = [] <;> by_cases hs : list stored = [] <;> cases keep <;>
    cases replace <;>
    simp [hf, hs, list_union_ne_nil, union_union, union_left, union_left_union, union_self_iff,
      canonical_union]

end Union

end Ferrofin.Metadata
