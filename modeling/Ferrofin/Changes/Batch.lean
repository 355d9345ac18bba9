import Mathlib.Data.List.Sort
import Ferrofin.Lib.Indexed

/-!
# The batches of library changes

What `library_changed_notifier.rs` collects of a library's changes, and what it makes of it:
the buckets of a batch (`Pending`), the lists they fold into (`fold`), one user's cut of them
(`forLibraries`, `retainVisible`) and the payload (`build`).

Ids are the numbers their spelling stands for; spelled in lower case and full width they sort
alike.
-/

namespace Ferrofin.Changes

open Lib

abbrev Uuid := Nat

structure Changed where
  id : Uuid
  topParent : Option Uuid
  parent : Option Uuid
deriving DecidableEq

inductive Kind where
  | added
  | updated
  | removed
deriving DecidableEq

abbrev Bucket := Indexed Changed.id

structure Pending where
  added : Bucket := .empty
  updated : Bucket := .empty
  removed : Bucket := .empty
  foldersAddedTo : Bucket := .empty
  foldersRemovedFrom : Bucket := .empty
  window : Option Nat := none

def maxBatchSize : Nat := 2000

namespace Pending

variable (b : Pending)

def isEmpty : Bool := b.added.items.isEmpty && b.updated.items.isEmpty && b.removed.items.isEmpty

def len : Nat := b.added.items.length + b.updated.items.length + b.removed.items.length

/-- The folder an addition or a removal is recorded under. -/
def folder (folders : Bucket) (changed : Changed) : Bucket :=
  match changed.parent with
  | some parent => folders.insert { id := parent, topParent := changed.topParent, parent := none }
  | none => folders

def insert (changed : Changed) : Kind → Pending
  | .added => { b with
      foldersAddedTo := folder b.foldersAddedTo changed
      added := b.added.insert changed }
  | .updated => { b with updated := b.updated.insert changed }
  | .removed => { b with
      foldersRemovedFrom := folder b.foldersRemovedFrom changed
      removed := b.removed.insert changed }

end Pending

structure LibraryUpdateInfo where
  foldersAddedTo : List Uuid
  foldersRemovedFrom : List Uuid
  itemsAdded : List Uuid
  itemsRemoved : List Uuid
  itemsUpdated : List Uuid
  collectionFolders : List Uuid
  isEmpty : Bool := false

def LibraryUpdateInfo.computeIsEmpty (info : LibraryUpdateInfo) : Bool :=
  info.foldersAddedTo.isEmpty && info.foldersRemovedFrom.isEmpty && info.itemsAdded.isEmpty &&
    info.itemsRemoved.isEmpty && info.itemsUpdated.isEmpty && info.collectionFolders.isEmpty

structure Lists where
  added : List Changed
  updated : List Changed
  removed : List Changed
  foldersAddedTo : List Changed
  foldersRemovedFrom : List Changed

def Lists.announcedIds (lists : Lists) : List Uuid :=
  ((lists.added ++ lists.updated ++ lists.foldersAddedTo ++ lists.foldersRemovedFrom).map
    Changed.id).eraseDups

def Lists.retainVisible (lists : Lists) (visible : List Uuid) : Lists :=
  let keep (l : List Changed) := l.filter fun c => decide (c.id ∈ visible)
  { lists with
    added := keep lists.added
    updated := keep lists.updated
    foldersAddedTo := keep lists.foldersAddedTo
    foldersRemovedFrom := keep lists.foldersRemovedFrom }

structure Folded where
  lists : Lists
  info : LibraryUpdateInfo

def Folded.forLibraries (folded : Folded) (tops : List Uuid) : Lists :=
  let keep (l : List Changed) := l.filter fun c => c.topParent.any fun t => decide (t ∈ tops)
  { added := keep folded.lists.added
    updated := keep folded.lists.updated
    removed := folded.lists.removed
    foldersAddedTo := keep folded.lists.foldersAddedTo
    foldersRemovedFrom := keep folded.lists.foldersRemovedFrom }

/-- The `CollectionFolders` of a payload. -/
def collectionFolders (lists : Lists) : Option (List Uuid × Bool) → List Uuid
  | some (libraries, true) => libraries.eraseDups.mergeSort
  | some (_, false) => []
  | none => ((lists.added ++ lists.removed ++ lists.updated).filterMap Changed.topParent).eraseDups

def build (lists : Lists) (recipient : Option (List Uuid × Bool)) : LibraryUpdateInfo :=
  let ids (l : List Changed) := l.map Changed.id
  let info : LibraryUpdateInfo :=
    { foldersAddedTo := ids lists.foldersAddedTo
      foldersRemovedFrom := ids lists.foldersRemovedFrom
      itemsAdded := ids lists.added
      itemsRemoved := ids lists.removed
      itemsUpdated := ids lists.updated
      collectionFolders := collectionFolders lists recipient }
  { info with isEmpty := info.computeIsEmpty }

def fold (b : Pending) : Folded :=
  let lists : Lists :=
    { added := b.added.items
      updated := b.updated.items.filter fun c => (b.added.index.lookup c.id).isNone
      removed := b.removed.items
      foldersAddedTo := b.foldersAddedTo.items
      foldersRemovedFrom := b.foldersRemovedFrom.items }
  { lists := lists, info := build lists none }

/-- Whether any folder of the cut gained a child, or any folder of the batch lost one. -/
def foldersMoved (folded : Folded) (lists : Lists) : Bool :=
  !lists.foldersAddedTo.isEmpty || !folded.lists.foldersRemovedFrom.isEmpty

/-! ### What a batch names -/

namespace Pending

def bucket (b : Pending) : Kind → Bucket
  | .added => b.added
  | .updated => b.updated
  | .removed => b.removed

def Names (b : Pending) (kind : Kind) (id : Uuid) : Prop := (b.bucket kind).Names id

@[simp] theorem window_insert (b : Pending) (c : Changed) (kind : Kind) :
    (b.insert c kind).window = b.window := by
  cases kind <;> rfl

theorem bucket_insert (b : Pending) (c : Changed) (kind kind' : Kind) :
    (b.insert c kind).bucket kind' =
      if kind' = kind then (b.bucket kind).insert c else b.bucket kind' := by
  cases kind <;> cases kind' <;> rfl

theorem names_insert (b : Pending) (c : Changed) (kind kind' : Kind) (id : Uuid) :
    (b.insert c kind).Names kind' id ↔ (kind' = kind ∧ id = c.id) ∨ b.Names kind' id := by
  rw [Names, bucket_insert]
  split
  · next h =>
    subst h
    rw [Indexed.names_insert]
    exact or_congr_left (and_iff_right rfl).symm
  · next h =>
    rw [← Names]
    exact (or_iff_right fun hk => h hk.1).symm

theorem len_insert_le (b : Pending) (c : Changed) (kind : Kind) :
    (b.insert c kind).len ≤ b.len + 1 := by
  cases kind with
  | added =>
    have h := b.added.length_insert_le c
    have hlen : (b.insert c .added).len =
      (b.added.insert c).items.length + b.updated.items.length + b.removed.items.length := rfl
    rw [hlen, len]
    omega
  | updated =>
    have h := b.updated.length_insert_le c
    have hlen : (b.insert c .updated).len =
      b.added.items.length + (b.updated.insert c).items.length + b.removed.items.length := rfl
    rw [hlen, len]
    omega
  | removed =>
    have h := b.removed.length_insert_le c
    have hlen : (b.insert c .removed).len =
      b.added.items.length + b.updated.items.length + (b.removed.insert c).items.length := rfl
    rw [hlen, len]
    omega

theorem isEmpty_iff (b : Pending) : b.isEmpty = true ↔ ∀ kind id, ¬ b.Names kind id := by
  rw [isEmpty, Bool.and_eq_true, Bool.and_eq_true, List.isEmpty_iff, List.isEmpty_iff,
    List.isEmpty_iff]
  constructor
  · rintro ⟨⟨hadded, hupdated⟩, hremoved⟩ kind id ⟨c, hc, -⟩
    cases kind with
    | added => rw [bucket, hadded] at hc; cases hc
    | updated => rw [bucket, hupdated] at hc; cases hc
    | removed => rw [bucket, hremoved] at hc; cases hc
  · intro h
    have hnil : ∀ kind, (b.bucket kind).items = [] := fun kind =>
      List.eq_nil_iff_forall_not_mem.mpr fun c hc => h kind c.id ⟨c, hc, rfl⟩
    exact ⟨⟨hnil .added, hnil .updated⟩, hnil .removed⟩

end Pending

/-! ### What a payload names -/

def LibraryUpdateInfo.items (info : LibraryUpdateInfo) : Kind → List Uuid
  | .added => info.itemsAdded
  | .updated => info.itemsUpdated
  | .removed => info.itemsRemoved

theorem mem_updated_iff (b : Pending) (id : Uuid) :
    id ∈ (fold b).info.itemsUpdated ↔ b.Names .updated id ∧ ¬ b.Names .added id := by
  have hisNone : ∀ k, (b.added.index.lookup k).isNone = true ↔ ¬ b.added.Names k := fun k => by
    rw [← b.added.isSome_lookup_iff, Option.isNone_iff_eq_none, Option.not_isSome_iff_eq_none]
  constructor
  · intro h
    obtain ⟨c, hc, rfl⟩ := List.mem_map.mp h
    obtain ⟨hc, hnone⟩ := List.mem_filter.mp hc
    exact ⟨⟨c, hc, rfl⟩, (hisNone c.id).mp hnone⟩
  · rintro ⟨⟨c, hc, rfl⟩, hnone⟩
    exact List.mem_map_of_mem (List.mem_filter.mpr ⟨hc, (hisNone c.id).mpr hnone⟩)

theorem mem_added_iff (b : Pending) (id : Uuid) :
    id ∈ (fold b).info.itemsAdded ↔ b.Names .added id := List.mem_map

theorem mem_removed_iff (b : Pending) (id : Uuid) :
    id ∈ (fold b).info.itemsRemoved ↔ b.Names .removed id := List.mem_map

theorem listed_of_names {b : Pending} {kind : Kind} {id : Uuid} (h : b.Names kind id) :
    id ∈ (fold b).info.items kind ∨ (kind = .updated ∧ id ∈ (fold b).info.itemsAdded) := by
  cases kind with
  | added => exact .inl ((mem_added_iff b id).mpr h)
  | removed => exact .inl ((mem_removed_iff b id).mpr h)
  | updated =>
    by_cases hadded : b.Names .added id
    · exact .inr ⟨rfl, (mem_added_iff b id).mpr hadded⟩
    · exact .inl ((mem_updated_iff b id).mpr ⟨h, hadded⟩)

theorem names_of_listed {b : Pending} {kind : Kind} {id : Uuid}
    (h : id ∈ (fold b).info.items kind) : b.Names kind id := by
  cases kind with
  | added => exact (mem_added_iff b id).mp h
  | removed => exact (mem_removed_iff b id).mp h
  | updated => exact ((mem_updated_iff b id).mp h).1

theorem isEmpty_of_isEmpty_fold {b : Pending} (h : (fold b).info.isEmpty = true) :
    b.isEmpty = true := by
  have hempty : (fold b).info.computeIsEmpty = true := h
  rw [LibraryUpdateInfo.computeIsEmpty] at hempty
  simp only [Bool.and_eq_true, List.isEmpty_iff] at hempty
  obtain ⟨⟨⟨⟨-, hadded⟩, hremoved⟩, hupdated⟩, -⟩ := hempty
  have hnil : ∀ kind, (fold b).info.items kind = [] := fun kind => by
    cases kind with
    | added => exact hadded
    | updated => exact hupdated
    | removed => exact hremoved
  refine b.isEmpty_iff.mpr fun kind id hnames => ?_
  rcases listed_of_names hnames with hmem | ⟨-, hmem⟩
  · rw [hnil] at hmem
    cases hmem
  · rw [hadded] at hmem
    cases hmem

end Ferrofin.Changes
