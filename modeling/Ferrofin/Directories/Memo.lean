import Ferrofin.Lib.KeyedMap
import Ferrofin.Util.Paths
import Ferrofin.Util.Text

/-!
# The memo of a directory cache

`State` (`directory_cache.rs`) is what a `DirectoryCache` holds behind its lock: the
listings of folders, and what the local image providers read of them, with a count of
the records in both.

`Listing.readAt` is history: when the listing was read from the file system.
-/

namespace Ferrofin.Directories

open Lib Util

inductive FileSystemEntryType where
  | file
  | directory
  | networkComputer
  | networkShare
deriving DecidableEq

structure FileSystemEntryInfo where
  name : String
  path : Path
  type_ : FileSystemEntryType

/-- `FileSystemMetadata`, less the times, which `image_metadata` leaves out. -/
structure FileSystemMetadata where
  exists_ : Bool
  fullName : Path
  name : String
  extension : Option Path
  length : Nat
  isDirectory : Bool

def supportedImageExtensions : List String :=
  [".png", ".jpg", ".jpeg", ".webp", ".tbn", ".gif", ".svg"]

def isSupportedImageExtension (extension : Path) : Bool :=
  supportedImageExtensions.any fun e => eqIgnoreAsciiCase e (String.ofList extension)

/-- `image_metadata`; `length` is what a stat says of a file. -/
def imageMetadata (length : Path → Nat) (entry : FileSystemEntryInfo) : FileSystemMetadata :=
  let isDirectory := entry.type_ == .directory
  let extension := (extension entry.path).map ('.' :: ·)
  let image := !isDirectory && extension.any isSupportedImageExtension
  { exists_ := true
    fullName := entry.path
    name := entry.name
    extension := extension
    length := if image then length entry.path else 0
    isDirectory := isDirectory }

structure DirectoryCacheLimits where
  maxRecords : Nat
  maxRecords_pos : 0 < maxRecords
  idleTimeout : Nat

structure Listing (α : Type) where
  value : List α
  readAt : Nat

def Listing.records {α : Type} (l : Listing α) : Nat := l.value.length + 1

structure State where
  entries : KeyedMap Path (Listing FileSystemEntryInfo) := ∅
  metadata : KeyedMap Path (Listing FileSystemMetadata) := ∅
  records : Nat := 0
  lastAccess : Option Nat := none
  generation : Nat := 0

namespace State

variable (s : State)

def reset : State := { generation := s.generation + 1 }

def idle (now : Nat) (limits : DirectoryCacheLimits) : Bool :=
  s.lastAccess.any fun last => limits.idleTimeout ≤ now - last

def dropIfIdleOrFull (now : Nat) (limits : DirectoryCacheLimits) : State :=
  { if s.idle now limits ∨ limits.maxRecords ≤ s.records then s.reset else s with
    lastAccess := some now }

def forgetEntries (path : Path) : State :=
  match s.entries.lookup path with
  | some l => { s with entries := s.entries.erase path, records := s.records - l.records }
  | none => s

def forgetMetadata (path : Path) : State :=
  match s.metadata.lookup path with
  | some l => { s with metadata := s.metadata.erase path, records := s.records - l.records }
  | none => s

def forget (path : Path) : State := (s.forgetEntries path).forgetMetadata path

def keep (path : Path) (listing : Listing FileSystemEntryInfo) (generation : Nat) : State :=
  if s.generation ≠ generation then s
  else
    let s := s.forget path
    { s with
      records := s.records + listing.records
      entries := s.entries.insert path listing }

/-- The end of `file_system_entries`. -/
def keepMetadata (path : Path) (listing : Listing FileSystemMetadata) (generation : Nat) : State :=
  if s.generation = generation then
    let records := match s.metadata.lookup path with
      | some old => s.records - old.records
      | none => s.records
    { s with
      records := records + listing.records
      metadata := s.metadata.insert path listing }
  else s

def invalidate (path : Path) : State :=
  let s := { s with generation := s.generation + 1 }.forget path
  match parent path with
  | some parent => s.forget parent
  | none => s

/-! ### The count -/

def Counted : Prop :=
  s.records = KeyedMap.total Listing.records s.entries +
    KeyedMap.total Listing.records s.metadata

variable {s}

theorem Counted.reset : s.reset.Counted := rfl

theorem Counted.dropIfIdleOrFull (h : s.Counted) (now : Nat) (limits : DirectoryCacheLimits) :
    (s.dropIfIdleOrFull now limits).Counted := by
  simp only [State.dropIfIdleOrFull, Counted]
  split
  · exact Counted.reset
  · exact h

/-- **The bound**: after any access there are fewer records than the most allowed. -/
theorem records_dropIfIdleOrFull (s : State) (now : Nat) (limits : DirectoryCacheLimits) :
    (s.dropIfIdleOrFull now limits).records < limits.maxRecords := by
  simp only [State.dropIfIdleOrFull]
  split
  · exact limits.maxRecords_pos
  · next h => exact Nat.lt_of_not_le fun hfull => h (.inr hfull)

theorem Counted.forgetEntries (h : s.Counted) (path : Path) : (s.forgetEntries path).Counted := by
  rw [State.forgetEntries]
  split
  · next l hl =>
    have hsplit := KeyedMap.total_eq_add_erase Listing.records hl
    rw [Counted] at h ⊢
    dsimp only
    omega
  · exact h

theorem Counted.forgetMetadata (h : s.Counted) (path : Path) :
    (s.forgetMetadata path).Counted := by
  rw [State.forgetMetadata]
  split
  · next l hl =>
    have hsplit := KeyedMap.total_eq_add_erase Listing.records hl
    rw [Counted] at h ⊢
    dsimp only
    omega
  · exact h

theorem Counted.forget (h : s.Counted) (path : Path) : (s.forget path).Counted :=
  (h.forgetEntries path).forgetMetadata path

theorem Counted.invalidate (h : s.Counted) (path : Path) : (s.invalidate path).Counted := by
  have hbump : { s with generation := s.generation + 1 }.Counted := h
  rw [State.invalidate]
  split
  · exact (hbump.forget path).forget _
  · exact hbump.forget path

/-! ### What is forgotten -/

/-- Nothing is remembered that was not before, and the generation does not go back. -/
structure Within (s s' : State) : Prop where
  entries : ∀ path l, s'.entries.lookup path = some l → s.entries.lookup path = some l
  metadata : ∀ path l, s'.metadata.lookup path = some l → s.metadata.lookup path = some l
  generation : s.generation ≤ s'.generation

variable {s' s'' : State}

theorem Within.refl (s : State) : s.Within s := ⟨fun _ _ h => h, fun _ _ h => h, Nat.le_refl _⟩

theorem Within.trans (h : s.Within s') (h' : s'.Within s'') : s.Within s'' :=
  ⟨fun path l hl => h.entries path l (h'.entries path l hl),
    fun path l hl => h.metadata path l (h'.metadata path l hl),
    Nat.le_trans h.generation h'.generation⟩

theorem within_reset (s : State) : s.Within s.reset where
  entries _ _ h := by cases h
  metadata _ _ h := by cases h
  generation := Nat.le_succ _

theorem within_dropIfIdleOrFull (s : State) (now : Nat) (limits : DirectoryCacheLimits) :
    s.Within (s.dropIfIdleOrFull now limits) := by
  simp only [State.dropIfIdleOrFull]
  split
  · exact { within_reset s with }
  · exact { Within.refl s with }

theorem lookup_forgetEntries (s : State) (path path' : Path) :
    (s.forgetEntries path).entries.lookup path' =
      if path' = path then none else s.entries.lookup path' := by
  rw [State.forgetEntries]
  split
  · exact KeyedMap.lookup_erase_eq ..
  · next hnone =>
    split
    · next heq => rw [heq, hnone]
    · rfl

theorem lookup_forgetMetadata (s : State) (path path' : Path) :
    (s.forgetMetadata path).metadata.lookup path' =
      if path' = path then none else s.metadata.lookup path' := by
  rw [State.forgetMetadata]
  split
  · exact KeyedMap.lookup_erase_eq ..
  · next hnone =>
    split
    · next heq => rw [heq, hnone]
    · rfl

@[simp] theorem metadata_forgetEntries (s : State) (path : Path) :
    (s.forgetEntries path).metadata = s.metadata := by
  rw [State.forgetEntries]
  split <;> rfl

@[simp] theorem entries_forgetMetadata (s : State) (path : Path) :
    (s.forgetMetadata path).entries = s.entries := by
  rw [State.forgetMetadata]
  split <;> rfl

@[simp] theorem generation_forget (s : State) (path : Path) :
    (s.forget path).generation = s.generation := by
  rw [State.forget, State.forgetMetadata, State.forgetEntries]
  split <;> split <;> rfl

theorem lookup_forget (s : State) (path path' : Path) :
    ((s.forget path).entries.lookup path' =
        if path' = path then none else s.entries.lookup path') ∧
      (s.forget path).metadata.lookup path' =
        if path' = path then none else s.metadata.lookup path' := by
  rw [State.forget]
  refine ⟨?_, ?_⟩
  · rw [entries_forgetMetadata, lookup_forgetEntries]
  · rw [lookup_forgetMetadata, metadata_forgetEntries]

theorem within_forget (s : State) (path : Path) : s.Within (s.forget path) := by
  refine ⟨fun path' l hl => ?_, fun path' l hl => ?_, (generation_forget s path).ge⟩
  · rw [(lookup_forget s path path').1] at hl
    split at hl
    · cases hl
    · exact hl
  · rw [(lookup_forget s path path').2] at hl
    split at hl
    · cases hl
    · exact hl

/-- What is remembered of the folder was read after `t`. -/
def Newer (s : State) (path : Path) (t : Nat) : Prop :=
  (∀ l ∈ s.entries.lookup path, t < l.readAt) ∧ ∀ l ∈ s.metadata.lookup path, t < l.readAt

instance (s : State) (path : Path) (t : Nat) : Decidable (s.Newer path t) :=
  inferInstanceAs (Decidable (_ ∧ _))

theorem Newer.within {path : Path} {t : Nat} (h : s.Newer path t) (hw : s.Within s') :
    s'.Newer path t :=
  ⟨fun l hl => h.1 l (hw.entries path l hl), fun l hl => h.2 l (hw.metadata path l hl)⟩

theorem newer_forget (s : State) (path : Path) (t : Nat) : (s.forget path).Newer path t := by
  refine ⟨fun l hl => ?_, fun l hl => ?_⟩
  · rw [(lookup_forget s path path).1, if_pos rfl] at hl
    cases hl
  · rw [(lookup_forget s path path).2, if_pos rfl] at hl
    cases hl

theorem newer_reset (s : State) (path : Path) (t : Nat) : s.reset.Newer path t :=
  ⟨fun _ hl => (by cases hl), fun _ hl => (by cases hl)⟩

theorem within_invalidate (s : State) (path : Path) :
    s.Within (s.invalidate path) ∧ s.generation < (s.invalidate path).generation := by
  have hbump : s.Within { s with generation := s.generation + 1 } :=
    ⟨fun _ _ h => h, fun _ _ h => h, Nat.le_succ _⟩
  have hforget := hbump.trans (within_forget _ path)
  have hlt : s.generation < (State.forget { s with generation := s.generation + 1 } path).generation
      := by rw [generation_forget]; exact Nat.lt_succ_self _
  rw [State.invalidate]
  split
  · exact ⟨hforget.trans (within_forget ..), by rwa [generation_forget]⟩
  · exact ⟨hforget, hlt⟩

theorem newer_invalidate (s : State) {path path' : Path}
    (h : path' = path ∨ parent path = some path') (t : Nat) :
    (s.invalidate path).Newer path' t := by
  rw [State.invalidate]
  split
  · next q hq =>
    rcases h with rfl | h
    · exact (newer_forget ..).within (within_forget ..)
    · cases hq.symm.trans h
      exact newer_forget ..
  · next hnone =>
    rcases h with rfl | h
    · exact newer_forget ..
    · rw [hnone] at h
      cases h

/-! ### What is kept -/

theorem Counted.keep (h : s.Counted) (path : Path) (l : Listing FileSystemEntryInfo) (g : Nat) :
    (s.keep path l g).Counted := by
  rw [State.keep]
  split
  · exact h
  · have hforget := h.forget path
    have hnone : (s.forget path).entries.lookup path = none := by
      rw [(lookup_forget s path path).1, if_pos rfl]
    have hadd := KeyedMap.total_insert_of_lookup_none Listing.records hnone (v := l)
    rw [Counted] at hforget ⊢
    dsimp only
    omega

theorem Counted.keepMetadata (h : s.Counted) (path : Path) (l : Listing FileSystemMetadata)
    (g : Nat) : (s.keepMetadata path l g).Counted := by
  rw [State.keepMetadata]
  split
  · rw [Counted] at h ⊢
    dsimp only
    cases hold : s.metadata.lookup path with
    | none =>
      have hadd := KeyedMap.total_insert_of_lookup_none Listing.records hold (v := l)
      dsimp only
      omega
    | some old =>
      have hsplit := KeyedMap.total_eq_add_erase Listing.records hold
      have hadd := KeyedMap.total_insert_add Listing.records hold (w := l)
      have hle : old.records ≤ s.records := by omega
      show s.records - old.records + l.records = _
      omega
  · exact h

theorem lookup_keep {path path' : Path} {l l' : Listing FileSystemEntryInfo} {g : Nat}
    (h : (s.keep path l g).entries.lookup path' = some l') :
    s.entries.lookup path' = some l' ∨ s.generation = g ∧ path' = path ∧ l' = l := by
  rw [State.keep] at h
  split at h
  · exact .inl h
  · next hg =>
    rw [KeyedMap.lookup_insert_eq] at h
    split at h
    · next hpath => exact .inr ⟨not_not.mp hg, hpath, (Option.some.inj h).symm⟩
    · exact .inl ((within_forget s path).entries path' l' h)

theorem lookup_metadata_keep {path path' : Path} {l : Listing FileSystemEntryInfo}
    {m : Listing FileSystemMetadata} {g : Nat}
    (h : (s.keep path l g).metadata.lookup path' = some m) :
    s.metadata.lookup path' = some m ∧ (s.generation = g → path' ≠ path) := by
  rw [State.keep] at h
  split at h
  · next hg => exact ⟨h, fun heq => absurd heq hg⟩
  · have hlookup := (lookup_forget s path path').2
    rw [show (s.forget path).metadata.lookup path' = some m from h] at hlookup
    split at hlookup
    · cases hlookup
    · next hne => exact ⟨hlookup.symm, fun _ => hne⟩

theorem lookup_keepMetadata {path path' : Path} {m m' : Listing FileSystemMetadata} {g : Nat}
    (h : (s.keepMetadata path m g).metadata.lookup path' = some m') :
    s.metadata.lookup path' = some m' ∨ s.generation = g ∧ path' = path ∧ m' = m := by
  rw [State.keepMetadata] at h
  split at h
  · next hg =>
    rw [KeyedMap.lookup_insert_eq] at h
    split at h
    · next hpath => exact .inr ⟨hg, hpath, (Option.some.inj h).symm⟩
    · exact .inl h
  · exact .inl h

@[simp] theorem entries_keepMetadata (s : State) (path : Path) (m : Listing FileSystemMetadata)
    (g : Nat) : (s.keepMetadata path m g).entries = s.entries := by
  rw [State.keepMetadata]
  split <;> rfl

@[simp] theorem generation_keep (s : State) (path : Path) (l : Listing FileSystemEntryInfo)
    (g : Nat) : (s.keep path l g).generation = s.generation := by
  rw [State.keep]
  split
  · rfl
  · exact generation_forget s path

@[simp] theorem generation_keepMetadata (s : State) (path : Path)
    (m : Listing FileSystemMetadata) (g : Nat) :
    (s.keepMetadata path m g).generation = s.generation := by
  rw [State.keepMetadata]
  split <;> rfl

theorem Newer.keep {path path' : Path} {t : Nat} (h : s.Newer path' t)
    {l : Listing FileSystemEntryInfo} {g : Nat}
    (hl : path' = path → s.generation = g → t < l.readAt) : (s.keep path l g).Newer path' t := by
  refine ⟨fun l' hl' => ?_, fun m hm => h.2 m (lookup_metadata_keep hm).1⟩
  rcases lookup_keep hl' with hl' | ⟨hg, hpath, rfl⟩
  · exact h.1 l' hl'
  · exact hl hpath hg

theorem newer_keep (s : State) {path : Path} {t : Nat} {l : Listing FileSystemEntryInfo}
    (hl : t < l.readAt) : (s.keep path l s.generation).Newer path t := by
  refine ⟨fun l' hl' => ?_, fun m hm => absurd rfl ((lookup_metadata_keep hm).2 rfl)⟩
  rw [State.keep, if_neg (not_not.mpr rfl), KeyedMap.lookup_insert_eq, if_pos rfl] at hl'
  exact Option.some.inj hl' ▸ hl

theorem Newer.keepMetadata {path path' : Path} {t : Nat} (h : s.Newer path' t)
    {m : Listing FileSystemMetadata} {g : Nat}
    (hm : path' = path → s.generation = g → t < m.readAt) :
    (s.keepMetadata path m g).Newer path' t := by
  refine ⟨fun l hl => h.1 l (by rwa [entries_keepMetadata] at hl), fun m' hm' => ?_⟩
  rcases lookup_keepMetadata hm' with hm' | ⟨hg, hpath, rfl⟩
  · exact h.2 m' hm'
  · exact hm hpath hg

/-! ### One listing -/

/-- What is remembered of a folder comes from one listing of it. -/
def OneListing (s : State) : Prop :=
  ∀ path l m, s.entries.lookup path = some l → s.metadata.lookup path = some m →
    l.readAt = m.readAt

theorem OneListing.within (h : s.OneListing) (hw : s.Within s') : s'.OneListing :=
  fun path l m hl hm => h path l m (hw.entries path l hl) (hw.metadata path m hm)

theorem OneListing.keep (h : s.OneListing) (path : Path) (l : Listing FileSystemEntryInfo)
    (g : Nat) : (s.keep path l g).OneListing := by
  intro path' l' m hl' hm
  obtain ⟨hm, hne⟩ := lookup_metadata_keep hm
  rcases lookup_keep hl' with hl' | ⟨hg, hpath, rfl⟩
  · exact h path' l' m hl' hm
  · exact absurd hpath (hne hg)

theorem OneListing.keepMetadata (h : s.OneListing) {path : Path} {m : Listing FileSystemMetadata}
    {g : Nat} (hm : s.generation = g → ∀ l ∈ s.entries.lookup path, l.readAt = m.readAt) :
    (s.keepMetadata path m g).OneListing := by
  intro path' l m' hl hm'
  rw [entries_keepMetadata] at hl
  rcases lookup_keepMetadata hm' with hm' | ⟨hg, rfl, rfl⟩
  · exact h path' l m' hl hm'
  · exact hm hg l hl

end State

end Ferrofin.Directories
