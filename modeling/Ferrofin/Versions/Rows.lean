import Ferrofin.Lib.KeyedMap
import Ferrofin.Lib.Pointers
import Mathlib.Data.List.Dedup
import Mathlib.Data.List.Induction
import Mathlib.Order.Lattice

/-!
# A video's version group

Every version of a video names its primary.  `VersionRows.load` reads the rows that the groups of
some queried items can reach: up from each of them (`climb`), then down, a level at a time
(`descend`).  `itemsForMediaSources` composes one item's group from these rows.

Both ways end: a round reads rows that were not read before, or it is the last but one.

`VersionStore` is what is stored, `VersionRowReader` a reader of it, which may list the rows in any
order.  A read that fails is not modelled: then `load` fails.
-/

namespace Ferrofin.Versions

open Lib
open List (foldl_append foldl_cons foldl_nil mem_append mem_singleton)

/-- What version groups read of a `BaseItemEntity`; `localAlternateVersions` are the paths that its
`Data` holds under that key. -/
structure BaseItemEntity (ι : Type*) where
  id : ι
  primaryVersionId : Option ι
  ownerId : Option ι
  extraType : Option ℤ
  path : Option String
  sortName : Option String
  localAlternateVersions : List String
deriving DecidableEq

/-- The values of `MediaSourceType` that a version may have. -/
inductive MediaSourceType where
  | default
  | grouping
deriving DecidableEq

structure VersionStore (ι : Type*) where
  rows : List (BaseItemEntity ι)
  placeholder : ι
  eq_of_id : ∀ row ∈ rows, ∀ row' ∈ rows, row.id = row'.id → row = row'
  placeholder_root : ∀ row ∈ rows, row.id = placeholder → row.primaryVersionId = none

variable {ι : Type*} [LinearOrder ι]

/-- `VersionRowReader`: reads rows by their ids, and by the id that they name as their primary,
flagged where they have versions of their own. -/
structure VersionRowReader (store : VersionStore ι) where
  rowsById : List ι → List (BaseItemEntity ι)
  rowsByPrimaryFlagged : List ι → KeyedMap ι (List (BaseItemEntity ι × Bool))
  mem_rowsById : ∀ ids row, row ∈ rowsById ids ↔ row ∈ store.rows ∧ row.id ∈ ids
  exists_found : ∀ ids primary row,
    (∃ flag, (row, flag) ∈ ((rowsByPrimaryFlagged ids).lookup primary).getD []) ↔
      primary ∈ ids ∧ row ∈ store.rows ∧ row.primaryVersionId = some primary ∧
        row.id ≠ store.placeholder ∧ row.id ≠ primary
  flagged : ∀ ids primary row flag,
    (row, flag) ∈ ((rowsByPrimaryFlagged ids).lookup primary).getD [] →
      (∃ version ∈ store.rows, version.primaryVersionId = some row.id ∧ version.id ≠ row.id) →
      flag = true

/-- The rows by their key, in their order: `entry(key).or_default().push(row)`. -/
def pushAll {ν : Type*} (rows : List (ι × ν)) : KeyedMap ι (List ν) :=
  rows.foldl (fun m e => m.insert e.1 ((m.lookup e.1).getD [] ++ [e.2])) ∅

theorem mem_pushAll {ν : Type*} (rows : List (ι × ν)) {key : ι} {row : ν} :
    row ∈ ((pushAll rows).lookup key).getD [] ↔ (key, row) ∈ rows := by
  induction rows using List.reverseRecOn with
  | nil => simp [pushAll]
  | append_singleton rows e ih =>
    rw [pushAll, foldl_append, foldl_cons, foldl_nil, ← pushAll,
      KeyedMap.lookup_insert_eq, mem_append, mem_singleton, ← ih]
    by_cases hkey : key = e.1
    · subst hkey
      rw [if_pos rfl, Option.getD_some, mem_append, mem_singleton, Prod.ext_iff]
      simp only [true_and]
    · rw [if_neg hkey, Prod.ext_iff, iff_false_intro hkey, false_and, or_false]

def VersionStore.hasVersions (store : VersionStore ι) (row : BaseItemEntity ι) : Bool :=
  store.rows.any fun version => version.primaryVersionId = some row.id ∧ version.id ≠ row.id

def VersionStore.rowsByPrimaryFlagged (store : VersionStore ι) (ids : List ι) :
    KeyedMap ι (List (BaseItemEntity ι × Bool)) :=
  pushAll (store.rows.filterMap fun row =>
    (row.primaryVersionId.filter fun primary =>
        primary ∈ ids ∧ row.id ≠ store.placeholder ∧ row.id ≠ primary).map
      (·, row, store.hasVersions row))

theorem VersionStore.mem_rowsByPrimaryFlagged (store : VersionStore ι) {ids : List ι}
    {primary : ι} {row : BaseItemEntity ι} {flag : Bool} :
    (row, flag) ∈ ((store.rowsByPrimaryFlagged ids).lookup primary).getD [] ↔
      (primary ∈ ids ∧ row ∈ store.rows ∧ row.primaryVersionId = some primary ∧
        row.id ≠ store.placeholder ∧ row.id ≠ primary) ∧ store.hasVersions row = flag := by
  rw [rowsByPrimaryFlagged, mem_pushAll, List.mem_filterMap]
  simp only [Option.map_eq_some_iff, Option.filter_eq_some_iff, decide_eq_true_eq, Prod.mk.injEq]
  constructor
  · rintro ⟨row', hmem, primary', ⟨hname, hids, hne⟩, rfl, rfl, hflag⟩
    exact ⟨⟨hids, hmem, hname, hne⟩, hflag⟩
  · rintro ⟨⟨hids, hmem, hname, hne⟩, hflag⟩
    exact ⟨row, hmem, primary, ⟨hname, hids, hne⟩, rfl, rfl, hflag⟩

def DbVersionReader (store : VersionStore ι) : VersionRowReader store where
  rowsById ids := store.rows.filter (·.id ∈ ids)
  rowsByPrimaryFlagged := store.rowsByPrimaryFlagged
  mem_rowsById ids row := by rw [List.mem_filter, decide_eq_true_eq]
  exists_found ids primary row := by
    simp only [store.mem_rowsByPrimaryFlagged, exists_and_left, exists_eq', and_true]
  flagged ids primary row flag hfound hversions := by
    rw [← ((store.mem_rowsByPrimaryFlagged).mp hfound).2]
    obtain ⟨version, hmem, hversion⟩ := hversions
    exact List.any_eq_true.mpr ⟨version, hmem, decide_eq_true hversion⟩

def isLocalVersionOf (row : BaseItemEntity ι) (primary : ι) : Bool :=
  row.extraType.isNone && row.ownerId == some primary && row.primaryVersionId == some primary

structure VersionRows (ι : Type*) [LinearOrder ι] where
  rows : KeyedMap ι (BaseItemEntity ι) := ∅
  byPrimary : KeyedMap ι (List ι) := ∅
  localOrder : KeyedMap ι (List String) := ∅

/-! ### Reading up -/

/-- What `want` changes: the rows, the ids to read and the rows to climb on from. -/
structure Wants (ι : Type*) [LinearOrder ι] where
  rows : KeyedMap ι (BaseItemEntity ι)
  wanted : List ι := []
  climbing : List (BaseItemEntity ι) := []

def Wants.want (byId : KeyedMap ι (BaseItemEntity ι)) (s : Wants ι) (row : BaseItemEntity ι) :
    Wants ι :=
  match row.primaryVersionId with
  | none => s
  | some primary =>
    if primary = row.id ∨ primary ∈ s.rows then s
    else match byId.lookup primary with
      | some stored =>
        { s with rows := s.rows.insert primary stored, climbing := s.climbing ++ [stored] }
      | none => if primary ∈ s.wanted then s else { s with wanted := s.wanted ++ [primary] }

def insertRows (rows : KeyedMap ι (BaseItemEntity ι)) (read : List (BaseItemEntity ι)) :
    KeyedMap ι (BaseItemEntity ι) :=
  read.foldl (fun rows row => rows.insert row.id row) rows

def wants (byId rows : KeyedMap ι (BaseItemEntity ι)) (found : List (BaseItemEntity ι)) :
    Wants ι :=
  found.foldl (Wants.want byId) { rows := rows }

/-- What `wants` leads to. -/
structure Wanted (byId rows : KeyedMap ι (BaseItemEntity ι)) (found : List (BaseItemEntity ι))
    (w : Wants ι) : Prop where
  kept : ∀ id row, rows.lookup id = some row → w.rows.lookup id = some row
  added : ∀ id row, w.rows.lookup id = some row →
    rows.lookup id = some row ∨ byId.lookup id = some row ∧ row ∈ w.climbing
  covered : ∀ row ∈ found, ∀ primary, row.primaryVersionId = some primary →
    primary = row.id ∨ primary ∈ w.rows ∨ primary ∈ w.wanted
  wanted : ∀ primary ∈ w.wanted, byId.lookup primary = none ∧ rows.lookup primary = none
  climbing : ∀ row ∈ w.climbing, ∃ id, rows.lookup id = none ∧ w.rows.lookup id = some row ∧
    byId.lookup id = some row

section Wants

variable {byId rows : KeyedMap ι (BaseItemEntity ι)} {found : List (BaseItemEntity ι)}
  {w : Wants ι} {row : BaseItemEntity ι} {id : ι}

theorem mem_rows_iff {rows : KeyedMap ι (BaseItemEntity ι)} :
    id ∈ rows ↔ ∃ row, rows.lookup id = some row := by
  rw [← AList.lookup_isSome, Option.isSome_iff_exists]

theorem Wanted.want (h : Wanted byId rows found w) (row : BaseItemEntity ι) :
    Wanted byId rows (found ++ [row]) (w.want byId row) := by
  -- The rows found before are covered by what is there now.
  have hgrows : ∀ w' : Wants ι, Wanted byId rows found w' →
      (∀ primary, row.primaryVersionId = some primary →
        primary = row.id ∨ primary ∈ w'.rows ∨ primary ∈ w'.wanted) →
      Wanted byId rows (found ++ [row]) w' := by
    refine fun w' h' hrow => { h' with covered := fun row' hrow' primary hprimary => ?_ }
    rcases mem_append.mp hrow' with hrow' | hrow'
    · exact h'.covered row' hrow' primary hprimary
    · rw [mem_singleton] at hrow'
      subst hrow'
      exact hrow primary hprimary
  rw [Wants.want]
  rcases hp : row.primaryVersionId with _ | primary
  · exact hgrows w h fun primary hprimary => by rw [hp] at hprimary; cases hprimary
  dsimp only
  split
  · next hknown =>
    refine hgrows w h fun primary' hprimary' => ?_
    rw [hp] at hprimary'
    cases hprimary'
    exact hknown.imp_right .inl
  next hknown =>
  rw [not_or] at hknown
  have hnone : w.rows.lookup primary = none := AList.lookup_eq_none.mpr hknown.2
  have hfresh : rows.lookup primary = none := by
    rcases hlookup : rows.lookup primary with _ | row'
    · rfl
    · rw [h.kept _ _ hlookup] at hnone
      cases hnone
  rcases hstored : byId.lookup primary with _ | stored
  · dsimp only
    split
    · next hwanted =>
      refine hgrows w h fun primary' hprimary' => ?_
      rw [hp] at hprimary'
      cases hprimary'
      exact .inr (.inr hwanted)
    · refine hgrows _ ⟨h.kept, h.added, fun row' hrow' primary' hprimary' => ?_, ?_, h.climbing⟩
        fun primary' hprimary' => ?_
      · exact (h.covered row' hrow' primary' hprimary').imp_right
          (Or.imp_right fun hmem => List.mem_append_left _ hmem)
      · intro primary' hmem
        rcases mem_append.mp hmem with hmem | hmem
        · exact h.wanted primary' hmem
        · rw [mem_singleton] at hmem
          subst hmem
          exact ⟨hstored, hfresh⟩
      · rw [hp] at hprimary'
        cases hprimary'
        exact .inr (.inr (List.mem_append_right _ (mem_singleton.mpr rfl)))
  · refine hgrows _ ⟨fun id row' hlookup => ?_, fun id row' hlookup => ?_,
      fun row' hrow' primary' hprimary' => ?_, h.wanted, fun row' hrow' => ?_⟩
      fun primary' hprimary' => ?_
    · have hne : id ≠ primary := by
        rintro rfl
        rw [hfresh] at hlookup
        cases hlookup
      rw [KeyedMap.lookup_insert_eq, if_neg hne]
      exact h.kept id row' hlookup
    · rw [KeyedMap.lookup_insert_eq] at hlookup
      split at hlookup
      · next heq =>
        subst heq
        cases hlookup
        exact .inr ⟨hstored, List.mem_append_right _ (mem_singleton.mpr rfl)⟩
      · exact (h.added id row' hlookup).imp_right
          (And.imp_right fun hmem => List.mem_append_left _ hmem)
    · exact (h.covered row' hrow' primary' hprimary').imp_right
        (Or.imp_left fun hmem => (AList.mem_insert _).mpr (.inr hmem))
    · rcases mem_append.mp hrow' with hrow' | hrow'
      · obtain ⟨id, hid, hlookup, hby⟩ := h.climbing row' hrow'
        refine ⟨id, hid, ?_, hby⟩
        have hne : id ≠ primary := by
          rintro rfl
          rw [hnone] at hlookup
          cases hlookup
        rw [KeyedMap.lookup_insert_eq, if_neg hne, hlookup]
      · rw [mem_singleton] at hrow'
        subst hrow'
        exact ⟨primary, hfresh, AList.lookup_insert _, hstored⟩
    · rw [hp] at hprimary'
      cases hprimary'
      exact .inr (.inl ((AList.mem_insert _).mpr (.inl rfl)))

theorem wanted_wants (byId rows : KeyedMap ι (BaseItemEntity ι))
    (found : List (BaseItemEntity ι)) : Wanted byId rows found (wants byId rows found) := by
  induction found using List.reverseRecOn with
  | nil => exact ⟨fun _ _ h => h, fun _ _ h => .inl h, nofun, nofun, nofun⟩
  | append_singleton found row ih =>
    rw [wants, foldl_append]
    exact ih.want row

theorem mem_insertRows {read : List (BaseItemEntity ι)} :
    id ∈ insertRows rows read ↔ id ∈ rows ∨ ∃ row ∈ read, row.id = id := by
  induction read using List.reverseRecOn with
  | nil => simp [insertRows]
  | append_singleton read row ih =>
    rw [insertRows, foldl_append, foldl_cons, foldl_nil, AList.mem_insert,
      show read.foldl (fun rows row => rows.insert row.id row) rows = insertRows rows read from rfl,
      ih]
    simp only [mem_append, mem_singleton]
    grind

theorem lookup_insertRows {read : List (BaseItemEntity ι)}
    (h : (insertRows rows read).lookup id = some row) :
    row ∈ read ∧ row.id = id ∨ rows.lookup id = some row := by
  induction read using List.reverseRecOn with
  | nil => exact .inr h
  | append_singleton read row' ih =>
    rw [insertRows, foldl_append, foldl_cons, foldl_nil,
      KeyedMap.lookup_insert_eq] at h
    split at h
    · next heq =>
      cases h
      exact .inl ⟨List.mem_append_right _ (mem_singleton.mpr rfl), heq.symm⟩
    · exact (ih h).imp_left (And.imp_left (List.mem_append_left _))

variable {store : VersionStore ι} (reader : VersionRowReader store)

def climbable (store : VersionStore ι) (byId : KeyedMap ι (BaseItemEntity ι)) : List ι :=
  store.rows.map (·.id) ++ byId.keys

/-- A round reads a row that was not read before, or it is the last but one. -/
theorem climb_decreases (h : ¬ (w.wanted = [] ∧ w.climbing = []))
    (hw : w = wants byId rows found) :
    2 * (unwalked (climbable store byId)
      (insertRows w.rows (reader.rowsById w.wanted)).keys).length +
        (if w.climbing ++ reader.rowsById w.wanted = [] then 0 else 1) <
      2 * (unwalked (climbable store byId) rows.keys).length + if found = [] then 0 else 1 := by
  have hwants : Wanted byId rows found w := hw ▸ wanted_wants byId rows found
  have hsub : ∀ id ∈ rows.keys, id ∈ (insertRows w.rows (reader.rowsById w.wanted)).keys := by
    intro id hid
    obtain ⟨row, hrow⟩ := mem_rows_iff.mp (AList.mem_keys.mpr hid)
    exact AList.mem_keys.mp
      (mem_insertRows.mpr (.inl (mem_rows_iff.mpr ⟨row, hwants.kept id row hrow⟩)))
  split
  · next hnil =>
    have hfound : found ≠ [] := by
      rintro rfl
      subst hw
      exact h ⟨rfl, rfl⟩
    rw [if_neg hfound]
    have hle := unwalked_le (climbable store byId) hsub
    omega
  · next hne =>
    obtain ⟨row, hrow⟩ := List.exists_mem_of_ne_nil _ hne
    have hlt : (unwalked (climbable store byId)
        (insertRows w.rows (reader.rowsById w.wanted)).keys).length <
        (unwalked (climbable store byId) rows.keys).length := by
      rcases mem_append.mp hrow with hrow | hrow
      · obtain ⟨id, hnone, hlookup, hby⟩ := hwants.climbing row hrow
        refine unwalked_lt_of_mem hsub (a := id) (List.mem_append_right _ ?_) ?_ ?_
        · exact AList.mem_keys.mp (mem_rows_iff.mpr ⟨row, hby⟩)
        · exact fun hmem => AList.lookup_eq_none.mp hnone (AList.mem_keys.mpr hmem)
        · exact AList.mem_keys.mp (mem_insertRows.mpr (.inl (mem_rows_iff.mpr ⟨row, hlookup⟩)))
      · obtain ⟨hstored, hid⟩ := (reader.mem_rowsById _ _).mp hrow
        refine unwalked_lt_of_mem hsub (a := row.id)
          (List.mem_append_left _ (List.mem_map_of_mem hstored)) ?_ ?_
        · exact fun hmem => AList.lookup_eq_none.mp (hwants.wanted _ hid).2
            (AList.mem_keys.mpr hmem)
        · exact AList.mem_keys.mp (mem_insertRows.mpr (.inr ⟨row, hrow, rfl⟩))
    split <;> omega

/-- Up each chain, from the rows that were found: the rows, and the ids of the queried ones and of
those that were read. -/
def climb (byId rows : KeyedMap ι (BaseItemEntity ι)) (keys : List ι)
    (found : List (BaseItemEntity ι)) : KeyedMap ι (BaseItemEntity ι) × List ι :=
  let w := wants byId rows found
  if w.wanted = [] ∧ w.climbing = [] then (w.rows, keys)
  else
    let read := reader.rowsById w.wanted
    climb byId (insertRows w.rows read) (keys ++ read.map (·.id)) (w.climbing ++ read)
termination_by 2 * (unwalked (climbable store byId) rows.keys).length +
  if found = [] then 0 else 1
decreasing_by
  next h => exact climb_decreases reader h rfl

end Wants

/-! ### Reading down -/

namespace VersionRows

def file (out : VersionRows ι) (primary : ι) (row : BaseItemEntity ι) : VersionRows ι :=
  let list := (out.byPrimary.lookup primary).getD []
  { out with
    byPrimary := out.byPrimary.insert primary (if row.id ∈ list then list else list ++ [row.id])
    rows := if row.id ∈ out.rows then out.rows else out.rows.insert row.id row }

def absorb (out : VersionRows ι) (found : KeyedMap ι (List (BaseItemEntity ι × Bool))) :
    VersionRows ι × List ι :=
  let rows := found.entries.flatMap fun e => e.2.map fun (row, flag) => (e.1, row, flag)
  (rows.foldl (fun out (primary, row, _) => out.file primary row) out,
    rows.filterMap fun (_, row, flag) => if flag then some row.id else none)

end VersionRows

def retainNew (known : List ι) (ids : List ι) : List ι × List ι :=
  ids.foldl (fun s id => if id ∈ s.1 then s else (s.1 ++ [id], s.2 ++ [id])) (known, [])

theorem retainNew_spec (known ids : List ι) :
    (∀ id, id ∈ (retainNew known ids).1 ↔ id ∈ known ∨ id ∈ ids) ∧
      ∀ id, id ∈ (retainNew known ids).2 ↔ id ∈ ids ∧ id ∉ known := by
  induction ids using List.reverseRecOn with
  | nil => simp [retainNew]
  | append_singleton ids id ih =>
    obtain ⟨hknown, hnew⟩ := ih
    rw [retainNew, foldl_append, foldl_cons, foldl_nil,
      show ids.foldl _ (known, []) = retainNew known ids from rfl]
    by_cases hmem : id ∈ (retainNew known ids).1
    · rw [if_pos hmem]
      grind
    · rw [if_neg hmem]
      grind

section Descend

variable {store : VersionStore ι} (reader : VersionRowReader store)

theorem exists_of_mem_absorb {out : VersionRows ι}
    {found : KeyedMap ι (List (BaseItemEntity ι × Bool))} {id : ι} :
    id ∈ (out.absorb found).2 ↔ ∃ primary row,
      (row, true) ∈ (found.lookup primary).getD [] ∧ row.id = id := by
  simp only [VersionRows.absorb, List.mem_filterMap, List.mem_flatMap, List.mem_map]
  constructor
  · rintro ⟨_, ⟨e, he, ⟨row, flag⟩, hrow, rfl⟩, hid⟩
    dsimp only at hid
    split at hid
    · next hflag =>
      subst hflag
      refine ⟨e.1, row, ?_, Option.some.inj hid⟩
      rw [AList.mem_lookup_iff.mpr he]
      exact hrow
    · cases hid
  · rintro ⟨primary, row, hrow, rfl⟩
    rcases hlookup : found.lookup primary with _ | rows
    · rw [hlookup] at hrow
      cases hrow
    · rw [hlookup] at hrow
      exact ⟨_, ⟨⟨primary, rows⟩, AList.mem_lookup_iff.mp hlookup, _, hrow, rfl⟩, rfl⟩

theorem descend_decreases {out : VersionRows ι} {known keys : List ι}
    (h : (retainNew known (out.absorb (reader.rowsByPrimaryFlagged keys)).2).2 ≠ []) :
    (unwalked (store.rows.map (·.id))
        (retainNew known (out.absorb (reader.rowsByPrimaryFlagged keys)).2).1).length <
      (unwalked (store.rows.map (·.id)) known).length := by
  obtain ⟨hknown, hnew⟩ := retainNew_spec known (out.absorb (reader.rowsByPrimaryFlagged keys)).2
  obtain ⟨id, hid⟩ := List.exists_mem_of_ne_nil _ h
  obtain ⟨hmem, hfresh⟩ := (hnew id).mp hid
  obtain ⟨primary, row, hrow, rfl⟩ := exists_of_mem_absorb.mp hmem
  have hstored := ((reader.exists_found keys primary row).mp ⟨true, hrow⟩).2.1
  exact unwalked_lt_of_mem (fun id hid => (hknown id).mpr (.inl hid))
    (List.mem_map_of_mem hstored) hfresh ((hknown _).mpr (.inr hmem))

def descend (out : VersionRows ι) (known keys : List ι) : VersionRows ι :=
  let absorbed := out.absorb (reader.rowsByPrimaryFlagged keys)
  let retained := retainNew known absorbed.2
  if retained.2 = [] then absorbed.1
  else descend absorbed.1 retained.1 (retained.2.mergeSort (· ≤ ·))
termination_by (unwalked (store.rows.map (·.id)) known).length
decreasing_by
  next h => exact descend_decreases reader h

def localOwners (out : VersionRows ι) : List ι :=
  (out.byPrimary.entries.filter fun e =>
    e.2.any fun id => (out.rows.lookup id).any (isLocalVersionOf · e.1)).map (·.1)

def VersionRows.load (queried : List (BaseItemEntity ι)) : VersionRows ι :=
  if queried = [] then {}
  else
    let byId := insertRows ∅ queried
    let (rows, keys) := climb reader byId ∅ byId.keys queried
    let keys := (keys.mergeSort (· ≤ ·)).dedup
    let out := descend reader { rows := rows } keys keys
    { out with
      localOrder := (localOwners out).foldl (fun order owner =>
        match (byId.lookup owner).or (out.rows.lookup owner) with
        | some row => order.insert owner row.localAlternateVersions
        | none => order) ∅ }

end Descend

/-! ### Composing a group -/

namespace VersionRows

variable (self : VersionRows ι) (queried : BaseItemEntity ι)

def row (id : ι) : Option (BaseItemEntity ι) :=
  if id = queried.id then some queried else self.rows.lookup id

def versionsOf (video : BaseItemEntity ι) : List (BaseItemEntity ι) :=
  ((self.byPrimary.lookup video.id).getD []).filterMap (self.row queried)

/-- The key that orders local versions: the place of the path. -/
def placeIn (order : List String) (row : BaseItemEntity ι) : Nat :=
  (row.path.bind (order.idxOf? ·)).getD (2 ^ 64 - 1)

def localAlternates (video : BaseItemEntity ι) : List (BaseItemEntity ι) :=
  let locals := (self.versionsOf queried video).filter (isLocalVersionOf · video.id)
  match (self.localOrder.lookup video.id).filter fun _ => 1 < locals.length with
  | none => locals
  | some order => locals.mergeSort fun a b => placeIn order a ≤ placeIn order b

def sortNameLe : Option String → Option String → Bool
  | none, _ => true
  | some _, none => false
  | some a, some b => decide (a ≤ b)

def linkedAlternates (video : BaseItemEntity ι) : List (BaseItemEntity ι) :=
  ((self.versionsOf queried video).filter (!isLocalVersionOf · video.id)).mergeSort
    fun a b => sortNameLe a.sortName b.sortName

end VersionRows

abbrev Items (ι : Type*) := List (BaseItemEntity ι × MediaSourceType)

def Items.add (items : Items ι) (item : BaseItemEntity ι × MediaSourceType) : Items ι :=
  if item.1.id ∈ items.map (·.1.id) then items else items ++ [item]

structure Level (ι : Type*) where
  items : Items ι
  walked : List ι
  next : List ι := []

def Level.version (video : ι) (s : Level ι) (version : BaseItemEntity ι) : Level ι :=
  let type := if isLocalVersionOf version video then .default else .grouping
  let s := { s with items := Items.add s.items (version, type) }
  if version.id ∈ s.walked then s
  else { s with walked := s.walked ++ [version.id], next := s.next ++ [version.id] }

def Level.video (rows : VersionRows ι) (queried : BaseItemEntity ι) (s : Level ι) (video : ι) :
    Level ι :=
  match rows.row queried video with
  | none => s
  | some row =>
    (rows.versionsOf queried row).foldl (Level.version video)
      { s with items := Items.add s.items (row, .default) }

structure Walks (known walked : List ι) (s : Level ι) : Prop where
  walked_iff : ∀ id, id ∈ s.walked ↔ id ∈ walked ∨ id ∈ s.next
  next : ∀ id ∈ s.next, id ∉ walked ∧ id ∈ known

section Walk

variable {self : VersionRows ι} {queried row : BaseItemEntity ι} {known walked : List ι}
  {s : Level ι} {id : ι}

def VersionRows.groupIds (self : VersionRows ι) (queried : BaseItemEntity ι) : List ι :=
  queried.id :: self.rows.values.map (·.id)

theorem mem_groupIds (h : self.row queried id = some row) : row.id ∈ self.groupIds queried := by
  rw [VersionRows.row] at h
  split at h
  · cases h
    exact List.mem_cons_self
  · exact List.mem_cons_of_mem _ (List.mem_map_of_mem (KeyedMap.mem_values_of_lookup h))

theorem mem_versionsOf {version video : BaseItemEntity ι} :
    version ∈ self.versionsOf queried video ↔
      ∃ id ∈ (self.byPrimary.lookup video.id).getD [], self.row queried id = some version :=
  List.mem_filterMap

theorem Walks.version (h : Walks known walked s) (video : ι) {version : BaseItemEntity ι}
    (hknown : version.id ∈ known) : Walks known walked (s.version video version) := by
  rw [Level.version]
  dsimp only
  split
  · exact ⟨h.walked_iff, h.next⟩
  · next hnew =>
    have hfresh : version.id ∉ walked := fun hmem => hnew ((h.walked_iff _).mpr (.inl hmem))
    refine ⟨fun id => ?_, fun id hid => ?_⟩
    · rw [mem_append, mem_append, h.walked_iff, or_assoc]
    · rcases mem_append.mp hid with hid | hid
      · exact h.next id hid
      · rw [mem_singleton.mp hid]
        exact ⟨hfresh, hknown⟩

theorem Walks.versions (h : Walks known walked s) (video : ι)
    {versions : List (BaseItemEntity ι)} (hknown : ∀ version ∈ versions, version.id ∈ known) :
    Walks known walked (versions.foldl (Level.version video) s) := by
  induction versions generalizing s with
  | nil => exact h
  | cons version versions ih =>
    exact ih (h.version video (hknown version List.mem_cons_self))
      fun version' hmem => hknown version' (List.mem_cons_of_mem _ hmem)

theorem Walks.video (h : Walks (self.groupIds queried) walked s) (video : ι) :
    Walks (self.groupIds queried) walked (s.video self queried video) := by
  rw [Level.video]
  split
  · exact h
  · next row _ =>
    have hs : Walks (self.groupIds queried) walked
        { s with items := Items.add s.items (row, .default) } := ⟨h.walked_iff, h.next⟩
    refine hs.versions video fun version hversion => ?_
    obtain ⟨id, -, hrow⟩ := mem_versionsOf.mp hversion
    exact mem_groupIds hrow

def walkLevel (self : VersionRows ι) (queried : BaseItemEntity ι) (items : Items ι)
    (walked level : List ι) : Level ι :=
  level.foldl (Level.video self queried) ⟨items, walked, []⟩

theorem walks_walkLevel (items : Items ι) (walked level : List ι) :
    Walks (self.groupIds queried) walked (walkLevel self queried items walked level) := by
  have hvideos : ∀ (level : List ι) (s : Level ι), Walks (self.groupIds queried) walked s →
      Walks (self.groupIds queried) walked (level.foldl (Level.video self queried) s) := by
    intro level
    induction level with
    | nil => exact fun _ h => h
    | cons video level ih => exact fun s h => ih _ (h.video video)
  exact hvideos level _ ⟨fun id => by simp, nofun⟩

theorem walk_decreases {items : Items ι} {walked level : List ι} (hne : level ≠ [])
    (hs : s = walkLevel self queried items walked level) :
    2 * (unwalked (self.groupIds queried) s.walked).length + (if s.next = [] then 0 else 1) <
      2 * (unwalked (self.groupIds queried) walked).length + if level = [] then 0 else 1 := by
  have hwalks : Walks (self.groupIds queried) walked s := hs ▸ walks_walkLevel items walked level
  have hsub : ∀ id ∈ walked, id ∈ s.walked := fun id hid => (hwalks.walked_iff id).mpr (.inl hid)
  rw [if_neg hne]
  split
  · have hle := unwalked_le (self.groupIds queried) hsub
    omega
  · next hnext =>
    obtain ⟨id, hid⟩ := List.exists_mem_of_ne_nil _ hnext
    obtain ⟨hfresh, hknown⟩ := hwalks.next id hid
    have hlt := unwalked_lt_of_mem hsub hknown hfresh ((hwalks.walked_iff id).mpr (.inr hid))
    omega

variable (self queried)

/-- The levels of `items_for_media_sources`. -/
def walkLevels (items : Items ι) (walked level : List ι) : Items ι :=
  if level = [] then items
  else
    let s := walkLevel self queried items walked level
    walkLevels s.items s.walked s.next
termination_by 2 * (unwalked (self.groupIds queried) walked).length + if level = [] then 0 else 1
decreasing_by
  next h => exact walk_decreases h rfl

/-- The primary of a row that was read, where it was read too. -/
def VersionRows.knownPrimary (id : ι) : Option ι :=
  ((self.row queried id).bind (·.primaryVersionId)).filter fun primary =>
    (self.row queried primary).isSome

theorem mem_of_knownPrimary {self : VersionRows ι} {queried : BaseItemEntity ι} {primary : ι}
    (h : self.knownPrimary queried id = some primary) :
    primary ∈ queried.id :: self.rows.keys := by
  have hsome := (Option.filter_eq_some_iff.mp h).2
  rw [VersionRows.row] at hsome
  split at hsome
  · next heq =>
    rw [heq]
    exact List.mem_cons_self
  · exact List.mem_cons_of_mem _ (AList.mem_keys.mp (AList.lookup_isSome.mp hsome))

/-- The loop of `chain_root`. -/
def VersionRows.chainFrom (current : ι) (seen : List ι) : ι :=
  match _h : self.knownPrimary queried current with
  | none => current
  | some primary => if primary ∈ seen then current else chainFrom primary (seen ++ [primary])
termination_by (unwalked (queried.id :: self.rows.keys) seen).length
decreasing_by
  next hnew => exact unwalked_lt (mem_of_knownPrimary _h) hnew

def VersionRows.chainRoot : ι := self.chainFrom queried queried.id [queried.id]

def VersionRows.primaryOf : Option (BaseItemEntity ι) :=
  (queried.primaryVersionId.filter (· ≠ queried.id)).bind (self.row queried)

def VersionRows.grouped : Items ι :=
  (queried, .default) :: (self.linkedAlternates queried queried).map (·, .grouping) ++
    (self.primaryOf queried).elim [] fun primary =>
      let linked := self.linkedAlternates queried primary
      let type := if queried.id ∈ linked.map (·.id) then MediaSourceType.grouping else .default
      (primary, type) :: linked.map (·, .grouping)

def VersionRows.locals : Items ι :=
  (self.grouped queried).flatMap fun item =>
    (self.localAlternates queried item.1).map (·, .default)

/-- Those of them that are not there yet, one after another. -/
def VersionRows.firstItems : Items ι :=
  (self.grouped queried ++ self.locals queried).foldl Items.add []

def VersionRows.itemsForMediaSources : Items ι :=
  walkLevels self queried (self.firstItems queried) [self.chainRoot queried]
    [self.chainRoot queried]

def VersionRows.allVersionIds : List ι := (self.itemsForMediaSources queried).map (·.1.id)

end Walk

end Ferrofin.Versions
