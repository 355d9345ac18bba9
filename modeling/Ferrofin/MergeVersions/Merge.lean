import Ferrofin.Lib.KeyedMap
import Ferrofin.Lib.ModifyFirst
import Ferrofin.Lib.Pointers
import Ferrofin.Util.Paths
import Mathlib.Data.List.Destutter
import Mathlib.Data.List.Sort

/-!
# Merge Versions

What `Merge Versions` reads and never writes: the rows but for their `PrimaryVersionId`, the Tmdb
ids and the configured folders; the movies it looks at (`eligibleItems`), and the library an item
belongs to (`libraryKey`).

`MergeVersionsService` on the `PrimaryVersionId` column: a group is expanded along the pointers
(`expandGroup`) and pointed at one primary (`mergeGroup`); `mergeMovies` heals the links that cross
libraries, groups the movies by library and Tmdb id, and merges the groups that have a member that
is not merged yet.  A hash map gives its groups in any order, which is the order of `visits`.

The rest of what `set_primary_version_id` writes follows from the pointer and is left out.
-/

namespace Ferrofin.MergeVersions

open Lib Util

/-- `BaseItemEntity`, the columns that are read. -/
structure BaseItemEntity where
  id : Nat
  isMovie : Bool
  isVirtualItem : Bool := false
  ownerId : Option Nat := none
  extraType : Option Int := none
  topParentId : Option String := none
  path : Option Path := none
  /-- It has a `Video3DFormat`, or is no `VideoFile`. -/
  demoted : Bool := false
  width : Option Int := none

structure VirtualFolderInfo where
  name : Option String
  locations : List Path
  itemId : Option String

/-- What the server has stored, and how it reads ids and texts. -/
structure Catalog where
  items : List BaseItemEntity
  nodup : (items.map (·.id)).Nodup
  /-- `get_items_with_provider_id("Tmdb")`. -/
  tmdb : Nat → Option String
  locationsExcluded : List Path
  folders : List VirtualFolderInfo
  parseUuid : String → Option Nat
  simple : Nat → String
  toLowercase : Path → Path
  createSortName : String → String

/-! ### Libraries -/

def isSeparator (c : Char) : Bool := c == '/' || c == '\\'

/-- `trim_separators`: the root stays itself. -/
def trimSeparators (path : Path) : Path :=
  if path.rdropWhile isSeparator = [] then path.take 1 else path.rdropWhile isSeparator

/-- `str::len`, in bytes. -/
def byteLength (path : Path) : Nat := (path.map Char.utf8Size).sum

/-- The greatest, of equal ones the last (`Iterator::max_by`). -/
def maxBy {α : Type} (greater : α → α → Bool) (l : List α) : Option α :=
  l.foldl (fun best a => some (match best with
    | some best => if greater best a then best else a
    | none => a)) none

/-- A location holds a path: itself or anything under it, without regard to ASCII case. -/
def holds (path location : Path) : Bool :=
  (path.take location.length).map Char.toLower == location.map Char.toLower &&
    (path.length == location.length || location.getLast?.any isSeparator ||
      (path.drop location.length).head?.any isSeparator)

def VirtualFolderInfo.locationHolding (folder : VirtualFolderInfo) (path : Path) : Option Path :=
  maxBy (fun a b => byteLength b < byteLength a)
    ((folder.locations.map trimSeparators).filter (holds (trimSeparators path)))

namespace Catalog

variable (c : Catalog)

def isCollectionFolder (id : String) (folder : VirtualFolderInfo) : Bool :=
  match folder.itemId.bind c.parseUuid, c.parseUuid id with
  | some own, some top => own = top
  | _, _ => false

def sortNameOf (folder : VirtualFolderInfo) : String := c.createSortName (folder.name.getD "")

def owningLibrary (topParentId : Option String) (path : Option Path) :
    Option VirtualFolderInfo :=
  match topParentId.bind fun top => c.folders.find? (c.isCollectionFolder top) with
  | some folder => some folder
  | none => path.bind fun path =>
    (maxBy (fun a b => byteLength b.1 < byteLength a.1 ||
        byteLength b.1 == byteLength a.1 && c.sortNameOf a.2 < c.sortNameOf b.2)
      (c.folders.filterMap fun f => (f.locationHolding path).map (·, f))).map (·.2)

def libraryKey (item : BaseItemEntity) : String :=
  match (c.owningLibrary item.topParentId item.path).bind fun folder =>
      folder.itemId.bind c.parseUuid with
  | some id => c.simple id
  | none => item.topParentId.getD ""

/-! ### Movies -/

def containsSubPath (parent path : Path) : Bool :=
  let parent := parent.rdropWhile isSeparator
  if parent = [] then false
  else
    (c.toLowercase parent).isPrefixOf (c.toLowercase path) &&
      ((c.toLowercase path).drop (c.toLowercase parent).length).head?.any isSeparator

def inExcludedLocation (path : Option Path) : Bool :=
  path.any fun path => c.locationsExcluded.any (c.containsSubPath · path)

def inInactiveLibrary (path : Option Path) : Bool :=
  ((path.bind parent).filter (· ≠ [])).any fun parent =>
    !(c.folders.flatMap (·.locations)).any fun location =>
      location.map Char.toLower == parent.map Char.toLower || c.containsSubPath location parent

end Catalog

def BaseItemEntity.isOwnedVersion (item : BaseItemEntity) : Bool :=
  item.ownerId.isSome && item.extraType.isNone

def Catalog.eligibleItems (c : Catalog) : List BaseItemEntity :=
  c.items.filter fun item => item.isMovie && !item.isVirtualItem && !item.isOwnedVersion &&
    !c.inExcludedLocation item.path && !c.inInactiveLibrary item.path

def Catalog.retrieveItem (c : Catalog) (id : Nat) : Option BaseItemEntity :=
  c.items.find? (·.id = id)

section Items

variable {c : Catalog} {item other : BaseItemEntity} {id : Nat}

theorem Catalog.retrieveItem_eq_some_iff :
    c.retrieveItem id = some item ↔ item ∈ c.items ∧ item.id = id := by
  constructor
  · intro h
    exact ⟨List.mem_of_find?_eq_some h, by simpa using List.find?_some h⟩
  · rintro ⟨hmem, rfl⟩
    exact find?_key c.nodup hmem

theorem Catalog.retrieveItem_self (h : item ∈ c.items) : c.retrieveItem item.id = some item :=
  retrieveItem_eq_some_iff.mpr ⟨h, rfl⟩

theorem Catalog.item_ext (h : item ∈ c.items) (h' : other ∈ c.items) (hid : item.id = other.id) :
    item = other :=
  Option.some_inj.mp ((retrieveItem_self h).symm.trans ((congrArg _ hid).trans
    (retrieveItem_self h')))

theorem Catalog.mem_items_of_eligible (h : item ∈ c.eligibleItems) : item ∈ c.items :=
  (List.mem_filter.mp h).1

theorem Catalog.isOwnedVersion_of_eligible (h : item ∈ c.eligibleItems) :
    item.isOwnedVersion = false := by
  have hkeep := (List.mem_filter.mp h).2
  simp only [Bool.and_eq_true, Bool.not_eq_true'] at hkeep
  exact hkeep.1.1.2

end Items

structure Links where
  primaryVersionId : Nat → Option Nat
  writes : List (Nat × Option Nat) := []

def Links.setPrimaryVersionId (links : Links) (item : Nat) (primary : Option Nat) : Links where
  primaryVersionId := Function.update links.primaryVersionId item primary
  writes := links.writes ++ [(item, primary)]

/-- The key of an item's place in the order of primaries, plain files first and then the widest,
is less (`min_by_key`). -/
def BaseItemEntity.preferred (a b : BaseItemEntity) : Bool :=
  !a.demoted && b.demoted || a.demoted == b.demoted && b.width.getD 0 < a.width.getD 0

def preferredOf (best : Option (BaseItemEntity × Nat)) (next : BaseItemEntity × Nat) :
    Option (BaseItemEntity × Nat) :=
  match best with
  | some best => some (if next.1.preferred best.1 then next else best)
  | none => some next

def preferredPrimaryVersion (items : List BaseItemEntity) : Nat :=
  (items.zipIdx.foldl preferredOf none).elim 0 (·.2)

namespace Catalog

variable (c : Catalog)

/-! ### Groups of versions -/

def alternates (links : Links) (id : Nat) : List BaseItemEntity :=
  c.items.filter fun alt => links.primaryVersionId alt.id = some id

/-- What is queued when an item comes up: its primary, if it is stored, and its alternates. -/
def neighbours (links : Links) (id : Nat) : List Nat :=
  ((links.primaryVersionId id).filter fun pid => (c.retrieveItem pid).isSome).toList ++
    (c.alternates links id).map (·.id)

def expansion (links : Links) (seed : List Nat) : List Nat :=
  walk (c.neighbours links) (fuelFor (c.items.length + 1) c.items.length seed.length) seed []

def expandGroup (links : Links) (seed : List BaseItemEntity) : List BaseItemEntity × List Nat :=
  let group := ((c.expansion links (seed.map (·.id))).filterMap c.retrieveItem).filter
    fun item => !item.isOwnedVersion
  (group, (group.filter fun item =>
    (c.alternates links item.id).any (·.isOwnedVersion)).map (·.id))

def ownsAlternates (links : Links) (group : List BaseItemEntity) (locals : List Nat)
    (item : BaseItemEntity) : Bool :=
  locals.contains item.id || group.any fun other => links.primaryVersionId other.id = some item.id

def unlinkForeign (links : Links) (group foreign : List BaseItemEntity) : Links :=
  foreign.foldl (fun written item =>
    if (links.primaryVersionId item.id).any fun pid => group.any (·.id = pid) then
      written.setPrimaryVersionId item.id none
    else written) links

def pointAt (links written : Links) (group : List BaseItemEntity) (primary : Nat) : Links :=
  group.foldl (fun written item =>
    if item.id = primary then
      if (links.primaryVersionId item.id).isSome then written.setPrimaryVersionId item.id none
      else written
    else if links.primaryVersionId item.id ≠ some primary then
      written.setPrimaryVersionId item.id (some primary)
    else written) written

/-- The first item that owns alternates and is none itself, else the preferred one. -/
def primaryOf (links : Links) (group : List BaseItemEntity) (locals : List Nat)
    (items : List BaseItemEntity) : Option BaseItemEntity :=
  (items.find? fun item =>
    (links.primaryVersionId item.id).isNone && ownsAlternates links group locals item).or
      items[preferredPrimaryVersion items]?

/-- The given items in the order of their ids, each once. -/
def resolve (ids : List Nat) : List BaseItemEntity :=
  (((ids.filterMap c.retrieveItem).filter fun item => !item.isOwnedVersion).insertionSort
    fun a b => a.id ≤ b.id).destutter fun a b => a.id ≠ b.id

def isForeign (scope : Option String) (item : BaseItemEntity) : Bool :=
  scope.any fun scope => c.libraryKey item ≠ scope

def mergeGroup (ids : List Nat) (scope : Option String) (links : Links) : Links :=
  let items := c.resolve ids
  if items.length < 2 then links
  else
    let (group, locals) := c.expandGroup links items
    let foreign := group.filter (c.isForeign scope)
    let group := group.filter fun item => !c.isForeign scope item
    let written := unlinkForeign links group foreign
    let items := items.filter fun item => group.any (·.id = item.id)
    if items.length < 2 then written
    else
      match primaryOf links group locals items with
      | some primary => pointAt links written group primary.id
      | none => written

/-! ### All movies -/

def libraryOf (id : Nat) : Option String :=
  ((c.eligibleItems.find? (·.id = id)).map c.libraryKey).filter (· ≠ "")

def primaryLibrary (pid : Nat) : Option String :=
  (c.libraryOf pid).or ((c.retrieveItem pid).map c.libraryKey)

def isHealed (links : Links) (movie : BaseItemEntity) : Bool :=
  match c.libraryOf movie.id, links.primaryVersionId movie.id with
  | some library, some pid =>
    (c.tmdb movie.id).isSome && (c.primaryLibrary pid).any fun primaryLibrary =>
      library ≠ primaryLibrary
  | _, _ => false

/-- The self-heal before grouping, and who was healed. -/
def heal (links : Links) : Links × List Nat :=
  c.eligibleItems.foldl (fun (written, healed) movie =>
    if c.isHealed links movie then
      (written.setPrimaryVersionId movie.id none, healed ++ [movie.id])
    else (written, healed)) (links, [])

def addToGroup (links : Links) (healed : List Nat)
    (groups : KeyedMap (String × String) (List Nat × Bool)) (movie : BaseItemEntity) :
    KeyedMap (String × String) (List Nat × Bool) :=
  match c.tmdb movie.id with
  | none => groups
  | some value =>
    let key := ((c.libraryOf movie.id).getD "", value)
    let entry := (groups.lookup key).getD ([], false)
    groups.insert key (entry.1 ++ [movie.id],
      entry.2 || (links.primaryVersionId movie.id).isNone || healed.contains movie.id)

/-- The groups; the movies are as they were read before the heal. -/
def groups (links : Links) (healed : List Nat) :
    KeyedMap (String × String) (List Nat × Bool) :=
  c.eligibleItems.foldl (c.addToGroup links healed) ∅

/-- The groups that are merged: of several members, of which one is not merged. -/
def duplicates (links : Links) (healed : List Nat) : List (String × List Nat) :=
  ((c.groups links healed).entries.filter fun e => 1 < e.2.1.length && e.2.2).map
    fun e => (e.1.1, e.2.1)

def mergeGroups (links : Links) (visits : List (String × List Nat)) : Links :=
  visits.foldl (fun links visit => c.mergeGroup visit.2 (some visit.1) links) links

def mergeMovies (links : Links) (visits : List (String × List Nat)) : Links :=
  c.mergeGroups (c.heal links).1 visits

def Order (links : Links) (visits : List (String × List Nat)) : Prop :=
  visits.Perm (c.duplicates links (c.heal links).2)

end Catalog

end Ferrofin.MergeVersions
