import Ferrofin.Lib.ModifyFirst
import Ferrofin.Lib.Pointers
import Ferrofin.Util.Paths
import Ferrofin.Util.Text

/-!
# What a user may see

`item_visibility`: the rows a request has loaded (`Context`), the policy of the user, and whether
an item is visible, alone (`standalone`) or in a folder (`visible`), or allowed by its tags and its
rating (`parental`).  A hierarchy that turns in a circle is an error.

What is read of a row's JSON data are its fields; the cleaning of tags, the rating tables, the
spellings of ids and of categories, and virtual paths are those of the `Service`.
-/

namespace Ferrofin.Visibility

open Lib Util

inductive BaseItemKind where
  | aggregateFolder | audio | audioBook | basePluginFolder | book | boxSet | channel
  | channelFolderItem | collectionFolder | episode | folder | genre | manualPlaylistsFolder
  | movie | liveTvChannel | liveTvProgram | musicAlbum | musicArtist | musicGenre | musicVideo
  | person | photo | photoAlbum | playlist | playlistsFolder | program | recording | season
  | series | studio | trailer | tvChannel | tvProgram | userRootFolder | userView | video | year
  | unrecognized (value : Int)
deriving DecidableEq

inductive UnratedItem where
  | movie | trailer | series | music | book | liveTvChannel | liveTvProgram | channelContent
  | other
  | unrecognized (value : Int)
deriving DecidableEq

def unratedKinds : List (BaseItemKind × UnratedItem) :=
  [(.movie, .movie), (.boxSet, .movie), (.series, .series), (.season, .series),
    (.episode, .series), (.trailer, .trailer), (.book, .book), (.audioBook, .book),
    (.musicVideo, .music), (.musicAlbum, .music), (.musicArtist, .music),
    (.liveTvChannel, .liveTvChannel), (.tvChannel, .liveTvChannel),
    (.liveTvProgram, .liveTvProgram)]

def unratedItem (kind : BaseItemKind) (channelSource : Bool) : UnratedItem :=
  match unratedKinds.find? (·.1 = kind) with
  | some (_, value) => value
  | none =>
    if channelSource || kind = .channel then .channelContent
    else if kind = .audio then .music
    else .other

/-- What is read of a row's `data`. -/
structure ItemData where
  physicalLocationsList : List Path := []
  openAccess : Bool := false
  ownerUserId : Option Nat := none
  shares : List (Option Nat) := []
  libraryFolderIds : Option (List Nat) := none

/-- `BaseItemEntity`, the columns that are read; ids are parsed, and a nil one is none. -/
structure BaseItemEntity where
  id : Nat
  kind : BaseItemKind
  parentId : Option Nat := none
  ownerId : Option Nat := none
  channelId : Option Nat := none
  seasonId : Option Nat := none
  seriesId : Option Nat := none
  path : Option Path := none
  tags : Option String := none
  customRating : Option String := none
  officialRating : Option String := none
  preferredMetadataCountryCode : Option String := none
  isFolder : Bool := false
  data : ItemData := {}

structure LibraryOptions where
  enabled : Bool
  pathInfos : List Path
  metadataCountryCode : Option String

structure ParentalRatingScore where
  score : Int
  subScore : Option Int

/-- The preferences that are read (`PreferenceKind`). -/
inductive PreferenceKind where
  | blockedTags | blockedChannels | blockedMediaFolders | enabledChannels | enabledFolders
  | blockUnratedItems | allowedTags

/-- The permissions that are read (`PermissionKind`). -/
inductive PermissionKind where
  | enableAllChannels | enableAllFolders

/-- What a user may do: the rating of the user's row, the permissions and the preferences. -/
structure Policy where
  maxParentalRatingScore : Option Int := none
  maxParentalRatingSubScore : Option Int := none
  permission : PermissionKind → Option Bool := fun _ => none
  preference : PreferenceKind → List String := fun _ => []

structure Service where
  dataPath : Path
  expand : Path → Path
  toLowercase : Path → Path
  getCleanValue : String → String
  getRatingScore : String → Option String → Option ParentalRatingScore
  parseDotnetGuid : String → Option Nat
  parseUnrated : String → Option UnratedItem

/-- `Context`, but for the policy: what is loaded for a user. -/
structure Context where
  service : Service
  userId : Option Nat
  rows : List BaseItemEntity
  nodup : (rows.map (·.id)).Nodup
  libraryIds : List Nat
  links : Nat → List Nat
  options : Nat → Option LibraryOptions
  playlists : Nat → Option Bool

def nonempty (value : Option String) : Option String := value.filter (· ≠ "")

def nonemptyPath (path : Option Path) : Option Path := path.filter (· ≠ [])

def eqIgnoreCase (a b : Path) : Bool := a.map Char.toLower == b.map Char.toLower

namespace Context

variable (c : Context)

def row (id : Nat) : Option BaseItemEntity := c.rows.find? (·.id = id)

/-! ### The hierarchy -/

/-- The next row up, where the display chain of an episode goes by its season and series. -/
def above (display : Bool) (item : BaseItemEntity) : Option BaseItemEntity :=
  (if display then
    match item.kind with
    | .episode => item.seasonId
    | .season => item.seriesId
    | _ => item.parentId
  else item.parentId).bind c.row

/-- The loop of `chain`; more steps than there are rows would meet a row twice. -/
def chainLoop (display : Bool) : Nat → List Nat → BaseItemEntity →
    Except String (List BaseItemEntity)
  | 0, _, _ => .error "cycle in item visibility ancestry"
  | fuel + 1, seen, current =>
    match c.above display current with
    | none => .ok []
    | some parent =>
      if parent.id ∈ seen then .error "cycle in item visibility ancestry"
      else (chainLoop display fuel (parent.id :: seen) parent).map (parent :: ·)

def chain (item : BaseItemEntity) (display : Bool) : Except String (List BaseItemEntity) :=
  (c.chainLoop display (c.rows.length + 1) [item.id] item).map (item :: ·)

def librariesAt (current : BaseItemEntity) : List Nat :=
  match nonemptyPath current.path with
  | none => []
  | some path => c.libraryIds.filter fun id =>
    (c.row id).any (fun row => row.path.any (eqIgnoreCase · path) ||
      row.data.physicalLocationsList.any fun p => eqIgnoreCase (c.service.expand p) path) ||
    (c.options id).any fun options => options.pathInfos.any (eqIgnoreCase · path)

def librariesLoop : Nat → List Nat → BaseItemEntity → Except String (List Nat)
  | 0, _, _ => .error "cycle in item visibility ownership"
  | fuel + 1, seen, current =>
    if current.id ∈ seen then .error "cycle in item visibility ownership"
    else if current.kind = .collectionFolder then .ok [current.id]
    else
      let parent := current.parentId.bind c.row
      if parent.any (·.kind = .aggregateFolder) then .ok (c.librariesAt current)
      else
        match parent.or (current.ownerId.bind c.row) with
        | none => .ok (c.librariesAt current)
        | some next => librariesLoop fuel (current.id :: seen) next

def libraries (item : BaseItemEntity) : Except String (List Nat) :=
  c.librariesLoop (c.rows.length + 1) [] item

def inDataDirectory (item : BaseItemEntity) : Bool :=
  (nonemptyPath item.path).any fun path =>
    let slashes := fun (p : Path) => p.map fun ch => if ch = '\\' then '/' else ch
    let base := c.service.toLowercase ((slashes c.service.dataPath).rdropWhile (· == '/'))
    base ≠ [] && (base ++ ['/']).isPrefixOf (c.service.toLowercase (slashes path))

def sharedPlaylist (item : BaseItemEntity) : Bool :=
  item.kind = .playlist && (c.inDataDirectory item ||
    (nonemptyPath item.path).isNone && (c.playlists item.id).isSome)

def modernBoxset (item : BaseItemEntity) : Bool :=
  item.kind = .boxSet && ((nonemptyPath item.path).isNone || c.inDataDirectory item ||
    !(c.links item.id).isEmpty)

/-! ### Tags and ratings -/

variable (p : Policy)

/-- A preference's values as ids; those that do not parse are dropped. -/
def parsed (kind : PreferenceKind) : List Nat :=
  (p.preference kind).filterMap c.service.parseDotnetGuid

def folderAllowed (id : Nat) (channel : Bool) : Bool :=
  let (blocked, enabled, all) :=
    if channel then
      (PreferenceKind.blockedChannels, PreferenceKind.enabledChannels,
        PermissionKind.enableAllChannels)
    else (.blockedMediaFolders, .enabledFolders, .enableAllFolders)
  if (c.parsed p blocked) ≠ [] then !(c.parsed p blocked).contains id
  else (p.permission all).getD false || (c.parsed p enabled).contains id

def tags (parents : List BaseItemEntity) (libraries : List Nat) : List String :=
  ((parents ++ libraries.filterMap c.row).flatMap fun row =>
    (row.tags.map fun tags => tags.splitOn "|").getD []).map c.service.getCleanValue

def hasTag (list tags : List String) : Bool :=
  (list.filter fun t => trim t ≠ "").any fun t => tags.contains (c.service.getCleanValue t)

def tagsRefuse (item : BaseItemEntity) (parents : List BaseItemEntity) (libraries : List Nat)
    (skipAllowed : Bool) : Bool :=
  let blocked := p.preference .blockedTags
  let allowed := p.preference .allowedTags
  (!blocked.isEmpty || !allowed.isEmpty) &&
    (c.hasTag blocked (c.tags parents libraries) ||
      !skipAllowed &&
        !(match ((parents[1]?).getD item).kind with
          | .userRootFolder | .aggregateFolder | .userView => true
          | _ => false) &&
        !allowed.isEmpty && !c.hasTag allowed (c.tags parents libraries))

def metadataCountry (item : BaseItemEntity) : Except String (Option String) := do
  let parents ← c.chain item false
  let libraries ← c.libraries item
  return ((parents.findSome? fun row => nonempty row.preferredMetadataCountryCode).or
    ((libraries.filterMap c.row).findSome? fun row =>
      nonempty row.preferredMetadataCountryCode)).or
    ((libraries.filterMap c.options).findSome? fun options =>
      nonempty options.metadataCountryCode)

def ratingScore (item : BaseItemEntity) : Except String (Option ParentalRatingScore) := do
  let display ← c.chain item true
  let rating := (display.findSome? fun row => nonempty row.customRating).or
    (display.findSome? fun row => nonempty row.officialRating)
  let country ← c.metadataCountry item
  return rating.bind fun r => c.service.getRatingScore r country

def blockUnrated (item : BaseItemEntity) : Bool :=
  if item.kind = .season then false
  else if item.kind ∉ [.series, .musicAlbum, .boxSet] ∧ (item.isFolder ∨ item.kind ∈
      [.person, .genre, .musicGenre, .studio, .year, .musicArtist]) then false
  else
    ((p.preference .blockUnratedItems).filterMap c.service.parseUnrated).contains
      (unratedItem item.kind item.channelId.isSome)

def ratingAllows (item : BaseItemEntity) (score : Option ParentalRatingScore) : Bool :=
  match score with
  | none => !c.blockUnrated p item
  | some score =>
    match p.maxParentalRatingScore with
    | none => true
    | some max =>
      if score.score ≠ max then score.score < max
      else p.maxParentalRatingSubScore.all fun max => score.subScore.getD 0 ≤ max

def parental (item : BaseItemEntity) (skipAllowed : Bool) : Except String Bool := do
  let parents ← c.chain item false
  let libraries ← c.libraries item
  if c.tagsRefuse p item parents libraries skipAllowed then return false
  else return c.ratingAllows p item (← c.ratingScore item)

def hasParentalAllowedChild (item : BaseItemEntity) : Except String Bool :=
  let members := (c.links item.id).filterMap c.row
  if p.maxParentalRatingScore.isNone || members.isEmpty then .ok true
  else members.anyM fun member => c.parental p member true

/-! ### Visibility -/

def sharedWith (item : BaseItemEntity) : Bool :=
  (c.playlists item.id).getD (item.data.openAccess || item.data.ownerUserId = c.userId ||
    item.data.shares.any (· = c.userId))

def collectionMembers (item : BaseItemEntity) : List BaseItemEntity :=
  let next := fun id => if (c.row id).any (·.kind = .boxSet) then c.links id else []
  let degree := ((c.rows.map fun row => (c.links row.id).length).foldl max 0)
  let ids := c.rows.flatMap (fun row => row.id :: c.links row.id)
  ((walk next (fuelFor degree ids.length (c.links item.id).length) (c.links item.id)
    [item.id]).filterMap c.row).filter (·.kind ≠ .boxSet)

/-- The libraries of a collection: those its data names, else those of its members. -/
def collectionLibraries (item : BaseItemEntity) : Except String (List Nat) :=
  match item.data.libraryFolderIds with
  | some ids => .ok ids
  | none => return (← (c.collectionMembers item).mapM c.libraries).flatten

/-- `visible`; it calls itself on the libraries of a collection. -/
def visible : Nat → BaseItemEntity → Bool → Except String Bool
  | 0, _, _ => .error "stack overflow"
  | fuel + 1, item, skipAllowed =>
    if c.sharedPlaylist item then
      if c.sharedWith item then c.hasParentalAllowedChild p item else .ok false
    else if item.kind = .collectionFolder && (!c.folderAllowed p item.id false ||
        (c.options item.id).any (!·.enabled)) then .ok false
    else if item.kind = .channel && !c.folderAllowed p item.id true then .ok false
    else do
      if !(← c.parental p item (skipAllowed || item.kind = .person)) then return false
      else if c.modernBoxset item then
        if (c.links item.id).isEmpty then return true
        else
          let libraries ← c.collectionLibraries item
          if libraries.isEmpty then return true
          else
            let accessible ← (libraries.filterMap c.row).mapM fun row => visible fuel row false
            if accessible.any id then c.hasParentalAllowedChild p item else return false
      else if item.kind = .playlist then c.hasParentalAllowedChild p item
      else return true

def isVisible (item : BaseItemEntity) (skipAllowed : Bool) : Except String Bool :=
  c.visible p (c.rows.length + 1) item skipAllowed

/-- `standalone`, the parents. -/
def parentsVisible : List BaseItemEntity → Except String Bool
  | [] => .ok true
  | parent :: parents => do
    if !(← c.isVisible p parent true) then return false
    else parentsVisible parents

def standalone (item : BaseItemEntity) : Except String Bool := do
  if item.kind = .userRootFolder then return true
  else if !(← c.isVisible p item false) then return false
  else if c.sharedPlaylist item || c.modernBoxset item then return true
  else
    let chain ← c.chain item false
    if !(← c.parentsVisible p chain.tail) then return false
    else
      match item.channelId.filter fun _ =>
          item.kind ∉ [.liveTvProgram, .liveTvChannel, .tvChannel] with
      | some channelId =>
        match c.row channelId with
        | some channel => c.isVisible p channel false
        | none => .error "missing item channel"
      | none =>
        if item.kind = .channel then return true
        else if (nonemptyPath (chain.getLast?.bind (·.path))).isNone then return true
        else
          let libraries ← c.libraries item
          return libraries.isEmpty || libraries.any fun id => c.folderAllowed p id false

end Context

end Ferrofin.Visibility
