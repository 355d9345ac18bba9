import Ferrofin.Metadata.Blob
import Ferrofin.Metadata.People
import Ferrofin.Metadata.ProviderIds
import Ferrofin.Visibility.Context

/-!
# The metadata merge

`mergeData` merges what a provider found into an item, or an item into what was found; a refresh
does both (`mergeRefresh`).  It merges field by field, so what becomes of a field is the refresh of
its rule (`mergeRefresh_eq`).
-/

namespace Ferrofin.Metadata

open Visibility (BaseItemKind)
open Lib Util

inductive MetadataField where
  | cast | genres | productionLocations | studios | tags | name | overview | runtime
  | officialRating
  | unrecognized (value : ℤ)
deriving DecidableEq

/-- `BaseItemEntity`, the columns that are merged.  Of the type's name its kind is read; instants
are ticks, and ratings are only copied. -/
structure BaseItemEntity (ω : Type*) where
  kind : Option BaseItemKind
  name : Option Text := none
  originalTitle : Option Text := none
  originalLanguage : Option Text := none
  communityRating : Option ℚ := none
  endDate : Option ℤ := none
  genres : Option Text := none
  indexNumber : Option ℤ := none
  officialRating : Option Text := none
  customRating : Option Text := none
  tagline : Option Text := none
  overview : Option Text := none
  parentIndexNumber : Option ℤ := none
  premiereDate : Option ℤ := none
  productionYear : Option ℤ := none
  runTimeTicks : Option ℤ := none
  studios : Option Text := none
  tags : Option Text := none
  productionLocations : Option Text := none
  albumArtists : Option Text := none
  criticRating : Option ℚ := none
  forcedSortName : Option Text := none
  data : Option ω := none
  isLocked : Bool := false
  dateCreated : Option ℤ := none
  dateModified : Option ℤ := none
  preferredMetadataCountryCode : Option Text := none
  preferredMetadataLanguage : Option Text := none
  artists : Option Text := none
  album : Option Text := none
  seriesName : Option Text := none

structure MetadataResult (ω : Type*) where
  item : BaseItemEntity ω
  people : Option (List PeopleEntity) := none
  providerIds : List (Text × Text) := []
  lockedFields : List MetadataField := []

/-- The libraries that the merge uses: Unicode's mappings and JSON. -/
structure Platform (ω : Type*) where
  upperInvariant : Text → Text
  removeDiacritics : Text → Text
  json : Json ω

structure RefreshMerge where
  keepExisting : Bool
  replace : Bool
deriving DecidableEq

def RefreshMerge.default : RefreshMerge := ⟨true, true⟩

/-! ### Rules of kinds and settings -/

def ownsItsRuntime (kind : Option BaseItemKind) : Bool :=
  kind ∈ [some .audio, some .audioBook, some .book, some .movie, some .episode, some .trailer,
    some .musicVideo, some .video]

def hasAlbumArtist (kind : Option BaseItemKind) : Bool :=
  kind ∈ [some .audio, some .audioBook, some .musicAlbum, some .musicVideo]

def unitesArtists (kind : Option BaseItemKind) : Bool :=
  kind ∈ [some .audio, some .musicAlbum, some .musicVideo]

/-- The rule of `RunTimeTicks`. -/
def runTimeTicks (kind : Option BaseItemKind) : Rule (Option ℤ) :=
  lockable (!ownsItsRuntime kind) value

/-- An item's own season number, which one that is found replaces. -/
def seasonNumber : Rule (Option ℤ) := fun source target replace =>
  source.or (value source target replace)

/-- The rule of `ParentIndexNumber`, in a merge that carries settings. -/
def parentIndexNumber (kind : Option BaseItemKind) : Rule (Option ℤ) :=
  if kind = some .episode then seasonNumber else value

def artists (upperInvariant : Text → Text) (kind : Option BaseItemKind) : Rule (Option Text) :=
  if kind ∈ [some .audio, some .musicAlbum, some .musicVideo] then replaceOrUnion upperInvariant
  else lockable (kind = some .audioBook) wholeList

/-- The rule of `Album`. -/
def album (kind : Option BaseItemKind) : Rule (Option Text) :=
  lockable (kind ∈ [some .audio, some .musicVideo, some .audioBook]) text

/-- The rule of `SeriesName`. -/
def seriesName (kind : Option BaseItemKind) : Rule (Option Text) :=
  lockable (kind = some .book) text

/-- The rule of `IsLocked`. -/
def isLocked : Rule Bool := fun source target replace =>
  if replace || !target then target || source else target

/-- The rule of `DateCreated`. -/
def dateCreated : Rule (Option ℤ) := fun source target _ => source.or target

/-- The rule of `DateModified`. -/
def dateModified : Rule (Option ℤ) := fun source target replace =>
  if replace || source.isSome then source else target

/-- The rule of `LockedFields`. -/
def lockedFields : Rule (List MetadataField) := fun source target _ =>
  source.foldl (fun out field => if field ∈ out then out else out ++ [field]) target

/-! ### The merge -/

section Merge

variable {ω : Type} (platform : Platform ω)

def mergeSettings (source target : BaseItemEntity ω) (replace : Bool) : BaseItemEntity ω :=
  { target with
    isLocked := isLocked source.isLocked target.isLocked replace
    dateCreated := dateCreated source.dateCreated target.dateCreated replace
    dateModified := dateModified source.dateModified target.dateModified replace
    preferredMetadataCountryCode := text source.preferredMetadataCountryCode
      target.preferredMetadataCountryCode replace
    preferredMetadataLanguage := text source.preferredMetadataLanguage
      target.preferredMetadataLanguage replace }

def mergeUnionLists (source target : BaseItemEntity ω) (unlocked : MetadataField → Bool)
    (replace : Bool) : BaseItemEntity ω :=
  let union := replaceOrUnion platform.upperInvariant
  { target with
    studios := lockable (unlocked .studios) union source.studios target.studios replace
    tags := lockable (unlocked .tags) union source.tags target.tags replace
    productionLocations := lockable (unlocked .productionLocations) union
      source.productionLocations target.productionLocations replace
    albumArtists := lockable (hasAlbumArtist target.kind && hasAlbumArtist source.kind)
      (albumArtists platform.upperInvariant) source.albumArtists target.albumArtists replace }

def mergeBaseItem (source target : BaseItemEntity ω) (unlocked : MetadataField → Bool)
    (replace settings : Bool) : BaseItemEntity ω :=
  let merged := { mergeUnionLists platform source target unlocked replace with
    name := lockable (unlocked .name) name source.name target.name replace
    originalTitle := text source.originalTitle target.originalTitle replace
    originalLanguage := text source.originalLanguage target.originalLanguage replace
    communityRating := value source.communityRating target.communityRating replace
    endDate := value source.endDate target.endDate replace
    genres := lockable (unlocked .genres) wholeList source.genres target.genres replace
    indexNumber := value source.indexNumber target.indexNumber replace
    officialRating := lockable (unlocked .officialRating) text source.officialRating
      target.officialRating replace
    customRating := text source.customRating target.customRating replace
    tagline := text source.tagline target.tagline replace
    overview := lockable (unlocked .overview) text source.overview target.overview replace
    parentIndexNumber := value source.parentIndexNumber target.parentIndexNumber replace
    premiereDate := value source.premiereDate target.premiereDate replace
    productionYear := value source.productionYear target.productionYear replace
    runTimeTicks := lockable (unlocked .runtime) (runTimeTicks target.kind) source.runTimeTicks
      target.runTimeTicks replace
    criticRating := value source.criticRating target.criticRating replace
    forcedSortName := forcedSortName source.forcedSortName target.forcedSortName replace
    data := mergeDataBlob platform.json source.data target.data replace }
  if settings then mergeSettings source merged replace else merged

def mergeKindSpecific (source target : BaseItemEntity ω) (replace settings : Bool) :
    BaseItemEntity ω :=
  { target with
    artists := artists platform.upperInvariant target.kind source.artists target.artists replace
    album := album target.kind source.album target.album replace
    seriesName := seriesName target.kind source.seriesName target.seriesName replace
    parentIndexNumber :=
      if target.kind = some .episode && settings then
        source.parentIndexNumber.or target.parentIndexNumber
      else target.parentIndexNumber }

def personKey (name : Text) : Text := platform.upperInvariant (platform.removeDiacritics name)

def mergeData (source target : MetadataResult ω) (locked : List MetadataField)
    (replace settings : Bool) : MetadataResult ω :=
  let unlocked field := !locked.contains field
  { item := mergeKindSpecific platform source.item
      (mergeBaseItem platform source.item target.item unlocked replace settings) replace settings
    people := lockable (unlocked .cast) (mergePeopleField (personKey platform)) source.people
      target.people replace
    providerIds := mergeProviderIds source.providerIds target.providerIds replace
    lockedFields :=
      if settings then lockedFields source.lockedFields target.lockedFields replace
      else target.lockedFields }

def mergeRefresh (stored temp : MetadataResult ω) (locked : List MetadataField)
    (merge : RefreshMerge) : MetadataResult ω :=
  let temp := if merge.keepExisting then mergeData platform stored temp [] false false else temp
  mergeData platform temp stored locked merge.replace true

/-! ### Field by field -/

def kept {σ : Type*} : Rule σ := fun _ target _ => target

def RefreshMerge.field {σ : Type*} (merge : RefreshMerge) (stored temp : MetadataResult ω)
    (fill rule : Rule σ) (field : MetadataResult ω → σ) : σ :=
  refreshBy fill rule merge.keepExisting merge.replace (field temp) (field stored)

def refreshed (stored temp : MetadataResult ω) (locked : List MetadataField)
    (merge : RefreshMerge) : MetadataResult ω :=
  let unlocked field := !locked.contains field
  let united := replaceOrUnion platform.upperInvariant
  let kind := stored.item.kind
  let albums := lockable (hasAlbumArtist kind) (albumArtists platform.upperInvariant)
  let credits := mergePeopleField (personKey platform)
  { item :=
      { kind := kind
        name := merge.field stored temp name (lockable (unlocked .name) name) (·.item.name)
        originalTitle := merge.field stored temp text text (·.item.originalTitle)
        originalLanguage := merge.field stored temp text text (·.item.originalLanguage)
        communityRating := merge.field stored temp value value (·.item.communityRating)
        endDate := merge.field stored temp value value (·.item.endDate)
        genres := merge.field stored temp wholeList (lockable (unlocked .genres) wholeList)
          (·.item.genres)
        indexNumber := merge.field stored temp value value (·.item.indexNumber)
        officialRating := merge.field stored temp text (lockable (unlocked .officialRating) text)
          (·.item.officialRating)
        customRating := merge.field stored temp text text (·.item.customRating)
        tagline := merge.field stored temp text text (·.item.tagline)
        overview := merge.field stored temp text (lockable (unlocked .overview) text)
          (·.item.overview)
        parentIndexNumber := merge.field stored temp value (parentIndexNumber kind)
          (·.item.parentIndexNumber)
        premiereDate := merge.field stored temp value value (·.item.premiereDate)
        productionYear := merge.field stored temp value value (·.item.productionYear)
        runTimeTicks := merge.field stored temp (runTimeTicks kind)
          (lockable (unlocked .runtime) (runTimeTicks kind)) (·.item.runTimeTicks)
        studios := merge.field stored temp united (lockable (unlocked .studios) united)
          (·.item.studios)
        tags := merge.field stored temp united (lockable (unlocked .tags) united) (·.item.tags)
        productionLocations := merge.field stored temp united
          (lockable (unlocked .productionLocations) united) (·.item.productionLocations)
        albumArtists := merge.field stored temp albums albums (·.item.albumArtists)
        criticRating := merge.field stored temp value value (·.item.criticRating)
        forcedSortName := merge.field stored temp forcedSortName forcedSortName
          (·.item.forcedSortName)
        data := merge.field stored temp (mergeDataBlob platform.json)
          (mergeDataBlob platform.json) (·.item.data)
        isLocked := merge.field stored temp kept isLocked (·.item.isLocked)
        dateCreated := merge.field stored temp kept dateCreated (·.item.dateCreated)
        dateModified := merge.field stored temp kept dateModified (·.item.dateModified)
        preferredMetadataCountryCode := merge.field stored temp kept text
          (·.item.preferredMetadataCountryCode)
        preferredMetadataLanguage := merge.field stored temp kept text
          (·.item.preferredMetadataLanguage)
        artists := merge.field stored temp (artists platform.upperInvariant kind)
          (artists platform.upperInvariant kind) (·.item.artists)
        album := merge.field stored temp (album kind) (album kind) (·.item.album)
        seriesName := merge.field stored temp (seriesName kind) (seriesName kind)
          (·.item.seriesName) }
    people := merge.field stored temp credits (lockable (unlocked .cast) credits) (·.people)
    providerIds := merge.field stored temp mergeProviderIds mergeProviderIds (·.providerIds)
    lockedFields := merge.field stored temp kept lockedFields (·.lockedFields) }

theorem mergeRefresh_eq {stored temp : MetadataResult ω}
    (hkind : temp.item.kind = stored.item.kind) (locked : List MetadataField)
    (merge : RefreshMerge) :
    mergeRefresh platform stored temp locked merge =
      refreshed platform stored temp locked merge := by
  obtain ⟨keep, replace⟩ := merge
  have hseason : ∀ source target : Option ℤ, (if stored.item.kind = some .episode && true then
      source.or (value source target replace) else value source target replace) =
      parentIndexNumber stored.item.kind source target replace := fun source target => by
    by_cases hepisode : stored.item.kind = some .episode <;>
      simp [parentIndexNumber, hepisode, seasonNumber]
  cases keep
  · simp only [mergeRefresh, mergeData, mergeBaseItem, mergeUnionLists, mergeSettings,
      mergeKindSpecific, refreshed, RefreshMerge.field, refreshBy, hkind, Bool.and_self, if_true,
      if_false, Bool.false_eq_true, hseason]
  · simp only [mergeRefresh, mergeData, mergeBaseItem, mergeUnionLists, mergeSettings,
      mergeKindSpecific, refreshed, RefreshMerge.field, refreshBy, hkind, Bool.and_self, if_true,
      if_false, Bool.false_eq_true, hseason, kept, Bool.and_false, List.contains_nil,
      Bool.not_false, lockable_true]

end Merge

end Ferrofin.Metadata
