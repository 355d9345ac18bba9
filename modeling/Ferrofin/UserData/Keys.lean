import Ferrofin.Util.Decimal
import Ferrofin.Util.Json
import Ferrofin.Util.Uuid
import Ferrofin.Visibility.Context

/-!
# The keys of user data

User data is kept under keys that are made of an item's metadata (`userDataKeys`).  The history of
a removed item is kept under identities that also say which provider a key comes from
(`retentionKeys`).
-/

namespace Ferrofin.UserData

open Util
open Visibility (BaseItemKind)

abbrev Text := List Char

def isVideo : BaseItemKind → Bool
  | .video | .movie | .episode | .musicVideo | .trailer => true
  | _ => false

/-- `format!("{:?}", kind)`. -/
def debugName : BaseItemKind → Text
  | .aggregateFolder => "AggregateFolder".toList
  | .audio => "Audio".toList
  | .audioBook => "AudioBook".toList
  | .basePluginFolder => "BasePluginFolder".toList
  | .book => "Book".toList
  | .boxSet => "BoxSet".toList
  | .channel => "Channel".toList
  | .channelFolderItem => "ChannelFolderItem".toList
  | .collectionFolder => "CollectionFolder".toList
  | .episode => "Episode".toList
  | .folder => "Folder".toList
  | .genre => "Genre".toList
  | .manualPlaylistsFolder => "ManualPlaylistsFolder".toList
  | .movie => "Movie".toList
  | .liveTvChannel => "LiveTvChannel".toList
  | .liveTvProgram => "LiveTvProgram".toList
  | .musicAlbum => "MusicAlbum".toList
  | .musicArtist => "MusicArtist".toList
  | .musicGenre => "MusicGenre".toList
  | .musicVideo => "MusicVideo".toList
  | .person => "Person".toList
  | .photo => "Photo".toList
  | .photoAlbum => "PhotoAlbum".toList
  | .playlist => "Playlist".toList
  | .playlistsFolder => "PlaylistsFolder".toList
  | .program => "Program".toList
  | .recording => "Recording".toList
  | .season => "Season".toList
  | .series => "Series".toList
  | .studio => "Studio".toList
  | .trailer => "Trailer".toList
  | .tvChannel => "TvChannel".toList
  | .tvProgram => "TvProgram".toList
  | .userRootFolder => "UserRootFolder".toList
  | .userView => "UserView".toList
  | .video => "Video".toList
  | .year => "Year".toList
  | .unrecognized value => "Unrecognized(".toList ++ decimal value ++ [')']

/-- The providers whose ids identify a removed item. -/
inductive Provider where
  | tmdb | imdb | tvdb | custom | musicBrainzAlbum | musicBrainzReleaseGroup | musicBrainzArtist
deriving DecidableEq

namespace Provider

def name : Provider → Text
  | tmdb => "Tmdb".toList
  | imdb => "Imdb".toList
  | tvdb => "Tvdb".toList
  | custom => "Custom".toList
  | musicBrainzAlbum => "MusicBrainzAlbum".toList
  | musicBrainzReleaseGroup => "MusicBrainzReleaseGroup".toList
  | musicBrainzArtist => "MusicBrainzArtist".toList

def all : List Provider :=
  [tmdb, imdb, tvdb, custom, musicBrainzAlbum, musicBrainzReleaseGroup, musicBrainzArtist]

theorem mem_all (provider : Provider) : provider ∈ all := by
  cases provider <;> decide

end Provider

structure KeySource where
  itemId : Uuid
  kind : BaseItemKind
  tmdb : Option Text := none
  imdb : Option Text := none
  tvdb : Option Text := none
  custom : Option Text := none
  musicbrainzAlbum : Option Text := none
  musicbrainzReleaseGroup : Option Text := none
  musicbrainzArtist : Option Text := none
  episodeTitle : Option Text := none
  isSeries : Bool := false
  indexNumber : Option ℤ := none
  parentIndexNumber : Option ℤ := none
  name : Option Text := none
  album : Option Text := none
  albumArtist : Option Text := none
  extraType : Option Text := none
  runTimeTicks : Option ℤ := none
  channelNameKey : Bool := false

def nonempty (value : Option Text) : Option Text := value.filter (· ≠ [])

def idKey (value : Option Text) (key : Text → Text) : List Text :=
  (nonempty value).toList.map key

/-- `format!("{:0width$}", n)`: the sign counts. -/
def zeroPadded (width : ℕ) (n : ℤ) : Text :=
  if n < 0 then '-' :: List.leftpad (width - 1) '0' (Nat.toDigits 10 n.natAbs)
  else List.leftpad width '0' (Nat.toDigits 10 n.natAbs)

def extraKey (providerId extraType : Text) (runTimeTicks : Option ℤ) : Text :=
  providerId ++ '-' :: extraType ++
    match runTimeTicks with
    | some ticks => '-' :: decimal ticks
    | none => []

def audioKey (item : KeySource) : Text :=
  let dashed (value : Option Text) : Text :=
    match nonempty value with
    | some value => value ++ ['-']
    | none => []
  dashed item.albumArtist ++ dashed item.album ++
    (match item.parentIndexNumber with
    | some disc => zeroPadded 4 disc ++ ['-']
    | none => []) ++
    (match item.indexNumber with
    | some track => zeroPadded 4 track
    | none => []) ++
    item.name.getD []

def seriesDerived (seriesKeys : Option (List Text)) (suffix : Text) : List Text :=
  match seriesKeys with
  | none => []
  | some keys => keys.map (· ++ suffix)

def seriesDerivedDroppingOwnId (seriesKeys : Option (List Text)) (suffix : Text) : List Text :=
  match seriesKeys with
  | none => []
  | some keys => (if 1 < keys.length then keys.dropLast else keys).map (· ++ suffix)

variable (removeDiacritics : Text → Text)

/-- `user_data_keys`, once the keys of the series are there. -/
def keysOver (item : KeySource) (seriesKeys : Option (List Text)) : List Text :=
  let own := item.itemId.toText
  match item.kind with
  | .season => seriesDerived seriesKeys (zeroPadded 3 (item.indexNumber.getD 0)) ++ [own]
  | .episode =>
    match item.parentIndexNumber, item.indexNumber with
    | some season, some episode =>
      seriesDerivedDroppingOwnId seriesKeys (zeroPadded 3 season ++ zeroPadded 3 episode) ++ [own]
    | _, _ => [own]
  | .audio | .audioBook => [audioKey item, own]
  | .musicAlbum =>
    idKey item.musicbrainzReleaseGroup ("MusicAlbum-MusicBrainzReleaseGroup-".toList ++ ·) ++
      idKey item.musicbrainzAlbum ("MusicAlbum-Musicbrainz-".toList ++ ·) ++
      idKey item.albumArtist (· ++ '-' :: item.name.getD []) ++ [own]
  | .musicArtist =>
    idKey item.musicbrainzArtist ("Artist-Musicbrainz-".toList ++ ·) ++
      ["Artist-".toList ++ removeDiacritics (item.name.getD []), own]
  | .genre | .musicGenre | .person | .studio =>
    [debugName item.kind ++ '-' :: removeDiacritics (item.name.getD []), own]
  | .year => ["Year-".toList ++ item.name.getD [], own]
  | .tvChannel | .liveTvChannel =>
    if item.channelNameKey then ["TvChannel-".toList ++ item.name.getD [], own] else [own]
  | .program | .liveTvProgram | .tvProgram =>
    if item.isSeries then
      idKey item.episodeTitle ("Program-".toList ++ item.name.getD [] ++ ·) ++ [own]
    else idKey item.tmdb id ++ idKey item.imdb id ++ [own]
  | .series => idKey item.custom id ++ idKey item.tvdb id ++ idKey item.imdb id ++ [own]
  | kind =>
    if isVideo kind then
      match item.extraType with
      | some extra =>
        idKey item.imdb (extraKey · extra item.runTimeTicks) ++
          idKey item.tmdb (extraKey · extra item.runTimeTicks) ++ [own]
      | none => idKey item.tmdb id ++ idKey item.imdb id ++ [own]
    else [own]

def userDataKeys (item : KeySource) (series : Option KeySource) : List Text :=
  keysOver removeDiacritics item (series.map fun s => keysOver removeDiacritics s none)

namespace KeySource

def withoutProviders (source : KeySource) : KeySource :=
  { source with
    tmdb := none
    imdb := none
    tvdb := none
    custom := none
    musicbrainzAlbum := none
    musicbrainzReleaseGroup := none
    musicbrainzArtist := none }

def withOneProvider (source : KeySource) : Provider → KeySource
  | .tmdb => { source.withoutProviders with tmdb := source.tmdb }
  | .imdb => { source.withoutProviders with imdb := source.imdb }
  | .tvdb => { source.withoutProviders with tvdb := source.tvdb }
  | .custom => { source.withoutProviders with custom := source.custom }
  | .musicBrainzAlbum =>
    { source.withoutProviders with musicbrainzAlbum := source.musicbrainzAlbum }
  | .musicBrainzReleaseGroup =>
    { source.withoutProviders with musicbrainzReleaseGroup := source.musicbrainzReleaseGroup }
  | .musicBrainzArtist =>
    { source.withoutProviders with musicbrainzArtist := source.musicbrainzArtist }

def id (source : KeySource) : Provider → Option Text
  | .tmdb => source.tmdb
  | .imdb => source.imdb
  | .tvdb => source.tvdb
  | .custom => source.custom
  | .musicBrainzAlbum => source.musicbrainzAlbum
  | .musicBrainzReleaseGroup => source.musicbrainzReleaseGroup
  | .musicBrainzArtist => source.musicbrainzArtist

end KeySource

def qualified (kind : BaseItemKind) (space key : Text) : Text :=
  writeStrings [debugName kind, space, key]

def baseline (item : KeySource) (series : Option KeySource) : List Text :=
  userDataKeys removeDiacritics item.withoutProviders (series.map (·.withoutProviders))

def providerKeys (provider : Provider) (item : KeySource) (series : Option KeySource) :
    List Text :=
  (userDataKeys removeDiacritics (item.withOneProvider provider)
      (series.map (·.withOneProvider provider))).filter fun key =>
    key ≠ [] && !(baseline removeDiacritics item series).contains key

def retentionKeys (item : KeySource) (series : Option KeySource) : List Text :=
  let own := item.itemId.toText
  let current := userDataKeys removeDiacritics item series
  qualified item.kind "guid".toList own ::
    (((baseline removeDiacritics item series).filter fun key =>
        key ≠ own && key ≠ [] && current.contains key).map
      (qualified item.kind "metadata".toList)) ++
    Provider.all.flatMap fun provider =>
      (providerKeys removeDiacritics provider item series).map
        (qualified item.kind provider.name)

end Ferrofin.UserData
