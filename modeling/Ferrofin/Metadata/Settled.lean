import Ferrofin.Metadata.Merge

/-!
# Refreshing again

Refreshing an item again with the same finding changes nothing, in every mode and field but a few
lists (`mergeRefresh_again_iff`).  A list that fills an empty field is taken as it is found.  The
second refresh unites it with itself, which drops empty values and values that it has twice; so a
list that was not found as a union writes it is written again.
-/

namespace Ferrofin.Metadata

open Visibility (BaseItemKind)
open Lib Util

section Rules

variable {σ : Type*} {fill rule : Rule σ}

def SettlesBy (fill rule : Rule σ) : Prop :=
  ∀ keep replace found stored,
    refreshBy fill rule keep replace found (refreshBy fill rule keep replace found stored) =
      refreshBy fill rule keep replace found stored

theorem Settles.by (h : Settles rule) : SettlesBy rule rule := h

theorem Settles.lockable (h : Settles rule) (unlocked : Bool) :
    SettlesBy rule (lockable unlocked rule) := by
  intro keep replace found stored
  cases unlocked
  · rfl
  · exact h keep replace found stored

theorem Settles.off (h : Settles rule) (on : Bool) :
    Settles (Ferrofin.Metadata.lockable on rule) := by
  intro keep replace found stored
  cases on
  · rfl
  · exact h keep replace found stored

theorem settlesBy_kept (h : ∀ found stored replace,
    rule found (rule found stored replace) replace = rule found stored replace) :
    SettlesBy kept rule := by
  intro keep replace found stored
  cases keep <;> exact h found stored replace

theorem SettlesBy.again (h : SettlesBy fill rule) (keep replace : Bool) (found stored : σ) :
    refreshBy fill rule keep replace found (refreshBy fill rule keep replace found stored) =
      refreshBy fill rule keep replace found stored := h keep replace found stored

end Rules

theorem settles_runTimeTicks (kind : Option BaseItemKind) : Settles (runTimeTicks kind) :=
  settles_value.off _

theorem settles_album (kind : Option BaseItemKind) : Settles (album kind) := settles_text.off _

theorem settles_seriesName (kind : Option BaseItemKind) : Settles (seriesName kind) :=
  settles_text.off _

theorem settlesBy_parentIndexNumber (kind : Option BaseItemKind) :
    SettlesBy value (parentIndexNumber kind) := by
  rw [parentIndexNumber]
  split
  · intro keep replace found stored
    unfold refreshBy seasonNumber value take
    rcases found with _ | found <;> rcases stored with _ | stored <;> cases keep <;>
      cases replace <;> rfl
  · exact settles_take _ _

theorem lockedFields_again (found stored : List MetadataField) (replace : Bool) :
    lockedFields found (lockedFields found stored replace) replace =
      lockedFields found stored replace := by
  have hmem : ∀ (l out : List MetadataField) (f : MetadataField), f ∈ out ∨ f ∈ l →
      f ∈ lockedFields l out replace := by
    intro l
    induction l with
    | nil => exact fun out f h => h.resolve_right List.not_mem_nil
    | cons a l ih =>
      intro out f h
      refine ih _ f ?_
      dsimp only
      split <;> grind
  have hself : ∀ (l out : List MetadataField), (∀ f ∈ l, f ∈ out) →
      lockedFields l out replace = out := by
    intro l
    induction l with
    | nil => exact fun out _ => rfl
    | cons a l ih =>
      intro out h
      rw [lockedFields, List.foldl_cons, if_pos (h a List.mem_cons_self)]
      exact ih out fun f hf => h f (List.mem_cons_of_mem _ hf)
  exact hself _ _ fun f hf => hmem _ _ f (.inr hf)

theorem settlesBy_text : SettlesBy kept text :=
  settlesBy_kept fun found stored replace => settles_text false replace found stored

theorem settlesBy_isLocked : SettlesBy kept isLocked := by
  refine settlesBy_kept fun found stored replace => ?_
  unfold isLocked
  cases found <;> cases stored <;> cases replace <;> rfl

theorem settlesBy_dateCreated : SettlesBy kept dateCreated := by
  refine settlesBy_kept fun found stored _ => ?_
  cases found <;> rfl

theorem settlesBy_dateModified : SettlesBy kept dateModified := by
  refine settlesBy_kept fun found stored replace => ?_
  unfold dateModified
  cases found <;> cases replace <;> rfl

/-! ### Lists -/

section Lists

variable (upperInvariant : Text → Text) (unlocked : Bool) {keep replace : Bool}
  {found stored : Option Text}

/-- A list that comes into an empty field is one as a union writes it. -/
def CanonicalOver (stored found : Option Text) : Prop :=
  list stored = [] → list found ≠ [] → Canonical upperInvariant found

theorem union_again_iff :
    refreshBy (replaceOrUnion upperInvariant) (lockable unlocked (replaceOrUnion upperInvariant))
        keep replace found
        (refreshBy (replaceOrUnion upperInvariant)
          (lockable unlocked (replaceOrUnion upperInvariant)) keep replace found stored) =
      refreshBy (replaceOrUnion upperInvariant)
        (lockable unlocked (replaceOrUnion upperInvariant)) keep replace found stored ↔
    (unlocked = true → keep = false ∧ replace = false →
      CanonicalOver upperInvariant stored found) := by
  cases unlocked
  · exact ⟨fun _ => nofun, fun _ => rfl⟩
  · exact refresh_replaceOrUnion_again_iff.trans
      ⟨fun h _ hfills => h hfills.1 hfills.2, fun h hkeep hreplace => h rfl ⟨hkeep, hreplace⟩⟩

theorem artists_again_iff (kind : Option BaseItemKind) :
    refreshBy (artists upperInvariant kind) (artists upperInvariant kind) keep replace found
        (refreshBy (artists upperInvariant kind) (artists upperInvariant kind) keep replace found
          stored) =
      refreshBy (artists upperInvariant kind) (artists upperInvariant kind) keep replace found
        stored ↔
    (unitesArtists kind = true → keep = false ∧ replace = false →
      CanonicalOver upperInvariant stored found) := by
  rw [artists, unitesArtists, decide_eq_true_iff]
  split
  · next hkind =>
    exact (union_again_iff upperInvariant true).trans ⟨fun h _ => h rfl, fun h _ => h hkind⟩
  · next hkind =>
    exact ⟨fun _ h => absurd h hkind, fun _ => settles_wholeList.off _ _ _ _ _⟩

theorem albumArtists_again_iff (on : Bool) :
    refreshBy (lockable on (albumArtists upperInvariant))
        (lockable on (albumArtists upperInvariant)) keep replace found
        (refreshBy (lockable on (albumArtists upperInvariant))
          (lockable on (albumArtists upperInvariant)) keep replace found stored) =
      refreshBy (lockable on (albumArtists upperInvariant))
        (lockable on (albumArtists upperInvariant)) keep replace found stored ↔
    (on = true → keep = true ∨ replace = false → CanonicalOver upperInvariant stored found) := by
  cases on
  · refine ⟨fun _ => nofun, fun _ => ?_⟩
    cases keep <;> rfl
  · exact refresh_albumArtists_again_iff.trans ⟨fun h _ => h, fun h => h rfl⟩

end Lists

/-! ### The item -/

section Item

variable {ω : Type} (platform : Platform ω)

def RefreshMerge.FillsAlone (merge : RefreshMerge) : Prop :=
  merge.keepExisting = false ∧ merge.replace = false

/-- What a finding must be for the second refresh to change nothing. -/
structure SettlesFor (stored temp : MetadataResult ω) (locked : List MetadataField)
    (merge : RefreshMerge) : Prop where
  albumArtists : hasAlbumArtist stored.item.kind = true →
    merge.keepExisting = true ∨ merge.replace = false →
    CanonicalOver platform.upperInvariant stored.item.albumArtists temp.item.albumArtists
  studios : .studios ∉ locked → merge.FillsAlone →
    CanonicalOver platform.upperInvariant stored.item.studios temp.item.studios
  tags : .tags ∉ locked → merge.FillsAlone →
    CanonicalOver platform.upperInvariant stored.item.tags temp.item.tags
  productionLocations : .productionLocations ∉ locked → merge.FillsAlone →
    CanonicalOver platform.upperInvariant stored.item.productionLocations
      temp.item.productionLocations
  artists : unitesArtists stored.item.kind = true → merge.FillsAlone →
    CanonicalOver platform.upperInvariant stored.item.artists temp.item.artists
  trailers : merge.FillsAlone →
    TrailersSettle ((parseData platform.json temp.item.data).lookup "RemoteTrailers".toList)
      ((parseData platform.json stored.item.data).lookup "RemoteTrailers".toList)

variable {platform} {stored temp : MetadataResult ω} {locked : List MetadataField}
  {merge : RefreshMerge}

theorem refreshed_again_iff (hstored : Exact platform.json stored.item.data)
    (htemp : Exact platform.json temp.item.data) :
    refreshed platform (refreshed platform stored temp locked merge) temp locked merge =
      refreshed platform stored temp locked merge ↔
    SettlesFor platform stored temp locked merge := by
  have hdata := @refresh_mergeDataBlob_again_iff ω platform.json merge.replace temp.item.data
    stored.item.data merge.keepExisting htemp hstored
  have hunlocked : ∀ field, (!locked.contains field) = true ↔ field ∉ locked := fun field => by
    simp
  simp only [refreshed, RefreshMerge.field, MetadataResult.mk.injEq, BaseItemEntity.mk.injEq,
    true_and, and_true, settlesBy_text.again, settles_text.by.again, settles_value.by.again,
    (settles_name.lockable _).again, (settles_wholeList.lockable _).again,
    (settles_text.lockable _).again, (settlesBy_parentIndexNumber _).again,
    ((settles_runTimeTicks _).lockable _).again, settles_forcedSortName.by.again,
    settlesBy_isLocked.again, settlesBy_dateCreated.again, settlesBy_dateModified.again,
    (settles_album _).by.again, (settles_seriesName _).by.again,
    (settles_mergePeopleField.lockable _).again, settles_mergeProviderIds.by.again,
    (settlesBy_kept lockedFields_again).again, union_again_iff, artists_again_iff,
    albumArtists_again_iff, hunlocked]
  rw [show refreshBy (mergeDataBlob platform.json) (mergeDataBlob platform.json) =
    refresh (mergeDataBlob platform.json) from rfl, hdata]
  constructor
  · rintro ⟨hstudios, htags, hlocations, halbum, hblob, hartists⟩
    exact ⟨halbum, hstudios, htags, hlocations, hartists, fun h => hblob h.1 h.2⟩
  · intro h
    exact ⟨h.studios, h.tags, h.productionLocations, h.albumArtists,
      fun hkeep hreplace => h.trailers ⟨hkeep, hreplace⟩, h.artists⟩

/-- A refresh with what was found already changes nothing, where the lists that fill an empty
field are as a union writes them. -/
theorem mergeRefresh_again_iff (hkind : temp.item.kind = stored.item.kind)
    (hstored : Exact platform.json stored.item.data) (htemp : Exact platform.json temp.item.data)
    (locked : List MetadataField) (merge : RefreshMerge) :
    mergeRefresh platform (mergeRefresh platform stored temp locked merge) temp locked merge =
      mergeRefresh platform stored temp locked merge ↔
    SettlesFor platform stored temp locked merge := by
  have hkind' : temp.item.kind = (refreshed platform stored temp locked merge).item.kind := hkind
  rw [mergeRefresh_eq platform hkind, mergeRefresh_eq platform hkind']
  exact refreshed_again_iff hstored htemp

end Item

/-! ### Items that are written again -/

def lossless : Json Object where
  parse := some
  print := id
  exact _ := True
  exact_array _ _ := trivial
  parse_print o _ := ⟨o, rfl, fun _ => rfl⟩

/-- Floats that are read one or two units off, from the first to the last: `serde_json` divides the
digits of `2.3837078095414353e-7` by a power of ten that is itself rounded. -/
def floatsReadOff : List ℚ :=
  [9005393491786475, 9005393491786476, 9005393491786477, 9005393491786479, 9005393491786480].map
    (· / 2 ^ 75)

def readBack : Value → Value
  | .number (.float q) =>
    .number (.float (((floatsReadOff.zip floatsReadOff.tail).lookup q).getD q))
  | v => v

/-- JSON without `float_roundtrip`. -/
def readOff : Json Object where
  parse := some
  print := KeyedMap.mapValues fun _ => readBack
  exact v := readBack v = v
  exact_array _ _ := rfl
  parse_print o h := by
    refine ⟨_, rfl, fun key => ?_⟩
    rw [KeyedMap.lookup_mapValues]
    rcases hlookup : o.lookup key with _ | v
    · rfl
    · exact congrArg some (h key v hlookup)

def platformOf (json : Json Object) : Platform Object where
  upperInvariant := List.map Char.toUpper
  removeDiacritics := id
  json := json

def track : MetadataResult Object := { item := { kind := some .audio } }

def trackOf (artists : String) : MetadataResult Object :=
  { item := { kind := some .audio, albumArtists := some artists.toList } }

def trackWith (q : ℚ) : MetadataResult Object :=
  { item :=
      { kind := some .audio
        data := some ((∅ : Object).insert "LUFS".toList (.number (.float q))) } }

/-- An artist in two spellings is found, and only the second refresh drops one; a float is read
off, and each refresh writes another one. -/
theorem rewritten_again :
    (mergeRefresh (platformOf lossless)
        (mergeRefresh (platformOf lossless) track (trackOf "Air|AIR") [] .default)
        (trackOf "Air|AIR") [] .default ≠
      mergeRefresh (platformOf lossless) track (trackOf "Air|AIR") [] .default) ∧
    mergeRefresh (platformOf readOff)
        (mergeRefresh (platformOf readOff) (trackWith (9005393491786475 / 2 ^ 75)) track []
          .default) track [] .default ≠
      mergeRefresh (platformOf readOff) (trackWith (9005393491786475 / 2 ^ 75)) track []
        .default := by
  constructor
  · intro h
    have hartists := congrArg (·.item.albumArtists) h
    revert hartists
    decide +kernel
  · intro h
    have hnumber := congrArg (·.item.data.bind (·.lookup "LUFS".toList)) h
    revert hnumber
    decide +kernel

/-- A loudness that is read as it was written. -/
theorem mergeRefresh_again_track :
    mergeRefresh (platformOf readOff)
        (mergeRefresh (platformOf readOff) (trackWith (-9)) (trackOf "Air|Phoenix") [] .default)
        (trackOf "Air|Phoenix") [] .default =
      mergeRefresh (platformOf readOff) (trackWith (-9)) (trackOf "Air|Phoenix") [] .default := by
  have hstored : Exact readOff (trackWith (-9)).item.data := by
    intro key v hv
    have hv' : ((∅ : Object).insert "LUFS".toList (.number (.float (-9)))).lookup key = some v := hv
    rw [KeyedMap.lookup_insert_eq] at hv'
    split at hv'
    · obtain rfl := Option.some.inj hv'
      show readBack _ = _
      decide +kernel
    · cases hv'
  have hfound : Exact readOff (trackOf "Air|Phoenix").item.data := fun key v hv => by cases hv
  refine (@mergeRefresh_again_iff Object (platformOf readOff) (trackWith (-9))
    (trackOf "Air|Phoenix") rfl hstored hfound [] .default).mpr
    ⟨fun _ _ => ?_, fun _ h => ?_, fun _ h => ?_, fun _ h => ?_, fun _ h => ?_, fun h => ?_⟩
  · exact fun _ _ => ⟨by decide +kernel, by decide +kernel⟩
  all_goals cases h.1

end Ferrofin.Metadata
