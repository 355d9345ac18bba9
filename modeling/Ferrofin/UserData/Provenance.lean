import Ferrofin.UserData.Keys

/-!
# Where retained history comes from

An identity that two items share tells where their history belongs.  It is the id of a provider
with a text behind it, the numbers of an episode or the kind of an extra (`mem_providerKeys`), and
nothing between the two.  So one id may end where the other item's text starts
(`RunsInto`), and an identity is shared by items that do not belong together exactly then.
-/

namespace Ferrofin.UserData

open Util
open Visibility (BaseItemKind)
open List (append_assoc mem_append mem_cons nil_append)
open Option (bind_eq_some_iff map_map map_some)

variable {removeDiacritics : Text → Text} {provider : Provider} {item s : KeySource}
  {series : Option KeySource} {key : Text}

/-! ### Identities -/

theorem writeStrings_three (a b c : Text) :
    writeStrings [a, b, c] =
      '[' :: (writeString a ++ ',' :: (writeString b ++ ',' :: (writeString c ++ [']']))) := by
  simp [writeStrings, List.intercalate]

theorem qualified_inj {kind : BaseItemKind} {space space' key' : Text} :
    qualified kind space key = qualified kind space' key' ↔ space = space' ∧ key = key' := by
  constructor
  · intro h
    rw [qualified, qualified, writeStrings_three, writeStrings_three] at h
    obtain ⟨-, h⟩ := writeString_append_inj (List.cons.inj h).2
    obtain ⟨hspace, h⟩ := writeString_append_inj (List.cons.inj h).2
    exact ⟨hspace, (writeString_append_inj (List.cons.inj h).2).1⟩
  · rintro ⟨rfl, rfl⟩
    rfl

theorem Provider.name_inj {p q : Provider} (h : p.name = q.name) : p = q := by
  revert h
  cases p <;> cases q <;> decide

theorem Provider.name_ne_guid (p : Provider) : "guid".toList ≠ p.name := by
  cases p <;> decide

theorem Provider.name_ne_metadata (p : Provider) : "metadata".toList ≠ p.name := by
  cases p <;> decide

theorem mem_retentionKeys :
    qualified item.kind provider.name key ∈ retentionKeys removeDiacritics item series ↔
      key ∈ providerKeys removeDiacritics provider item series := by
  simp only [retentionKeys, List.cons_append, mem_cons, mem_append, List.mem_map,
    List.mem_flatMap, qualified_inj]
  constructor
  · rintro (⟨h, -⟩ | ⟨_, -, h, -⟩ | ⟨p, -, k, hk, hname, rfl⟩)
    · exact absurd h.symm (Provider.name_ne_guid _)
    · exact absurd h (Provider.name_ne_metadata _)
    · obtain rfl := Provider.name_inj hname
      exact hk
  · intro h
    exact .inr (.inr ⟨provider, provider.mem_all, key, h, rfl, rfl⟩)

/-! ### What a key is made of -/

def extraTail (extraType : Text) (runTimeTicks : Option ℤ) : Text :=
  '-' :: extraType ++
    match runTimeTicks with
    | some ticks => '-' :: decimal ticks
    | none => []

namespace KeySource

/-- The providers whose ids of its own the keys of an item are made of. -/
def keyProviders (item : KeySource) : List Provider :=
  match item.kind with
  | .season | .episode => []
  | .series => [.custom, .tvdb, .imdb]
  | .musicAlbum => [.musicBrainzReleaseGroup, .musicBrainzAlbum]
  | .musicArtist => [.musicBrainzArtist]
  | .program | .liveTvProgram | .tvProgram => if item.isSeries then [] else [.tmdb, .imdb]
  | kind =>
    if isVideo kind then (if item.extraType.isSome then [.imdb, .tmdb] else [.tmdb, .imdb]) else []

def ownId (provider : Provider) (item : KeySource) : Option Text :=
  if provider ∈ item.keyProviders then nonempty (item.id provider) else none

def keyedId (provider : Provider) (item : KeySource) (series : Option KeySource) : Option Text :=
  match item.kind with
  | .season => series.bind (ownId provider)
  | .episode =>
    if item.parentIndexNumber.isSome ∧ item.indexNumber.isSome then series.bind (ownId provider)
    else none
  | _ => item.ownId provider

def tail (item : KeySource) : Text :=
  match item.kind with
  | .season => zeroPadded 3 (item.indexNumber.getD 0)
  | .episode =>
    zeroPadded 3 (item.parentIndexNumber.getD 0) ++ zeroPadded 3 (item.indexNumber.getD 0)
  | kind =>
    if isVideo kind then
      match item.extraType with
      | some extra => extraTail extra item.runTimeTicks
      | none => []
    else []

end KeySource

def Provider.lead : Provider → Text
  | .musicBrainzAlbum => "MusicAlbum-Musicbrainz-".toList
  | .musicBrainzReleaseGroup => "MusicAlbum-MusicBrainzReleaseGroup-".toList
  | .musicBrainzArtist => "Artist-Musicbrainz-".toList
  | _ => []

@[simp] theorem Provider.lead_tmdb : tmdb.lead = [] := rfl

@[simp] theorem Provider.lead_imdb : imdb.lead = [] := rfl

@[simp] theorem Provider.lead_tvdb : tvdb.lead = [] := rfl

@[simp] theorem Provider.lead_custom : custom.lead = [] := rfl

theorem Provider.lead_musicBrainzAlbum :
    musicBrainzAlbum.lead = "MusicAlbum-Musicbrainz-".toList := rfl

theorem Provider.lead_musicBrainzReleaseGroup :
    musicBrainzReleaseGroup.lead = "MusicAlbum-MusicBrainzReleaseGroup-".toList := rfl

theorem Provider.lead_musicBrainzArtist :
    musicBrainzArtist.lead = "Artist-Musicbrainz-".toList := rfl

theorem extraKey_eq (id extra : Text) (ticks : Option ℤ) :
    extraKey id extra ticks = id ++ extraTail extra ticks := by
  cases ticks <;> simp [extraKey, extraTail]

@[simp] theorem KeySource.withoutProviders_extraType (item : KeySource) :
    item.withoutProviders.extraType = item.extraType := rfl

@[simp] theorem KeySource.withoutProviders_isSeries (item : KeySource) :
    item.withoutProviders.isSeries = item.isSeries := rfl

@[simp] theorem nonempty_none : nonempty none = none := rfl

theorem mem_idKey {value : Option Text} {f : Text → Text} :
    key ∈ idKey value f ↔ ∃ id, nonempty value = some id ∧ key = f id := by
  simp [idKey, eq_comm]

@[simp] theorem idKey_none (f : Text → Text) : idKey none f = [] := rfl

/-- The keys of an item that is in no series: those of its ids, and what it has without them. -/
theorem keysOver_eq (hseason : item.kind ≠ .season) (hepisode : item.kind ≠ .episode)
    (keys keys' : Option (List Text)) :
    keysOver removeDiacritics item keys =
      (item.keyProviders.flatMap fun p =>
        idKey (item.id p) fun id => p.lead ++ id ++ item.tail) ++
        keysOver removeDiacritics item.withoutProviders keys' := by
  have hbare : item.withoutProviders.kind = item.kind := rfl
  unfold keysOver KeySource.keyProviders KeySource.tail
  cases hkind : item.kind <;> rw [hbare] <;>
    simp only [hkind, List.flatMap_nil, List.flatMap_cons, List.append_nil, append_assoc]
  case season => exact absurd hkind hseason
  case episode => exact absurd hkind hepisode
  case movie | musicVideo | trailer | video =>
    have hvideo : isVideo item.kind = true := by rw [hkind]; rfl
    rw [hkind] at hvideo
    simp only [hvideo, if_true, KeySource.withoutProviders_extraType]
    cases hextra : item.extraType with
    | none => simp [KeySource.id, KeySource.withoutProviders, idKey]
    | some extra =>
      simp [KeySource.id, extraKey_eq, KeySource.withoutProviders]
  case program | liveTvProgram | tvProgram =>
    have hvideo : isVideo item.kind = false := by rw [hkind]; rfl
    rw [hkind] at hvideo
    simp only [hvideo, Bool.false_eq_true, if_false, KeySource.withoutProviders_isSeries]
    by_cases hseries : item.isSeries = true
    · simp [hseries, KeySource.id, KeySource.withoutProviders, idKey]
    · simp [hseries, KeySource.id, KeySource.withoutProviders, idKey]
  all_goals
    have hvideo : isVideo item.kind = false := by rw [hkind]; rfl
    rw [hkind] at hvideo
    simp only [hvideo, Bool.false_eq_true, if_false]
  case musicAlbum | musicArtist =>
    simp only [KeySource.id, KeySource.withoutProviders, Provider.lead_musicBrainzAlbum,
      Provider.lead_musicBrainzReleaseGroup, Provider.lead_musicBrainzArtist, List.append_nil,
      idKey_none, nil_append]
  case series => simp [KeySource.id, KeySource.withoutProviders, idKey]
  all_goals rfl

theorem KeySource.withOneProvider_id (provider p : Provider) (item : KeySource) :
    (item.withOneProvider provider).id p = if p = provider then item.id provider else none := by
  cases provider <;> cases p <;> rfl

theorem KeySource.withOneProvider_keyProviders (provider : Provider) (item : KeySource) :
    (item.withOneProvider provider).keyProviders = item.keyProviders := by
  cases provider <;> rfl

theorem KeySource.withOneProvider_tail (provider : Provider) (item : KeySource) :
    (item.withOneProvider provider).tail = item.tail := by
  cases provider <;> rfl

theorem KeySource.withOneProvider_withoutProviders (provider : Provider) (item : KeySource) :
    (item.withOneProvider provider).withoutProviders = item.withoutProviders := by
  cases provider <;> rfl

theorem KeySource.withOneProvider_kind (provider : Provider) (item : KeySource) :
    (item.withOneProvider provider).kind = item.kind := by
  cases provider <;> rfl

variable (removeDiacritics provider item key) in
/-- A key of an item that is in no series comes from its id or needs none. -/
theorem mem_keysOver_one (hseason : item.kind ≠ .season) (hepisode : item.kind ≠ .episode)
    (keys keys' : Option (List Text)) :
    key ∈ keysOver removeDiacritics (item.withOneProvider provider) keys ↔
      (∃ id, item.ownId provider = some id ∧ key = provider.lead ++ id ++ item.tail) ∨
        key ∈ keysOver removeDiacritics item.withoutProviders keys' := by
  rw [keysOver_eq (by rwa [KeySource.withOneProvider_kind])
    (by rwa [KeySource.withOneProvider_kind]) keys keys',
    KeySource.withOneProvider_keyProviders, KeySource.withOneProvider_tail,
    KeySource.withOneProvider_withoutProviders, mem_append, KeySource.ownId]
  refine or_congr_left ?_
  simp only [List.mem_flatMap, KeySource.withOneProvider_id]
  constructor
  · rintro ⟨p, hp, hkey⟩
    split at hkey
    · next heq =>
      subst heq
      rw [if_pos hp]
      exact mem_idKey.mp hkey
    · cases hkey
  · rintro ⟨id, hid, rfl⟩
    split at hid
    · next hp => exact ⟨provider, hp, mem_idKey.mpr ⟨id, by rw [if_pos rfl, hid], rfl⟩⟩
    · cases hid

theorem keysOver_series_bare (h : s.kind = .series) :
    keysOver removeDiacritics s.withoutProviders none = [s.itemId.toText] := by
  unfold keysOver
  rw [show s.withoutProviders.kind = .series from h]
  rfl

theorem KeySource.keyProviders_of_series (h : s.kind = .series) :
    s.keyProviders = [.custom, .tvdb, .imdb] := by
  unfold keyProviders
  rw [h]

theorem keysOver_series_one (h : s.kind = .series) :
    keysOver removeDiacritics (s.withOneProvider provider) none =
      (s.ownId provider).toList ++ [s.itemId.toText] := by
  have hkind : (s.withOneProvider provider).kind = .series := by
    rw [KeySource.withOneProvider_kind, h]
  have htail : s.tail = [] := by
    unfold KeySource.tail
    rw [h]
    rfl
  rw [keysOver_eq (by rw [hkind]; nofun) (by rw [hkind]; nofun) none none,
    KeySource.withOneProvider_keyProviders, KeySource.withOneProvider_tail,
    KeySource.withOneProvider_withoutProviders, keysOver_series_bare h, htail, KeySource.ownId,
    s.keyProviders_of_series h]
  congr 1
  cases provider <;> simp [KeySource.withOneProvider_id, idKey]

theorem lead_of_series (h : s.kind = .series) {id : Text} (hid : s.ownId provider = some id) :
    provider.lead = [] := by
  rw [KeySource.ownId, s.keyProviders_of_series h] at hid
  split at hid
  · next hmem =>
    obtain rfl | rfl | rfl : provider = .custom ∨ provider = .tvdb ∨ provider = .imdb := by
      simpa using hmem
    all_goals rfl
  · cases hid

theorem keysOver_season (h : item.kind = .season) (keys : Option (List Text)) :
    keysOver removeDiacritics item keys = seriesDerived keys item.tail ++ [item.itemId.toText] := by
  unfold keysOver KeySource.tail
  rw [h]

theorem keysOver_episode (h : item.kind = .episode) (keys : Option (List Text)) :
    keysOver removeDiacritics item keys =
      (if item.parentIndexNumber.isSome ∧ item.indexNumber.isSome then
        seriesDerivedDroppingOwnId keys item.tail else []) ++ [item.itemId.toText] := by
  unfold keysOver KeySource.tail
  rw [h]
  cases item.parentIndexNumber <;> cases item.indexNumber <;> rfl

def IsKeyed (provider : Provider) (item : KeySource) (series : Option KeySource) (key : Text) :
    Prop :=
  ∃ id, item.keyedId provider series = some id ∧ key = provider.lead ++ id ++ item.tail

theorem ownId_ne_nil {id : Text} (h : item.ownId provider = some id) : id ≠ [] := by
  unfold KeySource.ownId at h
  split at h
  · exact of_decide_eq_true (Option.filter_eq_some_iff.mp h).2
  · cases h

theorem keyedId_ne_nil {id : Text} (h : item.keyedId provider series = some id) : id ≠ [] := by
  unfold KeySource.keyedId at h
  split at h
  · obtain ⟨s, -, hs⟩ := bind_eq_some_iff.mp h
    exact ownId_ne_nil hs
  · split at h
    · obtain ⟨s, -, hs⟩ := bind_eq_some_iff.mp h
      exact ownId_ne_nil hs
    · cases h
  · exact ownId_ne_nil h

theorem IsKeyed.ne_nil (h : IsKeyed provider item series key) : key ≠ [] := by
  obtain ⟨id, hid, rfl⟩ := h
  simp [keyedId_ne_nil hid]

section

variable (hseries : ∀ s ∈ series, s.kind = .series)

include hseries

variable (removeDiacritics provider item) in
theorem mem_seriesDerived (key : Text) :
    key ∈ seriesDerived (series.map fun s =>
        keysOver removeDiacritics (s.withOneProvider provider) none) item.tail ↔
      (∃ id, series.bind (KeySource.ownId provider) = some id ∧
        key = provider.lead ++ id ++ item.tail) ∨
      key ∈ seriesDerived (series.map fun s =>
        keysOver removeDiacritics s.withoutProviders none) item.tail := by
  cases series with
  | none => simp [seriesDerived]
  | some s =>
    have hs : s.kind = .series := hseries s rfl
    simp only [map_some, Option.bind_some, keysOver_series_one hs, keysOver_series_bare hs,
      seriesDerived, List.map_append, mem_append]
    refine or_congr_left ?_
    cases hid : s.ownId provider with
    | none => simp
    | some id => simp [lead_of_series hs hid]

variable (removeDiacritics provider item) in
theorem mem_seriesDerivedDroppingOwnId (key : Text) :
    key ∈ seriesDerivedDroppingOwnId (series.map fun s =>
        keysOver removeDiacritics (s.withOneProvider provider) none) item.tail ↔
      match series.bind (KeySource.ownId provider) with
      | some id => key = provider.lead ++ id ++ item.tail
      | none =>
        key ∈ seriesDerivedDroppingOwnId (series.map fun s =>
          keysOver removeDiacritics s.withoutProviders none) item.tail := by
  cases series with
  | none => simp [seriesDerivedDroppingOwnId]
  | some s =>
    have hs : s.kind = .series := hseries s rfl
    simp only [map_some, Option.bind_some, keysOver_series_one hs, keysOver_series_bare hs,
      seriesDerivedDroppingOwnId]
    cases hid : s.ownId provider with
    | none => simp
    | some id => simp [lead_of_series hs hid]

variable (removeDiacritics provider item) in
/-- A key over one provider is made of its id or is there without it, and the one that is made of
its id is there. -/
theorem mem_userDataKeys_one (key : Text) :
    (key ∈ userDataKeys removeDiacritics (item.withOneProvider provider)
        (series.map (·.withOneProvider provider)) →
      IsKeyed provider item series key ∨ key ∈ baseline removeDiacritics item series) ∧
    (IsKeyed provider item series key →
      key ∈ userDataKeys removeDiacritics (item.withOneProvider provider)
        (series.map (·.withOneProvider provider))) := by
  have hown : (item.withOneProvider provider).itemId = item.itemId := by cases provider <;> rfl
  have hkind : (item.withOneProvider provider).kind = item.kind := item.withOneProvider_kind _
  have hbare : item.withoutProviders.kind = item.kind := rfl
  rw [userDataKeys, baseline, userDataKeys, map_map, map_map, IsKeyed]
  by_cases hseason : item.kind = .season
  · rw [keysOver_season (hkind.trans hseason), keysOver_season (hbare.trans hseason), hown,
      KeySource.withOneProvider_tail]
    have hkeys := mem_seriesDerived removeDiacritics provider item hseries key
    have hid : item.keyedId provider series = series.bind (KeySource.ownId provider) := by
      unfold KeySource.keyedId
      rw [hseason]
    rw [mem_append, mem_append, hid]
    constructor
    · rintro (h | h)
      · exact (hkeys.mp h).imp_right .inl
      · exact .inr (.inr h)
    · exact fun h => .inl (hkeys.mpr (.inl h))
  by_cases hepisode : item.kind = .episode
  · have hnum : (item.withOneProvider provider).parentIndexNumber = item.parentIndexNumber ∧
        (item.withOneProvider provider).indexNumber = item.indexNumber := by
      cases provider <;> exact ⟨rfl, rfl⟩
    rw [keysOver_episode (hkind.trans hepisode), keysOver_episode (hbare.trans hepisode), hown,
      KeySource.withOneProvider_tail, hnum.1, hnum.2]
    have hkeys := mem_seriesDerivedDroppingOwnId removeDiacritics provider item hseries key
    have hid : item.keyedId provider series =
        if item.parentIndexNumber.isSome ∧ item.indexNumber.isSome then
          series.bind (KeySource.ownId provider) else none := by
      unfold KeySource.keyedId
      rw [hepisode]
    have hparent : item.withoutProviders.parentIndexNumber = item.parentIndexNumber := rfl
    have hindex : item.withoutProviders.indexNumber = item.indexNumber := rfl
    rw [mem_append, mem_append, hid, hparent, hindex]
    split
    · constructor
      · rintro (h | h)
        · have h := hkeys.mp h
          split at h
          · next id hid => exact .inl ⟨id, hid, h⟩
          · exact .inr (.inl h)
        · exact .inr (.inr h)
      · rintro ⟨id, hid, h⟩
        refine .inl (hkeys.mpr ?_)
        rw [hid]
        exact h
    · constructor
      · rintro (h | h)
        · cases h
        · exact .inr (.inr h)
      · rintro ⟨_, h, -⟩
        cases h
  · have hkeys := mem_keysOver_one removeDiacritics provider item key hseason hepisode
      (series.map ((keysOver removeDiacritics · none) ∘ (·.withOneProvider provider)))
      (series.map ((keysOver removeDiacritics · none) ∘ (·.withoutProviders)))
    have hid : item.keyedId provider series = item.ownId provider := by
      unfold KeySource.keyedId
      split
      · exact absurd ‹_› hseason
      · exact absurd ‹_› hepisode
      · rfl
    rw [hid]
    exact ⟨hkeys.mp, fun h => hkeys.mpr (.inl h)⟩

/-- **A key that a provider owes is made of its id**, and no key without it. -/
theorem mem_providerKeys :
    key ∈ providerKeys removeDiacritics provider item series ↔
      IsKeyed provider item series key ∧ key ∉ baseline removeDiacritics item series := by
  have hkeys := mem_userDataKeys_one removeDiacritics provider item hseries key
  rw [providerKeys, List.mem_filter, Bool.and_eq_true, decide_eq_true_iff, Bool.not_eq_true',
    ← Bool.not_eq_true, List.contains_iff_mem]
  constructor
  · rintro ⟨h, -, hbase⟩
    exact ⟨(hkeys.1 h).resolve_right hbase, hbase⟩
  · rintro ⟨h, hbase⟩
    exact ⟨hkeys.2 h, h.ne_nil, hbase⟩

end

/-! ### Provenance -/

variable {a b : KeySource} {sa sb : Option KeySource}

def SameMarks (a b : KeySource) : Prop :=
  match a.kind with
  | .season => a.indexNumber = b.indexNumber
  | .episode => a.parentIndexNumber = b.parentIndexNumber ∧ a.indexNumber = b.indexNumber
  | kind =>
    isVideo kind = true →
      a.extraType = b.extraType ∧ (a.extraType.isSome → a.runTimeTicks = b.runTimeTicks)

/-- Two items, or the series of two seasons or episodes, carry the same id of a provider. -/
def SameId (provider : Provider) (a : KeySource) (sa : Option KeySource) (b : KeySource)
    (sb : Option KeySource) : Prop :=
  match a.kind with
  | .season | .episode =>
    ∃ s ∈ sa, ∃ t ∈ sb, ∃ id, s.id provider = some id ∧ t.id provider = some id
  | _ => ∃ id, a.id provider = some id ∧ b.id provider = some id

/-- An identity that names a provider is shared only by items that belong together. -/
def Provenance (removeDiacritics : Text → Text) (a : KeySource) (sa : Option KeySource)
    (b : KeySource) (sb : Option KeySource) : Prop :=
  ∀ provider key,
    qualified a.kind (Provider.name provider) key ∈ retentionKeys removeDiacritics a sa →
    qualified b.kind (Provider.name provider) key ∈ retentionKeys removeDiacritics b sb →
    SameId provider a sa b sb ∧ SameMarks a b

def guidKeys (item : KeySource) (series : Option KeySource) : List Text :=
  match item.kind with
  | .season | .episode =>
    (series.toList.map fun s => s.itemId.toText ++ item.tail) ++ [item.itemId.toText]
  | _ => [item.itemId.toText]

/-- The id of one item goes on where the id of another one ends, with the start of the text behind
that one, and its own text is the rest of it; or they have one id, and one text for different
numbers or extras.  It matters where that text is not made of a guid. -/
def RunsInto (provider : Provider) (a : KeySource) (sa : Option KeySource) (b : KeySource)
    (sb : Option KeySource) : Prop :=
  ∃ id d, a.keyedId provider sa = some id ∧ b.keyedId provider sb = some (id ++ d) ∧
    a.tail = d ++ b.tail ∧ (d = [] → ¬SameMarks a b) ∧
    id ++ a.tail ∉ guidKeys a sa ∧ id ++ a.tail ∉ guidKeys b sb

theorem sameMarks_comm (h : a.kind = b.kind) : SameMarks a b ↔ SameMarks b a := by
  unfold SameMarks
  rw [h]
  split
  · exact eq_comm
  · exact and_congr eq_comm eq_comm
  · constructor <;> intro h hvideo <;> obtain ⟨htype, htime⟩ := h hvideo <;>
      refine ⟨htype.symm, fun hsome => (htime ?_).symm⟩
    · rwa [htype]
    · rwa [htype]

theorem ownId_eq {id : Text} (h : item.ownId provider = some id) : item.id provider = some id := by
  unfold KeySource.ownId at h
  split at h
  · exact (Option.filter_eq_some_iff.mp h).1
  · cases h

theorem keyedId_eq {id : Text} (h : item.keyedId provider series = some id) :
    (item.kind = .season ∨ item.kind = .episode) ∧
        series.bind (KeySource.ownId provider) = some id ∨
      (item.kind ≠ .season ∧ item.kind ≠ .episode) ∧ item.ownId provider = some id := by
  unfold KeySource.keyedId at h
  split at h
  · next hkind => exact .inl ⟨.inl hkind, h⟩
  · next hkind =>
    split at h
    · exact .inl ⟨.inr hkind, h⟩
    · cases h
  · next hseason hepisode => exact .inr ⟨⟨hseason, hepisode⟩, h⟩

theorem sameId_of_series (h : a.kind = .season ∨ a.kind = .episode) :
    SameId provider a sa b sb ↔
      ∃ s ∈ sa, ∃ t ∈ sb, ∃ id, s.id provider = some id ∧ t.id provider = some id := by
  unfold SameId
  rcases h with h | h <;> rw [h]

theorem sameId_of_own (h : a.kind ≠ .season ∧ a.kind ≠ .episode) :
    SameId provider a sa b sb ↔ ∃ id, a.id provider = some id ∧ b.id provider = some id := by
  unfold SameId
  split
  · exact absurd ‹_› h.1
  · exact absurd ‹_› h.2
  · exact Iff.rfl

theorem belong_comm (hkind : a.kind = b.kind)
    (h : SameId provider a sa b sb ∧ SameMarks a b) :
    SameId provider b sb a sa ∧ SameMarks b a := by
  refine ⟨?_, (sameMarks_comm hkind).mp h.2⟩
  by_cases hseries : a.kind = .season ∨ a.kind = .episode
  · obtain ⟨s, hs, t, ht, id, hid, hid'⟩ := (sameId_of_series hseries).mp h.1
    rw [hkind] at hseries
    exact (sameId_of_series hseries).mpr ⟨t, ht, s, hs, id, hid', hid⟩
  · obtain ⟨id, hid, hid'⟩ := (sameId_of_own (not_or.mp hseries)).mp h.1
    rw [hkind] at hseries
    exact (sameId_of_own (not_or.mp hseries)).mpr ⟨id, hid', hid⟩

theorem sameId_iff {id id' : Text} (hkind : a.kind = b.kind)
    (ha : a.keyedId provider sa = some id) (hb : b.keyedId provider sb = some id') :
    SameId provider a sa b sb ↔ id = id' := by
  rcases keyedId_eq ha with ⟨h, ha⟩ | ⟨h, ha⟩ <;> rcases keyedId_eq hb with ⟨h', hb⟩ | ⟨h', hb⟩
  · obtain ⟨s, rfl, hs⟩ := bind_eq_some_iff.mp ha
    obtain ⟨t, rfl, ht⟩ := bind_eq_some_iff.mp hb
    rw [sameId_of_series h]
    constructor
    · rintro ⟨_, hsa, _, htb, i, hi, hi'⟩
      rw [← Option.some.inj hsa, ownId_eq hs] at hi
      rw [← Option.some.inj htb, ownId_eq ht] at hi'
      exact Option.some.inj (hi.trans hi'.symm)
    · rintro rfl
      exact ⟨s, rfl, t, rfl, id, ownId_eq hs, ownId_eq ht⟩
  · rw [hkind] at h
    exact absurd h (not_or.mpr h')
  · rw [hkind] at h
    exact absurd h' (not_or.mpr h)
  · rw [sameId_of_own h, ownId_eq ha, ownId_eq hb]
    constructor
    · rintro ⟨i, hi, hi'⟩
      exact Option.some.inj (hi.trans hi'.symm)
    · rintro rfl
      exact ⟨id, rfl, rfl⟩

def HasTail (item : KeySource) : Prop :=
  item.kind = .season ∨ item.kind = .episode ∨ isVideo item.kind = true

theorem tail_of_not_hasTail (h : ¬HasTail item) : item.tail = [] := by
  unfold KeySource.tail
  split
  · exact absurd (.inl ‹_›) h
  · exact absurd (.inr (.inl ‹_›)) h
  · rw [if_neg fun hvideo => h (.inr (.inr hvideo))]

theorem sameMarks_of_not_hasTail (h : ¬HasTail a) : SameMarks a b := by
  unfold SameMarks
  split
  · exact absurd (.inl ‹_›) h
  · exact absurd (.inr (.inl ‹_›)) h
  · exact fun hvideo => absurd (.inr (.inr hvideo)) h

theorem RunsInto.hasTail (h : RunsInto provider a sa b sb) : HasTail a := by
  obtain ⟨id, d, -, -, htail, hmarks, -⟩ := h
  by_contra hnot
  rw [tail_of_not_hasTail hnot] at htail
  exact hmarks (List.append_eq_nil_iff.mp htail.symm).1 (sameMarks_of_not_hasTail hnot)

theorem keyProviders_of_video (hvideo : isVideo item.kind = true) (h : item.kind ≠ .episode) :
    item.keyProviders = if item.extraType.isSome then [.imdb, .tmdb] else [.tmdb, .imdb] := by
  unfold KeySource.keyProviders
  split
  case h_2 => exact absurd ‹_› h
  case h_9 => rw [if_pos hvideo]
  all_goals
    rw [‹item.kind = _›] at hvideo
    cases hvideo

theorem lead_of_hasTail (hseries : ∀ s ∈ series, s.kind = .series) {id : Text}
    (hid : item.keyedId provider series = some id) (h : HasTail item) : provider.lead = [] := by
  rcases keyedId_eq hid with ⟨-, hid⟩ | ⟨hkind, hid⟩
  · obtain ⟨s, hs, hsid⟩ := bind_eq_some_iff.mp hid
    exact lead_of_series (hseries s hs) hsid
  · have hvideo : isVideo item.kind = true := (h.resolve_left hkind.1).resolve_left hkind.2
    unfold KeySource.ownId at hid
    split at hid
    · next hmem =>
      rw [keyProviders_of_video hvideo hkind.2] at hmem
      obtain rfl | rfl : provider = .tmdb ∨ provider = .imdb := by
        split at hmem <;> simp only [mem_cons, List.not_mem_nil, or_false] at hmem
        · exact hmem.symm
        · exact hmem
      all_goals rfl
    · cases hid

theorem own_mem_keysOver (keys : Option (List Text)) :
    item.itemId.toText ∈ keysOver removeDiacritics item keys := by
  unfold keysOver
  split <;> (repeat' split) <;>
    simp only [mem_append, mem_cons, true_or, or_true]

theorem guidKeys_of_series (h : item.kind = .season ∨ item.kind = .episode) :
    guidKeys item series =
      (series.toList.map fun s => s.itemId.toText ++ item.tail) ++ [item.itemId.toText] := by
  unfold guidKeys
  rcases h with h | h <;> rw [h]

theorem keysOver_video_bare (hvideo : isVideo item.kind = true) (h : item.kind ≠ .episode)
    (keys : Option (List Text)) :
    keysOver removeDiacritics item.withoutProviders keys = [item.itemId.toText] := by
  have hbare : item.withoutProviders.kind = item.kind := rfl
  unfold keysOver
  rw [hbare]
  split
  case h_2 => exact absurd ‹_› h
  case h_18 =>
    rw [if_pos hvideo]
    split <;> rfl
  all_goals
    rw [‹item.kind = _›] at hvideo
    cases hvideo

theorem baseline_eq_guidKeys (hseries : ∀ s ∈ series, s.kind = .series) {id : Text}
    (hid : item.keyedId provider series = some id) (h : HasTail item) :
    baseline removeDiacritics item series = guidKeys item series := by
  have hbare : item.withoutProviders.kind = item.kind := rfl
  rw [baseline, userDataKeys, map_map]
  by_cases hseason : item.kind = .season
  · rw [keysOver_season (hbare.trans hseason), guidKeys_of_series (.inl hseason)]
    cases series with
    | none => rfl
    | some s =>
      rw [map_some, Function.comp_apply, keysOver_series_bare (hseries s rfl)]
      rfl
  by_cases hepisode : item.kind = .episode
  · have hnumbers : item.parentIndexNumber.isSome ∧ item.indexNumber.isSome := by
      unfold KeySource.keyedId at hid
      rw [hepisode] at hid
      by_contra hnot
      dsimp only at hid
      rw [if_neg hnot] at hid
      cases hid
    rw [keysOver_episode (hbare.trans hepisode), guidKeys_of_series (.inr hepisode),
      if_pos (show item.withoutProviders.parentIndexNumber.isSome ∧
        item.withoutProviders.indexNumber.isSome from hnumbers)]
    cases series with
    | none => rfl
    | some s =>
      rw [map_some, Function.comp_apply, keysOver_series_bare (hseries s rfl)]
      rfl
  · have hvideo : isVideo item.kind = true := (h.resolve_left hseason).resolve_left hepisode
    rw [keysOver_video_bare hvideo hepisode]
    unfold guidKeys
    split
    · exact absurd ‹_› hseason
    · exact absurd ‹_› hepisode
    · rfl

theorem mem_baseline_of_guidKeys (hseries : ∀ s ∈ series, s.kind = .series) {id : Text}
    (hid : item.keyedId provider series = some id) (h : key ∈ guidKeys item series) :
    key ∈ baseline removeDiacritics item series := by
  by_cases htail : HasTail item
  · rwa [baseline_eq_guidKeys hseries hid htail]
  · unfold guidKeys at h
    split at h
    · exact absurd (.inl ‹_›) htail
    · exact absurd (.inr (.inl ‹_›)) htail
    · rw [List.mem_singleton.mp h]
      exact own_mem_keysOver _

theorem hasTail_congr (h : a.kind = b.kind) : HasTail a ↔ HasTail b := by
  unfold HasTail
  rw [h]

theorem RunsInto.mem_providerKeys (hkind : a.kind = b.kind) (hsa : ∀ s ∈ sa, s.kind = .series)
    (hsb : ∀ s ∈ sb, s.kind = .series) (h : RunsInto provider a sa b sb) :
    ∃ key, key ∈ providerKeys removeDiacritics provider a sa ∧
      key ∈ providerKeys removeDiacritics provider b sb := by
  have htail := h.hasTail
  have htail' := (hasTail_congr hkind).mp htail
  obtain ⟨id, d, ha, hb, heq, -, hguid, hguid'⟩ := h
  have hlead := lead_of_hasTail hsa ha htail
  refine ⟨id ++ a.tail, (UserData.mem_providerKeys hsa).mpr ⟨⟨id, ha, ?_⟩, ?_⟩,
    (UserData.mem_providerKeys hsb).mpr ⟨⟨id ++ d, hb, ?_⟩, ?_⟩⟩
  · rw [hlead, nil_append]
  · rwa [baseline_eq_guidKeys hsa ha htail]
  · rw [hlead, nil_append, append_assoc, heq]
  · rwa [baseline_eq_guidKeys hsb hb htail']

/-- Where items share an identity, they belong together or one of them runs into the other. -/
theorem runsInto_of_mem (hkind : a.kind = b.kind) (hsa : ∀ s ∈ sa, s.kind = .series)
    (hsb : ∀ s ∈ sb, s.kind = .series) {id d : Text}
    (ha : a.keyedId provider sa = some id) (hb : b.keyedId provider sb = some (id ++ d))
    (heq : a.tail = d ++ b.tail)
    (hbase : provider.lead ++ id ++ a.tail ∉ baseline removeDiacritics a sa)
    (hbase' : provider.lead ++ id ++ a.tail ∉ baseline removeDiacritics b sb) :
    RunsInto provider a sa b sb ∨ SameId provider a sa b sb ∧ SameMarks a b := by
  by_cases hd : d = [] ∧ SameMarks a b
  · refine .inr ⟨(sameId_iff hkind ha hb).mpr ?_, hd.2⟩
    rw [hd.1, List.append_nil]
  have hmarks : d = [] → ¬SameMarks a b := fun hnil h => hd ⟨hnil, h⟩
  by_cases htail : HasTail a
  · rw [lead_of_hasTail hsa ha htail, nil_append] at hbase hbase'
    exact .inl ⟨id, d, ha, hb, heq, hmarks, fun h => hbase (mem_baseline_of_guidKeys hsa ha h),
      fun h => hbase' (mem_baseline_of_guidKeys hsb hb h)⟩
  · rw [tail_of_not_hasTail htail] at heq
    exact absurd (sameMarks_of_not_hasTail htail) (hmarks (List.append_eq_nil_iff.mp heq.symm).1)

/-- **Items that do not run into each other are told apart.** -/
theorem provenance_of_apart (hkind : a.kind = b.kind) (hsa : ∀ s ∈ sa, s.kind = .series)
    (hsb : ∀ s ∈ sb, s.kind = .series)
    (h : ∀ provider, ¬RunsInto provider a sa b sb ∧ ¬RunsInto provider b sb a sa) :
    Provenance removeDiacritics a sa b sb := by
  intro provider key hkey hkey'
  obtain ⟨⟨id, ha, heq⟩, hbase⟩ := (mem_providerKeys hsa).mp (mem_retentionKeys.mp hkey)
  obtain ⟨⟨id', hb, heq'⟩, hbase'⟩ := (mem_providerKeys hsb).mp (mem_retentionKeys.mp hkey')
  have htexts : id ++ a.tail = id' ++ b.tail := by
    rw [heq, append_assoc, append_assoc] at heq'
    exact List.append_cancel_left heq'
  rcases List.append_eq_append_iff.mp htexts with ⟨d, rfl, htail⟩ | ⟨d, rfl, htail⟩
  · rw [heq] at hbase hbase'
    exact (runsInto_of_mem hkind hsa hsb ha hb htail hbase hbase').resolve_left (h provider).1
  · rw [heq'] at hbase hbase'
    exact belong_comm hkind.symm
      ((runsInto_of_mem hkind.symm hsb hsa hb ha htail hbase' hbase).resolve_left (h provider).2)

/-- **An identity that names a provider tells where history belongs, unless one item runs into the
other.** -/
theorem retentionKeys_provenance (hkind : a.kind = b.kind) (hsa : ∀ s ∈ sa, s.kind = .series)
    (hsb : ∀ s ∈ sb, s.kind = .series) :
    Provenance removeDiacritics a sa b sb ↔
      ∀ provider, ¬RunsInto provider a sa b sb ∧ ¬RunsInto provider b sb a sa := by
  have hapart : ∀ {provider} {a b : KeySource} {sa sb : Option KeySource}, a.kind = b.kind →
      RunsInto provider a sa b sb → ¬(SameId provider a sa b sb ∧ SameMarks a b) := by
    rintro provider a b sa sb hkind ⟨id, d, ha, hb, -, hmarks, -⟩ ⟨hid, hsame⟩
    have heq := (sameId_iff hkind ha hb).mp hid
    exact hmarks (List.self_eq_append_right.mp heq) hsame
  constructor
  · intro h provider
    constructor
    · intro hruns
      obtain ⟨key, hkey, hkey'⟩ := hruns.mem_providerKeys hkind hsa hsb
      exact hapart hkind hruns
        (h provider key (mem_retentionKeys.mpr hkey) (mem_retentionKeys.mpr hkey'))
    · intro hruns
      obtain ⟨key, hkey, hkey'⟩ := hruns.mem_providerKeys hkind.symm hsb hsa
      exact hapart hkind.symm hruns (belong_comm hkind
        (h provider key (mem_retentionKeys.mpr hkey') (mem_retentionKeys.mpr hkey)))
  · exact provenance_of_apart hkind hsa hsb

def seriesOf (itemId : Uuid) (tvdb : Text) : KeySource :=
  { itemId := itemId, kind := .series, tvdb := some tvdb }

def episodeOf (itemId : Uuid) (season episode : ℤ) : KeySource :=
  { itemId := itemId
    kind := .episode
    parentIndexNumber := some season
    indexNumber := some episode }

theorem seriesOf_kind (itemId : Uuid) (tvdb : Text) :
    ∀ s ∈ some (seriesOf itemId tvdb), s.kind = .series := by
  rintro s hs
  rw [← Option.mem_some_iff.mp hs]
  rfl

/-- Two episodes of one series. -/
theorem retentionKeys_provenance_episodes :
    Provenance id (episodeOf 3 1 2) (some (seriesOf 1 "75492".toList)) (episodeOf 4 1 3)
        (some (seriesOf 1 "75492".toList)) ↔
      ∀ provider,
        ¬RunsInto provider (episodeOf 3 1 2) (some (seriesOf 1 "75492".toList)) (episodeOf 4 1 3)
          (some (seriesOf 1 "75492".toList)) ∧
        ¬RunsInto provider (episodeOf 4 1 3) (some (seriesOf 1 "75492".toList)) (episodeOf 3 1 2)
          (some (seriesOf 1 "75492".toList)) :=
  retentionKeys_provenance rfl (seriesOf_kind _ _) (seriesOf_kind _ _)

/-- The first episode of the season 2010 of series 7549 has the identity of the first episode of
the season 10 of series 75492. -/
theorem history_of_another_series :
    ¬∀ (a b : KeySource) (sa sb : Option KeySource), a.kind = b.kind → a.itemId ≠ b.itemId →
      (∀ s ∈ sa, s.kind = .series) → (∀ s ∈ sb, s.kind = .series) → Provenance id a sa b sb := by
  intro h
  obtain ⟨-, hseason, -⟩ := h (episodeOf 3 2010 1) (episodeOf 4 10 1)
    (some (seriesOf 1 "7549".toList)) (some (seriesOf 2 "75492".toList)) rfl (by decide)
    (seriesOf_kind _ _) (seriesOf_kind _ _) .tvdb "75492010001".toList
    (by decide +kernel) (by decide +kernel)
  cases hseason

/-! ### Where no item runs into another -/

theorem length_zeroPadded {n : ℤ} (h : 0 ≤ n) (h' : n < 1000) : (zeroPadded 3 n).length = 3 := by
  have hdigits : (Nat.toDigits 10 n.natAbs).length ≤ 3 :=
    (Nat.length_toDigits_le_iff (by decide) (by decide)).mpr (by omega)
  rw [zeroPadded, if_neg (by omega), List.length_leftpad]
  omega

theorem zeroPadded_inj {m n : ℤ} (hm : 0 ≤ m) (hn : 0 ≤ n) {width : ℕ}
    (h : zeroPadded width m = zeroPadded width n) : m = n := by
  have hvalue : ∀ n : ℤ, 0 ≤ n → Nat.ofDigitChars 10 (zeroPadded width n) 0 = n.natAbs := by
    intro n hn
    rw [zeroPadded, if_neg (by omega), List.leftpad, Nat.ofDigitChars_append,
      Nat.ofDigitChars_replicate_zero, Nat.mul_zero, Nat.ofDigitChars_ten_toDigits]
  have hm' := hvalue m hm
  rw [h, hvalue n hn] at hm'
  omega

def ShortNumbers (item : KeySource) : Prop :=
  (∃ n, item.indexNumber = some n ∧ 0 ≤ n ∧ n < 1000) ∧
    (item.kind = .episode → ∃ n, item.parentIndexNumber = some n ∧ 0 ≤ n ∧ n < 1000)

theorem ShortNumbers.not_runsInto (ha : ShortNumbers a) (hb : ShortNumbers b)
    (hkind : a.kind = b.kind) (hseries : a.kind = .season ∨ a.kind = .episode) :
    ¬RunsInto provider a sa b sb := by
  rintro ⟨id, d, -, -, htail, hmarks, -⟩
  obtain ⟨⟨m, hm, hm0, hm1⟩, ha⟩ := ha
  obtain ⟨⟨n, hn, hn0, hn1⟩, hb⟩ := hb
  have hlen := congrArg List.length htail
  rcases hseries with h | h
  · have h' := hkind.symm.trans h
    unfold KeySource.tail at htail hlen
    rw [h, h'] at htail hlen
    simp only [hm, hn, Option.getD_some, List.length_append, length_zeroPadded hm0 hm1,
      length_zeroPadded hn0 hn1] at htail hlen
    obtain rfl : d = [] := List.eq_nil_of_length_eq_zero (by omega)
    refine hmarks rfl ?_
    unfold SameMarks
    rw [h, hm, hn, zeroPadded_inj hm0 hn0 htail]
  · have h' := hkind.symm.trans h
    obtain ⟨k, hk, hk0, hk1⟩ := ha h
    obtain ⟨l, hl, hl0, hl1⟩ := hb h'
    unfold KeySource.tail at htail hlen
    rw [h, h'] at htail hlen
    simp only [hm, hn, hk, hl, Option.getD_some, List.length_append, length_zeroPadded hm0 hm1,
      length_zeroPadded hn0 hn1, length_zeroPadded hk0 hk1, length_zeroPadded hl0 hl1]
      at htail hlen
    obtain rfl : d = [] := List.eq_nil_of_length_eq_zero (by omega)
    rw [nil_append] at htail
    obtain ⟨hseason, hepisode⟩ := List.append_inj htail
      (by rw [length_zeroPadded hk0 hk1, length_zeroPadded hl0 hl1])
    refine hmarks rfl ?_
    unfold SameMarks
    rw [h]
    exact ⟨by rw [hk, hl, zeroPadded_inj hk0 hl0 hseason],
      by rw [hm, hn, zeroPadded_inj hm0 hn0 hepisode]⟩

/-- **Seasons and episodes with numbers of three digits at most are told apart.** -/
theorem not_runsInto_of_shortNumbers (hkind : a.kind = b.kind)
    (hseries : a.kind = .season ∨ a.kind = .episode) (ha : ShortNumbers a) (hb : ShortNumbers b) :
    (∀ provider, ¬RunsInto provider a sa b sb) ∧
    ((∀ s ∈ sa, s.kind = .series) → (∀ s ∈ sb, s.kind = .series) →
      Provenance removeDiacritics a sa b sb) :=
  ⟨fun _ => ha.not_runsInto hb hkind hseries, fun hsa hsb => provenance_of_apart hkind hsa hsb
    fun _ => ⟨ha.not_runsInto hb hkind hseries, hb.not_runsInto ha hkind.symm (hkind ▸ hseries)⟩⟩

theorem not_runsInto_episodes : Provenance id (episodeOf 3 201 1)
    (some (seriesOf 1 "7549".toList)) (episodeOf 4 1 1) (some (seriesOf 2 "75492".toList)) := by
  have ha : ShortNumbers (episodeOf 3 201 1) :=
    ⟨⟨1, rfl, by decide, by decide⟩, fun _ => ⟨201, rfl, by decide, by decide⟩⟩
  have hb : ShortNumbers (episodeOf 4 1 1) :=
    ⟨⟨1, rfl, by decide, by decide⟩, fun _ => ⟨1, rfl, by decide, by decide⟩⟩
  have hkind : (episodeOf 3 201 1).kind = (episodeOf 4 1 1).kind := rfl
  exact (not_runsInto_of_shortNumbers hkind (.inr rfl) ha hb).2 (seriesOf_kind _ _)
    (seriesOf_kind _ _)

end Ferrofin.UserData
