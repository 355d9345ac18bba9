import Ferrofin.Metadata.Settled

/-!
# What a refresh keeps

A field whose name is locked stays as it is (`MetadataField.Same`).  A refresh that only fills
leaves alone what is not empty, but for the lists that it unites, the season number of an episode,
and what it adds to credits and ids (`Filled`).  The default refresh puts nothing empty in the place
of a value (`KeepsValues`), but for ids that are not valid and trailers that are no list.
-/

namespace Ferrofin.Metadata

open Visibility (BaseItemKind)
open Lib Util

/-! ### Rules that keep values -/

section Rules

variable {σ : Type*} {empty usable : σ → Bool} {fill rule : Rule σ}

/-- A rule that leaves alone what is not empty and not to be replaced. -/
def Fills (empty : σ → Bool) (rule : Rule σ) : Prop :=
  ∀ source target, empty target = false → rule source target false = target

/-- By default nothing empty comes in the place of a value. -/
def Keeps (empty : σ → Bool) (fill rule : Rule σ) : Prop :=
  ∀ found stored, empty stored = false → empty (refreshBy fill rule true true found stored) = false

theorem fills_take : Fills empty (take empty usable) := by
  intro source target h
  rw [take, h]
  rfl

theorem Fills.refreshBy (h : Fills empty rule) {keep : Bool} {found stored : σ}
    (hempty : empty stored = false) : refreshBy fill rule keep false found stored = stored :=
  h _ _ hempty

theorem fills_text : Fills isEmpty text := fills_take

theorem fills_value {α : Type*} : Fills Option.isNone (value (α := α)) := fills_take

theorem fills_name : Fills isEmpty name := fills_take

theorem fills_forcedSortName : Fills isEmpty forcedSortName := fills_take

theorem fills_wholeList : Fills (fun v => decide (list v = [])) wholeList := fills_take

theorem Fills.lockable (h : Fills empty rule) (on : Bool) : Fills empty (lockable on rule) := by
  intro source target hempty
  cases on
  · rfl
  · exact h source target hempty

theorem Keeps.lockable (h : Keeps empty fill rule) (unlocked : Bool) :
    Keeps empty fill (lockable unlocked rule) := by
  intro found stored hempty
  cases unlocked
  · exact hempty
  · exact h found stored hempty

theorem Keeps.off (h : Keeps empty rule rule) (on : Bool) :
    Keeps empty (Ferrofin.Metadata.lockable on rule) (Ferrofin.Metadata.lockable on rule) := by
  intro found stored hempty
  cases on
  · exact hempty
  · exact h found stored hempty

/-- What is stored fills an empty finding where every value is usable; where nothing empty is, the
finding is not taken. -/
theorem keeps_take (h : (∀ v, empty v = false → usable v = true) ∨
    ∀ v, empty v = true → usable v = false) :
    Keeps empty (take empty usable) (take empty usable) := by
  intro found stored hempty
  unfold refreshBy take
  rw [if_pos rfl, Bool.false_or, Bool.true_or, Bool.true_and]
  rcases hfound : empty found
  · rw [Bool.false_and, if_neg Bool.false_ne_true]
    split
    · exact hfound
    · exact hempty
  · rw [Bool.true_and]
    by_cases hstored : usable stored = true
    · rw [if_pos hstored, ite_self]
      exact hempty
    · rw [if_neg hstored]
      rcases h with h | h
      · exact absurd (h stored hempty) hstored
      · rw [h found hfound, if_neg Bool.false_ne_true]
        exact hempty

theorem keeps_text : Keeps isEmpty text text := keeps_take (.inl fun _ _ => rfl)

theorem keeps_value {α : Type*} : Keeps Option.isNone (value (α := α)) value :=
  keeps_take (.inl fun _ _ => rfl)

theorem keeps_name : Keeps isEmpty name name := by
  refine keeps_take (.inr fun v h => ?_)
  rcases v with _ | v
  · rfl
  · obtain rfl : v = [] := of_decide_eq_true h
    rfl

theorem keeps_forcedSortName : Keeps isEmpty forcedSortName forcedSortName :=
  keeps_take (.inr fun v h => by rw [h]; rfl)

theorem keeps_wholeList : Keeps (fun v => decide (list v = [])) wholeList wholeList :=
  keeps_take (.inl fun _ _ => rfl)

end Rules

/-! ### Lists -/

section Lists

variable {upperInvariant : Text → Text}

/-- A rule that leaves a list as it is, or puts elements behind it; of elements that are equal
without case the first one stays. -/
def Unites (upperInvariant : Text → Text) (rule : Rule (Option Text)) : Prop :=
  ∀ source target, list target ≠ [] → rule source target false = target ∨
    distinctBy upperInvariant (list target) <+: list (rule source target false)

theorem prefix_union (target source : Option Text) :
    distinctBy upperInvariant (list target) <+: list (union upperInvariant target source) := by
  rw [list_union]
  exact distinctBy_prefix

theorem unites_replaceOrUnion : Unites upperInvariant (replaceOrUnion upperInvariant) := by
  intro source target h
  rw [replaceOrUnion, if_neg (by simpa using h)]
  exact .inr (prefix_union target source)

theorem unites_albumArtists : Unites upperInvariant (albumArtists upperInvariant) := by
  intro source target h
  rw [albumArtists, if_neg (by simpa using h)]
  split
  · exact .inr (prefix_union target source)
  · exact .inl rfl

theorem Unites.lockable {rule : Rule (Option Text)} (h : Unites upperInvariant rule) (on : Bool) :
    Unites upperInvariant (lockable on rule) := by
  intro source target hlist
  cases on
  · exact .inl rfl
  · exact h source target hlist

theorem unites_artists (kind : Option BaseItemKind) :
    Unites upperInvariant (artists upperInvariant kind) := by
  rw [artists]
  split
  · exact unites_replaceOrUnion
  · exact fun source target h => .inl (fills_wholeList.lockable _ source target (decide_eq_false h))

theorem keeps_replaceOrUnion : Keeps (fun v => decide (list v = []))
    (replaceOrUnion upperInvariant) (replaceOrUnion upperInvariant) := by
  intro found stored h
  rw [decide_eq_false_iff_not] at h ⊢
  unfold refreshBy replaceOrUnion
  by_cases hfound : list found = [] <;> simp [hfound, h, list_union_ne_nil]

theorem keeps_albumArtists : Keeps (fun v => decide (list v = []))
    (albumArtists upperInvariant) (albumArtists upperInvariant) := by
  intro found stored h
  rw [decide_eq_false_iff_not] at h ⊢
  unfold refreshBy albumArtists
  by_cases hfound : list found = [] <;> simp [hfound, h, list_union_ne_nil]

theorem keeps_artists (kind : Option BaseItemKind) : Keeps (fun v => decide (list v = []))
    (artists upperInvariant kind) (artists upperInvariant kind) := by
  rw [artists]
  split
  · exact keeps_replaceOrUnion
  · exact keeps_wholeList.off _

end Lists

/-! ### The season number -/

theorem keeps_parentIndexNumber (kind : Option BaseItemKind) :
    Keeps Option.isNone value (parentIndexNumber kind) := by
  rw [parentIndexNumber]
  split
  · intro found stored h
    cases found <;> cases stored <;> first | rfl | cases h
  · exact keeps_value

/-- Only an episode's own season number gives way to the one found. -/
theorem parentIndexNumber_fill {kind : Option BaseItemKind} {keep : Bool} {found stored : Option ℤ}
    (h : stored.isNone = false) :
    refreshBy value (parentIndexNumber kind) keep false found stored = stored ∨
      kind = some .episode ∧
        refreshBy value (parentIndexNumber kind) keep false found stored = found := by
  by_cases hkind : kind = some .episode
  · rw [parentIndexNumber, if_pos hkind]
    cases found <;> cases stored <;> cases keep <;>
      first | exact .inl rfl | exact .inr ⟨hkind, rfl⟩
  · rw [parentIndexNumber, if_neg hkind]
    exact .inl (fills_value.refreshBy h)

/-! ### Credits -/

/-- A credit that took only what it lacked; an id that is not valid counts as none. -/
structure PeopleEntity.Enriched (before after : PeopleEntity) : Prop where
  same : after.id = before.id ∧ after.name = before.name ∧ after.personType = before.personType
  role : isBlank before.role = false → after.role = before.role
  image : isBlank before.primaryImageUrl = false → after.primaryImageUrl = before.primaryImageUrl
  providerId : before.removeInvalidProviderId.providerId ≠ none →
    after.providerId = before.removeInvalidProviderId.providerId
  sortOrder : before.sortOrder ≠ none → after.sortOrder = before.sortOrder

theorem PeopleEntity.enriched_refl (p : PeopleEntity) : p.Enriched p where
  same := ⟨rfl, rfl, rfl⟩
  role _ := rfl
  image _ := rfl
  providerId h := by
    obtain ⟨id, hid⟩ := Option.ne_none_iff_exists'.mp h
    rw [hid]
    exact (Option.filter_eq_some_iff.mp hid).1
  sortOrder _ := rfl

theorem PeopleEntity.enriched_clean (p : PeopleEntity) : p.Enriched p.removeInvalidProviderId :=
  ⟨⟨rfl, rfl, rfl⟩, fun _ => rfl, fun _ => rfl, fun _ => rfl, fun _ => rfl⟩

theorem PeopleEntity.enriched_enrich (p source : PeopleEntity) :
    p.Enriched (p.removeInvalidProviderId.enrich source) where
  same := ⟨rfl, rfl, rfl⟩
  role h := by simp [enrich, removeInvalidProviderId, h]
  image h := by simp [enrich, removeInvalidProviderId, h]
  providerId h := by
    obtain ⟨id, hid⟩ := Option.ne_none_iff_exists'.mp h
    rw [enrich, hid]
    rfl
  sortOrder h := by
    obtain ⟨n, hn⟩ := Option.ne_none_iff_exists'.mp h
    simp [enrich, removeInvalidProviderId, hn]

section Credits

variable {personKey : Text → Text} {found stored : Option (List PeopleEntity)}
  {source target : List PeopleEntity}

theorem forall₂_enriched_clean (target : List PeopleEntity) :
    List.Forall₂ PeopleEntity.Enriched target (removeInvalidProviderIds target) :=
  List.forall₂_map_right_iff.mpr (List.forall₂_same.mpr fun p _ => p.enriched_clean)

theorem forall₂_enriched_mergePeople (source target : List PeopleEntity) :
    List.Forall₂ PeopleEntity.Enriched target
      (mergePeople personKey source (removeInvalidProviderIds target)) := by
  have henrich : List.Forall₂ (fun p q : PeopleEntity => q = p ∨ ∃ s, q = p.enrich s)
      (removeInvalidProviderIds target)
      (mergePeople personKey source (removeInvalidProviderIds target)) :=
    forall₂_enrichBy (fun _ => .inl rfl) (fun _ s => .inr ⟨s, rfl⟩) _ _
  refine (List.forall₂_map_left_iff.mp henrich).imp fun p q h => ?_
  rcases h with rfl | ⟨s, rfl⟩
  · exact p.enriched_clean
  · exact p.enriched_enrich s

/-- Credits that are filled are the same ones, each with what it lacked. -/
theorem people_fill (hne : target ≠ []) :
    ∃ after, mergePeopleField personKey found (some target) false = some after ∧
      List.Forall₂ PeopleEntity.Enriched target after := by
  have hempty : ¬(false || (some (removeInvalidProviderIds target)).all (· = [])) = true := by
    simpa [removeInvalidProviderIds] using hne
  unfold mergePeopleField replaceOrEnrich
  rw [Option.map_some, if_neg hempty]
  rcases found with _ | found
  · exact ⟨_, rfl, forall₂_enriched_clean target⟩
  · refine ⟨_, rfl, ?_⟩
    split
    · exact forall₂_enriched_mergePeople _ target
    · exact forall₂_enriched_clean target

theorem keeps_people : Keeps (Option.all fun people => decide (people = []))
    (mergePeopleField personKey) (mergePeopleField personKey) := by
  intro found stored h
  unfold refreshBy mergePeopleField replaceOrEnrich
  rcases found with _ | _ | ⟨f, found⟩ <;> rcases stored with _ | _ | ⟨s, stored⟩ <;>
    simp [removeInvalidProviderIds, mergePeople_eq_nil_iff] at h ⊢

end Credits

/-! ### Provider ids -/

theorem mem_mergeProviderIds_fill {source target : List (Text × Text)} {e : Text × Text}
    (h : e ∈ target) (hvalid : validEntry e = true) : e ∈ mergeProviderIds source target false := by
  rw [mergeProviderIds_eq]
  exact List.mem_filter.mpr ⟨mem_upsertAll h (by rw [hvalid]; rfl), hvalid⟩

/-- An item with a valid id has one after the default refresh. -/
theorem providerIds_ne_nil {found stored : List (Text × Text)} {e : Text × Text}
    (h : e ∈ stored) (hvalid : validEntry e = true) :
    refresh mergeProviderIds true true found stored ≠ [] := by
  intro hnil
  have hc := ofKey_refresh true true found stored (entryClass lowerName e)
  rw [hnil, refresh, if_pos rfl] at hc
  have hstored := ofClass_ofKey (entryClass lowerName e) stored
  have hfound := ofClass_ofKey (entryClass lowerName e) found
  have hfill := filter_eq_nil_of_merge (hstored.merge hfound false) true hc.symm hstored
  rw [List.filter_eq_self.mpr fun x hx => validEntry_mergeProviderIds hx] at hfill
  have hnone := filter_eq_nil_of_merge hstored false hfill hfound
  have hmem : e ∈ (ofKey (entryClass lowerName) (entryClass lowerName e) stored).filter
      validEntry :=
    List.mem_filter.mpr ⟨List.mem_filter.mpr ⟨h, decide_eq_true rfl⟩, hvalid⟩
  rw [hnone] at hmem
  cases hmem

/-! ### The `Data` column -/

section Data

variable {ω : Type*} {json : Json ω} {key : Text}

theorem ruleOf_eq_take (h : key ≠ "RemoteTrailers".toList) : ∃ usable,
    ruleOf key = take blobEmpty usable ∧ ((∀ v, blobEmpty v = false → usable v = true) ∨
      ∀ v, blobEmpty v = true → usable v = false) := by
  have hrules : ∀ e ∈ dataRules, e.2 = .trailers → e.1 = "RemoteTrailers".toList := by decide
  rw [ruleOf]
  rcases hrule : dataRules.find? (·.1 = key) with _ | e <;> rw [hrule]
  · refine ⟨_, rfl, .inl fun v hv => ?_⟩
    cases v with
    | none => cases hv
    | some v => rfl
  · have hkey : e.1 = key := by simpa using List.find?_some hrule
    have hmem := List.mem_of_find?_eq_some hrule
    obtain ⟨name, rule⟩ := e
    cases rule with
    | plain => exact ⟨_, merge_plain, .inl fun _ _ => rfl⟩
    | trailers => exact absurd (hkey.symm.trans (hrules _ hmem rfl)) h
    | nonBlankSource =>
      refine ⟨_, merge_nonBlankSource, .inr fun v hv => ?_⟩
      rcases v with _ | _ | _ | _ | s | _ | _
      case some.string =>
        obtain rfl : s = [] := of_decide_eq_true hv
        rfl
      all_goals rfl
    | presentSource => exact ⟨_, merge_presentSource, .inr fun v hv => by rw [hv]; rfl⟩

theorem trailers_fill {found stored : Option Value} (h : blobEmpty stored = false) :
    distinctBy url (elements stored) <+:
      elements (DataRule.trailers.merge found stored false) := by
  rw [merge_trailers, h, Bool.or_self, if_neg Bool.false_ne_true]
  have hunion := elements_trailersUnion stored found
  rw [trailersUnion] at hunion
  rw [hunion]
  exact distinctBy_prefix

theorem trailers_default {found stored : Option Value} (h : elements stored ≠ []) :
    elements (refresh DataRule.trailers.merge true true found stored) ≠ [] := by
  rw [refresh, if_pos rfl, merge_trailers, Bool.true_or, if_pos rfl, merge_trailers]
  split
  · exact h
  · exact fun hnil => h (elements_trailersUnion_eq_nil.mp hnil).2

/-- Values of which the rules see no difference. -/
structure Alike (v w : Option Value) : Prop where
  isSome : v.isSome = w.isSome
  blobEmpty : blobEmpty v = blobEmpty w
  nonBlank : nonBlankString v = nonBlankString w
  elements : elements v = [] ↔ elements w = []

theorem Alike.refl (v : Option Value) : Alike v v := ⟨rfl, rfl, rfl, Iff.rfl⟩

variable {incoming incoming' current current' : Option Value}

theorem Alike.take {usable : Option Value → Bool} (hincoming : Alike incoming incoming')
    (hcurrent : Alike current current') (husable : usable incoming = usable incoming')
    (replace : Bool) :
    Alike (take Metadata.blobEmpty usable incoming current replace)
      (take Metadata.blobEmpty usable incoming' current' replace) := by
  rw [Metadata.take, Metadata.take, hcurrent.blobEmpty, husable]
  split
  · exact hincoming
  · exact hcurrent

theorem Alike.trailersUnion (hincoming : Alike incoming incoming')
    (hcurrent : Alike current current') :
    Alike (trailersUnion current incoming) (trailersUnion current' incoming') := by
  refine ⟨rfl, ?_, rfl, ?_⟩
  · rw [blobEmpty_trailersUnion, blobEmpty_trailersUnion]
    exact decide_eq_decide.mpr (and_congr hcurrent.elements hincoming.elements)
  · rw [elements_trailersUnion_eq_nil, elements_trailersUnion_eq_nil]
    exact and_congr hcurrent.elements hincoming.elements

theorem Alike.ruleOf (key : Text) (hincoming : Alike incoming incoming')
    (hcurrent : Alike current current') (replace : Bool) :
    Alike (ruleOf key incoming current replace) (ruleOf key incoming' current' replace) := by
  rw [Metadata.ruleOf]
  rcases hrule : dataRules.find? (·.1 = key) with _ | ⟨name, rule⟩ <;> rw [hrule]
  · exact hincoming.take hcurrent hincoming.isSome replace
  · change Alike (rule.merge incoming current replace) (rule.merge incoming' current' replace)
    cases rule with
    | plain =>
      rw [merge_plain]
      exact hincoming.take hcurrent rfl replace
    | nonBlankSource =>
      rw [merge_nonBlankSource]
      exact hincoming.take hcurrent hincoming.nonBlank replace
    | presentSource =>
      rw [merge_presentSource]
      exact hincoming.take hcurrent (congrArg not hincoming.blobEmpty) replace
    | trailers =>
      rw [merge_trailers, merge_trailers, hcurrent.blobEmpty]
      split
      · exact hincoming
      · exact hincoming.trailersUnion hcurrent

/-- What was written is read again key by key, with numbers perhaps a little off. -/
def Json.Legible (json : Json ω) : Prop :=
  ∀ o, ∃ o', json.parse (json.print o) = some o' ∧ ∀ key, Alike (o'.lookup key) (o.lookup key)

theorem Json.Legible.mergeDataBlob (h : json.Legible) (source target : Option ω) (key : Text)
    (replace : Bool) :
    Alike ((parseData json (mergeDataBlob json source target replace)).lookup key)
      (Metadata.ruleOf key ((parseData json source).lookup key)
        ((parseData json target).lookup key) replace) := by
  rw [← lookup_mergeObjects]
  rcases parseData_mergeDataBlob json source target replace with hsame | hprint
  · rw [hsame]
    exact Alike.refl _
  · obtain ⟨o', hparse, halike⟩ := h (mergeObjects (parseData json source)
      (parseData json target) replace)
    rw [hprint, parseData, Option.bind_some, hparse]
    exact halike key

theorem Json.Legible.refresh (h : json.Legible) (found stored : Option ω) (keep replace : Bool)
    (key : Text) :
    Alike ((parseData json (refresh (Metadata.mergeDataBlob json) keep replace found
        stored)).lookup key)
      (Metadata.refresh (Metadata.ruleOf key) keep replace ((parseData json found).lookup key)
        ((parseData json stored).lookup key)) := by
  unfold Metadata.refresh
  cases keep
  · exact h.mergeDataBlob _ _ _ replace
  · have hagain := (h.mergeDataBlob stored found key false).ruleOf key
      (Alike.refl ((parseData json stored).lookup key)) replace
    have hlast := h.mergeDataBlob (Metadata.mergeDataBlob json stored found false) stored key
      replace
    exact ⟨hlast.isSome.trans hagain.isSome, hlast.blobEmpty.trans hagain.blobEmpty,
      hlast.nonBlank.trans hagain.nonBlank, hlast.elements.trans hagain.elements⟩

end Data

/-! ### The contract -/

section Item

variable {ω : Type}

/-- The field that a name stands for is the same in both. -/
def MetadataField.Same (a b : MetadataResult ω) : MetadataField → Prop
  | cast => a.people = b.people
  | genres => a.item.genres = b.item.genres
  | productionLocations => a.item.productionLocations = b.item.productionLocations
  | studios => a.item.studios = b.item.studios
  | tags => a.item.tags = b.item.tags
  | name => a.item.name = b.item.name
  | overview => a.item.overview = b.item.overview
  | runtime => a.item.runTimeTicks = b.item.runTimeTicks
  | officialRating => a.item.officialRating = b.item.officialRating
  | unrecognized _ => True

def textColumns : List (BaseItemEntity ω → Option Text) :=
  [(·.name), (·.originalTitle), (·.originalLanguage), (·.officialRating), (·.customRating),
    (·.tagline), (·.overview), (·.forcedSortName), (·.album), (·.seriesName)]

def settingColumns : List (BaseItemEntity ω → Option Text) :=
  [(·.preferredMetadataCountryCode), (·.preferredMetadataLanguage)]

def numberColumns : List (BaseItemEntity ω → Option ℤ) :=
  [(·.endDate), (·.indexNumber), (·.premiereDate), (·.productionYear), (·.runTimeTicks)]

def ratingColumns : List (BaseItemEntity ω → Option ℚ) :=
  [(·.communityRating), (·.criticRating)]

/-- The columns of a list that a merge may unite. -/
def listColumns : List (BaseItemEntity ω → Option Text) :=
  [(·.studios), (·.tags), (·.productionLocations), (·.albumArtists), (·.artists)]

variable (platform : Platform ω)

/-- What the `Data` column has under a key. -/
def Platform.dataAt (result : MetadataResult ω) (key : Text) : Option Value :=
  (parseData platform.json result.item.data).lookup key

/-- What a refresh that only fills leaves of an item. -/
structure Filled (stored temp result : MetadataResult ω) : Prop where
  texts : ∀ column ∈ textColumns ++ settingColumns, isEmpty (column stored.item) = false →
    column result.item = column stored.item
  genres : list stored.item.genres ≠ [] → result.item.genres = stored.item.genres
  numbers : ∀ column ∈ numberColumns, (column stored.item).isNone = false →
    column result.item = column stored.item
  ratings : ∀ column ∈ ratingColumns, (column stored.item).isNone = false →
    column result.item = column stored.item
  season : stored.item.parentIndexNumber.isNone = false →
    result.item.parentIndexNumber = stored.item.parentIndexNumber ∨
      stored.item.kind = some .episode ∧
        result.item.parentIndexNumber = temp.item.parentIndexNumber
  lists : ∀ column ∈ listColumns, list (column stored.item) ≠ [] →
    column result.item = column stored.item ∨
      distinctBy platform.upperInvariant (list (column stored.item)) <+: list (column result.item)
  data : Exact platform.json stored.item.data → Exact platform.json temp.item.data →
    ∀ key, blobEmpty (platform.dataAt stored key) = false →
      platform.dataAt result key = platform.dataAt stored key ∨
        key = "RemoteTrailers".toList ∧
          distinctBy url (elements (platform.dataAt stored key)) <+:
            elements (platform.dataAt result key)
  people : ∀ credits, stored.people = some credits → credits ≠ [] →
    ∃ after, result.people = some after ∧ List.Forall₂ PeopleEntity.Enriched credits after
  providerIds : ∀ e ∈ stored.providerIds, validEntry e = true → e ∈ result.providerIds
  isLocked : stored.item.isLocked = true → result.item.isLocked = true
  lockedFields : stored.lockedFields <+: result.lockedFields

/-- What is not empty in an item is not empty after a refresh. -/
structure KeepsValues (stored temp result : MetadataResult ω) : Prop where
  texts : ∀ column ∈ textColumns, isEmpty (column stored.item) = false →
    isEmpty (column result.item) = false
  numbers : ∀ column ∈ BaseItemEntity.parentIndexNumber :: numberColumns,
    (column stored.item).isNone = false → (column result.item).isNone = false
  ratings : ∀ column ∈ ratingColumns, (column stored.item).isNone = false →
    (column result.item).isNone = false
  lists : ∀ column ∈ BaseItemEntity.genres :: listColumns,
    decide (list (column stored.item) = []) = false →
      decide (list (column result.item) = []) = false
  data : platform.json.Legible →
    (∀ key, key ≠ "RemoteTrailers".toList → blobEmpty (platform.dataAt stored key) = false →
      blobEmpty (platform.dataAt result key) = false) ∧
    (elements (platform.dataAt stored "RemoteTrailers".toList) ≠ [] →
      elements (platform.dataAt result "RemoteTrailers".toList) ≠ [])
  people : stored.people.all (fun credits => decide (credits = [])) = false →
    result.people.all (fun credits => decide (credits = [])) = false
  providerIds : ∀ e ∈ stored.providerIds, validEntry e = true → result.providerIds ≠ []

theorem prefix_lockedFields (source target : List MetadataField) (replace : Bool) :
    target <+: lockedFields source target replace := by
  induction source generalizing target with
  | nil => exact List.prefix_rfl
  | cons field source ih =>
    refine List.IsPrefix.trans ?_ (ih _)
    dsimp only
    split
    · exact List.prefix_rfl
    · exact List.prefix_append _ _

variable {platform} {stored temp : MetadataResult ω} {locked : List MetadataField}

theorem refreshed_locked {merge : RefreshMerge} {field : MetadataField} (h : field ∈ locked) :
    field.Same (refreshed platform stored temp locked merge) stored := by
  have hlocked : (!locked.contains field) = false := by simpa using h
  cases field <;>
    first
      | exact trivial
      | (unfold MetadataField.Same refreshed RefreshMerge.field
         dsimp only
         rw [hlocked]
         rfl)

theorem refreshed_filled {keep : Bool} :
    Filled platform stored temp (refreshed platform stored temp locked ⟨keep, false⟩) where
  texts := by
    simp only [textColumns, settingColumns, List.cons_append, List.nil_append,
      List.forall_mem_cons]
    exact ⟨(fills_name.lockable _).refreshBy, fills_text.refreshBy, fills_text.refreshBy,
      (fills_text.lockable _).refreshBy, fills_text.refreshBy, fills_text.refreshBy,
      (fills_text.lockable _).refreshBy, fills_forcedSortName.refreshBy,
      (fills_text.lockable _).refreshBy, (fills_text.lockable _).refreshBy, fills_text.refreshBy,
      fills_text.refreshBy, List.forall_mem_nil _⟩
  genres h := (fills_wholeList.lockable _).refreshBy (decide_eq_false h)
  numbers := by
    simp only [numberColumns, List.forall_mem_cons]
    exact ⟨fills_value.refreshBy, fills_value.refreshBy, fills_value.refreshBy,
      fills_value.refreshBy, ((fills_value.lockable _).lockable _).refreshBy, List.forall_mem_nil _⟩
  ratings := by
    simp only [ratingColumns, List.forall_mem_cons]
    exact ⟨fills_value.refreshBy, fills_value.refreshBy, List.forall_mem_nil _⟩
  season := parentIndexNumber_fill
  lists := by
    simp only [listColumns, List.forall_mem_cons]
    exact ⟨unites_replaceOrUnion.lockable _ _ _, unites_replaceOrUnion.lockable _ _ _,
      unites_replaceOrUnion.lockable _ _ _, unites_albumArtists.lockable _ _ _,
      unites_artists _ _ _, List.forall_mem_nil _⟩
  data hstored htemp key h := by
    have hlookup := lookup_refresh htemp hstored keep false key
    by_cases hkey : key = "RemoteTrailers".toList
    · subst hkey
      rw [ruleOf_remoteTrailers, refresh] at hlookup
      refine .inr ⟨rfl, ?_⟩
      show _ <+: elements ((parseData platform.json (refresh (mergeDataBlob platform.json) keep
        false temp.item.data stored.item.data)).lookup "RemoteTrailers".toList)
      rw [refresh, hlookup]
      exact trailers_fill h
    · obtain ⟨usable, hrule, -⟩ := ruleOf_eq_take hkey
      rw [hrule] at hlookup
      exact .inl (hlookup.trans (fills_take _ _ h))
  people credits hcredits hne := by
    have hpeople : (refreshed platform stored temp locked ⟨keep, false⟩).people =
        lockable (!locked.contains .cast) (mergePeopleField (personKey platform))
          (if keep then mergePeopleField (personKey platform) stored.people temp.people false
          else temp.people) (some credits) false := by
      rw [← hcredits]
      rfl
    rw [hpeople]
    cases !locked.contains MetadataField.cast
    · exact ⟨credits, rfl, List.forall₂_same.mpr fun p _ => p.enriched_refl⟩
    · exact people_fill hne
  providerIds e he hvalid := mem_mergeProviderIds_fill he hvalid
  isLocked h := by
    show Ferrofin.Metadata.isLocked _ stored.item.isLocked false = true
    rw [h]
    rfl
  lockedFields := prefix_lockedFields _ _ false

theorem refreshed_keepsValues :
    KeepsValues platform stored temp (refreshed platform stored temp locked .default) where
  texts := by
    simp only [textColumns, List.forall_mem_cons]
    exact ⟨keeps_name.lockable _ _ _, keeps_text _ _, keeps_text _ _, keeps_text.lockable _ _ _,
      keeps_text _ _, keeps_text _ _, keeps_text.lockable _ _ _, keeps_forcedSortName _ _,
      keeps_text.off _ _ _, keeps_text.off _ _ _, List.forall_mem_nil _⟩
  numbers := by
    simp only [numberColumns, List.forall_mem_cons]
    exact ⟨keeps_parentIndexNumber _ _ _, keeps_value _ _, keeps_value _ _, keeps_value _ _,
      keeps_value _ _, (keeps_value.off _).lockable _ _ _, List.forall_mem_nil _⟩
  ratings := by
    simp only [ratingColumns, List.forall_mem_cons]
    exact ⟨keeps_value _ _, keeps_value _ _, List.forall_mem_nil _⟩
  lists := by
    simp only [listColumns, List.forall_mem_cons]
    exact ⟨keeps_wholeList.lockable _ _ _, keeps_replaceOrUnion.lockable _ _ _,
      keeps_replaceOrUnion.lockable _ _ _, keeps_replaceOrUnion.lockable _ _ _,
      keeps_albumArtists.off _ _ _, keeps_artists _ _ _, List.forall_mem_nil _⟩
  data hjson := by
    have halike := hjson.refresh temp.item.data stored.item.data true true
    constructor
    · intro key hkey h
      obtain ⟨usable, hrule, husable⟩ := ruleOf_eq_take hkey
      have hkeeps := keeps_take husable ((parseData platform.json temp.item.data).lookup key) _ h
      rw [← hrule] at hkeeps
      exact (halike key).blobEmpty.trans hkeeps
    · exact fun h hnil => trailers_default h ((halike _).elements.mp hnil)
  people := keeps_people.lockable _ _ _
  providerIds e he hvalid := providerIds_ne_nil he hvalid

/-- **Locks hold, and nothing is erased**: locked fields stay as they are, a refresh that only fills
leaves alone what is not empty but for what it adds, and the default refresh puts nothing empty in
the place of a value. -/
theorem mergeRefresh_keeps (hkind : temp.item.kind = stored.item.kind)
    (locked : List MetadataField) (merge : RefreshMerge) :
    (∀ field ∈ locked,
      field.Same (mergeRefresh platform stored temp locked merge) stored) ∧
    (merge.replace = false →
      Filled platform stored temp (mergeRefresh platform stored temp locked merge)) ∧
    (merge = .default →
      KeepsValues platform stored temp (mergeRefresh platform stored temp locked merge)) := by
  rw [mergeRefresh_eq platform hkind]
  refine ⟨fun field h => refreshed_locked h, fun hreplace => ?_, ?_⟩
  · obtain ⟨keep, replace⟩ := merge
    obtain rfl : replace = false := hreplace
    exact refreshed_filled
  · rintro rfl
    exact refreshed_keepsValues

end Item

theorem legible_readOff : readOff.Legible := by
  refine fun o => ⟨_, rfl, fun key => ?_⟩
  have hlookup : (readOff.print o).lookup key = (o.lookup key).map readBack :=
    KeyedMap.lookup_mapValues ..
  rw [hlookup]
  rcases o.lookup key with _ | v
  · exact Alike.refl _
  · rcases v with _ | _ | (_ | _) | _ | _ | _ <;> exact ⟨rfl, rfl, rfl, Iff.rfl⟩

/-- A track that has a float that is read off. -/
def storedTrack : MetadataResult Object :=
  { item :=
      { kind := some .audio
        name := some "Kelly Watch the Stars".toList
        tags := some "space".toList
        productionYear := some 1998
        data := (trackWith (9005393491786475 / 2 ^ 75)).item.data }
    people := some [{ id := "1".toList, name := "Nicolas Godin".toList }]
    providerIds := [("MusicBrainzTrack".toList, "81".toList)] }

/-- What is found for it, by another name and without a year. -/
def foundTrack : MetadataResult Object :=
  { item :=
      { kind := some .audio
        name := some "Kelly".toList
        tags := some "SPACE|pop".toList
        data := some ((∅ : Object).insert "LUFS".toList (.number (.float (-9)))) } }

theorem mergeRefresh_keeps_track :
    foundTrack.item.name ≠ storedTrack.item.name ∧
    (mergeRefresh (platformOf readOff) storedTrack foundTrack [.name] .default).item.name =
      storedTrack.item.name ∧
    (platformOf lossless).dataAt (mergeRefresh (platformOf lossless) storedTrack foundTrack [.name]
        ⟨true, false⟩) "LUFS".toList =
      (platformOf lossless).dataAt storedTrack "LUFS".toList ∧
    Filled (platformOf lossless) storedTrack foundTrack
      (mergeRefresh (platformOf lossless) storedTrack foundTrack [.name] ⟨true, false⟩) ∧
    blobEmpty ((platformOf readOff).dataAt (mergeRefresh (platformOf readOff) storedTrack foundTrack
      [.name] .default) "LUFS".toList) = false ∧
    KeepsValues (platformOf readOff) storedTrack foundTrack
      (mergeRefresh (platformOf readOff) storedTrack foundTrack [.name] .default) := by
  obtain ⟨hlocked, -, hkeeps⟩ :=
    @mergeRefresh_keeps Object (platformOf readOff) storedTrack foundTrack rfl [.name] .default
  have hfilled := (@mergeRefresh_keeps Object (platformOf lossless) storedTrack foundTrack rfl
    [.name] ⟨true, false⟩).2.1 rfl
  have hexact : ∀ data, Exact (platformOf lossless).json data := fun _ _ _ _ => trivial
  refine ⟨by decide, hlocked .name (List.mem_singleton.mpr rfl), ?_, hfilled,
    ((hkeeps rfl).data legible_readOff).1 _ (by decide) rfl, hkeeps rfl⟩
  rcases hfilled.data (hexact _) (hexact _) "LUFS".toList rfl with h | ⟨h, -⟩
  · exact h
  · exact absurd h (by decide)

def episode (season : ℤ) : MetadataResult Object :=
  { item := { kind := some .episode, parentIndexNumber := some season } }

def movie (tags : Option Text) (dateModified : Option ℤ) : MetadataResult Object :=
  { item := { kind := some .movie, tags := tags, dateModified := dateModified } }

def credited (role : Option Text) : MetadataResult Object :=
  { movie none none with
    people := some [{ id := "1".toList, name := "Ann".toList, role := role }] }

def identified (tmdb : String) : MetadataResult Object :=
  { movie none none with providerIds := [("Tmdb".toList, tmdb.toList)] }

/-- Filling puts an episode into the season found, drops a tag that is there in another case, takes
the date found and gives a credit its role; the default refresh drops an id that is not valid and
makes an empty list of two trailers that are no lists. -/
theorem values_given_way :
    (mergeRefresh (platformOf lossless) (episode 1) (episode 2) []
        ⟨false, false⟩).item.parentIndexNumber = some 2 ∧
    (mergeRefresh (platformOf lossless) (movie (some "a|A".toList) none) (movie none none) []
        ⟨false, false⟩).item.tags = some "a".toList ∧
    (mergeRefresh (platformOf lossless) (movie none (some 1)) (movie none (some 2)) []
        ⟨false, false⟩).item.dateModified = some 2 ∧
    (mergeRefresh (platformOf lossless) (credited none) (credited (some "Eve".toList)) []
        ⟨false, false⟩).people = (credited (some "Eve".toList)).people ∧
    (mergeRefresh (platformOf lossless) (identified "x") (movie none none) []
        .default).providerIds = [] ∧
    refresh (ruleOf "RemoteTrailers".toList) true true (some (.bool true)) (some (.bool false)) =
      some (.array []) := by
  refine ⟨rfl, ?_, rfl, ?_, ?_, rfl⟩ <;> decide +kernel

end Ferrofin.Metadata
