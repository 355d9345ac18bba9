import Ferrofin.Versions.Loaded

/-!
# Version groups

`itemsForMediaSources` ends at the levels below the root of the item's chain, which is at the top
of the item's family (`top_chainRoot`); so the group is the whole family, whatever else was
queried: `allVersionIds_load`.
-/

namespace Ferrofin.Versions

open Lib
open List (mem_append mem_cons mem_cons_self mem_map mem_singleton)

variable {ι : Type*} [LinearOrder ι] {store : VersionStore ι} {queried : BaseItemEntity ι}
  {self : VersionRows ι} {row video version : BaseItemEntity ι} {id : ι} {items : Items ι}

/-! ### The rows of a group -/

theorem row_stored (h : Loaded store queried self) (hq : queried ∈ store.rows)
    (hrow : self.row queried id = some row) : row ∈ store.rows ∧ row.id = id := by
  rw [VersionRows.row] at hrow
  split at hrow
  · next heq =>
    cases hrow
    exact ⟨hq, heq.symm⟩
  · exact h.sound.rows_stored id row hrow

theorem row_isSome (hid : id = queried.id ∨ id ∈ self.rows) :
    (self.row queried id).isSome = true := by
  rw [VersionRows.row]
  split
  · rfl
  · next hne => exact AList.lookup_isSome.mpr (hid.resolve_left hne)

theorem primary_of_mem_versionsOf (h : Loaded store queried self) (hq : queried ∈ store.rows)
    (hvideo : video ∈ store.rows) (hversion : version ∈ self.versionsOf queried video) :
    version ∈ store.rows ∧ store.primary version.id = some video.id := by
  obtain ⟨id, hid, hrow⟩ := mem_versionsOf.mp hversion
  obtain ⟨hmem, rfl⟩ := row_stored h hq hrow
  have hisVersion := (h.sound.versions video.id version.id hid).1
  have hstored : (store.find video.id).isSome = true :=
    VersionStore.find_isSome_iff.mpr ⟨video, hvideo, rfl⟩
  exact ⟨hmem, ((VersionStore.isVersion_iff hstored).mp hisVersion).1⟩

theorem exists_version (h : Loaded store queried self) (hq : queried ∈ store.rows) {top c : ι}
    (htop : Up store.primary queried.id top) (hvideo : Up store.primary video.id top)
    (hc : store.IsVersion video.id c) :
    ∃ version ∈ self.versionsOf queried video, version.id = c := by
  have hmem := h.down top htop video.id hvideo c hc
  have hread : c = queried.id ∨ c ∈ self.rows := .inr (h.sound.versions video.id c hmem).2
  obtain ⟨version, hversion⟩ := Option.isSome_iff_exists.mp (row_isSome hread)
  exact ⟨version, mem_versionsOf.mpr ⟨c, hmem, hversion⟩, (row_stored h hq hversion).2⟩

/-! ### The root -/

/-- On the chain of the queried item, the primary that was read is the stored one. -/
theorem knownPrimary_eq (h : Loaded store queried self) (hq : queried ∈ store.rows)
    (hup : Up store.primary queried.id id) :
    self.knownPrimary queried id = store.primary id := by
  obtain ⟨row, hrow⟩ := Option.isSome_iff_exists.mp (row_isSome (h.up id hup))
  obtain ⟨hmem, rfl⟩ := row_stored h hq hrow
  refine Option.ext fun primary => ?_
  rw [VersionStore.primary_eq_some_iff_of_mem hmem, VersionRows.knownPrimary, hrow,
    Option.bind_some, Option.filter_eq_some_iff]
  refine and_congr_right fun hname => ⟨fun hsome => ?_, fun hstored => ?_⟩
  · obtain ⟨row', hrow'⟩ := Option.isSome_iff_exists.mp hsome
    exact ⟨row', row_stored h hq hrow'⟩
  · have hprimary : store.primary row.id = some primary :=
      (VersionStore.primary_eq_some_iff_of_mem hmem).mpr ⟨hname, hstored⟩
    exact row_isSome (h.up primary (hup.tail hprimary))

/-- What has been climbed of the chain: from the item up to where it stands. -/
structure OnChain (store : VersionStore ι) (start current : ι) (seen : List ι) : Prop where
  start_mem : start ∈ seen
  current_mem : current ∈ seen
  up : ∀ b ∈ seen, Up store.primary start b ∧ Up store.primary b current
  closed : ∀ b ∈ seen, b ≠ current → ∀ c, store.primary b = some c → c ∈ seen

theorem OnChain.next {start current primary : ι} {seen : List ι}
    (h : OnChain store start current seen) (hprimary : store.primary current = some primary) :
    OnChain store start primary (seen ++ [primary]) := by
  have hlast : ∀ b ∈ seen, Up store.primary b primary := fun b hb => (h.up b hb).2.tail hprimary
  refine ⟨List.mem_append_left _ h.start_mem, List.mem_append_right _ (mem_singleton.mpr rfl),
    fun b hb => ?_, fun b hb hne c hc => mem_append.mpr ?_⟩
  · rcases mem_append.mp hb with hb | hb
    · exact ⟨(h.up b hb).1, hlast b hb⟩
    · rw [mem_singleton.mp hb]
      exact ⟨hlast start h.start_mem, Up.refl primary⟩
  · rcases mem_append.mp hb with hb | hb
    · by_cases hcurrent : b = current
      · subst hcurrent
        rw [hprimary] at hc
        cases hc
        exact .inr (mem_singleton.mpr rfl)
      · exact .inl (h.closed b hb hcurrent c hc)
    · exact absurd (mem_singleton.mp hb) hne

theorem OnChain.top {start current : ι} {seen : List ι} (h : OnChain store start current seen)
    (hend : ∀ c, store.primary current = some c → c ∈ seen) :
    Top store.primary start current := by
  refine top_of_closed (P := (· ∈ seen)) h.start_mem (h.up current h.current_mem).1
    (fun b hb => (h.up b hb).2) fun b c hb hc => ?_
  by_cases hcurrent : b = current
  · exact hend c (hcurrent ▸ hc)
  · exact h.closed b hb hcurrent c hc

theorem top_chainFrom (h : Loaded store queried self) (hq : queried ∈ store.rows) {current : ι}
    {seen : List ι} (hchain : OnChain store queried.id current seen) :
    Top store.primary queried.id (self.chainFrom queried current seen) := by
  have hknown := knownPrimary_eq h hq (hchain.up current hchain.current_mem).1
  fun_induction VersionRows.chainFrom self queried current seen with
  | case1 current seen hnone =>
    rw [hknown] at hnone
    exact hchain.top fun c hc => by rw [hnone] at hc; cases hc
  | case2 current seen primary hsome hmem =>
    rw [hknown] at hsome
    exact hchain.top fun c hc => Option.some.inj (hsome.symm.trans hc) ▸ hmem
  | case3 current seen primary hsome hnew ih =>
    rw [hknown] at hsome
    have hnext := hchain.next hsome
    exact ih hnext (knownPrimary_eq h hq (hnext.up primary hnext.current_mem).1)

theorem top_chainRoot (h : Loaded store queried self) (hq : queried ∈ store.rows) :
    Top store.primary queried.id (self.chainRoot queried) := by
  have hself : queried.id ∈ [queried.id] := mem_singleton.mpr rfl
  refine top_chainFrom h hq ⟨hself, hself, fun b hb => ?_, fun b hb hne => ?_⟩
  · rw [mem_singleton.mp hb]
    exact ⟨Up.refl _, Up.refl _⟩
  · exact absurd (mem_singleton.mp hb) hne

/-! ### Items -/

def Items.ids (items : Items ι) : List ι := items.map (·.1.id)

structure FamilyItems (store : VersionStore ι) (start : ι) (items : Items ι) : Prop where
  nodup : items.ids.Nodup
  member : ∀ item ∈ items, item.1 ∈ store.rows ∧ Family store.primary start item.1.id

theorem mem_ids_add (items : Items ι) (item : BaseItemEntity ι × MediaSourceType) :
    id ∈ (items.add item).ids ↔ id ∈ items.ids ∨ id = item.1.id := by
  rw [Items.add]
  split
  · next hmem => exact ⟨.inl, fun h => h.elim (fun h => h) fun h => h ▸ hmem⟩
  · rw [Items.ids, List.map_append, mem_append, List.map_singleton, mem_singleton]
    rfl

theorem FamilyItems.add {start : ι} (h : FamilyItems store start items)
    {item : BaseItemEntity ι × MediaSourceType}
    (hitem : item.1 ∈ store.rows ∧ Family store.primary start item.1.id) :
    FamilyItems store start (items.add item) := by
  rw [Items.add]
  split
  · exact h
  · next hnew =>
    refine ⟨?_, fun item' hmem => ?_⟩
    · rw [Items.ids, List.map_append, List.map_singleton]
      refine List.nodup_append.mpr ⟨h.nodup, List.nodup_singleton _, fun id hid id' hid' heq => ?_⟩
      rw [mem_singleton] at hid'
      exact hnew (hid' ▸ heq ▸ hid)
    · rcases mem_append.mp hmem with hmem | hmem
      · exact h.member item' hmem
      · rw [mem_singleton.mp hmem]
        exact hitem

theorem FamilyItems.addAll {start : ι} {added : Items ι} (h : FamilyItems store start items)
    (hadded : ∀ item ∈ added, item.1 ∈ store.rows ∧ Family store.primary start item.1.id) :
    FamilyItems store start (added.foldl Items.add items) := by
  induction added generalizing items with
  | nil => exact h
  | cons item added ih =>
    exact ih (h.add (hadded item mem_cons_self))
      fun item' hmem => hadded item' (List.mem_cons_of_mem _ hmem)

/-! ### Levels -/

/-- What the walk has come to is of the family, and was read. -/
structure LevelSound (store : VersionStore ι) (loaded : VersionRows ι)
    (queried : BaseItemEntity ι) (s : Level ι) : Prop where
  items : FamilyItems store queried.id s.items
  walked : ∀ id ∈ s.walked,
    Family store.primary queried.id id ∧ (loaded.row queried id).isSome = true

structure Grows (s s' : Level ι) : Prop where
  ids : ∀ id ∈ s.items.ids, id ∈ s'.items.ids
  walked : ∀ id ∈ s.walked, id ∈ s'.walked

omit [LinearOrder ι] in
theorem Grows.refl (s : Level ι) : Grows s s := ⟨fun _ h => h, fun _ h => h⟩

omit [LinearOrder ι] in
theorem Grows.trans {s s' s'' : Level ι} (h : Grows s s') (h' : Grows s' s'') : Grows s s'' :=
  ⟨fun id hid => h'.ids id (h.ids id hid), fun id hid => h'.walked id (h.walked id hid)⟩

def Done (store : VersionStore ι) (items : Items ι) (walked : List ι) (b : ι) : Prop :=
  b ∈ items.ids ∧ ∀ c, store.IsVersion b c → c ∈ walked

omit [LinearOrder ι] in
theorem Done.grows {s s' : Level ι} {b : ι} (h : Done store s.items s.walked b)
    (hgrows : Grows s s') : Done store s'.items s'.walked b :=
  ⟨hgrows.ids b h.1, fun c hc => hgrows.walked c (h.2 c hc)⟩

variable {s : Level ι}

theorem grows_version (s : Level ι) (video : ι) (version : BaseItemEntity ι) :
    Grows s (s.version video version) ∧ version.id ∈ (s.version video version).walked := by
  rw [Level.version]
  dsimp only
  split
  · next hmem => exact ⟨⟨fun id hid => (mem_ids_add _ _).mpr (.inl hid), fun _ h => h⟩, hmem⟩
  · exact ⟨⟨fun id hid => (mem_ids_add _ _).mpr (.inl hid),
      fun _ h => List.mem_append_left _ h⟩, List.mem_append_right _ (mem_singleton.mpr rfl)⟩

theorem LevelSound.add_version (h : LevelSound store self queried s) (video : ι)
    (hversion : version ∈ store.rows ∧ Family store.primary queried.id version.id)
    (hread : (self.row queried version.id).isSome = true) :
    LevelSound store self queried (s.version video version) := by
  rw [Level.version]
  dsimp only
  split
  · exact ⟨h.items.add hversion, h.walked⟩
  · refine ⟨h.items.add hversion, fun id hid => ?_⟩
    rcases mem_append.mp hid with hid | hid
    · exact h.walked id hid
    · rw [mem_singleton.mp hid]
      exact ⟨hversion.2, hread⟩

theorem LevelSound.versions (h : LevelSound store self queried s) (video : ι)
    {versions : List (BaseItemEntity ι)}
    (hversions : ∀ version ∈ versions, (version ∈ store.rows ∧
      Family store.primary queried.id version.id) ∧
      (self.row queried version.id).isSome = true) :
    LevelSound store self queried (versions.foldl (Level.version video) s) ∧
      Grows s (versions.foldl (Level.version video) s) ∧
      ∀ version ∈ versions, version.id ∈ (versions.foldl (Level.version video) s).walked := by
  induction versions generalizing s with
  | nil => exact ⟨h, Grows.refl s, nofun⟩
  | cons version versions ih =>
    obtain ⟨hversion, hread⟩ := hversions version mem_cons_self
    obtain ⟨hgrows, hwalked⟩ := grows_version s video version
    obtain ⟨hsound, hgrows', hall⟩ := ih (h.add_version video hversion hread)
      fun version' hmem => hversions version' (List.mem_cons_of_mem _ hmem)
    refine ⟨hsound, hgrows.trans hgrows', fun version' hmem => ?_⟩
    rcases mem_cons.mp hmem with rfl | hmem
    · exact hgrows'.walked _ hwalked
    · exact hall version' hmem

theorem LevelSound.visit (h : LevelSound store self queried s)
    (hloaded : Loaded store queried self) (hq : queried ∈ store.rows) {video : ι}
    (hvideo : video ∈ s.walked) :
    LevelSound store self queried (s.video self queried video) ∧
      Grows s (s.video self queried video) ∧
      Done store (s.video self queried video).items (s.video self queried video).walked video := by
  obtain ⟨hfamily, hread⟩ := h.walked video hvideo
  obtain ⟨row, hrow⟩ := Option.isSome_iff_exists.mp hread
  obtain ⟨hstored, rfl⟩ := row_stored hloaded hq hrow
  rw [Level.video, hrow]
  have hadd : LevelSound store self queried { s with items := s.items.add (row, .default) } :=
    ⟨h.items.add ⟨hstored, hfamily⟩, h.walked⟩
  have hversions : ∀ version ∈ self.versionsOf queried row, (version ∈ store.rows ∧
      Family store.primary queried.id version.id) ∧
      (self.row queried version.id).isSome = true := by
    intro version hversion
    obtain ⟨hmem, hprimary⟩ := primary_of_mem_versionsOf hloaded hq hstored hversion
    obtain ⟨id, -, hlookup⟩ := mem_versionsOf.mp hversion
    refine ⟨⟨hmem, hfamily.trans (family_of_up (.single hprimary)).symm⟩, ?_⟩
    rw [(row_stored hloaded hq hlookup).2, hlookup]
    rfl
  obtain ⟨hsound, hgrows, hall⟩ := hadd.versions row.id hversions
  have hstart : Grows s { s with items := s.items.add (row, .default) } :=
    ⟨fun id hid => (mem_ids_add _ _).mpr (.inl hid), fun _ h => h⟩
  have htop := top_chainRoot hloaded hq
  refine ⟨hsound, hstart.trans hgrows, hgrows.ids _ ((mem_ids_add _ _).mpr (.inr rfl)),
    fun c hc => ?_⟩
  obtain ⟨version, hversion, rfl⟩ :=
    exists_version hloaded hq htop.up (htop.family_iff.mp hfamily) hc
  exact hall version hversion

theorem LevelSound.videos (h : LevelSound store self queried s)
    (hloaded : Loaded store queried self) (hq : queried ∈ store.rows) {level : List ι}
    (hlevel : ∀ video ∈ level, video ∈ s.walked) :
    LevelSound store self queried (level.foldl (Level.video self queried) s) ∧
      Grows s (level.foldl (Level.video self queried) s) ∧
      ∀ video ∈ level, Done store (level.foldl (Level.video self queried) s).items
        (level.foldl (Level.video self queried) s).walked video := by
  induction level generalizing s with
  | nil => exact ⟨h, Grows.refl s, nofun⟩
  | cons video level ih =>
    obtain ⟨hsound, hgrows, hdone⟩ := h.visit hloaded hq (hlevel video mem_cons_self)
    obtain ⟨hsound', hgrows', hall⟩ := ih hsound fun video' hmem =>
      hgrows.walked video' (hlevel video' (List.mem_cons_of_mem _ hmem))
    refine ⟨hsound', hgrows.trans hgrows', fun video' hmem => ?_⟩
    rcases mem_cons.mp hmem with rfl | hmem
    · exact hdone.grows hgrows'
    · exact hall video' hmem

theorem walkLevels_spec (hloaded : Loaded store queried self) (hq : queried ∈ store.rows)
    {walked level : List ι} (h : LevelSound store self queried ⟨items, walked, []⟩)
    (hlevel : ∀ video ∈ level, video ∈ walked)
    (hdone : ∀ b ∈ walked, b ∈ level ∨ Done store items walked b) :
    FamilyItems store queried.id (walkLevels self queried items walked level) ∧
      ∃ walked', (∀ id ∈ walked, id ∈ walked') ∧
        ∀ b ∈ walked', Done store (walkLevels self queried items walked level) walked' b := by
  fun_induction walkLevels self queried items walked level with
  | case1 items walked =>
    exact ⟨h.items, walked, fun _ hid => hid, fun b hb => (hdone b hb).resolve_left nofun⟩
  | case2 items walked level hne s ih =>
    obtain ⟨hsound, hgrows, hall⟩ := h.videos hloaded hq hlevel
    have hwalks : Walks (self.groupIds queried) walked s := walks_walkLevel items walked level
    obtain ⟨hitems, walked', hsub, hdone'⟩ := ih ⟨hsound.items, hsound.walked⟩
      (fun id hid => (hwalks.walked_iff id).mpr (.inr hid)) fun b hb => by
        refine ((hwalks.walked_iff b).mp hb).symm.imp_right fun hold => ?_
        rcases hdone b hold with hmem | hdone
        · exact hall b hmem
        · exact Done.grows (s := ⟨items, walked, []⟩) hdone hgrows
    exact ⟨hitems, walked', fun id hid => hsub id (hgrows.walked id hid), hdone'⟩

/-! ### The group -/

theorem mem_localAlternates (h : version ∈ self.localAlternates queried video) :
    version ∈ self.versionsOf queried video := by
  rw [VersionRows.localAlternates] at h
  split at h
  · exact (List.mem_filter.mp h).1
  · exact (List.mem_filter.mp (List.mem_mergeSort.mp h)).1

theorem mem_linkedAlternates (h : version ∈ self.linkedAlternates queried video) :
    version ∈ self.versionsOf queried video :=
  (List.mem_filter.mp (List.mem_mergeSort.mp h)).1

theorem family_of_mem_versionsOf (h : Loaded store queried self) (hq : queried ∈ store.rows)
    (hvideo : video ∈ store.rows ∧ Family store.primary queried.id video.id)
    (hversion : version ∈ self.versionsOf queried video) :
    version ∈ store.rows ∧ Family store.primary queried.id version.id := by
  obtain ⟨hmem, hprimary⟩ := primary_of_mem_versionsOf h hq hvideo.1 hversion
  exact ⟨hmem, hvideo.2.trans (family_of_up (.single hprimary)).symm⟩

theorem family_primary (h : Loaded store queried self) (hq : queried ∈ store.rows)
    (hrow : self.primaryOf queried = some row) :
    row ∈ store.rows ∧ Family store.primary queried.id row.id := by
  obtain ⟨id, hid, hlookup⟩ := Option.bind_eq_some_iff.mp hrow
  obtain ⟨hmem, rfl⟩ := row_stored h hq hlookup
  have hprimary : store.primary queried.id = some row.id :=
    (VersionStore.primary_eq_some_iff_of_mem hq).mpr
      ⟨(Option.filter_eq_some_iff.mp hid).1, row, hmem, rfl⟩
  exact ⟨hmem, family_of_up (.single hprimary)⟩

theorem family_linked (h : Loaded store queried self) (hq : queried ∈ store.rows)
    (hvideo : video ∈ store.rows ∧ Family store.primary queried.id video.id)
    {item : BaseItemEntity ι × MediaSourceType}
    (hitem : item ∈ (self.linkedAlternates queried video).map (·, MediaSourceType.grouping)) :
    item.1 ∈ store.rows ∧ Family store.primary queried.id item.1.id := by
  obtain ⟨version, hversion, rfl⟩ := mem_map.mp hitem
  exact family_of_mem_versionsOf h hq hvideo (mem_linkedAlternates hversion)

theorem family_grouped (h : Loaded store queried self) (hq : queried ∈ store.rows)
    {item : BaseItemEntity ι × MediaSourceType} (hitem : item ∈ self.grouped queried) :
    item.1 ∈ store.rows ∧ Family store.primary queried.id item.1.id := by
  have hself : queried ∈ store.rows ∧ Family store.primary queried.id queried.id :=
    ⟨hq, .refl _⟩
  rcases mem_append.mp hitem with hitem | hitem
  · rcases mem_cons.mp hitem with rfl | hitem
    · exact hself
    · exact family_linked h hq hself hitem
  · rcases hprimary : self.primaryOf queried with _ | row
    · rw [hprimary] at hitem
      cases hitem
    · rw [hprimary] at hitem
      have hrow := family_primary h hq hprimary
      rcases mem_cons.mp hitem with rfl | hitem
      · exact hrow
      · exact family_linked h hq hrow hitem

theorem itemsForMediaSources_spec (h : Loaded store queried self) (hq : queried ∈ store.rows) :
    FamilyItems store queried.id (self.itemsForMediaSources queried) ∧
      ∀ id, Family store.primary queried.id id →
        id ∈ (self.itemsForMediaSources queried).ids := by
  have htop := top_chainRoot h hq
  have hitems : FamilyItems store queried.id (self.firstItems queried) := by
    refine FamilyItems.addAll ⟨List.nodup_nil, nofun⟩ fun item hitem => ?_
    rcases mem_append.mp hitem with hitem | hitem
    · exact family_grouped h hq hitem
    · obtain ⟨video, hvideo, hitem⟩ := List.mem_flatMap.mp hitem
      obtain ⟨version, hversion, rfl⟩ := mem_map.mp hitem
      exact family_of_mem_versionsOf h hq (family_grouped h hq hvideo)
        (mem_localAlternates hversion)
  -- The levels below the root are the family.
  have hsound : LevelSound store self queried
      ⟨self.firstItems queried, [self.chainRoot queried], []⟩ := by
    refine ⟨hitems, fun id hid => ?_⟩
    rw [mem_singleton.mp hid]
    exact ⟨family_of_up htop.up, row_isSome (h.up _ htop.up)⟩
  obtain ⟨hfamily, walked, hsub, hdone⟩ := walkLevels_spec h hq hsound (fun _ hid => hid)
    fun b hb => .inl hb
  refine ⟨hfamily, fun id hid => (hdone id ?_).1⟩
  have hup := htop.family_iff.mp hid
  induction hup using Relation.ReflTransGen.head_induction_on with
  | refl => exact hsub _ (mem_singleton.mpr rfl)
  | @head a b hab hb ih =>
    by_cases hne : a = b
    · exact hne ▸ ih (htop.family_iff.mpr hb)
    · exact (hdone b (ih (htop.family_iff.mpr hb))).2 a
        ⟨(VersionStore.primary_eq_some_iff.mp hab).1, hne⟩

/-- The version ids of an item are its family, each once, whatever it is loaded with; those of
another item of the family, loaded with whatever else, are the same. -/
theorem allVersionIds_load {store : VersionStore ι} (reader reader' : VersionRowReader store)
    {queried queried' : List (BaseItemEntity ι)} (hstored : ∀ row ∈ queried, row ∈ store.rows)
    (hstored' : ∀ row ∈ queried', row ∈ store.rows) {item other : BaseItemEntity ι}
    (hitem : item ∈ queried) (hother : other ∈ queried')
    (hfamily : Family store.primary item.id other.id) :
    ((VersionRows.load reader queried).allVersionIds item).Nodup ∧
      (∀ id, id ∈ (VersionRows.load reader queried).allVersionIds item ↔
        Family store.primary item.id id) ∧
      ((VersionRows.load reader queried).allVersionIds item).Perm
        ((VersionRows.load reader' queried').allVersionIds other) := by
  have hspec : ∀ (reader : VersionRowReader store) (queried : List (BaseItemEntity ι)) item,
      (∀ row ∈ queried, row ∈ store.rows) → item ∈ queried →
      ((VersionRows.load reader queried).allVersionIds item).Nodup ∧
        ∀ id, id ∈ (VersionRows.load reader queried).allVersionIds item ↔
          Family store.primary item.id id := by
    intro reader queried item hstored hitem
    obtain ⟨hitems, hall⟩ :=
      itemsForMediaSources_spec (loaded_load reader hstored hitem)
        (hstored item hitem)
    refine ⟨hitems.nodup, fun id => ⟨fun hid => ?_, hall id⟩⟩
    obtain ⟨found, hfound, rfl⟩ := mem_map.mp hid
    exact (hitems.member found hfound).2
  obtain ⟨hnodup, hmem⟩ := hspec reader queried item hstored hitem
  obtain ⟨hnodup', hmem'⟩ := hspec reader' queried' other hstored' hother
  refine ⟨hnodup, hmem, (List.perm_ext_iff_of_nodup hnodup hnodup').mpr fun id => ?_⟩
  rw [hmem, hmem']
  exact ⟨hfamily.symm.trans, hfamily.trans⟩

/-- A row that is no local version, by its id and the one it names. -/
def pointing (id : ℕ) (primary : Option ℕ) : BaseItemEntity ℕ :=
  ⟨id, primary, none, none, none, none, []⟩

/-- Two rows that name each other with a version of one of them, a row that names itself and one
that names a row that is not there. -/
def looped : VersionStore ℕ where
  rows := [pointing 1 (some 2), pointing 2 (some 1), pointing 3 (some 2), pointing 4 (some 4),
    pointing 5 (some 9)]
  placeholder := 0
  eq_of_id := by decide
  placeholder_root := by decide

theorem allVersionIds_load_looped :
    ((VersionRows.load (DbVersionReader looped) [pointing 3 (some 2)]).allVersionIds
        (pointing 3 (some 2))).Perm
      ((VersionRows.load (DbVersionReader looped)
        [pointing 5 (some 9), pointing 1 (some 2)]).allVersionIds (pointing 1 (some 2))) :=
  (allVersionIds_load (DbVersionReader looped) (DbVersionReader looped) (by decide) (by decide)
    mem_cons_self (List.mem_cons_of_mem _ mem_cons_self)
    (family_of_up (Up.head (b := 2) (by decide) (Up.head (by decide) (Up.refl 1))))).2.2

end Ferrofin.Versions
