import Ferrofin.MergeVersions.Merge

/-!
# What a merge of one group does

`Catalog.mergeGroup` on a group of several stored members of one library (`Group`): all of the
library that the pointers join to a member points at one member, which has no pointer, and the
links of foreign items into these are cut (`Merged`).  A group that is so already is left as it is
(`mergeGroup_eq_self`).
-/

namespace Ferrofin.MergeVersions

open Lib

/-! ### Writes -/

namespace Links

def writeEach (written : Links) (test : BaseItemEntity → Bool) (value : Nat → Option Nat)
    (items : List BaseItemEntity) : Links :=
  items.foldl (fun written item =>
    if test item then written.setPrimaryVersionId item.id (value item.id) else written) written

variable {written : Links} {test : BaseItemEntity → Bool} {value : Nat → Option Nat}
  {items : List BaseItemEntity} {id : Nat}

theorem writeEach_cons (item : BaseItemEntity) (items : List BaseItemEntity) :
    written.writeEach test value (item :: items) =
      (if test item then written.setPrimaryVersionId item.id (value item.id)
        else written).writeEach test value items := rfl

theorem writeEach_of_mem {item : BaseItemEntity} (h : item ∈ items) (htest : test item = true) :
    (written.writeEach test value items).primaryVersionId item.id = value item.id := by
  -- A later write of the same id has the same value.
  have hkeeps : ∀ (l : List BaseItemEntity) (w : Links),
      w.primaryVersionId item.id = value item.id →
        (w.writeEach test value l).primaryVersionId item.id = value item.id := by
    intro l
    induction l with
    | nil => exact fun _ h => h
    | cons a l ih =>
      intro w hw
      rw [writeEach_cons]
      refine ih _ ?_
      split
      · simp only [setPrimaryVersionId, Function.update_apply]
        split
        · next heq => rw [heq]
        · exact hw
      · exact hw
  induction items generalizing written with
  | nil => cases h
  | cons a l ih =>
    rw [writeEach_cons]
    rcases List.mem_cons.mp h with rfl | h
    · refine hkeeps l _ ?_
      rw [if_pos htest]
      exact Function.update_self ..
    · exact ih h

theorem writeEach_of_not_mem (h : ∀ item ∈ items, test item = true → item.id ≠ id) :
    (written.writeEach test value items).primaryVersionId id = written.primaryVersionId id := by
  induction items generalizing written with
  | nil => rfl
  | cons a l ih =>
    have hl : ∀ item ∈ l, test item = true → item.id ≠ id := fun item hitem =>
      h item (List.mem_cons_of_mem _ hitem)
    rw [writeEach_cons, ih hl]
    split
    · next htest =>
      exact Function.update_of_ne (h a (List.mem_cons_self ..) htest).symm ..
    · rfl

theorem writeEach_eq_self (h : ∀ item ∈ items, test item = false) :
    written.writeEach test value items = written := by
  induction items generalizing written with
  | nil => rfl
  | cons a l ih =>
    rw [writeEach_cons, if_neg (by rw [h a (List.mem_cons_self ..)]; nofun)]
    exact ih fun item hitem => h item (List.mem_cons_of_mem _ hitem)

end Links

namespace Catalog

variable {c : Catalog} {links : Links}

theorem unlinkForeign_eq (links : Links) (group foreign : List BaseItemEntity) :
    unlinkForeign links group foreign =
      links.writeEach (fun item =>
        (links.primaryVersionId item.id).any fun pid => group.any (·.id = pid))
        (fun _ => none) foreign := rfl

theorem pointAt_eq (links written : Links) (group : List BaseItemEntity) (primary : Nat) :
    pointAt links written group primary =
      written.writeEach (fun item => links.primaryVersionId item.id ≠
        if item.id = primary then none else some primary)
        (fun id => if id = primary then none else some primary) group := by
  unfold pointAt Links.writeEach
  congr 1
  funext written item
  by_cases hid : item.id = primary
  · simp [hid, Option.isSome_iff_ne_none]
  · simp [hid]

/-! ### Expansion -/

def Stored (c : Catalog) (id : Nat) : Prop := ∃ item ∈ c.items, item.id = id

theorem stored_iff {id : Nat} : c.Stored id ↔ (c.retrieveItem id).isSome = true := by
  rw [Option.isSome_iff_exists]
  exact ⟨fun ⟨item, h, hid⟩ => ⟨item, retrieveItem_eq_some_iff.mpr ⟨h, hid⟩⟩,
    fun ⟨item, h⟩ => ⟨item, retrieveItem_eq_some_iff.mp h⟩⟩

theorem mem_neighbours {a b : Nat} : b ∈ c.neighbours links a ↔
    c.Stored b ∧ (links.primaryVersionId a = some b ∨ links.primaryVersionId b = some a) := by
  simp only [neighbours, alternates, List.mem_append, Option.mem_toList,
    Option.filter_eq_some_iff, List.mem_map, List.mem_filter, decide_eq_true_eq, stored_iff,
    Option.isSome_iff_exists]
  constructor
  · rintro (⟨hp, hb⟩ | ⟨item, ⟨hmem, hp⟩, rfl⟩)
    · exact ⟨hb, .inl hp⟩
    · exact ⟨⟨item, retrieveItem_self hmem⟩, .inr hp⟩
  · rintro ⟨⟨item, hitem⟩, hp | hp⟩
    · exact .inl ⟨hp, item, hitem⟩
    · obtain ⟨hmem, rfl⟩ := retrieveItem_eq_some_iff.mp hitem
      exact .inr ⟨item, ⟨hmem, hp⟩, rfl⟩

variable {seed : List Nat}

theorem expansion_induction {Q : Nat → Prop} (hseed : ∀ a ∈ seed, Q a)
    (hnext : ∀ a b, Q a → c.Stored b →
      links.primaryVersionId a = some b ∨ links.primaryVersionId b = some a → Q b) :
    ∀ a ∈ c.expansion links seed, Q a :=
  walk_induction (fun a b ha hb => hnext a b ha (mem_neighbours.mp hb).1 (mem_neighbours.mp hb).2)
    hseed nofun

theorem expansion_closed (hseed : ∀ a ∈ seed, c.Stored a) :
    (∀ a ∈ seed, a ∈ c.expansion links seed) ∧
      ∀ a ∈ c.expansion links seed, ∀ b ∈ c.neighbours links a, b ∈ c.expansion links seed := by
  have hmem : ∀ {a}, c.Stored a → a ∈ c.items.map (·.id) := fun ⟨_, h, hid⟩ =>
    hid ▸ List.mem_map_of_mem h
  refine walk_closed (c.items.map (·.id)) (c.items.length + 1)
    (fun a _ b hb => hmem (mem_neighbours.mp hb).1) (fun a _ => ?_)
    (fun a ha => hmem (hseed a ha)) nofun ?_
  · rw [neighbours, List.length_append, List.length_map, Nat.add_comm]
    exact Nat.add_le_add (List.length_filter_le ..) Option.length_toList_le
  · simp [unwalked]

theorem mem_expansion_of_up (hseed : ∀ a ∈ seed, c.Stored a) {a b : Nat}
    (h : a ∈ c.expansion links seed) (hb : c.Stored b) (hp : links.primaryVersionId a = some b) :
    b ∈ c.expansion links seed :=
  (expansion_closed hseed).2 a h b (mem_neighbours.mpr ⟨hb, .inl hp⟩)

theorem mem_expansion_of_down (hseed : ∀ a ∈ seed, c.Stored a) {a b : Nat}
    (h : a ∈ c.expansion links seed) (hb : c.Stored b) (hp : links.primaryVersionId b = some a) :
    b ∈ c.expansion links seed :=
  (expansion_closed hseed).2 a h b (mem_neighbours.mpr ⟨hb, .inr hp⟩)

theorem expansion_congr {seed' : List Nat} (hseed : ∀ a ∈ seed, c.Stored a)
    (hiff : ∀ a, a ∈ seed' ↔ a ∈ seed) {a : Nat} :
    a ∈ c.expansion links seed' ↔ a ∈ c.expansion links seed := by
  have hseed' : ∀ a ∈ seed', c.Stored a := fun a ha => hseed a ((hiff a).mp ha)
  constructor <;> intro h
  · refine expansion_induction (fun b hb => (expansion_closed hseed).1 b ((hiff b).mp hb)) ?_ a h
    exact fun a b ha hb hp => (expansion_closed hseed).2 a ha b (mem_neighbours.mpr ⟨hb, hp⟩)
  · refine expansion_induction (fun b hb => (expansion_closed hseed').1 b ((hiff b).mpr hb)) ?_ a h
    exact fun a b ha hb hp => (expansion_closed hseed').2 a ha b (mem_neighbours.mpr ⟨hb, hp⟩)

/-! ### One group -/

def Member (c : Catalog) (library : String) (id : Nat) : Prop :=
  ∃ item ∈ c.items, item.id = id ∧ item.isOwnedVersion = false ∧ c.libraryKey item = library

def Foreign (c : Catalog) (library : String) (id : Nat) : Prop :=
  ∃ item ∈ c.items, item.id = id ∧ item.isOwnedVersion = false ∧ c.libraryKey item ≠ library

structure IsGroup (c : Catalog) (library : String) (ids : List Nat) : Prop where
  nodup : ids.Nodup
  two : 1 < ids.length
  member : ∀ id ∈ ids, c.Member library id

theorem Member.stored {library : String} {id : Nat} (h : c.Member library id) : c.Stored id := by
  obtain ⟨item, hmem, hid, _⟩ := h
  exact ⟨item, hmem, hid⟩

theorem Foreign.not_member {library : String} {id : Nat} (h : c.Foreign library id) :
    ¬ c.Member library id := by
  obtain ⟨item, hmem, hid, _, hkey⟩ := h
  rintro ⟨other, hmem', hid', _, hkey'⟩
  rw [item_ext hmem hmem' (hid.trans hid'.symm)] at hkey
  exact hkey hkey'

variable {library : String} {ids : List Nat}

theorem IsGroup.stored (h : c.IsGroup library ids) : ∀ id ∈ ids, c.Stored id := fun id hid =>
  (h.member id hid).stored

theorem map_filterMap_retrieveItem (h : ∀ id ∈ ids, c.Member library id) :
    ((ids.filterMap c.retrieveItem).filter fun item => !item.isOwnedVersion).map (·.id) = ids := by
  induction ids with
  | nil => rfl
  | cons id ids ih =>
    obtain ⟨item, hmem, rfl, howned, _⟩ := h id (List.mem_cons_self ..)
    rw [List.filterMap_cons_some (retrieveItem_self hmem),
      List.filter_cons_of_pos (by simp [howned]), List.map_cons,
      ih fun id hid => h id (List.mem_cons_of_mem _ hid)]

theorem IsGroup.resolve_perm (h : c.IsGroup library ids) :
    ((c.resolve ids).map (·.id)).Perm ids := by
  have hids : (((((ids.filterMap c.retrieveItem).filter fun item =>
      !item.isOwnedVersion).insertionSort fun a b => a.id ≤ b.id)).map (·.id)).Perm ids :=
    ((List.perm_insertionSort _ _).map _).trans (.of_eq (map_filterMap_retrieveItem h.member))
  rw [resolve, List.destutter_of_isChain]
  · exact hids
  · exact (List.pairwise_map.mp (hids.nodup_iff.mpr h.nodup)).isChain

theorem IsGroup.mem_resolve (h : c.IsGroup library ids) {item : BaseItemEntity} :
    item ∈ c.resolve ids ↔ item ∈ c.items ∧ item.id ∈ ids := by
  have hsub : ∀ item ∈ c.resolve ids, item ∈ c.items := by
    intro item hitem
    have hmem := (List.mem_insertionSort _).mp ((List.destutter_sublist _ _).subset hitem)
    obtain ⟨id, _, hid⟩ := List.mem_filterMap.mp (List.mem_filter.mp hmem).1
    exact (retrieveItem_eq_some_iff.mp hid).1
  constructor
  · intro hitem
    exact ⟨hsub item hitem, h.resolve_perm.mem_iff.mp (List.mem_map_of_mem hitem)⟩
  · rintro ⟨hmem, hid⟩
    obtain ⟨other, hother, heq⟩ := List.mem_map.mp (h.resolve_perm.mem_iff.mpr hid)
    rwa [item_ext hmem (hsub other hother) heq.symm]

theorem IsGroup.length_resolve (h : c.IsGroup library ids) :
    (c.resolve ids).length = ids.length := by
  rw [← h.resolve_perm.length_eq, List.length_map]

def groupOf (c : Catalog) (links : Links) (library : String) (ids : List Nat) :
    List BaseItemEntity :=
  (c.expandGroup links (c.resolve ids)).1.filter fun item => !c.isForeign (some library) item

/-- What an expansion walked through in other libraries. -/
def foreignOf (c : Catalog) (links : Links) (library : String) (ids : List Nat) :
    List BaseItemEntity :=
  (c.expandGroup links (c.resolve ids)).1.filter (c.isForeign (some library))

theorem IsGroup.mem_expandGroup (h : c.IsGroup library ids) {item : BaseItemEntity} :
    item ∈ (c.expandGroup links (c.resolve ids)).1 ↔
      item ∈ c.items ∧ item.id ∈ c.expansion links ids ∧ item.isOwnedVersion = false := by
  have hwalk : ∀ {a}, a ∈ c.expansion links ((c.resolve ids).map (·.id)) ↔
      a ∈ c.expansion links ids :=
    expansion_congr h.stored fun a => h.resolve_perm.mem_iff
  simp only [expandGroup, List.mem_filter, List.mem_filterMap, Bool.not_eq_true', hwalk]
  constructor
  · rintro ⟨⟨id, hid, hitem⟩, howned⟩
    obtain ⟨hmem, rfl⟩ := retrieveItem_eq_some_iff.mp hitem
    exact ⟨hmem, hid, howned⟩
  · rintro ⟨hmem, hid, howned⟩
    exact ⟨⟨item.id, hid, retrieveItem_self hmem⟩, howned⟩

theorem IsGroup.mem_groupOf (h : c.IsGroup library ids) {item : BaseItemEntity} :
    item ∈ c.groupOf links library ids ↔ item ∈ c.items ∧ item.id ∈ c.expansion links ids ∧
      item.isOwnedVersion = false ∧ c.libraryKey item = library := by
  simp [groupOf, h.mem_expandGroup, isForeign, and_assoc]

theorem IsGroup.mem_foreignOf (h : c.IsGroup library ids) {item : BaseItemEntity} :
    item ∈ c.foreignOf links library ids ↔ item ∈ c.items ∧ item.id ∈ c.expansion links ids ∧
      item.isOwnedVersion = false ∧ c.libraryKey item ≠ library := by
  simp [foreignOf, h.mem_expandGroup, isForeign, and_assoc]

theorem IsGroup.resolve_subset (h : c.IsGroup library ids) :
    ∀ item ∈ c.resolve ids, item ∈ c.groupOf links library ids := by
  intro item hitem
  obtain ⟨hmem, hid⟩ := h.mem_resolve.mp hitem
  obtain ⟨other, hother, heq, howned, hkey⟩ := h.member _ hid
  rw [item_ext hother hmem heq] at howned hkey
  exact h.mem_groupOf.mpr ⟨hmem, (expansion_closed h.stored).1 _ hid, howned, hkey⟩

theorem preferredPrimaryVersion_lt {items : List BaseItemEntity} (h : items ≠ []) :
    preferredPrimaryVersion items < items.length := by
  have hfold : ∀ (l : List (BaseItemEntity × Nat)) (best : Option (BaseItemEntity × Nat)),
      (∀ x ∈ l, x.2 < items.length) → (∀ x ∈ best, x.2 < items.length) →
        ∀ x ∈ l.foldl preferredOf best, x.2 < items.length := by
    intro l
    induction l with
    | nil => exact fun _ _ hbest => hbest
    | cons a l ih =>
      intro best hl hbest
      refine ih _ (fun x hx => hl x (List.mem_cons_of_mem _ hx)) fun x hx => ?_
      have ha := hl a (List.mem_cons_self ..)
      cases best with
      | none => cases hx; exact ha
      | some best =>
        cases hx
        split
        · exact ha
        · exact hbest best rfl
  have hall := hfold items.zipIdx none (fun x hx => (List.mem_zipIdx' hx).1) nofun
  unfold preferredPrimaryVersion
  cases hbest : items.zipIdx.foldl preferredOf none with
  | none => exact List.length_pos_iff.mpr h
  | some best => exact hall best hbest

theorem exists_primaryOf (links : Links) (group : List BaseItemEntity) (locals : List Nat)
    {items : List BaseItemEntity} (h : items ≠ []) :
    ∃ primary ∈ items, primaryOf links group locals items = some primary := by
  unfold primaryOf
  cases hfind : items.find? fun item =>
      (links.primaryVersionId item.id).isNone && ownsAlternates links group locals item with
  | some primary => exact ⟨primary, List.mem_of_find?_eq_some hfind, rfl⟩
  | none =>
    have hlt := preferredPrimaryVersion_lt h
    exact ⟨_, List.getElem_mem hlt, (Option.none_or).trans (List.getElem?_eq_getElem hlt)⟩

/-- A group is pointed at one of its members, and what is foreign is cut off. -/
theorem IsGroup.mergeGroup_eq (h : c.IsGroup library ids) (links : Links) :
    ∃ primary ∈ c.resolve ids,
      primaryOf links (c.groupOf links library ids) (c.expandGroup links (c.resolve ids)).2
        (c.resolve ids) = some primary ∧
      c.mergeGroup ids (some library) links = pointAt links
        (unlinkForeign links (c.groupOf links library ids) (c.foreignOf links library ids))
        (c.groupOf links library ids) primary.id := by
  have htwo : ¬ (c.resolve ids).length < 2 := by
    rw [h.length_resolve]
    exact Nat.not_lt.mpr h.two
  have hne : c.resolve ids ≠ [] := fun hnil => htwo (by rw [hnil]; exact Nat.zero_lt_two)
  have hkeep : ((c.resolve ids).filter fun item =>
      (c.groupOf links library ids).any (·.id = item.id)) = c.resolve ids :=
    List.filter_eq_self.mpr fun item hitem => List.any_eq_true.mpr
      ⟨item, h.resolve_subset item hitem, decide_eq_true rfl⟩
  obtain ⟨primary, hmem, hprimary⟩ := exists_primaryOf links (c.groupOf links library ids)
    (c.expandGroup links (c.resolve ids)).2 hne
  refine ⟨primary, hmem, hprimary, ?_⟩
  unfold groupOf at hkeep hprimary
  simp only [mergeGroup, if_neg htwo, hkeep, hprimary]
  rfl

/-! ### What a merge does -/

/-- **A merge of a group**, from the links before to those after. -/
structure Merged (c : Catalog) (links links' : Links) (library : String) (ids : List Nat)
    (primary : Nat) : Prop where
  primary_mem : primary ∈ ids
  primary_none : links'.primaryVersionId primary = none
  member : ∀ x ∈ c.expansion links ids, c.Member library x → x ≠ primary →
    links'.primaryVersionId x = some primary
  cut : ∀ x ∈ c.expansion links ids, c.Foreign library x → ∀ y ∈ c.expansion links ids,
    c.Member library y → links.primaryVersionId x = some y → links'.primaryVersionId x = none
  kept : ∀ x, links'.primaryVersionId x ≠ links.primaryVersionId x →
    x ∈ c.expansion links ids ∧ (c.Member library x ∨
      c.Foreign library x ∧ links'.primaryVersionId x = none ∧
        ∃ y ∈ c.expansion links ids, c.Member library y ∧ links.primaryVersionId x = some y)

theorem IsGroup.ne_of_foreign (h : c.IsGroup library ids) {x : Nat} (hx : c.Member library x) :
    ∀ item ∈ c.foreignOf links library ids, item.id ≠ x := by
  rintro item hitem rfl
  obtain ⟨hmem, _, howned, hkey⟩ := h.mem_foreignOf.mp hitem
  exact Foreign.not_member ⟨item, hmem, rfl, howned, hkey⟩ hx

theorem IsGroup.ne_of_member (h : c.IsGroup library ids) {x : Nat} (hx : ¬ c.Member library x) :
    ∀ item ∈ c.groupOf links library ids, item.id ≠ x := by
  rintro item hitem rfl
  obtain ⟨hmem, _, howned, hkey⟩ := h.mem_groupOf.mp hitem
  exact hx ⟨item, hmem, rfl, howned, hkey⟩

theorem IsGroup.any_groupOf (h : c.IsGroup library ids) {x : Nat} :
    (c.groupOf links library ids).any (·.id = x) = true ↔
      x ∈ c.expansion links ids ∧ c.Member library x := by
  rw [List.any_eq_true]
  constructor
  · rintro ⟨item, hitem, hid⟩
    obtain ⟨hmem, hwalk, howned, hkey⟩ := h.mem_groupOf.mp hitem
    obtain rfl := of_decide_eq_true hid
    exact ⟨hwalk, item, hmem, rfl, howned, hkey⟩
  · rintro ⟨hwalk, item, hmem, rfl, howned, hkey⟩
    exact ⟨item, h.mem_groupOf.mpr ⟨hmem, hwalk, howned, hkey⟩, decide_eq_true rfl⟩

theorem IsGroup.pointAt_member (h : c.IsGroup library ids) {x primary : Nat}
    (hwalk : x ∈ c.expansion links ids) (hx : c.Member library x) :
    (pointAt links (unlinkForeign links (c.groupOf links library ids)
      (c.foreignOf links library ids)) (c.groupOf links library ids) primary).primaryVersionId x =
        if x = primary then none else some primary := by
  obtain ⟨item, hmem, rfl, howned, hkey⟩ := hx
  have hitem : item ∈ c.groupOf links library ids := h.mem_groupOf.mpr ⟨hmem, hwalk, howned, hkey⟩
  rw [pointAt_eq]
  by_cases htest : links.primaryVersionId item.id = if item.id = primary then none else some primary
  · rw [Links.writeEach_of_not_mem, unlinkForeign_eq, Links.writeEach_of_not_mem, htest]
    · exact fun other hother _ => h.ne_of_foreign ⟨item, hmem, rfl, howned, hkey⟩ other hother
    · rintro other _ hother hid
      rw [hid] at hother
      exact of_decide_eq_true hother htest
  · exact Links.writeEach_of_mem hitem (decide_eq_true htest)

theorem IsGroup.pointAt_of_not_member (h : c.IsGroup library ids) {x primary : Nat}
    (hx : ¬ c.Member library x) :
    (pointAt links (unlinkForeign links (c.groupOf links library ids)
      (c.foreignOf links library ids)) (c.groupOf links library ids) primary).primaryVersionId x =
        (unlinkForeign links (c.groupOf links library ids)
          (c.foreignOf links library ids)).primaryVersionId x := by
  rw [pointAt_eq]
  exact Links.writeEach_of_not_mem fun item hitem _ => h.ne_of_member hx item hitem

theorem IsGroup.merged (h : c.IsGroup library ids) (links : Links) :
    ∃ primary, c.Merged links (c.mergeGroup ids (some library) links) library ids primary := by
  obtain ⟨primary, hprimary, _, heq⟩ := h.mergeGroup_eq links
  have hids := (h.mem_resolve.mp hprimary).2
  have hwalk : primary.id ∈ c.expansion links ids := (expansion_closed h.stored).1 _ hids
  have hforeign : ∀ {x}, x ∈ c.expansion links ids → c.Foreign library x →
      ∃ item ∈ c.foreignOf links library ids, item.id = x := by
    rintro x hx ⟨item, hmem, rfl, howned, hkey⟩
    exact ⟨item, h.mem_foreignOf.mpr ⟨hmem, hx, howned, hkey⟩, rfl⟩
  refine ⟨primary.id, hids, ?_, ?_, ?_, ?_⟩
  · rw [heq, h.pointAt_member hwalk (h.member _ hids), if_pos rfl]
  · intro x hx hmember hne
    rw [heq, h.pointAt_member hx hmember, if_neg hne]
  · intro x hx hxf y hy hmember hp
    obtain ⟨item, hitem, rfl⟩ := hforeign hx hxf
    rw [heq, h.pointAt_of_not_member hxf.not_member, unlinkForeign_eq]
    refine Links.writeEach_of_mem hitem ?_
    rw [hp]
    exact h.any_groupOf.mpr ⟨hy, hmember⟩
  · intro x hchanged
    by_cases hmember : c.Member library x
    · refine ⟨?_, .inl hmember⟩
      -- Nobody is written who was not walked.
      by_contra hx
      refine hchanged ?_
      rw [heq, pointAt_eq, Links.writeEach_of_not_mem, unlinkForeign_eq, Links.writeEach_of_not_mem]
      · exact fun item hitem _ => h.ne_of_foreign hmember item hitem
      · rintro item hitem _ rfl
        exact hx (h.mem_groupOf.mp hitem).2.1
    · rw [heq, h.pointAt_of_not_member hmember] at hchanged ⊢
      rw [unlinkForeign_eq] at hchanged ⊢
      by_cases htest : ∃ item ∈ c.foreignOf links library ids, item.id = x ∧
          ((links.primaryVersionId item.id).any fun pid =>
            (c.groupOf links library ids).any (·.id = pid)) = true
      · obtain ⟨item, hitem, rfl, hany⟩ := htest
        obtain ⟨hmem, hx, howned, hkey⟩ := h.mem_foreignOf.mp hitem
        obtain ⟨y, hp, hy⟩ := (Option.any_eq_true ..).mp hany
        obtain ⟨hy, hymember⟩ := h.any_groupOf.mp hy
        exact ⟨hx, .inr ⟨⟨item, hmem, rfl, howned, hkey⟩,
          Links.writeEach_of_mem hitem hany, y, hy, hymember, hp⟩⟩
      · refine absurd (Links.writeEach_of_not_mem fun item hitem hany hid => ?_) hchanged
        exact htest ⟨item, hitem, hid, hany⟩

/-- A group that points at its primary, with nothing foreign that points into it, is left. -/
theorem IsGroup.mergeGroup_eq_self (h : c.IsGroup library ids) {primary : Nat}
    (hprimary : primary ∈ ids) (hnone : links.primaryVersionId primary = none)
    (hmember : ∀ x ∈ c.expansion links ids, c.Member library x →
      x = primary ∨ links.primaryVersionId x = some primary)
    (hforeign : ∀ x ∈ c.expansion links ids, c.Foreign library x →
      ∀ y ∈ c.expansion links ids, c.Member library y → links.primaryVersionId x ≠ some y) :
    c.mergeGroup ids (some library) links = links := by
  obtain ⟨chosen, hchosen, hfind, heq⟩ := h.mergeGroup_eq links
  have hseed : ∀ a ∈ ids, a ∈ c.expansion links ids := (expansion_closed h.stored).1
  -- Another member points at the primary, so that it owns an alternate and is chosen.
  obtain ⟨other, hother, hne⟩ : ∃ other ∈ ids, other ≠ primary := by
    by_contra hnone
    have hall : ∀ id ∈ ids, id = primary := fun id hid =>
      Decidable.byContradiction fun hne => hnone ⟨id, hid, hne⟩
    have hle : ids.length ≤ [primary].length := (List.subperm_of_subset h.nodup fun id hid =>
      List.mem_singleton.mpr (hall id hid)).length_le
    exact absurd (Nat.lt_of_lt_of_le h.two hle) (Nat.lt_irrefl 1)
  have hpoints := (hmember other (hseed other hother) (h.member other hother)).resolve_left hne
  obtain ⟨item, hitem, hid⟩ := List.mem_map.mp (h.resolve_perm.mem_iff.mpr hprimary)
  have howns : ownsAlternates links (c.groupOf links library ids)
      (c.expandGroup links (c.resolve ids)).2 item = true := by
    obtain ⟨alt, halt, rfl, howned, hkey⟩ := h.member other hother
    refine Bool.or_eq_true_iff.mpr (.inr (List.any_eq_true.mpr ⟨alt, ?_, ?_⟩))
    · exact h.mem_groupOf.mpr ⟨halt, hseed _ hother, howned, hkey⟩
    · rw [hid]
      exact decide_eq_true hpoints
  have hchosenId : chosen.id = primary := by
    have hids := (h.mem_resolve.mp hchosen).2
    unfold primaryOf at hfind
    cases hfirst : (c.resolve ids).find? fun item => (links.primaryVersionId item.id).isNone &&
        ownsAlternates links (c.groupOf links library ids)
          (c.expandGroup links (c.resolve ids)).2 item with
    | none =>
      have hnot := List.find?_eq_none.mp hfirst item hitem
      rw [hid, hnone, howns] at hnot
      exact absurd rfl hnot
    | some first =>
      rw [hfirst] at hfind
      cases hfind
      have hfree := List.find?_some hfirst
      rw [Bool.and_eq_true, Option.isNone_iff_eq_none] at hfree
      refine (hmember _ (hseed _ hids) (h.member _ hids)).resolve_right fun hp => ?_
      rw [hfree.1] at hp
      cases hp
  have hcut : unlinkForeign links (c.groupOf links library ids) (c.foreignOf links library ids) =
      links := by
    rw [unlinkForeign_eq]
    refine Links.writeEach_eq_self fun item hitem => ?_
    obtain ⟨hmem, hx, howned, hkey⟩ := h.mem_foreignOf.mp hitem
    refine Bool.eq_false_iff.mpr fun hany => ?_
    obtain ⟨y, hp, hy⟩ := (Option.any_eq_true ..).mp hany
    obtain ⟨hy, hymember⟩ := h.any_groupOf.mp hy
    exact hforeign _ hx ⟨item, hmem, rfl, howned, hkey⟩ y hy hymember hp
  rw [heq, hcut, pointAt_eq, hchosenId]
  refine Links.writeEach_eq_self fun item hitem => ?_
  obtain ⟨hmem, hx, howned, hkey⟩ := h.mem_groupOf.mp hitem
  simp only [ne_eq, decide_eq_false_iff_not, Decidable.not_not]
  rcases hmember _ hx ⟨item, hmem, rfl, howned, hkey⟩ with heq | hp
  · rw [if_pos heq, heq, hnone]
  · rw [hp, if_neg]
    intro heq
    rw [heq, hnone] at hp
    cases hp

end Catalog

end Ferrofin.MergeVersions
