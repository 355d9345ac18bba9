import Ferrofin.MergeVersions.Groups

/-!
# The groups of movies

Which movies are healed (`heal_links`): those of a library whose primary is stored in another one
(`Crosses`).  The groups are the movies of one library and Tmdb id (`members`), and those with
several members, of which one is not merged after the heal, are merged (`mem_duplicates`).
-/

namespace Ferrofin.MergeVersions

open Lib

namespace Catalog

variable {c : Catalog} {links : Links} {movie : BaseItemEntity} {x : Nat}

def members (c : Catalog) (library value : String) : List Nat :=
  (c.eligibleItems.filter fun movie =>
    c.tmdb movie.id = some value ∧ c.libraryKey movie = library).map (·.id)

/-- A movie with a Tmdb id points at a stored item of another library. -/
def Crosses (c : Catalog) (links : Links) (x : Nat) : Prop :=
  ∃ movie ∈ c.eligibleItems, movie.id = x ∧ (c.tmdb x).isSome = true ∧
    ∃ primary ∈ c.items, links.primaryVersionId x = some primary.id ∧
      c.libraryKey primary ≠ c.libraryKey movie

/-! ### Libraries -/

theorem nodup_eligibleItems (c : Catalog) : (c.eligibleItems.map (·.id)).Nodup :=
  c.nodup.sublist (List.filter_sublist.map _)

theorem libraryOf_of_eligible (h : movie ∈ c.eligibleItems) :
    c.libraryOf movie.id = if c.libraryKey movie = "" then none else some (c.libraryKey movie) := by
  rw [libraryOf, find?_key c.nodup_eligibleItems h, Option.map_some]
  by_cases hkey : c.libraryKey movie = "" <;> simp [hkey]

theorem getD_libraryOf (h : movie ∈ c.eligibleItems) :
    (c.libraryOf movie.id).getD "" = c.libraryKey movie := by
  rw [libraryOf_of_eligible h]
  split
  · next hkey => exact hkey.symm
  · rfl

/-- A primary is in the library of its row, whether it is looked at or not. -/
theorem primaryLibrary_eq {pid : Nat} :
    c.primaryLibrary pid = (c.retrieveItem pid).map c.libraryKey := by
  unfold primaryLibrary
  cases hlib : c.libraryOf pid with
  | none => exact Option.none_or
  | some library =>
    obtain ⟨hmap, -⟩ := Option.filter_eq_some_iff.mp hlib
    obtain ⟨movie, hfind, rfl⟩ := Option.map_eq_some_iff.mp hmap
    have hid : movie.id = pid := by simpa using List.find?_some hfind
    rw [← hid, retrieveItem_self (mem_items_of_eligible (List.mem_of_find?_eq_some hfind))]
    rfl

theorem isHealed_iff (h : movie ∈ c.eligibleItems) :
    c.isHealed links movie = true ↔ c.Crosses links movie.id ∧ c.libraryOf movie.id ≠ none := by
  unfold isHealed
  rw [libraryOf_of_eligible h]
  split
  · next library pid hlib hpid =>
    split at hlib
    · cases hlib
    · next hkey =>
      cases hlib
      simp only [Bool.and_eq_true, primaryLibrary_eq, Option.any_map, Option.any_eq_true]
      constructor
      · rintro ⟨htmdb, primary, hprimary, hne⟩
        obtain ⟨hmem, rfl⟩ := retrieveItem_eq_some_iff.mp hprimary
        refine ⟨⟨movie, h, rfl, htmdb, primary, hmem, hpid, (of_decide_eq_true hne).symm⟩, ?_⟩
        rw [if_neg hkey]
        nofun
      · rintro ⟨⟨other, hother, hid, htmdb, primary, hmem, hp, hne⟩, -⟩
        rw [item_ext (mem_items_of_eligible hother) (mem_items_of_eligible h) hid] at hne
        rw [hpid] at hp
        cases hp
        exact ⟨htmdb, primary, retrieveItem_self hmem, decide_eq_true hne.symm⟩
  · next hnone =>
    refine ⟨nofun, ?_⟩
    rintro ⟨⟨_, _, _, _, primary, _, hp, _⟩, hlib⟩
    split at hlib
    · exact absurd rfl hlib
    · next hkey => exact absurd hp (hnone _ _ (if_neg hkey))

/-! ### The heal -/

theorem heal_eq (c : Catalog) (links : Links) :
    c.heal links = (links.writeEach (c.isHealed links) (fun _ => none) c.eligibleItems,
      (c.eligibleItems.filter (c.isHealed links)).map (·.id)) := by
  have hfold : ∀ (l : List BaseItemEntity) (written : Links) (healed : List Nat),
      l.foldl (fun out movie =>
        if c.isHealed links movie then
          (out.1.setPrimaryVersionId movie.id none, out.2 ++ [movie.id])
        else (out.1, out.2)) (written, healed) =
      (written.writeEach (c.isHealed links) (fun _ => none) l,
        healed ++ (l.filter (c.isHealed links)).map (·.id)) := by
    intro l
    induction l with
    | nil => intro written healed; simp [Links.writeEach]
    | cons movie l ih =>
      intro written healed
      rw [List.foldl_cons, Links.writeEach_cons]
      by_cases hheal : c.isHealed links movie = true
      · simp only [if_pos hheal, ih, List.filter_cons_of_pos hheal, List.map_cons,
          List.append_assoc, List.singleton_append]
      · simp only [if_neg hheal, ih, List.filter_cons_of_neg hheal]
  exact hfold c.eligibleItems links []

theorem heal_of_crosses (h : c.Crosses links x) (hlib : c.libraryOf x ≠ none) :
    (c.heal links).1.primaryVersionId x = none := by
  obtain ⟨movie, hmem, rfl, _⟩ := id h
  rw [heal_eq]
  exact Links.writeEach_of_mem hmem ((isHealed_iff hmem).mpr ⟨h, hlib⟩)

theorem heal_of_not (h : ¬ (c.Crosses links x ∧ c.libraryOf x ≠ none)) :
    (c.heal links).1.primaryVersionId x = links.primaryVersionId x := by
  rw [heal_eq]
  refine Links.writeEach_of_not_mem fun movie hmem hheal hid => h ?_
  exact hid ▸ (isHealed_iff hmem).mp hheal

theorem heal_eq_self (h : ∀ x, c.Crosses links x → c.libraryOf x = none) :
    c.heal links = (links, []) := by
  have hnone : ∀ movie ∈ c.eligibleItems, c.isHealed links movie = false := by
    intro movie hmem
    refine Bool.eq_false_iff.mpr fun hheal => ?_
    obtain ⟨hcross, hlib⟩ := (isHealed_iff hmem).mp hheal
    exact hlib (h _ hcross)
  rw [heal_eq, Links.writeEach_eq_self hnone, List.filter_eq_nil_iff.mpr]
  · rfl
  · intro movie hmem
    rw [hnone movie hmem]
    nofun

theorem mem_healed : x ∈ (c.heal links).2 ↔ c.Crosses links x ∧ c.libraryOf x ≠ none := by
  rw [heal_eq]
  constructor
  · intro h
    obtain ⟨movie, hmovie, rfl⟩ := List.mem_map.mp h
    obtain ⟨hmem, hheal⟩ := List.mem_filter.mp hmovie
    exact (isHealed_iff hmem).mp hheal
  · intro h
    obtain ⟨movie, hmem, rfl, _⟩ := id h.1
    exact List.mem_map_of_mem (List.mem_filter.mpr ⟨hmem, (isHealed_iff hmem).mpr h⟩)

theorem crosses_of_heal (h : c.Crosses (c.heal links).1 x) :
    c.Crosses links x ∧ c.libraryOf x = none := by
  by_cases hheal : c.Crosses links x ∧ c.libraryOf x ≠ none
  · obtain ⟨_, _, _, _, _, _, hp, _⟩ := h
    rw [heal_of_crosses hheal.1 hheal.2] at hp
    cases hp
  · obtain ⟨movie, hmem, hid, htmdb, primary, hprimary, hp, hne⟩ := h
    rw [heal_of_not hheal] at hp
    have hcross : c.Crosses links x := ⟨movie, hmem, hid, htmdb, primary, hprimary, hp, hne⟩
    exact ⟨hcross, Decidable.byContradiction fun hlib => hheal ⟨hcross, hlib⟩⟩

/-! ### The groups -/

variable {library value : String}

theorem mem_members : x ∈ c.members library value ↔ ∃ movie ∈ c.eligibleItems, movie.id = x ∧
    c.tmdb x = some value ∧ c.libraryKey movie = library := by
  simp only [members, List.mem_map, List.mem_filter, decide_eq_true_eq]
  constructor
  · rintro ⟨movie, ⟨hmem, htmdb, hkey⟩, rfl⟩
    exact ⟨movie, hmem, rfl, htmdb, hkey⟩
  · rintro ⟨movie, hmem, rfl, htmdb, hkey⟩
    exact ⟨movie, ⟨hmem, htmdb, hkey⟩, rfl⟩

theorem members_inj {library' value' : String} (h : x ∈ c.members library value)
    (h' : x ∈ c.members library' value') : library = library' ∧ value = value' := by
  obtain ⟨movie, hmem, hid, htmdb, hkey⟩ := mem_members.mp h
  obtain ⟨movie', hmem', hid', htmdb', hkey'⟩ := mem_members.mp h'
  rw [item_ext (mem_items_of_eligible hmem) (mem_items_of_eligible hmem')
    (hid.trans hid'.symm)] at hkey
  exact ⟨hkey.symm.trans hkey', Option.some_inj.mp (htmdb.symm.trans htmdb')⟩

theorem member_of_mem_members (h : x ∈ c.members library value) : c.Member library x := by
  obtain ⟨movie, hmem, hid, _, hkey⟩ := mem_members.mp h
  exact ⟨movie, mem_items_of_eligible hmem, hid, isOwnedVersion_of_eligible hmem, hkey⟩

theorem isGroup_members (h : 1 < (c.members library value).length) :
    c.IsGroup library (c.members library value) where
  nodup := c.nodup_eligibleItems.sublist (List.filter_sublist.map _)
  two := h
  member := fun _ hx => member_of_mem_members hx

theorem groups_foldl (links : Links) (healed : List Nat) (library value : String)
    (movies : List BaseItemEntity) (hmovies : ∀ movie ∈ movies, movie ∈ c.eligibleItems)
    (groups : KeyedMap (String × String) (List Nat × Bool)) :
    ((movies.foldl (c.addToGroup links healed) groups).lookup (library, value)).getD ([], false) =
      let entry := (groups.lookup (library, value)).getD ([], false)
      let ids := (movies.filter fun movie =>
        c.tmdb movie.id = some value ∧ c.libraryKey movie = library).map (·.id)
      (entry.1 ++ ids, entry.2 || ids.any fun id =>
        (links.primaryVersionId id).isNone || healed.contains id) := by
  induction movies generalizing groups with
  | nil => simp
  | cons movie movies ih =>
    have hmovie := hmovies movie (List.mem_cons_self ..)
    rw [List.foldl_cons, ih fun m hm => hmovies m (List.mem_cons_of_mem _ hm)]
    unfold addToGroup
    cases htmdb : c.tmdb movie.id with
    | none => simp [htmdb]
    | some value' =>
      have hlib := getD_libraryOf hmovie
      generalize (c.libraryOf movie.id).getD "" = own at hlib
      subst hlib
      simp only [KeyedMap.lookup_insert_eq]
      by_cases hkey : (library, value) = (c.libraryKey movie, value')
      · obtain ⟨rfl, rfl⟩ := Prod.mk.inj hkey
        simp [htmdb, Bool.or_assoc]
      · have hother : ¬ (c.tmdb movie.id = some value ∧ c.libraryKey movie = library) := by
          rintro ⟨htmdb', rfl⟩
          rw [htmdb] at htmdb'
          cases htmdb'
          exact hkey rfl
        rw [if_neg hkey, List.filter_cons_of_neg (by simpa using hother)]

/-- The groups of several movies, of which one is not merged after the heal. -/
theorem mem_duplicates {visit : String × List Nat} :
    visit ∈ c.duplicates links (c.heal links).2 ↔ ∃ value, visit.2 = c.members visit.1 value ∧
      1 < visit.2.length ∧ ∃ x ∈ visit.2, (c.heal links).1.primaryVersionId x = none := by
  have hunmerged : ∀ x, ((links.primaryVersionId x).isNone || (c.heal links).2.contains x) = true ↔
      (c.heal links).1.primaryVersionId x = none := by
    intro x
    rw [Bool.or_eq_true, Option.isNone_iff_eq_none, List.contains_iff_mem, mem_healed]
    by_cases hheal : c.Crosses links x ∧ c.libraryOf x ≠ none
    · simp [hheal, heal_of_crosses hheal.1 hheal.2]
    · simp [hheal, heal_of_not hheal]
  have hentry : ∀ library value, ((c.groups links (c.heal links).2).lookup (library, value)).getD
      ([], false) = (c.members library value, (c.members library value).any fun id =>
        (links.primaryVersionId id).isNone || (c.heal links).2.contains id) := fun library value =>
    groups_foldl links _ library value _ (fun _ h => h) ∅
  obtain ⟨library, ids⟩ := visit
  simp only [duplicates, List.mem_map, List.mem_filter, Bool.and_eq_true, decide_eq_true_eq]
  constructor
  · rintro ⟨⟨⟨library', value⟩, entry⟩, ⟨hmem, hlen, hany⟩, heq⟩
    obtain ⟨rfl, rfl⟩ := Prod.mk.inj heq
    have hvalue := hentry library' value
    rw [AList.mem_lookup_iff.mpr hmem, Option.getD_some] at hvalue
    subst hvalue
    obtain ⟨x, hx, hnone⟩ := List.any_eq_true.mp hany
    exact ⟨value, rfl, hlen, x, hx, (hunmerged x).mp hnone⟩
  · rintro ⟨value, rfl, hlen, x, hx, hnone⟩
    have hvalue := hentry library value
    cases hlookup : (c.groups links (c.heal links).2).lookup (library, value) with
    | none =>
      rw [hlookup, Option.getD_none] at hvalue
      rw [← (Prod.mk.inj hvalue).1] at hlen
      exact absurd hlen nofun
    | some entry =>
      rw [hlookup, Option.getD_some] at hvalue
      subst hvalue
      refine ⟨⟨(library, value), _⟩, ⟨AList.mem_lookup_iff.mp hlookup, hlen, ?_⟩, rfl⟩
      exact List.any_eq_true.mpr ⟨x, hx, (hunmerged x).mpr hnone⟩

end Catalog

end Ferrofin.MergeVersions
