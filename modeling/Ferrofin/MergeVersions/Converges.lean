import Ferrofin.MergeVersions.Duplicates

/-!
# Merge Versions converges

A merged group is a star (`Star`): of its library, all that leads to its primary points at it
directly, and nothing foreign points into it (`Merged.star`).  Another merge takes the primary, and
with it all that is under it, into its own star (`Under.absorbed`), or leaves the star as it is
(`Star.merged`).

After a run each group with a member that was not merged is under one primary.  That is one of its
own members, unless the pointers join the group to another that is merged later
(`two_titles_joined`).  Who crosses to another library afterwards is in no library itself; where
nobody does, a second run visits groups that are stars under one of their own members, and writes
nothing (`merge_movies_converges`).
-/

namespace Ferrofin.MergeVersions

open Lib

namespace Catalog

variable {c : Catalog} {links links' : Links} {library lib : String} {ids ids' : List Nat}
  {primary chosen x y : Nat}

def Leads (c : Catalog) (links : Links) : Nat → Nat → Prop :=
  Relation.ReflTransGen fun a b => c.Stored a ∧ links.primaryVersionId a = some b

/-- Of the library, what leads to the primary points at it, and nothing foreign points at that. -/
structure Star (c : Catalog) (links : Links) (library : String) (primary : Nat) : Prop where
  none : links.primaryVersionId primary = none
  member : ∀ x, c.Member library x → c.Leads links x primary →
    x = primary ∨ links.primaryVersionId x = some primary
  foreign : ∀ x y, c.Foreign library x → links.primaryVersionId x = some y →
    c.Member library y → ¬ c.Leads links y primary

structure Under (c : Catalog) (links : Links) (ids : List Nat) (library : String)
    (primary : Nat) : Prop where
  member : c.Member library primary
  none : links.primaryVersionId primary = none
  ids : ∀ x ∈ ids, x = primary ∨ links.primaryVersionId x = some primary

theorem Member.library_eq (h : c.Member library x) (h' : c.Member lib x) : library = lib := by
  obtain ⟨item, hmem, hid, _, hkey⟩ := h
  obtain ⟨item', hmem', hid', _, hkey'⟩ := h'
  rw [item_ext hmem hmem' (hid.trans hid'.symm)] at hkey
  exact hkey.symm.trans hkey'

theorem Foreign.stored (h : c.Foreign library x) : c.Stored x := by
  obtain ⟨item, hmem, hid, _⟩ := h
  exact ⟨item, hmem, hid⟩

theorem Leads.eq_of_none (h : c.Leads links x y) (hnone : links.primaryVersionId x = none) :
    x = y := by
  rcases Relation.ReflTransGen.cases_head h with heq | ⟨z, ⟨_, hp⟩, _⟩
  · exact heq
  · rw [hnone] at hp
    cases hp

/-! ### What another merge leaves -/

section Kept

variable (hm : c.Merged links links' lib ids chosen) (hgroup : c.IsGroup lib ids)
include hm

theorem Merged.eq_of_changed (hp : links'.primaryVersionId x = some y)
    (hne : links'.primaryVersionId x ≠ links.primaryVersionId x) :
    y = chosen ∧ x ∈ c.expansion links ids ∧ c.Member lib x := by
  obtain ⟨hx, hmember | ⟨_, hnone, _⟩⟩ := hm.kept x hne
  · have hx' : x ≠ chosen := by
      rintro rfl
      rw [hm.primary_none] at hp
      cases hp
    rw [hm.member x hx hmember hx'] at hp
    exact ⟨(Option.some_inj.mp hp).symm, hx, hmember⟩
  · rw [hnone] at hp
    cases hp

theorem Merged.keeps_none (hkeep : ¬ (primary ∈ c.expansion links ids ∧ c.Member lib primary))
    (hnone : links.primaryVersionId primary = none) :
    links'.primaryVersionId primary = none := by
  rw [← hnone]
  refine Decidable.byContradiction fun hne => ?_
  obtain ⟨hwalk, hmember | ⟨_, _, y, _, _, hpy⟩⟩ := hm.kept primary hne
  · exact hkeep ⟨hwalk, hmember⟩
  · rw [hnone] at hpy
    cases hpy

include hgroup

theorem Merged.not_leads
    (hkeep : ¬ (primary ∈ c.expansion links ids ∧ c.Member lib primary)) :
    ¬ c.Leads links' chosen primary := by
  intro h
  obtain rfl := h.eq_of_none hm.primary_none
  exact hkeep ⟨(expansion_closed hgroup.stored).1 _ hm.primary_mem,
    hgroup.member _ hm.primary_mem⟩

theorem Merged.leads (hkeep : ¬ (primary ∈ c.expansion links ids ∧ c.Member lib primary))
    (h : c.Leads links' x primary) : c.Leads links x primary := by
  induction h using Relation.ReflTransGen.head_induction_on with
  | refl => exact .refl
  | @head a b hab hb ih =>
    by_cases hsame : links'.primaryVersionId a = links.primaryVersionId a
    · exact .head ⟨hab.1, hsame.symm.trans hab.2⟩ ih
    · obtain ⟨rfl, _⟩ := hm.eq_of_changed hab.2 hsame
      exact absurd hb (hm.not_leads hgroup hkeep)

theorem Merged.keeps (hkeep : ¬ (primary ∈ c.expansion links ids ∧ c.Member lib primary))
    (hx : c.Member library x) (hprimary : c.Member library primary)
    (hp : links.primaryVersionId x = some primary) :
    links'.primaryVersionId x = some primary := by
  rw [← hp]
  refine Decidable.byContradiction fun hne => ?_
  obtain ⟨hwalk, hmember | ⟨_, _, y, hy, hymember, hpy⟩⟩ := hm.kept x hne
  · refine hkeep ⟨mem_expansion_of_up hgroup.stored hwalk hprimary.stored hp, ?_⟩
    exact hx.library_eq hmember ▸ hprimary
  · rw [hp] at hpy
    cases hpy
    exact hkeep ⟨hy, hymember⟩

theorem Under.merged (h : c.Under links ids' library primary)
    (hids : ∀ x ∈ ids', c.Member library x)
    (hkeep : ¬ (primary ∈ c.expansion links ids ∧ c.Member lib primary)) :
    c.Under links' ids' library primary where
  member := h.member
  none := hm.keeps_none hkeep h.none
  ids x hx := (h.ids x hx).imp_right (hm.keeps hgroup hkeep (hids x hx) h.member)

theorem Star.merged (h : c.Star links library primary) (hprimary : c.Member library primary)
    (hkeep : ¬ (primary ∈ c.expansion links ids ∧ c.Member lib primary)) :
    c.Star links' library primary where
  none := hm.keeps_none hkeep h.none
  member x hx hleads :=
    (h.member x hx (hm.leads hgroup hkeep hleads)).imp_right
      (hm.keeps hgroup hkeep hx hprimary)
  foreign x y hx hp hy hleads := by
    by_cases hsame : links'.primaryVersionId x = links.primaryVersionId x
    · exact h.foreign x y hx (hsame.symm.trans hp) hy (hm.leads hgroup hkeep hleads)
    · obtain ⟨rfl, _⟩ := hm.eq_of_changed hp hsame
      exact hm.not_leads hgroup hkeep hleads

/-! ### What a merge makes -/

theorem Merged.mem_expansion (h : c.Leads links' x chosen) : x ∈ c.expansion links ids := by
  induction h using Relation.ReflTransGen.head_induction_on with
  | refl => exact (expansion_closed hgroup.stored).1 _ hm.primary_mem
  | @head a b hab hb ih =>
    by_cases hsame : links'.primaryVersionId a = links.primaryVersionId a
    · exact mem_expansion_of_down hgroup.stored ih hab.1 (hsame.symm.trans hab.2)
    · exact (hm.kept a hsame).1

theorem Merged.star : c.Star links' lib chosen where
  none := hm.primary_none
  member x hx hleads := by
    by_cases heq : x = chosen
    · exact .inl heq
    · exact .inr (hm.member x (hm.mem_expansion hgroup hleads) hx heq)
  foreign x y hx hp hy hleads := by
    have hywalk := hm.mem_expansion hgroup hleads
    by_cases hsame : links'.primaryVersionId x = links.primaryVersionId x
    · have hp' := hsame.symm.trans hp
      have hxwalk := mem_expansion_of_down hgroup.stored hywalk hx.stored hp'
      rw [hm.cut x hxwalk hx y hywalk hy hp'] at hp
      cases hp
    · exact hx.not_member (hm.eq_of_changed hp hsame).2.2

theorem Merged.under : c.Under links' ids lib chosen where
  member := hgroup.member _ hm.primary_mem
  none := hm.primary_none
  ids x hx := by
    by_cases heq : x = chosen
    · exact .inl heq
    · exact .inr (hm.member x ((expansion_closed hgroup.stored).1 x hx) (hgroup.member x hx) heq)

theorem Under.absorbed (h : c.Under links ids' lib primary) (hids : ∀ x ∈ ids', c.Member lib x)
    (hwalk : primary ∈ c.expansion links ids) : c.Under links' ids' lib chosen where
  member := hgroup.member _ hm.primary_mem
  none := hm.primary_none
  ids x hx := by
    have hxwalk : x ∈ c.expansion links ids := by
      rcases h.ids x hx with rfl | hp
      · exact hwalk
      · exact mem_expansion_of_down hgroup.stored hwalk (hids x hx).stored hp
    by_cases heq : x = chosen
    · exact .inl heq
    · exact .inr (hm.member x hxwalk (hids x hx) heq)

theorem Merged.crosses (h : c.Crosses links' x) : c.Crosses links x := by
  obtain ⟨movie, hmovie, rfl, htmdb, item, hitem, hp, hne⟩ := h
  by_cases hsame : links'.primaryVersionId movie.id = links.primaryVersionId movie.id
  · exact ⟨movie, hmovie, rfl, htmdb, item, hitem, hsame.symm.trans hp, hne⟩
  · obtain ⟨hid, _, other, hother, hid', _, hkey⟩ := hm.eq_of_changed hp hsame
    obtain ⟨other', hother', hid'', _, hkey'⟩ := hgroup.member _ hm.primary_mem
    rw [item_ext hother (mem_items_of_eligible hmovie) hid'] at hkey
    rw [item_ext hother' hitem (hid''.trans hid.symm)] at hkey'
    exact absurd (hkey'.trans hkey.symm) hne

end Kept

end Catalog

namespace Catalog

variable {c : Catalog} {links links₁ links' : Links} {visits done : List (String × List Nat)}
  {x : Nat}

/-- Items are linked by the healed pointers and by the groups that are merged. -/
def Linked (c : Catalog) (links : Links) (visits : List (String × List Nat)) : Nat → Nat → Prop :=
  Relation.EqvGen fun a b => (c.heal links).1.primaryVersionId a = some b ∨
    ∃ visit ∈ visits, a ∈ visit.2 ∧ b ∈ visit.2

/-- All of the group is under one primary of its library: one of its members, or of a group that
is merged. -/
structure Gathered (c : Catalog) (links after : Links) (visits : List (String × List Nat))
    (library : String) (ids : List Nat) (primary : Nat) : Prop where
  under : c.Under after ids library primary
  primary_mem : primary ∈ ids ∨ ∃ visit ∈ visits, visit.1 = library ∧ primary ∈ visit.2
  linked : ∀ x ∈ ids, c.Linked links visits x primary

/-- What holds after the first merges of a run. -/
structure Settled (c : Catalog) (links : Links) (visits done : List (String × List Nat))
    (now : Links) : Prop where
  gathered : ∀ library value,
    (∃ x ∈ c.members library value, (c.heal links).1.primaryVersionId x = none) →
    (¬ 1 < (c.members library value).length ∨ (library, c.members library value) ∈ done) →
    ∃ primary, c.Gathered links now visits library (c.members library value) primary ∧
      ((library, c.members library value) ∈ done → c.Star now library primary)
  linked : ∀ a b, c.Stored a → now.primaryVersionId a = some b → c.Linked links visits a b
  crosses : ∀ x, c.Crosses now x → c.Crosses (c.heal links).1 x
  unvisited : (∀ x, ¬ c.Crosses (c.heal links).1 x) → ∀ library value,
    (library, c.members library value) ∉ visits → ∀ x ∈ c.members library value,
      (c.heal links).1.primaryVersionId x ≠ none → now.primaryVersionId x ≠ none

theorem Settled.start (c : Catalog) (links : Links) (visits : List (String × List Nat)) :
    c.Settled links visits [] (c.heal links).1 where
  gathered library value := by
    rintro ⟨x, hx, hnone⟩ (hone | hdone)
    · have honly : c.members library value = [x] := by
        rcases hmembers : c.members library value with _ | ⟨y, _ | _⟩
        · rw [hmembers] at hx
          cases hx
        · rw [hmembers] at hx
          rw [List.mem_singleton.mp hx]
        · rw [hmembers] at hone
          simp at hone
      refine ⟨x, ⟨⟨member_of_mem_members hx, hnone, ?_⟩, .inl hx, ?_⟩, nofun⟩
      · rw [honly]
        exact fun y hy => .inl (List.mem_singleton.mp hy)
      · rw [honly]
        exact fun y hy => List.mem_singleton.mp hy ▸ .refl _
    · cases hdone
  linked a b _ hp := .rel _ _ (.inl hp)
  crosses _ h := h
  unvisited _ _ _ _ _ _ h := h

theorem linked_of_mem_expansion {now : Links} {visit : String × List Nat}
    (hlinked : ∀ a b, c.Stored a → now.primaryVersionId a = some b → c.Linked links visits a b)
    (hvisit : visit ∈ visits) (hgroup : c.IsGroup visit.1 visit.2) {seed : Nat}
    (hseed : seed ∈ visit.2) :
    ∀ a ∈ c.expansion now visit.2, c.Linked links visits seed a := by
  have hall : ∀ a ∈ c.expansion now visit.2, c.Stored a ∧ c.Linked links visits seed a := by
    refine expansion_induction ?_ ?_
    · exact fun a ha => ⟨hgroup.stored a ha, .rel _ _ (.inr ⟨visit, hvisit, hseed, ha⟩)⟩
    · rintro a b ⟨ha, hseed⟩ hb (hp | hp)
      · exact ⟨hb, hseed.trans _ _ _ (hlinked a b ha hp)⟩
      · exact ⟨hb, hseed.trans _ _ _ (.symm _ _ (hlinked b a hb hp))⟩
  exact fun a ha => (hall a ha).2

theorem Settled.merge {now : Links} {visit : String × List Nat} {value : String} {chosen : Nat}
    (h : c.Settled links visits done now) (hvisit : visit ∈ visits)
    (hids : visit.2 = c.members visit.1 value) (hgroup : c.IsGroup visit.1 visit.2)
    (hm : c.Merged now links' visit.1 visit.2 chosen) :
    c.Settled links visits (done ++ [visit]) links' where
  gathered library value' := by
    intro hnone hdone
    have hwalked := linked_of_mem_expansion h.linked hvisit hgroup hm.primary_mem
    have hmembers : ∀ x ∈ c.members library value', c.Member library x := fun x hx =>
      member_of_mem_members hx
    by_cases hnew : (library, c.members library value') = visit
    · subst hnew
      refine ⟨chosen, ⟨hm.under hgroup, .inl hm.primary_mem, fun x hx => ?_⟩,
        fun _ => hm.star hgroup⟩
      exact .rel _ _ (.inr ⟨_, hvisit, hx, hm.primary_mem⟩)
    · have hold : (library, c.members library value') ∈ done ++ [visit] →
          (library, c.members library value') ∈ done := fun hmem =>
        (List.mem_append.mp hmem).resolve_right fun heq => hnew (List.mem_singleton.mp heq)
      obtain ⟨primary, hgathered, hstar⟩ := h.gathered library value' hnone (hdone.imp_right hold)
      by_cases htaken : primary ∈ c.expansion now visit.2 ∧ c.Member visit.1 primary
      · -- The primary is merged, and all that is under it.
        obtain rfl := hgathered.under.member.library_eq htaken.2
        refine ⟨chosen, ⟨hgathered.under.absorbed hm hgroup hmembers htaken.1,
          .inr ⟨visit, hvisit, rfl, hm.primary_mem⟩, fun x hx => ?_⟩, fun _ => hm.star hgroup⟩
        exact (hgathered.linked x hx).trans _ _ _ (.symm _ _ (hwalked primary htaken.1))
      · exact ⟨primary, ⟨hgathered.under.merged hm hgroup hmembers htaken,
          hgathered.primary_mem, hgathered.linked⟩, fun hmem =>
            (hstar (hold hmem)).merged hm hgroup hgathered.under.member htaken⟩
  linked a b ha hp := by
    by_cases hsame : links'.primaryVersionId a = now.primaryVersionId a
    · exact h.linked a b ha (hsame.symm.trans hp)
    · obtain ⟨rfl, hwalk, _⟩ := hm.eq_of_changed hp hsame
      exact .symm _ _ (linked_of_mem_expansion h.linked hvisit hgroup hm.primary_mem a hwalk)
  crosses x hx := h.crosses x (hm.crosses hgroup hx)
  unvisited hcross library value' hnot x hx hsome := by
    have hbefore := h.unvisited hcross library value' hnot x hx hsome
    intro hnone
    obtain ⟨_, hmember | ⟨hforeign, _, y, _, ⟨item, hitem, rfl, _, hkey⟩, hp⟩⟩ :=
      hm.kept x (by rw [hnone]; exact hbefore.symm)
    · -- Only the chosen primary is unlinked, whose group is visited.
      have heq : x = chosen := by
        refine Decidable.byContradiction fun hne => ?_
        rw [hm.member x ‹_› hmember hne] at hnone
        cases hnone
      subst heq
      have hmem := hm.primary_mem
      rw [hids] at hmem
      obtain ⟨rfl, rfl⟩ := members_inj hx hmem
      exact hnot (hids ▸ hvisit)
    · -- Who is cut pointed at another library.
      obtain ⟨movie, hmovie, rfl, htmdb, _⟩ := mem_members.mp hx
      obtain ⟨other, hother, hid, _, hne⟩ := hforeign
      rw [item_ext hother (mem_items_of_eligible hmovie) hid] at hne
      refine hcross movie.id (h.crosses movie.id ⟨movie, hmovie, rfl, ?_, item, hitem, hp, ?_⟩)
      · rw [htmdb]
        rfl
      · rw [hkey]
        exact hne.symm

theorem isGroup_of_order (horder : c.Order links visits) {visit : String × List Nat}
    (hvisit : visit ∈ visits) : c.IsGroup visit.1 visit.2 := by
  obtain ⟨value, hids, hlen, _⟩ := mem_duplicates.mp (horder.mem_iff.mp hvisit)
  rw [hids] at hlen ⊢
  exact isGroup_members hlen

/-- **The run**: after the last merge all groups are settled. -/
theorem settled_mergeMovies (horder : c.Order links visits) :
    c.Settled links visits visits (c.mergeMovies links visits) := by
  have hrun : ∀ (rest done : List (String × List Nat)) (now : Links), done ++ rest = visits →
      c.Settled links visits done now →
        c.Settled links visits visits (c.mergeGroups now rest) := by
    intro rest
    induction rest with
    | nil =>
      intro done now hvisits h
      rw [List.append_nil] at hvisits
      exact hvisits ▸ h
    | cons visit rest ih =>
      intro done now hvisits h
      have hvisit : visit ∈ visits :=
        hvisits ▸ List.mem_append_right _ (List.mem_cons_self ..)
      have hgroup := isGroup_of_order horder hvisit
      obtain ⟨value, hids, _⟩ := mem_duplicates.mp (horder.mem_iff.mp hvisit)
      obtain ⟨chosen, hm⟩ := hgroup.merged now
      refine ih (done ++ [visit]) _ ?_ (h.merge hvisit hids hgroup hm)
      rw [List.append_assoc]
      exact hvisits
  exact hrun visits [] _ rfl (.start c links visits)

/-! ### What a run changes -/

theorem mem_expansion_of_changed {now : Links}
    (hgroups : ∀ visit ∈ visits, c.IsGroup visit.1 visit.2)
    (hne : (c.mergeGroups now visits).primaryVersionId x ≠ now.primaryVersionId x) :
    ∃ before visit later, visits = before ++ visit :: later ∧
      x ∈ c.expansion (c.mergeGroups now before) visit.2 := by
  induction visits generalizing now with
  | nil => exact absurd rfl hne
  | cons visit visits ih =>
    obtain ⟨chosen, hm⟩ := (hgroups visit (List.mem_cons_self ..)).merged now
    by_cases hfirst : (c.mergeGroup visit.2 (some visit.1) now).primaryVersionId x =
        now.primaryVersionId x
    · obtain ⟨before, next, later, hvisits, hx⟩ := ih
        (fun v hv => hgroups v (List.mem_cons_of_mem _ hv)) (hfirst ▸ hne)
      exact ⟨visit :: before, next, later, by rw [hvisits, List.cons_append], hx⟩
    · exact ⟨[], visit, visits, rfl, (hm.kept x hfirst).1⟩

/-! ### A second run -/

theorem mergeGroup_of_star {now : Links} {library : String} {ids : List Nat} {primary : Nat}
    (hgroup : c.IsGroup library ids) (hmem : primary ∈ ids)
    (hunder : c.Under now ids library primary) (hstar : c.Star now library primary) :
    c.mergeGroup ids (some library) now = now := by
  have hleads : ∀ a ∈ c.expansion now ids, c.Stored a ∧ c.Leads now a primary := by
    refine expansion_induction ?_ ?_
    · intro a ha
      refine ⟨hgroup.stored a ha, ?_⟩
      rcases hunder.ids a ha with rfl | hp
      · exact .refl
      · exact .single ⟨hgroup.stored a ha, hp⟩
    · rintro a b ⟨ha, hleads⟩ hb (hp | hp)
      · rcases Relation.ReflTransGen.cases_head hleads with rfl | ⟨b', ⟨_, hp'⟩, hrest⟩
        · rw [hunder.none] at hp
          cases hp
        · rw [hp] at hp'
          cases hp'
          exact ⟨hb, hrest⟩
      · exact ⟨hb, .head ⟨hb, hp⟩ hleads⟩
  refine hgroup.mergeGroup_eq_self hmem hunder.none
    (fun x hx hmember => hstar.member x hmember (hleads x hx).2) ?_
  intro x hx hforeign y hy hmember hp
  exact hstar.foreign x y hforeign hp hmember (hleads y hy).2

theorem mergeMovies_again (horder : c.Order links visits)
    (hcross : ∀ x, ¬ c.Crosses (c.heal links).1 x) {again : List (String × List Nat)}
    (hagain : c.Order (c.mergeMovies links visits) again) :
    c.mergeMovies (c.mergeMovies links visits) again = c.mergeMovies links visits := by
  have hsettled := settled_mergeMovies horder
  have hheal : c.heal (c.mergeMovies links visits) = (c.mergeMovies links visits, []) :=
    heal_eq_self fun x hx => absurd (hsettled.crosses x hx) (hcross x)
  have hmerge : ∀ visit ∈ again, c.mergeGroup visit.2 (some visit.1) (c.mergeMovies links visits) =
      c.mergeMovies links visits := by
    rintro ⟨library, ids⟩ hvisit
    obtain ⟨value, hids, hlen, x, hx, hnone⟩ := mem_duplicates.mp (hagain.mem_iff.mp hvisit)
    change ids = c.members library value at hids
    subst hids
    rw [hheal] at hnone
    -- Who is not merged now was not merged before, so that the group was visited.
    have hvisited : (library, c.members library value) ∈ visits := by
      refine Decidable.byContradiction fun hnot => ?_
      refine hsettled.unvisited hcross library value hnot x hx (fun hbefore => hnot ?_) hnone
      exact horder.mem_iff.mpr (mem_duplicates.mpr ⟨value, rfl, hlen, x, hx, hbefore⟩)
    obtain ⟨value', hids', _, hunmerged⟩ := mem_duplicates.mp (horder.mem_iff.mp hvisited)
    obtain ⟨primary, hgathered, hstar⟩ :=
      hsettled.gathered library value hunmerged (.inr hvisited)
    have heq : x = primary := by
      refine (hgathered.under.ids x hx).resolve_right fun hp => ?_
      rw [hnone] at hp
      cases hp
    exact mergeGroup_of_star (isGroup_members hlen) (heq ▸ hx) hgathered.under (hstar hvisited)
  have hrun : ∀ rest, (∀ visit ∈ rest, visit ∈ again) →
      c.mergeGroups (c.mergeMovies links visits) rest = c.mergeMovies links visits := by
    intro rest
    induction rest with
    | nil => exact fun _ => rfl
    | cons visit rest ih =>
      intro hrest
      rw [mergeGroups, List.foldl_cons, hmerge visit (hrest visit (List.mem_cons_self ..))]
      exact ih fun v hv => hrest v (List.mem_cons_of_mem _ hv)
  rw [mergeMovies, hheal]
  exact hrun again fun _ h => h

end Catalog

/-- **Merge Versions converges.** -/
theorem merge_movies_converges (c : Catalog) (links : Links) {visits : List (String × List Nat)}
    (horder : c.Order links visits) :
    (∀ library value,
      (∃ x ∈ c.members library value, (c.heal links).1.primaryVersionId x = none) →
      ∃ primary, c.Gathered links (c.mergeMovies links visits) visits library
        (c.members library value) primary) ∧
    (∀ x, c.Crosses (c.mergeMovies links visits) x → c.Crosses links x ∧ c.libraryOf x = none) ∧
    (∀ x, (c.mergeMovies links visits).primaryVersionId x ≠ links.primaryVersionId x →
      c.Crosses links x ∧ c.libraryOf x ≠ none ∨
        ∃ before visit later, visits = before ++ visit :: later ∧
          x ∈ c.expansion (c.mergeMovies links before) visit.2) ∧
    ((∀ x, c.Crosses links x → c.libraryOf x ≠ none) →
      ∀ again, c.Order (c.mergeMovies links visits) again →
        c.mergeMovies (c.mergeMovies links visits) again = c.mergeMovies links visits) := by
  have hsettled := Catalog.settled_mergeMovies horder
  refine ⟨fun library value hunmerged => ?_, fun x hx =>
    Catalog.crosses_of_heal (hsettled.crosses x hx), fun x hne => ?_, fun hlib again hagain => ?_⟩
  · by_cases hlen : 1 < (c.members library value).length
    · have hvisited : (library, c.members library value) ∈ visits :=
        horder.mem_iff.mpr (Catalog.mem_duplicates.mpr ⟨value, rfl, hlen, hunmerged⟩)
      obtain ⟨primary, hgathered, _⟩ :=
        hsettled.gathered library value hunmerged (.inr hvisited)
      exact ⟨primary, hgathered⟩
    · obtain ⟨primary, hgathered, _⟩ := hsettled.gathered library value hunmerged (.inl hlen)
      exact ⟨primary, hgathered⟩
  · by_cases hheal : c.Crosses links x ∧ c.libraryOf x ≠ none
    · exact .inl hheal
    · refine .inr (Catalog.mem_expansion_of_changed
        (fun _ hvisit => Catalog.isGroup_of_order horder hvisit) ?_)
      rw [Catalog.heal_of_not hheal]
      exact hne
  · refine Catalog.mergeMovies_again horder (fun x hx => ?_) hagain
    obtain ⟨hcross, hnone⟩ := Catalog.crosses_of_heal hx
    exact hlib x hcross hnone

def twoTitles : Catalog where
  items := [1, 2, 3, 4].map fun id => { id, isMovie := true, topParentId := some "L" }
  nodup := by decide
  tmdb := fun id => some (if id ≤ 2 then "a" else "b")
  locationsExcluded := []
  folders := []
  parseUuid := fun _ => none
  simple := fun _ => ""
  toLowercase := id
  createSortName := id

/-- A movie of the one title is a version of one of the other. -/
def joined : Links where
  primaryVersionId := fun id => if id = 2 then some 3 else none

theorem merge_movies_converges_two_titles :
    ∃ visits, twoTitles.Order joined visits ∧
      (∃ primary, twoTitles.Gathered joined (twoTitles.mergeMovies joined visits) visits "L"
        (twoTitles.members "L" "a") primary) ∧
      ∀ again, twoTitles.Order (twoTitles.mergeMovies joined visits) again →
        twoTitles.mergeMovies (twoTitles.mergeMovies joined visits) again =
          twoTitles.mergeMovies joined visits := by
  have horder : twoTitles.Order joined [("L", [1, 2]), ("L", [3, 4])] := by
    unfold Catalog.Order
    decide
  have hlib : ∀ x, twoTitles.Crosses joined x → twoTitles.libraryOf x ≠ none := by
    rintro x ⟨movie, hmovie, rfl, _⟩
    rw [Catalog.libraryOf_of_eligible hmovie]
    revert movie
    decide
  have h := merge_movies_converges twoTitles joined horder
  exact ⟨_, horder, h.1 "L" "a" ⟨1, by decide, by decide⟩, h.2.2.2 hlib⟩

/-- Visited first, the one title ends under a primary of the other. -/
theorem two_titles_joined :
    ∃ visits, twoTitles.Order joined visits ∧
      (∃ x ∈ twoTitles.members "L" "a", joined.primaryVersionId x = none) ∧
      ∀ x ∈ twoTitles.members "L" "a",
        (twoTitles.mergeMovies joined visits).primaryVersionId x ≠ none := by
  refine ⟨[("L", [1, 2]), ("L", [3, 4])], ?_, ⟨1, by decide, rfl⟩, by decide⟩
  unfold Catalog.Order
  decide

end Ferrofin.MergeVersions
