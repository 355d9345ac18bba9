import Ferrofin.Lib.Partners
import Ferrofin.Metadata.Rules
import Mathlib.Algebra.Group.Int.Defs

/-!
# Credits

Stored credits are replaced by those found, or take from them what they lack: the provider's id,
the image, the role and the place (`enrich`).  A credit takes from the one of its name at its place
among those of the name, or from the first of the name.

What a credit takes it has, so credits settle (`settles_mergePeopleField`).
-/

namespace Ferrofin.Metadata

open Lib

structure PeopleEntity where
  id : Text
  name : Text
  personType : Option Text := none
  role : Option Text := none
  primaryImageUrl : Option Text := none
  providerId : Option ℤ := none
  sortOrder : Option ℤ := none
deriving DecidableEq

/-- What `remove_invalid_provider_ids` does to a credit: its id must be a positive `i32`. -/
def PeopleEntity.removeInvalidProviderId (p : PeopleEntity) : PeopleEntity :=
  { p with providerId := p.providerId.filter fun id => 0 < id ∧ id < 2 ^ 31 }

def removeInvalidProviderIds (people : List PeopleEntity) : List PeopleEntity :=
  people.map PeopleEntity.removeInvalidProviderId

def PeopleEntity.enrich (person source : PeopleEntity) : PeopleEntity :=
  { person with
    providerId := person.providerId.or source.providerId
    primaryImageUrl :=
      if isBlank person.primaryImageUrl then source.primaryImageUrl else person.primaryImageUrl
    role := if !isBlank source.role && isBlank person.role then source.role else person.role
    sortOrder := person.sortOrder.or source.sortOrder }

variable (personKey : Text → Text)

def mergePeople (source target : List PeopleEntity) : List PeopleEntity :=
  enrichBy (fun p => personKey p.name) PeopleEntity.enrich source target

def replaceOrEnrich : Rule (Option (List PeopleEntity)) := fun source target replace =>
  if replace || target.all (· = []) then source
  else match source, target with
    | some source, some target =>
      some (if source ≠ [] then mergePeople personKey source target else target)
    | _, _ => target

def mergePeopleField : Rule (Option (List PeopleEntity)) := fun source target replace =>
  replaceOrEnrich personKey (source.map removeInvalidProviderIds)
    (target.map removeInvalidProviderIds) replace

variable {personKey} {found stored : Option (List PeopleEntity)} {source target : List PeopleEntity}

/-! ### Invalid ids -/

theorem PeopleEntity.enrich_assoc (a b c : PeopleEntity) :
    (a.enrich b).enrich c = a.enrich (b.enrich c) := by
  simp only [enrich, PeopleEntity.mk.injEq, Option.or_assoc, true_and, and_true]
  constructor
  · by_cases ha : isBlank a.role <;> by_cases hb : isBlank b.role <;>
      by_cases hc : isBlank c.role <;> simp [ha, hb, hc]
  · by_cases ha : isBlank a.primaryImageUrl <;> simp [ha]

theorem PeopleEntity.enrich_self (a : PeopleEntity) : a.enrich a = a := by
  simp [enrich]

def PeopleEntity.Clean (p : PeopleEntity) : Prop := p.removeInvalidProviderId = p

theorem PeopleEntity.clean_removeInvalidProviderId (p : PeopleEntity) :
    p.removeInvalidProviderId.Clean := by
  simp [Clean, removeInvalidProviderId, Option.filter_filter]

theorem PeopleEntity.Clean.enrich {a b : PeopleEntity} (ha : a.Clean) (hb : b.Clean) :
    (a.enrich b).Clean := by
  rw [Clean, removeInvalidProviderId, PeopleEntity.mk.injEq] at ha hb ⊢
  obtain ⟨-, -, -, -, -, ha, -⟩ := ha
  obtain ⟨-, -, -, -, -, hb, -⟩ := hb
  refine ⟨rfl, rfl, rfl, rfl, rfl, ?_, rfl⟩
  rw [PeopleEntity.enrich]
  rcases h : a.providerId with _ | id
  · exact hb
  · rw [h] at ha
    exact ha

theorem removeInvalidProviderIds_eq_self_iff :
    removeInvalidProviderIds source = source ↔ ∀ p ∈ source, p.Clean := by
  have h := List.map_inj_left (f := PeopleEntity.removeInvalidProviderId) (g := id) (l := source)
  rwa [List.map_id] at h

theorem removeInvalidProviderIds_mergePeople (hsource : removeInvalidProviderIds source = source)
    (htarget : removeInvalidProviderIds target = target) :
    removeInvalidProviderIds (mergePeople personKey source target) =
      mergePeople personKey source target := by
  rw [removeInvalidProviderIds_eq_self_iff] at *
  exact forall_mem_enrichBy hsource htarget fun _ _ => PeopleEntity.Clean.enrich

/-! ### Credits settle -/

theorem map_personKey_mergePeople (source target : List PeopleEntity) :
    (mergePeople personKey source target).map (fun p => personKey p.name) =
      target.map fun p => personKey p.name :=
  map_key_enrichBy (show ∀ a b : PeopleEntity, personKey (a.enrich b).name = personKey a.name from
    fun _ _ => rfl) source target

theorem mergePeople_eq_nil_iff : mergePeople personKey source target = [] ↔ target = [] := by
  have hkeys := @map_personKey_mergePeople personKey source target
  rw [← List.map_eq_nil_iff (f := fun p : PeopleEntity => personKey p.name), hkeys,
    List.map_eq_nil_iff]

theorem mergePeople_self (people : List PeopleEntity) :
    mergePeople personKey people people = people :=
  enrichBy_refl PeopleEntity.enrich_self (fun _ _ => rfl) people

theorem mergePeople_again (source target : List PeopleEntity) :
    mergePeople personKey source (mergePeople personKey source target) =
      mergePeople personKey source target :=
  enrichBy_again PeopleEntity.enrich_assoc PeopleEntity.enrich_self (fun _ _ => rfl) _ _

theorem mergePeople_left (source target : List PeopleEntity) :
    mergePeople personKey (mergePeople personKey source target) target =
      mergePeople personKey source target :=
  enrichBy_self PeopleEntity.enrich_assoc PeopleEntity.enrich_self (fun _ _ => rfl) _ _

theorem mergePeople_mergePeople (source target : List PeopleEntity) :
    mergePeople personKey (mergePeople personKey
        (mergePeople personKey (mergePeople personKey target source) target) source)
        (mergePeople personKey (mergePeople personKey target source) target) =
      mergePeople personKey (mergePeople personKey target source) target :=
  enrichBy_enrichBy PeopleEntity.enrich_assoc PeopleEntity.enrich_self (fun _ _ => rfl) _ _

theorem settles_replaceOrEnrich : Settles (replaceOrEnrich personKey) := by
  intro keep replace found stored
  unfold refresh replaceOrEnrich
  rcases found with _ | _ | ⟨f, found⟩ <;> rcases stored with _ | _ | ⟨s, stored⟩ <;>
    cases keep <;> cases replace <;>
    simp [mergePeople_eq_nil_iff, mergePeople_self, mergePeople_again, mergePeople_left,
      mergePeople_mergePeople]

theorem clean_clean (people : Option (List PeopleEntity)) :
    (people.map removeInvalidProviderIds).map removeInvalidProviderIds =
      people.map removeInvalidProviderIds := by
  rw [Option.map_map]
  refine congrArg (people.map ·) (funext fun people => ?_)
  refine removeInvalidProviderIds_eq_self_iff.mpr fun p hp => ?_
  obtain ⟨p, -, rfl⟩ := List.mem_map.mp hp
  exact p.clean_removeInvalidProviderId

theorem clean_replaceOrEnrich (source target : Option (List PeopleEntity)) (replace : Bool) :
    (mergePeopleField personKey source target replace).map removeInvalidProviderIds =
      mergePeopleField personKey source target replace := by
  have hsource := clean_clean source
  have htarget := clean_clean target
  unfold mergePeopleField
  revert hsource htarget
  generalize source.map removeInvalidProviderIds = source
  generalize target.map removeInvalidProviderIds = target
  intro hsource htarget
  unfold replaceOrEnrich
  split
  · exact hsource
  · split
    · next source target =>
      simp only [Option.map_some, Option.some.injEq] at hsource htarget ⊢
      split
      · exact removeInvalidProviderIds_mergePeople hsource htarget
      · exact htarget
    · exact htarget

theorem settles_mergePeopleField : Settles (mergePeopleField personKey) :=
  settles_replaceOrEnrich.of_normal clean_replaceOrEnrich

end Ferrofin.Metadata
