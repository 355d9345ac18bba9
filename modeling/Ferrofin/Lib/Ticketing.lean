import Mathlib.Data.List.Nodup
import Mathlib.Data.List.Perm.Subperm

/-!
# Tickets in exactly one place

A counter hands out tickets to owners.  A ticket is open, in some collections that
together hold each one once (`open'`), until it is done.  `Ticketing` says that every
ticket its owner still holds is in one of these places and in one only; a rule for
each thing that can happen to a ticket keeps it so.

* `Ticketing.issue`, `Ticketing.move`, `Ticketing.collect`, `Ticketing.withdraw`, `Ticketing.drop`:
  a ticket is handed out, changes its place, is collected by its owner, withdrawn,
  or dropped with no owner left.
* `Ticketing.count_eq_one`: an owner's ticket is in one place exactly.
-/

namespace Ferrofin.Lib

/-- Every ticket an owner holds is open once or done; `next` is the next one. -/
structure Ticketing (open' done owners : List Nat) (next : Nat) : Prop where
  owners_nodup : owners.Nodup
  nodup : open'.Nodup
  disjoint : open'.Disjoint done
  lt_next : ∀ t, t ∈ open' ∨ t ∈ done → t < next
  found : ∀ t ∈ owners, t ∈ open' ∨ t ∈ done

namespace Ticketing

variable {open' open'' done done' owners settled : List Nat} {next t : Nat}

theorem init : Ticketing [] [] [] 0 where
  owners_nodup := List.nodup_nil
  nodup := List.nodup_nil
  disjoint := List.disjoint_nil_left _
  lt_next _ h := by simp at h
  found _ h := absurd h List.not_mem_nil

theorem issue (h : Ticketing open' done owners next) (hperm : open''.Perm (open' ++ [next])) :
    Ticketing open'' done (owners ++ [next]) (next + 1) := by
  have hopen : next ∉ open' := fun hm => Nat.lt_irrefl _ (h.lt_next _ (.inl hm))
  have hdone : next ∉ done := fun hm => Nat.lt_irrefl _ (h.lt_next _ (.inr hm))
  have howner : next ∉ owners := fun hm => (h.found _ hm).elim hopen hdone
  have hmem : ∀ u, u ∈ open'' ↔ u ∈ open' ∨ u = next := by
    intro u
    rw [hperm.mem_iff, List.mem_append, List.mem_singleton]
  refine ⟨?_, ?_, ?_, ?_, ?_⟩
  · exact h.owners_nodup.append (List.nodup_singleton _) (List.disjoint_singleton.mpr howner)
  · exact hperm.nodup_iff.mpr
      (h.nodup.append (List.nodup_singleton _) (List.disjoint_singleton.mpr hopen))
  · intro u hu hd
    rcases (hmem u).mp hu with hu | rfl
    · exact h.disjoint hu hd
    · exact hdone hd
  · intro u hu
    rw [hmem] at hu
    rcases hu with (hu | rfl) | hu
    · exact Nat.lt_succ_of_lt (h.lt_next u (.inl hu))
    · exact Nat.lt_succ_self _
    · exact Nat.lt_succ_of_lt (h.lt_next u (.inr hu))
  · intro u hu
    rw [hmem]
    rcases List.mem_append.mp hu with hu | hu
    · exact (h.found u hu).imp .inl id
    · exact .inl (.inr (List.mem_singleton.mp hu))

theorem move (h : Ticketing open' done owners next) (hperm : open'.Perm (settled ++ open''))
    (hdone : ∀ u, u ∈ done' ↔ u ∈ settled ∨ u ∈ done) : Ticketing open'' done' owners next := by
  have hnodup := hperm.nodup_iff.mp h.nodup
  have hmem : ∀ u, u ∈ open' ↔ u ∈ settled ∨ u ∈ open'' := by
    intro u
    rw [hperm.mem_iff, List.mem_append]
  refine ⟨h.owners_nodup, hnodup.of_append_right, ?_, ?_, ?_⟩
  · intro u hu hd
    rcases (hdone u).mp hd with hs | hd
    · exact List.disjoint_of_nodup_append hnodup hs hu
    · exact h.disjoint ((hmem u).mpr (.inr hu)) hd
  · intro u hu
    refine h.lt_next u ?_
    rw [hmem]
    rw [hdone] at hu
    tauto
  · intro u hu
    have hf := h.found u hu
    rw [hmem] at hf
    rw [hdone]
    tauto

theorem shift (h : Ticketing open' done owners next) (hperm : open'.Perm open'')
    (hdone : ∀ u, u ∈ done' ↔ u ∈ done) : Ticketing open'' done' owners next :=
  h.move (show open'.Perm ([] ++ open'') from hperm) fun u => by simp [hdone]

theorem collect (h : Ticketing open' done owners next)
    (hdone : ∀ u, u ∈ done' ↔ u ≠ t ∧ u ∈ done) : Ticketing open' done' (owners.erase t) next := by
  refine ⟨h.owners_nodup.erase t, h.nodup, ?_, ?_, ?_⟩
  · exact fun u hu hd => h.disjoint hu ((hdone u).mp hd).2
  · exact fun u hu => h.lt_next u (hu.imp id fun hd => ((hdone u).mp hd).2)
  · intro u hu
    obtain ⟨hne, hu⟩ := h.owners_nodup.mem_erase_iff.mp hu
    rw [hdone]
    exact (h.found u hu).imp id fun hd => ⟨hne, hd⟩

theorem withdraw (h : Ticketing open' done owners next)
    (hopen : open'' = open'.filter (· != t)) (hdone : ∀ u, u ∈ done' ↔ u ≠ t ∧ u ∈ done) :
    Ticketing open'' done' (owners.erase t) next := by
  have hmem : ∀ u, u ∈ open'' ↔ u ∈ open' ∧ u ≠ t := by
    intro u
    rw [hopen, List.mem_filter, bne_iff_ne]
  refine ⟨h.owners_nodup.erase t, ?_, ?_, ?_, ?_⟩
  · rw [hopen]
    exact h.nodup.filter _
  · exact fun u hu hd => h.disjoint ((hmem u).mp hu).1 ((hdone u).mp hd).2
  · exact fun u hu => h.lt_next u (hu.imp (fun ho => ((hmem u).mp ho).1)
      fun hd => ((hdone u).mp hd).2)
  · intro u hu
    obtain ⟨hne, hu⟩ := h.owners_nodup.mem_erase_iff.mp hu
    rw [hmem, hdone]
    exact (h.found u hu).imp (⟨·, hne⟩) (⟨hne, ·⟩)

theorem drop (h : Ticketing open' done owners next) (hperm : open'.Perm (settled ++ open''))
    (hfree : ∀ u ∈ owners, u ∉ settled) : Ticketing open'' done owners next := by
  have hmem : ∀ u, u ∈ open' ↔ u ∈ settled ∨ u ∈ open'' := by
    intro u
    rw [hperm.mem_iff, List.mem_append]
  refine ⟨h.owners_nodup, (hperm.nodup_iff.mp h.nodup).of_append_right, ?_, ?_, ?_⟩
  · exact fun u hu => h.disjoint ((hmem u).mpr (.inr hu))
  · exact fun u hu => h.lt_next u (hu.imp (fun ho => (hmem u).mpr (.inr ho)) id)
  · exact fun u hu => (h.found u hu).imp
      (fun ho => ((hmem u).mp ho).resolve_left (hfree u hu)) id

/-- **An owner's ticket is in one place exactly.** -/
theorem count_eq_one (h : Ticketing open' done owners next) (hdone : done.Nodup) (ht : t ∈ owners) :
    (open' ++ done).count t = 1 :=
  List.count_eq_one_of_mem (h.nodup.append hdone h.disjoint)
    (List.mem_append.mpr (h.found t ht))

end Ticketing

end Ferrofin.Lib
