import Ferrofin.Monitor.Brackets

/-!
# The server's own writes are not reported

What is suppressed is a set of paths, so the release of one bracket lets a path go that
another has bracketed too; and a report that is made in time may be tested late, when its
lookup of `.ignore` files takes long.  As long as neither happens (`Brackets.Settled`), no
report is accepted that concerns a path whose bracket covered the time it was made.
-/

namespace Ferrofin.Monitor

open Lib Util

/-! ### What a write concerns -/

/-- A write of the first path changes the second: it is the same, trailing separators
aside, or under it, or its folder. -/
inductive Concerns (written path : Path) : Prop where
  | same (h : trimSeparators written = trimSeparators path)
  | under (rest : Path) (h : path = trimSeparators written ++ '/' :: rest)
  | underRoot (rest : Path) (hroot : (trimSeparators written).getLast? = some '/')
      (hne : rest ≠ []) (h : path = trimSeparators written ++ rest)
  | folder (f : Path) (h : parent written = some f) (hne : f ≠ [])
      (heq : trimSeparators f = trimSeparators path)

theorem pathsEqual_iff {a b : Path} : pathsEqual a b = true ↔ trimSeparators a = trimSeparators b :=
  beq_iff_eq

/-- A path under another is longer by a separator and more, or by more of a root. -/
theorem containsSubPath_iff {written path : Path} : containsSubPath written path = true ↔
    (∃ rest, path = trimSeparators written ++ '/' :: rest) ∨
      ∃ rest, (trimSeparators written).getLast? = some '/' ∧ rest ≠ [] ∧
        path = trimSeparators written ++ rest := by
  rw [containsSubPath]
  simp only [Bool.and_eq_true, Bool.or_eq_true, decide_eq_true_eq, List.isPrefixOf_iff_prefix,
    beq_iff_eq]
  constructor
  · rintro ⟨⟨hlen, rest, rfl⟩, hsep⟩
    have hne : rest ≠ [] := by
      rintro rfl
      simp at hlen
    rcases hsep with hroot | hsep
    · exact .inr ⟨rest, hroot, hne, rfl⟩
    · rw [List.drop_left] at hsep
      obtain ⟨rest, rfl⟩ := List.head?_eq_some_iff.mp hsep
      exact .inl ⟨rest, rfl⟩
  · rintro (⟨rest, rfl⟩ | ⟨rest, hroot, hne, rfl⟩)
    · refine ⟨⟨?_, List.prefix_append ..⟩, .inr ?_⟩
      · rw [List.length_append, List.length_cons]
        omega
      · rw [List.drop_left, List.head?_cons]
    · refine ⟨⟨?_, List.prefix_append ..⟩, .inl hroot⟩
      rw [List.length_append]
      have hpos := List.length_pos_of_ne_nil hne
      omega

/-- **What is hidden is what the write concerns.** -/
theorem suppresses_iff {written path : Path} :
    suppresses written path = true ↔ Concerns written path := by
  rw [suppresses, Bool.or_eq_true, Bool.or_eq_true, pathsEqual_iff, containsSubPath_iff,
    Option.any_eq_true]
  simp only [Bool.and_eq_true, Bool.not_eq_true', List.isEmpty_eq_false_iff, pathsEqual_iff]
  constructor
  · rintro ((h | ⟨rest, h⟩ | ⟨rest, hroot, hne, h⟩) | ⟨f, h, hne, heq⟩)
    · exact .same h
    · exact .under rest h
    · exact .underRoot rest hroot hne h
    · exact .folder f h hne heq
  · rintro (h | ⟨rest, h⟩ | ⟨rest, hroot, hne, h⟩ | ⟨f, h, hne, heq⟩)
    · exact .inl (.inl h)
    · exact .inl (.inr (.inl ⟨rest, h⟩))
    · exact .inl (.inr (.inr ⟨rest, hroot, hne, h⟩))
    · exact .inr ⟨f, h, hne, heq⟩

/-! ### The condition -/

/-- A path is let go only when no other bracket of it covers the time; and a report is
tested while the brackets still cover the time that covered the time it was made, or
their paths have not been let go. -/
def Brackets.Settled (w : Brackets) : BracketEvent → Prop
  | .release i => ∀ b ∈ w.brackets.lookup i, ∀ e ∈ w.brackets.entries, e.1 ≠ i →
      e.2.path = b.path → ¬ e.2.Covers w.now
  | .test i => ∀ r ∈ w.reports.lookup i, ∀ j ∈ r.windows, ∀ b ∈ w.brackets.lookup j,
      suppresses b.path r.path = true → b.Covers w.now ∨ b.path ∈ w.suppressed
  | .tick _ | .begin _ _ | .complete _ _ | .refresh _ _ | .report _ _ | .look _ _
  | .accept _ => True

instance Brackets.decidableSettled (w : Brackets) (e : BracketEvent) :
    Decidable (w.Settled e) := by
  cases e with
  | release i =>
    exact inferInstanceAs (Decidable (∀ b ∈ w.brackets.lookup i, ∀ e ∈ w.brackets.entries,
      e.1 ≠ i → e.2.path = b.path → ¬ e.2.Covers w.now))
  | test i =>
    exact inferInstanceAs (Decidable (∀ r ∈ w.reports.lookup i, ∀ j ∈ r.windows,
      ∀ b ∈ w.brackets.lookup j, suppresses b.path r.path = true →
        b.Covers w.now ∨ b.path ∈ w.suppressed))
  | tick | begin | complete | refresh | report | look | accept =>
    exact inferInstanceAs (Decidable True)

/-! ### The invariant -/

namespace Brackets

variable {ignored : Path → Bool} {w w' : Brackets}

def Passed (r : Report) : Prop := r.phase = .passed ∨ r.phase = .accepted

/-- The invariant: what a bracket covers is suppressed, and what is past the test was made
when no bracket of a path it concerns covered the time. -/
structure Guarded (w : Brackets) : Prop where
  suppressed : ∀ i b, w.brackets.lookup i = some b → b.Covers w.now → b.path ∈ w.suppressed
  windows : ∀ i r, w.reports.lookup i = some r → ∀ j ∈ r.windows, ∃ b,
    w.brackets.lookup j = some b ∧
    (Passed r → suppresses b.path r.path = false)

theorem Guarded.init : Guarded {} where
  suppressed i b hb := by cases hb
  windows i r hr := by cases hr

theorem covers_mono {b : Bracket} {now now' : Nat} (hle : now ≤ now') (h : b.Covers now') :
    b.Covers now := by
  obtain ⟨path, phase⟩ := b
  cases phase with
  | writing => trivial
  | settling completed refresh | refreshing completed | released completed =>
    exact Nat.lt_of_le_of_lt hle h

theorem lookup_toBracket {i j : Nat} {b b' : Bracket} {phase : BracketPhase}
    (h : (w.toBracket i b phase).brackets.lookup j = some b') :
    (j = i ∧ b' = { b with phase := phase }) ∨ (j ≠ i ∧ w.brackets.lookup j = some b') := by
  rw [toBracket, KeyedMap.lookup_insert_eq] at h
  split at h
  · next hj => exact .inl ⟨hj, (Option.some.inj h).symm⟩
  · next hj => exact .inr ⟨hj, h⟩

theorem Guarded.toBracket (h : w.Guarded) {i : Nat} {b : Bracket}
    (hb : w.brackets.lookup i = some b) (phase : BracketPhase) {suppressed : Finset Path}
    (hsuppressed : ∀ j b', (w.toBracket i b phase).brackets.lookup j = some b' →
      b'.Covers w.now → b'.path ∈ suppressed) :
    Guarded { w.toBracket i b phase with suppressed := suppressed } := by
  refine ⟨hsuppressed, fun k r hr j hj => ?_⟩
  obtain ⟨b', hb', hpassed⟩ := h.windows k r hr j hj
  have hlookup : (w.toBracket i b phase).brackets.lookup j =
      if j = i then some { b with phase := phase } else w.brackets.lookup j :=
    KeyedMap.lookup_insert_eq ..
  by_cases hji : j = i
  · subst hji
    cases hb.symm.trans hb'
    rw [if_pos rfl] at hlookup
    exact ⟨_, hlookup, hpassed⟩
  · rw [if_neg hji] at hlookup
    exact ⟨b', hlookup.trans hb', hpassed⟩

theorem Guarded.toReport (h : w.Guarded) {i : Nat} {r : Report}
    (hr : w.reports.lookup i = some r) {phase : ReportPhase}
    (hpassed : phase = .passed ∨ phase = .accepted → ∀ j ∈ r.windows, ∀ b,
      w.brackets.lookup j = some b → suppresses b.path r.path = false) :
    (w.toReport i r phase).Guarded := by
  refine ⟨h.suppressed, fun k r' hr' j hj => ?_⟩
  rw [Brackets.toReport, KeyedMap.lookup_insert_eq] at hr'
  split at hr'
  · obtain rfl := Option.some.inj hr'
    obtain ⟨b, hb, -⟩ := h.windows i r hr j hj
    exact ⟨b, hb, fun hp => hpassed hp j hj b hb⟩
  · exact h.windows k r' hr' j hj

theorem Guarded.report (h : w.Guarded) {i : Nat} {path : Path}
    (hs : w.report ignored i path = some w') : w'.Guarded := by
  rw [Brackets.report] at hs
  split at hs
  · cases hs
  · split at hs
    · exact Option.some.inj hs ▸ h
    · cases hs
      refine ⟨h.suppressed, fun k r hr j hj => ?_⟩
      rw [KeyedMap.lookup_insert_eq] at hr
      split at hr
      · cases hr
        obtain ⟨e, he, rfl⟩ := List.mem_map.mp hj
        have hb : w.brackets.lookup e.1 = some e.2 :=
          AList.mem_lookup_iff.mpr (List.mem_filter.mp he).1
        refine ⟨e.2, hb, ?_⟩
        rintro (hp | hp) <;> cases hp
      · exact h.windows k r hr j hj

theorem Guarded.begin (h : w.Guarded) {i : Nat} {path : Path}
    (hs : w.begin i path = some w') : w'.Guarded := by
  rw [Brackets.begin] at hs
  split at hs
  · cases hs
  · next hnew =>
    split at hs
    · exact Option.some.inj hs ▸ h
    · cases hs
      refine ⟨fun j b hb hcovers => ?_, fun k r hr j hj => ?_⟩
      · rw [KeyedMap.lookup_insert_eq] at hb
        split at hb
        · cases hb
          exact Finset.mem_insert_self ..
        · exact Finset.mem_insert_of_mem (h.suppressed j b hb hcovers)
      · obtain ⟨b, hb, hpassed⟩ := h.windows k r hr j hj
        refine ⟨b, ?_, hpassed⟩
        rw [KeyedMap.lookup_insert_eq, if_neg, hb]
        rintro rfl
        rw [hb] at hnew
        exact hnew rfl

theorem Guarded.release (h : w.Guarded) {i : Nat} {b : Bracket}
    (hb : w.brackets.lookup i = some b)
    (hok : ∀ e ∈ w.brackets.entries, e.1 ≠ i → e.2.path = b.path → ¬ e.2.Covers w.now)
    (hs : w.release i b = some w') : w'.Guarded := by
  rw [Brackets.release] at hs
  split at hs
  · next completed refresh hphase =>
    split at hs
    · next hsettled =>
      cases hs
      refine h.toBracket hb _ fun j b' hb' hcovers => ?_
      rcases lookup_toBracket hb' with ⟨rfl, rfl⟩ | ⟨hne, hb'⟩
      · have hlt : w.now < completed + selfWriteSettle := by
          cases refresh <;> exact hcovers
        omega
      · refine Finset.mem_erase.mpr ⟨fun hpath => ?_, h.suppressed j b' hb' hcovers⟩
        exact hok ⟨j, b'⟩ (AList.mem_lookup_iff.mp hb') hne hpath hcovers
    · cases hs
  all_goals cases hs

theorem Guarded.test (h : w.Guarded) {i : Nat} {r : Report} (hr : w.reports.lookup i = some r)
    (hok : ∀ j ∈ r.windows, ∀ b ∈ w.brackets.lookup j, suppresses b.path r.path = true →
      b.Covers w.now ∨ b.path ∈ w.suppressed)
    (hs : w.test i r = some w') : w'.Guarded := by
  rw [Brackets.test] at hs
  split at hs
  · cases hs
    refine h.toReport hr fun hphase j hj b hb => ?_
    by_contra hconcerns
    rw [Bool.not_eq_false] at hconcerns
    have hmem : b.path ∈ w.suppressed := by
      rcases hok j hj b hb hconcerns with hcovers | hmem
      · exact h.suppressed j b hb hcovers
      · exact hmem
    have hsuppressed : isPathSuppressed w.suppressed r.path = true :=
      decide_eq_true ⟨b.path, hmem, hconcerns⟩
    rw [hsuppressed, if_pos rfl] at hphase
    rcases hphase with hphase | hphase <;> cases hphase
  all_goals cases hs

/-- **Every step keeps the invariant.** -/
theorem Guarded.step {e : BracketEvent} (h : w.Guarded) (hok : w.Settled e)
    (hs : w.step ignored e = some w') : w'.Guarded := by
  cases e with
  | tick elapsed =>
    cases hs
    exact ⟨fun i b hb hcovers =>
      h.suppressed i b hb (covers_mono (Nat.le_add_right ..) hcovers), h.windows⟩
  | begin i path => exact h.begin hs
  | complete i refresh =>
    obtain ⟨b, hb, hs⟩ := Option.bind_eq_some_iff.mp hs
    rw [Brackets.complete] at hs
    split at hs
    · next hphase =>
      cases hs
      refine h.toBracket hb _ fun j b' hb' hcovers => ?_
      rcases lookup_toBracket hb' with ⟨rfl, rfl⟩ | ⟨-, hb'⟩
      · refine h.suppressed j b hb ?_
        rw [Bracket.Covers, hphase]
        trivial
      · exact h.suppressed j b' hb' hcovers
    all_goals cases hs
  | release i =>
    obtain ⟨b, hb, hs⟩ := Option.bind_eq_some_iff.mp hs
    exact h.release hb (hok b hb) hs
  | refresh i j =>
    obtain ⟨b, hb, hs⟩ := Option.bind_eq_some_iff.mp hs
    rw [Brackets.refresh] at hs
    split at hs
    · next completed hphase =>
      refine (h.toBracket hb (.released completed) fun k b' hb' hcovers => ?_).report hs
      rcases lookup_toBracket hb' with ⟨rfl, rfl⟩ | ⟨-, hb'⟩
      · refine h.suppressed k b hb ?_
        rw [Bracket.Covers, hphase]
        exact hcovers
      · exact h.suppressed k b' hb' hcovers
    all_goals cases hs
  | report i path => exact h.report hs
  | look i hidden =>
    obtain ⟨r, hr, hs⟩ := Option.bind_eq_some_iff.mp hs
    rw [Brackets.look] at hs
    split at hs
    · cases hs
      refine h.toReport hr fun hphase => ?_
      cases hidden <;> rcases hphase with hphase | hphase <;> cases hphase
    all_goals cases hs
  | test i =>
    obtain ⟨r, hr, hs⟩ := Option.bind_eq_some_iff.mp hs
    exact h.test hr (hok r hr) hs
  | accept i =>
    obtain ⟨r, hr, hs⟩ := Option.bind_eq_some_iff.mp hs
    rw [Brackets.accept] at hs
    split at hs
    · next hphase =>
      cases hs
      refine h.toReport hr fun _ j hj b hb => ?_
      obtain ⟨b', hb', hpassed⟩ := h.windows i r hr j hj
      cases hb.symm.trans hb'
      exact hpassed (.inl hphase)
    all_goals cases hs

end Brackets

/-! ### What is accepted -/

/-- **The server's own writes are not reported**: an accepted report was made when no
bracket covered the time of a path that concerns what it reports. -/
theorem self_writes_suppressed {ignored : Path → Bool} {w : Brackets}
    (h : (selfWrites ignored).Reaches Brackets.Settled w) {i j : Nat} {r : Report} {b : Bracket}
    (hr : w.reports.lookup i = some r) (haccepted : r.phase = .accepted) (hj : j ∈ r.windows)
    (hb : w.brackets.lookup j = some b) : ¬ Concerns b.path r.path := by
  have hguarded : w.Guarded :=
    h.invariant .init fun _ _ _ hguarded hok hs => hguarded.step hok hs
  obtain ⟨b', hb', hpassed⟩ := hguarded.windows i r hr j hj
  cases hb.symm.trans hb'
  intro hconcerns
  rw [← suppresses_iff, hpassed (.inr haccepted)] at hconcerns
  cases hconcerns

/-! ### Own writes that are accepted -/

private def subtitle : Path := ['/', 'm', '/', 's']

private def reported (i : Nat) (path : Path) : List BracketEvent :=
  [.report i path, .look i false, .test i, .accept i]

/-- A change of another folder while the subtitle is written is accepted. -/
theorem self_writes_suppressed_elsewhere : ∃ w : Brackets,
    (selfWrites fun _ => false).Reaches Brackets.Settled w ∧
    ∃ r, w.reports.lookup 1 = some r ∧ r.windows = [0] ∧ r.phase = .accepted ∧
      ¬ Concerns subtitle r.path := by
  obtain ⟨w, hw⟩ : ∃ w, (selfWrites fun _ => false).runWhile Brackets.Settled {}
      ([BracketEvent.begin 0 subtitle] ++
        [BracketEvent.report 0 subtitle, .look 0 false, .test 0] ++ reported 1 ['/', 't'] ++
        [BracketEvent.complete 0 true, .tick 45000, .release 0, .refresh 0 2]) = some w :=
      Option.isSome_iff_exists.mp (by decide +kernel)
  have hr : (selfWrites fun _ => false).Reaches Brackets.Settled w :=
    Machine.path_of_runWhile _ hw
  have haccepted := @self_writes_suppressed _ w hr 1 0
  refine ⟨w, hr, ?_⟩
  obtain rfl := Option.some.inj hw
  exact ⟨_, rfl, rfl, rfl, haccepted rfl rfl (by decide) rfl⟩

/-- A second writer brackets the path twenty seconds after the first has completed: the
release of the first lets the path go while the second writes, and a change of the path is
accepted. -/
theorem released_by_another : ∃ w : Brackets, (selfWrites fun _ => false).Reachable w ∧
    ∃ r b, w.reports.lookup 0 = some r ∧ w.brackets.lookup 1 = some b ∧ 1 ∈ r.windows ∧
      r.phase = .accepted ∧ Concerns b.path r.path := by
  obtain ⟨w, hw⟩ : ∃ w, (selfWrites fun _ => false).run {}
      ([BracketEvent.begin 0 subtitle, .complete 0 false, .tick 20000, .begin 1 subtitle,
        .tick 25000, .release 0] ++ reported 0 subtitle) = some w :=
      Option.isSome_iff_exists.mp (by decide +kernel)
  refine ⟨w, Machine.reachable_of_run _ hw, ?_⟩
  obtain rfl := Option.some.inj hw
  exact ⟨_, _, rfl, rfl, by decide, rfl, .same rfl⟩

end Ferrofin.Monitor
