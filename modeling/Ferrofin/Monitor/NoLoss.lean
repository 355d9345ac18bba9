import Ferrofin.Monitor.Debounce

/-!
# No change is lost

A path that was reported is in a pending group until the worker takes the group, and the
worker is there as long as a group is pending.  A group's deadline stays within
`maxSettleWindows` delays of each of its reports, as long as none fills the group up after
that: such a report sets the deadline to its own time (`deadline_exceeded`).  A path is
pending in one group, as long as no report joins another group than the one that has its path
already (`World.Settled`): the first group that is related takes a report, also where a group
behind it has the path, and then both are taken (`taken_twice`).
-/

namespace Ferrofin.Monitor

open Lib Util
open List (mem_append mem_append_left mem_cons mem_filter)

/-! ### The condition -/

def World.Settled (w : World) : Event → Prop
  | .report _ path _ =>
    (∀ g ∈ w.pending.groupOf path,
      maxPendingPaths ≤ (insert path g.paths).card → w.now ≤ g.hardDeadline) ∧
    ∀ g ∈ w.pending.groups, path ∈ g.paths → g.number = w.pending.groupNumber path
  | .tick | .advance _ | .wake _ _ => True

instance (w : World) (e : Event) : Decidable (w.Settled e) := by
  cases e with
  | report worker path trigger =>
    exact inferInstanceAs (Decidable ((∀ g ∈ w.pending.groupOf path,
      maxPendingPaths ≤ (insert path g.paths).card → w.now ≤ g.hardDeadline) ∧
      ∀ g ∈ w.pending.groups, path ∈ g.paths → g.number = w.pending.groupNumber path))
  | tick | advance | wake => exact inferInstanceAs (Decidable True)

/-- How many of the groups have a path. -/
def countOf (groups : List PendingGroup) (path : Path) : Nat :=
  groups.countP fun g => path ∈ g.paths

/-! ### A report joins a group -/

/-- The group `g'` is the group `g` once a report has joined it. -/
structure Joined (path : Path) (now delay : Nat) (g g' : PendingGroup) : Prop where
  number : g'.number = g.number
  paths : g'.paths = insert path g.paths
  hardDeadline : g'.hardDeadline = g.hardDeadline
  deadline : g'.deadline = if maxPendingPaths ≤ (insert path g.paths).card then now
    else min (now + delay) g.hardDeadline

theorem joined_join (g : PendingGroup) (path : Path) (now delay : Nat) :
    Joined path now delay g (g.join path now delay) := ⟨rfl, rfl, rfl, rfl⟩

theorem joined_rebase (g : PendingGroup) (path : Path) (now delay : Nat) :
    Joined path now delay g ((g.rebase path).join path now delay) := by
  rw [PendingGroup.rebase]
  split
  · exact joined_join ..
  · split
    · exact ⟨rfl, rfl, rfl, rfl⟩
    · split <;> exact ⟨rfl, rfl, rfl, rfl⟩

theorem enqueue_cases (c : PendingChanges) (path : Path) (trigger : ScanTrigger)
    (now delay : Nat) :
    ∃ l₁ l₂ g g', Joined path now delay g g' ∧ c.groupNumber path = g.number ∧
      (c.enqueue path trigger now delay).groups = l₁ ++ g' :: l₂ ∧
      (c.groupOf path = some g ∧ c.groups = l₁ ++ g :: l₂ ∧
          (c.enqueue path trigger now delay).opened = c.opened ∨
        g = c.newGroup path trigger now delay ∧ c.groups = l₁ ∧ l₂ = [] ∧
          (c.enqueue path trigger now delay).opened = c.opened + 1) := by
  rw [PendingChanges.enqueue, PendingChanges.groupFor, PendingChanges.groupNumber]
  cases hfind : c.groupOf path with
  | some g =>
    obtain ⟨l₁, l₂, hgroups, -, -, hmodify⟩ := modifyFirst_eq_append
      (f := fun g => (g.rebase path).join path now delay) hfind
    exact ⟨l₁, l₂, g, _, joined_rebase g path now delay, rfl, hmodify, .inl ⟨rfl, hgroups, rfl⟩⟩
  | none =>
    exact ⟨c.groups, [], _, _, joined_join _ path now delay, rfl, rfl, .inr ⟨rfl, rfl, rfl, rfl⟩⟩

def AcceptedReport.In (r : AcceptedReport) (groups : List PendingGroup) : Prop :=
  ∃ g ∈ groups, g.number = r.group ∧ r.path ∈ g.paths

theorem Joined.deadline_le {path : Path} {now delay : Nat} {g g' : PendingGroup}
    (h : Joined path now delay g g')
    (hfull : maxPendingPaths ≤ (insert path g.paths).card → now ≤ g.hardDeadline) :
    g'.deadline ≤ g'.hardDeadline := by
  rw [h.deadline, h.hardDeadline]
  split
  · next hcard => exact hfull hcard
  · exact Nat.min_le_right ..

theorem mem_of_enqueue {l₁ l₂ taken : List PendingGroup} {g' b : PendingGroup}
    (h : b ∈ (l₁ ++ g' :: l₂) ++ taken) : b = g' ∨ b ∈ l₁ ∨ b ∈ l₂ ∨ b ∈ taken := by
  simp only [mem_append, mem_cons] at h
  tauto

theorem AcceptedReport.In.enqueue {r : AcceptedReport} {l₁ l₂ : List PendingGroup}
    {path : Path} {now delay : Nat} {g g' : PendingGroup} (hj : Joined path now delay g g')
    (h : r.In (l₁ ++ g :: l₂)) : r.In (l₁ ++ g' :: l₂) := by
  obtain ⟨b, hb, hnumber, hpath⟩ := h
  rcases mem_append.mp hb with hb | hb
  · exact ⟨b, mem_append_left _ hb, hnumber, hpath⟩
  · rcases mem_cons.mp hb with rfl | hb
    · refine ⟨g', List.mem_append_right _ List.mem_cons_self, hj.number.trans hnumber, ?_⟩
      rw [hj.paths]
      exact Finset.mem_insert_of_mem hpath
    · exact ⟨b, List.mem_append_right _ (List.mem_cons_of_mem _ hb), hnumber, hpath⟩

/-! ### The invariants -/

namespace World

variable {delay : Nat} {w w' : World}

structure ReportOk (delay : Nat) (w : World) (r : AcceptedReport) : Prop where
  before : r.before ≤ w.taken.length
  group : r.group < w.pending.opened
  isIn : r.In w.pending.groups ∨ r.In (w.taken.drop r.before)
  hardDeadline : ∀ g ∈ w.pending.groups ++ w.taken, g.number = r.group →
    g.hardDeadline ≤ r.time + delay * maxSettleWindows

structure Accounted (delay : Nat) (w : World) : Prop where
  opened : ∀ g ∈ w.pending.groups ++ w.taken, g.number < w.pending.opened
  nodup : ((w.pending.groups ++ w.taken).map PendingGroup.number).Nodup
  deadline : ∀ g ∈ w.pending.groups ++ w.taken, g.deadline ≤ g.hardDeadline
  hardDeadline : ∀ g ∈ w.pending.groups ++ w.taken,
    g.hardDeadline ≤ w.now + delay * maxSettleWindows
  reports : ∀ r ∈ w.reports, w.ReportOk delay r

structure Manned (w : World) : Prop where
  running : w.pending.workerRunning = true →
    ∃ i phase, w.workers.lookup i = some phase ∧ phase.attends = true
  attends : ∀ i phase, w.workers.lookup i = some phase → phase.attends = true →
    w.pending.workerRunning = true ∧ w.pending.groups ≠ []
  unique : ∀ i j phase phase', w.workers.lookup i = some phase →
    w.workers.lookup j = some phase' → phase.attends = true → phase'.attends = true → i = j
  pending : w.pending.groups ≠ [] → w.pending.workerRunning = true

theorem Accounted.init : Accounted delay {} where
  opened g hg := by cases hg
  nodup := List.nodup_nil
  deadline g hg := by cases hg
  hardDeadline g hg := by cases hg
  reports r hr := by cases hr

theorem Manned.init : Manned {} where
  running h := by cases h
  attends i phase h := by cases h
  unique i j phase phase' h := by cases h
  pending h := absurd rfl h

/-! ### A report is accepted -/

theorem nodup_enqueue {l₁ l₂ taken : List PendingGroup} {path : Path} {now : Nat}
    {g g' : PendingGroup} (hj : Joined path now delay g g')
    (h : (((l₁ ++ g :: l₂) ++ taken).map PendingGroup.number).Nodup) :
    (((l₁ ++ g' :: l₂) ++ taken).map PendingGroup.number).Nodup := by
  simp only [List.map_append, List.map_cons, hj.number] at h ⊢
  exact h

theorem nodup_open {l taken : List PendingGroup} {g' : PendingGroup}
    (h : ((l ++ taken).map PendingGroup.number).Nodup)
    (hnew : ∀ b ∈ l ++ taken, b.number < g'.number) :
    (((l ++ [g']) ++ taken).map PendingGroup.number).Nodup := by
  have hperm : ((l ++ [g']) ++ taken).Perm (g' :: (l ++ taken)) := by
    rw [List.append_assoc]
    exact List.perm_middle
  rw [(hperm.map _).nodup_iff, List.map_cons, List.nodup_cons]
  refine ⟨fun hmem => ?_, h⟩
  obtain ⟨b, hb, heq⟩ := List.mem_map.mp hmem
  have hlt := hnew b hb
  omega

/-- **A report is accepted.** -/
theorem Accounted.accept (h : w.Accounted delay) (path : Path) (trigger : ScanTrigger)
    (hok : ∀ g ∈ w.pending.groupOf path,
      maxPendingPaths ≤ (insert path g.paths).card → w.now ≤ g.hardDeadline) :
    (w.accept delay path trigger).Accounted delay := by
  obtain ⟨l₁, l₂, g, g', hj, hnumber, hgroups, hcase⟩ :=
    enqueue_cases w.pending path trigger w.now delay
  have hold : ∀ b, b ∈ l₁ ∨ b ∈ l₂ ∨ b ∈ w.taken → b ∈ w.pending.groups ++ w.taken := by
    rcases hcase with ⟨-, hc, -⟩ | ⟨-, hc, rfl, -⟩ <;> rw [hc] <;>
      simp only [mem_append, mem_cons] <;> tauto
  have hle : w.pending.opened ≤ (w.pending.enqueue path trigger w.now delay).opened ∧
      g.number < (w.pending.enqueue path trigger w.now delay).opened := by
    rcases hcase with ⟨-, hc, hopened⟩ | ⟨rfl, -, -, hopened⟩ <;> rw [hopened]
    · refine ⟨Nat.le_refl _, h.opened g ?_⟩
      rw [hc]
      simp
    · exact ⟨Nat.le_succ _, Nat.lt_succ_self _⟩
  have hhard : g.hardDeadline ≤ w.now + delay * maxSettleWindows := by
    rcases hcase with ⟨-, hc, -⟩ | ⟨rfl, -⟩
    · refine h.hardDeadline g ?_
      rw [hc]
      simp
    · exact Nat.le_refl _
  have hdeadline : g'.deadline ≤ g'.hardDeadline := by
    refine hj.deadline_le ?_
    rcases hcase with ⟨hfind, -⟩ | ⟨rfl, -⟩
    · exact hok g hfind
    · exact fun _ => Nat.le_add_right ..
  have hall : ∀ b ∈ (l₁ ++ g' :: l₂) ++ w.taken,
      b.hardDeadline ≤ w.now + delay * maxSettleWindows := by
    intro b hb
    rcases mem_of_enqueue hb with rfl | hb
    · rw [hj.hardDeadline]
      exact hhard
    · exact h.hardDeadline b (hold b hb)
  refine ⟨fun b hb => ?_, ?_, fun b hb => ?_, fun b hb => ?_, fun r hr => ?_⟩
  · rw [World.accept, hgroups] at hb
    rcases mem_of_enqueue hb with rfl | hb
    · exact hj.number ▸ hle.2
    · exact Nat.lt_of_lt_of_le (h.opened b (hold b hb)) hle.1
  · rw [World.accept, hgroups]
    rcases hcase with ⟨-, hc, -⟩ | ⟨rfl, hc, rfl, -⟩
    · exact nodup_enqueue hj (hc ▸ h.nodup)
    · exact nodup_open (hc ▸ h.nodup) fun b hb => hj.number ▸ h.opened b (hc ▸ hb)
  · rw [World.accept, hgroups] at hb
    rcases mem_of_enqueue hb with rfl | hb
    · exact hdeadline
    · exact h.deadline b (hold b hb)
  · rw [World.accept, hgroups] at hb
    exact hall b hb
  · rcases mem_append.mp hr with hr | hr
    · -- a report from before
      obtain ⟨hbefore, hgroup, hin, hrhard⟩ := h.reports r hr
      refine ⟨hbefore, Nat.lt_of_lt_of_le hgroup hle.1, ?_, fun b hb hb' => ?_⟩
      · rw [World.accept, hgroups]
        refine hin.imp_left fun hin => ?_
        rcases hcase with ⟨-, hc, -⟩ | ⟨rfl, hc, rfl, -⟩
        · exact AcceptedReport.In.enqueue hj (hc ▸ hin)
        · obtain ⟨b, hb, hrest⟩ := hin
          exact ⟨b, mem_append_left _ (hc ▸ hb), hrest⟩
      · rw [World.accept, hgroups] at hb
        rcases mem_of_enqueue hb with rfl | hb
        · rcases hcase with ⟨-, hc, -⟩ | ⟨rfl, -⟩
          · rw [hj.hardDeadline]
            refine hrhard g ?_ (hj.number.symm.trans hb')
            rw [hc]
            simp
          · have hnew : b.number = w.pending.opened := hj.number
            omega
        · exact hrhard b (hold b hb) hb'
    · -- the new one
      obtain rfl := List.mem_singleton.mp hr
      refine ⟨Nat.le_refl _, ?_, .inl ?_, fun b hb _ => ?_⟩
      · exact hnumber ▸ hle.2
      · rw [World.accept, hgroups]
        refine ⟨g', by simp, hj.number.trans hnumber.symm, ?_⟩
        rw [hj.paths]
        exact Finset.mem_insert_self ..
      · rw [World.accept, hgroups] at hb
        exact hall b hb

theorem Accounted.frame (h : w.Accounted delay) (hnow : w.now ≤ w'.now)
    (hgroups : w'.pending.groups = w.pending.groups)
    (hopened : w'.pending.opened = w.pending.opened)
    (htaken : w'.taken = w.taken) (hreports : w'.reports = w.reports) : w'.Accounted delay := by
  refine ⟨?_, ?_, ?_, fun g hg => ?_, fun r hr => ?_⟩
  · rw [hgroups, htaken, hopened]
    exact h.opened
  · rw [hgroups, htaken]
    exact h.nodup
  · rw [hgroups, htaken]
    exact h.deadline
  · rw [hgroups, htaken] at hg
    exact Nat.le_trans (h.hardDeadline g hg) (Nat.add_le_add_right hnow _)
  · obtain ⟨hbefore, hgroup, hin, hhard⟩ := h.reports r (hreports ▸ hr)
    refine ⟨htaken ▸ hbefore, hopened ▸ hgroup, ?_, ?_⟩
    · rw [hgroups, htaken]
      exact hin
    · rw [hgroups, htaken]
      exact hhard

theorem perm_pass (w : World) (i : Nat) :
    ((w.pass i).pending.groups ++ (w.pass i).taken).Perm (w.pending.groups ++ w.taken) := by
  have hsplit : (w.pending.groups.filter (fun g => decide (g.deadline ≤ w.now)) ++
      w.pending.groups.filter (fun g => !decide (g.deadline ≤ w.now))).Perm w.pending.groups :=
    List.filter_append_perm _ _
  rw [World.pass]
  refine List.Perm.trans ?_ (hsplit.append_right w.taken)
  rw [← List.append_assoc]
  exact List.perm_append_comm.trans (by rw [List.append_assoc])

theorem Accounted.pass (h : w.Accounted delay) (i : Nat) : (w.pass i).Accounted delay := by
  have hperm := perm_pass w i
  refine ⟨fun g hg => h.opened g (hperm.mem_iff.mp hg), ?_,
    fun g hg => h.deadline g (hperm.mem_iff.mp hg),
    fun g hg => h.hardDeadline g (hperm.mem_iff.mp hg), fun r hr => ?_⟩
  · rw [(hperm.map PendingGroup.number).nodup_iff]
    exact h.nodup
  · obtain ⟨hbefore, hgroup, hin, hhard⟩ := h.reports r hr
    have htaken : (w.pass i).taken = w.taken ++
      w.pending.groups.filter fun g => decide (g.deadline ≤ w.now) := rfl
    refine ⟨?_, hgroup, ?_, fun g hg => hhard g (hperm.mem_iff.mp hg)⟩
    · rw [htaken, List.length_append]
      exact Nat.le_add_right_of_le hbefore
    · rw [htaken, List.drop_append_of_le_length hbefore]
      rcases hin with ⟨g, hg, hrest⟩ | ⟨g, hg, hrest⟩
      · by_cases hlapsed : g.deadline ≤ w.now
        · exact .inr ⟨g, List.mem_append_right _
            (mem_filter.mpr ⟨hg, decide_eq_true hlapsed⟩), hrest⟩
        · exact .inl ⟨g, mem_filter.mpr ⟨hg, by simpa using hlapsed⟩, hrest⟩
      · exact .inr ⟨g, mem_append_left _ hg, hrest⟩

/-- **What a wake does**: the worker makes a pass. -/
theorem pass_of_wake {i : Nat} {flushed : Bool} (hs : w.step delay (.wake i flushed) = some w') :
    w'.pending = (w.pass i).pending ∧ w'.taken = (w.pass i).taken ∧
      w'.reports = w.reports ∧ w'.now = w.now := by
  obtain ⟨phase, -, hs⟩ := Option.bind_eq_some_iff.mp hs
  rw [World.wake.eq_def] at hs
  split at hs
  · split at hs
    · split at hs
      · cases hs
        exact ⟨rfl, rfl, rfl, rfl⟩
      · cases hs
    · cases hs
      exact ⟨rfl, rfl, rfl, rfl⟩
  all_goals cases hs

/-- **Every step keeps the groups and the reports accounted for.** -/
theorem Accounted.step {e : Event} (h : w.Accounted delay) (hok : w.Settled e)
    (hs : w.step delay e = some w') : w'.Accounted delay := by
  cases e with
  | tick =>
    cases hs
    exact h.frame (Nat.le_succ _) rfl rfl rfl rfl
  | report worker path trigger =>
    have haccept := h.accept path trigger hok.1
    rw [World.step, World.report] at hs
    split at hs
    · exact Option.some.inj hs ▸ haccept
    · split at hs
      · cases hs
      · cases hs
        exact haccept.frame (Nat.le_refl _) rfl rfl rfl rfl
  | advance worker =>
    obtain ⟨phase, -, hs⟩ := Option.bind_eq_some_iff.mp hs
    rw [World.advance.eq_def] at hs
    split at hs
    · cases hs
      split <;> exact h.frame (Nat.le_refl _) rfl rfl rfl rfl
    · cases hs
    all_goals
      cases hs
      exact h.frame (Nat.le_refl _) rfl rfl rfl rfl
  | wake worker flushed =>
    obtain ⟨hpending, htaken, hreports, hnow⟩ := pass_of_wake hs
    exact (h.pass worker).frame hnow.ge (congrArg _ hpending) (congrArg _ hpending) htaken hreports

/-! ### One group for a path -/

/-- No path is pending in two groups. -/
def Apart (w : World) : Prop := ∀ path, countOf w.pending.groups path ≤ 1

theorem Apart.accept (h : w.Apart) (hnodup : (w.pending.groups.map PendingGroup.number).Nodup)
    (hopened : ∀ g ∈ w.pending.groups, g.number < w.pending.opened) {path : Path}
    (hown : ∀ g ∈ w.pending.groups, path ∈ g.paths → g.number = w.pending.groupNumber path)
    (trigger : ScanTrigger) : (w.accept delay path trigger).Apart := by
  obtain ⟨l₁, l₂, g, g', hj, hnumber, hgroups, hcase⟩ :=
    enqueue_cases w.pending path trigger w.now delay
  -- the path is in none of the groups that the report does not join
  have hothers : ∀ b ∈ l₁ ++ l₂, path ∉ b.paths := by
    intro b hb hpath
    rcases hcase with ⟨-, hc, -⟩ | ⟨rfl, hc, rfl, -⟩
    · rw [hc] at hnodup hown
      have hnew := (List.nodup_middle.mp (by simpa using hnodup)).notMem
      refine hnew (mem_append.mpr ?_)
      have heq := (hown b (by simp at hb ⊢; tauto) hpath).trans hnumber
      rcases mem_append.mp hb with hb | hb
      · exact .inl (heq ▸ List.mem_map_of_mem hb)
      · exact .inr (heq ▸ List.mem_map_of_mem hb)
    · rw [List.append_nil] at hb
      have hlt := hopened b (hc ▸ hb)
      rw [hown b (hc ▸ hb) hpath, hnumber] at hlt
      exact Nat.lt_irrefl _ hlt
  intro p
  rw [World.accept, hgroups, countOf, List.countP_append, List.countP_cons]
  by_cases hp : p = path
  · rw [hp,
      List.countP_eq_zero.mpr fun b hb => by simpa using hothers b (mem_append_left _ hb),
      List.countP_eq_zero.mpr fun b hb => by simpa using hothers b (List.mem_append_right _ hb)]
    split <;> omega
  · have hsame : p ∈ g'.paths ↔ p ∈ g.paths := by
      rw [hj.paths, Finset.mem_insert]
      exact or_iff_right hp
    have hle := h p
    rcases hcase with ⟨-, hc, -⟩ | ⟨rfl, hc, rfl, -⟩
    · rw [hc, countOf, List.countP_append, List.countP_cons] at hle
      simpa only [hsame] using hle
    · rw [hc, countOf] at hle
      simpa [hsame, PendingChanges.newGroup] using hle

theorem countOf_pass (w : World) (i : Nat) (path : Path) :
    countOf (w.pass i).pending.groups path +
      countOf (w.pending.groups.filter fun g => g.deadline ≤ w.now) path =
        countOf w.pending.groups path := by
  rw [countOf, countOf, ← List.countP_append]
  refine List.Perm.countP_eq _ (List.perm_append_comm.trans ?_)
  exact List.filter_append_perm _ _

theorem Apart.step {e : Event} (h : w.Apart) (haccounted : w.Accounted delay) (hok : w.Settled e)
    (hs : w.step delay e = some w') : w'.Apart := by
  cases e with
  | tick =>
    cases hs
    exact h
  | report worker path trigger =>
    have hnodup := haccounted.nodup
    rw [List.map_append] at hnodup
    have haccept : (w.accept delay path trigger).Apart := h.accept hnodup.of_append_left
      (fun g hg => haccounted.opened g (mem_append_left _ hg)) hok.2 trigger
    rw [World.step, World.report] at hs
    split at hs
    · exact Option.some.inj hs ▸ haccept
    · split at hs
      · cases hs
      · exact Option.some.inj hs ▸ haccept
  | advance worker =>
    obtain ⟨phase, -, hs⟩ := Option.bind_eq_some_iff.mp hs
    rw [World.advance.eq_def] at hs
    split at hs
    · cases hs
      split <;> exact h
    · cases hs
    all_goals exact Option.some.inj hs ▸ h
  | wake worker flushed =>
    intro path
    rw [(pass_of_wake hs).1]
    exact Nat.le_trans (Nat.le.intro (countOf_pass w worker path)) (h path)

/-! ### The workers -/

theorem Manned.attends_goOn (h : w.Manned) {i j : Nat} {phase phase' p : WorkerPhase}
    (hi : w.workers.lookup i = some phase) (hattends : phase.attends = true)
    (hj : (w.goOn i phase').workers.lookup j = some p) (hp : p.attends = true) :
    j = i ∧ p = phase' := by
  rw [World.goOn, KeyedMap.lookup_insert_eq] at hj
  split at hj
  · next hji => exact ⟨hji, (Option.some.inj hj).symm⟩
  · next hne => exact absurd (h.unique j i p phase hj hi hp hattends) hne

theorem Manned.goOn (h : w.Manned) {i : Nat} {phase phase' : WorkerPhase}
    (hi : w.workers.lookup i = some phase) (hattends : phase.attends = true)
    (hattends' : phase'.attends = true) : (w.goOn i phase').Manned := by
  obtain ⟨hrunning, hgroups⟩ := h.attends i phase hi hattends
  refine ⟨fun _ => ⟨i, phase', AList.lookup_insert _, hattends'⟩,
    fun _ _ _ _ => ⟨hrunning, hgroups⟩, fun j k p q hj hk hp hq => ?_, h.pending⟩
  rw [(h.attends_goOn hi hattends hj hp).1, (h.attends_goOn hi hattends hk hq).1]

theorem Manned.of_idle (h : w.Manned) {i : Nat} {phase : WorkerPhase}
    (hi : w.workers.lookup i = some phase) (hidle : phase.attends = false)
    (hpending : w'.pending = w.pending)
    (hworkers : ∀ j p, w'.workers.lookup j = some p → p.attends = true →
      w.workers.lookup j = some p)
    (hothers : ∀ j p, j ≠ i → w.workers.lookup j = some p → w'.workers.lookup j = some p) :
    w'.Manned := by
  refine ⟨fun hrunning => ?_, fun j p hj hp => ?_, fun j k p q hj hk hp hq => ?_, ?_⟩
  · obtain ⟨j, p, hj, hp⟩ := h.running (hpending ▸ hrunning)
    refine ⟨j, p, hothers j p ?_ hj, hp⟩
    rintro rfl
    rw [Option.some.inj (hj.symm.trans hi), hidle] at hp
    cases hp
  · rw [hpending]
    exact h.attends j p (hworkers j p hj hp) hp
  · exact h.unique j k p q (hworkers j p hj hp) (hworkers k q hk hq) hp hq
  · rw [hpending]
    exact h.pending

theorem Manned.pass (h : w.Manned) {i deadline : Nat}
    (hi : w.workers.lookup i = some (.sleeping deadline)) : (w.pass i).Manned := by
  obtain ⟨hrunning, -⟩ := h.attends i _ hi rfl
  have hattends : ∀ j p, (w.pass i).workers.lookup j = some p → p.attends = true →
      j = i ∧ (w.pass i).pending.groups ≠ [] := by
    intro j p hj hp
    obtain ⟨hji, rfl⟩ := h.attends_goOn hi rfl hj hp
    refine ⟨hji, fun hnil => ?_⟩
    have hkept : (w.pending.groups.filter fun g => !decide (g.deadline ≤ w.now)) = [] := hnil
    rw [hkept] at hp
    cases hp
  have hrunning' : (w.pass i).pending.groups ≠ [] →
      (w.pass i).pending.workerRunning = true := by
    intro hne
    have hkept : (w.pending.groups.filter fun g => !decide (g.deadline ≤ w.now)) ≠ [] := hne
    simp only [World.pass, List.isEmpty_iff, hkept, if_false]
    exact hrunning
  refine ⟨fun hr => ?_, fun j p hj hp => ?_, fun j k p q hj hk hp hq => ?_, hrunning'⟩
  · refine ⟨i, _, AList.lookup_insert _, ?_⟩
    simp only [World.pass] at hr
    split at hr
    · cases hr
    · next hempty =>
      rw [Bool.not_eq_true] at hempty
      rw [hempty]
      rfl
  · have hgroups := (hattends j p hj hp).2
    exact ⟨hrunning' hgroups, hgroups⟩
  · rw [(hattends j p hj hp).1, (hattends k q hk hq).1]

theorem groups_accept_ne_nil (w : World) (delay : Nat) (path : Path) (trigger : ScanTrigger) :
    (w.accept delay path trigger).pending.groups ≠ [] := by
  obtain ⟨l₁, l₂, g, g', -, -, hgroups, -⟩ := enqueue_cases w.pending path trigger w.now delay
  rw [World.accept, hgroups]
  simp

theorem Manned.report (h : w.Manned) {worker : Nat} {path : Path} {trigger : ScanTrigger}
    (hs : w.report delay worker path trigger = some w') : w'.Manned := by
  have hne := groups_accept_ne_nil w delay path trigger
  rw [World.report] at hs
  split at hs
  · next hrunning =>
    cases hs
    exact ⟨fun _ => h.running hrunning, fun _ _ _ _ => ⟨rfl, hne⟩, h.unique, fun _ => rfl⟩
  · next hstopped =>
    have hidle : ∀ j p, w.workers.lookup j = some p → p.attends = true → False :=
      fun j p hj hp => hstopped (h.attends j p hj hp).1
    split at hs
    · cases hs
    · cases hs
      have honly : ∀ j p, ((w.accept delay path trigger).goOn worker .starting).workers.lookup j =
          some p → p.attends = true → j = worker := by
        intro j p hj hp
        rw [World.goOn, KeyedMap.lookup_insert_eq] at hj
        split at hj
        · assumption
        · exact absurd hp fun hp => hidle j p hj hp
      refine ⟨fun _ => ⟨worker, _, AList.lookup_insert _, rfl⟩, fun _ _ _ _ => ⟨rfl, hne⟩,
        fun j k p q hj hk hp hq => ?_, fun _ => rfl⟩
      rw [honly j p hj hp, honly k q hk hq]

/-- **Every step keeps the groups attended to.** -/
theorem Manned.step {e : Event} (h : w.Manned) (hs : w.step delay e = some w') : w'.Manned := by
  cases e with
  | tick =>
    cases hs
    exact ⟨h.running, h.attends, h.unique, h.pending⟩
  | report worker path trigger => exact h.report hs
  | advance worker =>
    obtain ⟨phase, hi, hs⟩ := Option.bind_eq_some_iff.mp hs
    cases phase with
    | starting =>
      cases hs
      cases hnext : w.pending.nextDeadline with
      | some deadline => exact h.goOn hi rfl rfl
      | none =>
        have hnil := List.map_eq_nil_iff.mp (List.min?_eq_none_iff.mp hnext)
        exact absurd hnil (h.attends worker _ hi rfl).2
    | sleeping deadline => cases hs
    | dispatching groups done =>
      cases groups with
      | nil =>
        cases done with
        | false =>
          cases hs
          exact h.goOn hi rfl rfl
        | true =>
          cases hs
          refine h.of_idle hi rfl rfl (fun j p hj _ => ?_) fun j p hne hj => ?_
          · rw [World.endWorker, KeyedMap.lookup_erase_eq] at hj
            split at hj
            · cases hj
            · exact hj
          · rw [World.endWorker, KeyedMap.lookup_erase_eq, if_neg hne, hj]
      | cons g groups =>
        cases hs
        cases done with
        | false =>
          have hgoOn : (w.goOn worker (.dispatching groups false)).Manned := h.goOn hi rfl rfl
          exact ⟨hgoOn.running, hgoOn.attends, hgoOn.unique, hgoOn.pending⟩
        | true =>
          refine h.of_idle hi rfl rfl (fun j p hj hp => ?_) fun j p hne hj => ?_
          · rw [World.goOn, KeyedMap.lookup_insert_eq] at hj
            split at hj
            · rw [← Option.some.inj hj] at hp
              cases hp
            · exact hj
          · rw [World.goOn, KeyedMap.lookup_insert_eq, if_neg hne, hj]
  | wake worker flushed =>
    obtain ⟨phase, hi, hs⟩ := Option.bind_eq_some_iff.mp hs
    cases phase with
    | sleeping deadline =>
      have hpass := h.pass hi
      rw [World.wake] at hs
      split at hs
      · split at hs
        · cases hs
          exact ⟨hpass.running, hpass.attends, hpass.unique, hpass.pending⟩
        · cases hs
      · exact Option.some.inj hs ▸ hpass
    | starting | dispatching => cases hs

theorem manned_of_reachable (h : (debounce delay).Reachable w) : w.Manned :=
  h.invariant .init fun _ _ _ hmanned _ hs => hmanned.step hs

theorem accounted_of_reaches (h : (debounce delay).Reaches World.Settled w) :
    w.Accounted delay ∧ w.Apart :=
  h.invariant (I := fun w => w.Accounted delay ∧ w.Apart) ⟨.init, fun _ => Nat.zero_le 1⟩
    fun _ _ _ ⟨haccounted, hapart⟩ hok hs => ⟨haccounted.step hok hs, hapart.step haccounted hok hs⟩

/-! ### The worker takes what is pending -/

def Quiet (_ : World) : Event → Prop
  | .report _ _ _ => False
  | .tick | .advance _ | .wake _ _ => True

theorem exists_starting {i : Nat} (groups : List PendingGroup)
    (hi : w.workers.lookup i = some (.dispatching groups false)) :
    ∃ w', (debounce delay).Path Quiet w w' ∧ w'.workers.lookup i = some .starting ∧
      w'.pending = w.pending ∧ w'.reports = w.reports := by
  induction groups generalizing w with
  | nil =>
    have hstep : w.step delay (.advance i) = some (w.goOn i .starting) := by
      rw [World.step, hi]
      rfl
    exact ⟨_, Machine.Path.single (a := .advance i) trivial hstep, AList.lookup_insert _, rfl, rfl⟩
  | cons g groups ih =>
    have hstep : w.step delay (.advance i) = some
        { w.goOn i (.dispatching groups false) with
          scans := w.scans ++ [(g.paths, g.trigger)] } := by
      rw [World.step, hi]
      rfl
    obtain ⟨w', hpath, hrest⟩ := ih (w := { w.goOn i (.dispatching groups false) with
      scans := w.scans ++ [(g.paths, g.trigger)] }) (AList.lookup_insert _)
    exact ⟨w', (Machine.Path.single (a := .advance i) trivial hstep).trans hpath, hrest⟩

theorem exists_sleeping {i : Nat} {phase : WorkerPhase} (hi : w.workers.lookup i = some phase)
    (hattends : phase.attends = true) (hne : w.pending.groups ≠ []) :
    ∃ w' deadline, (debounce delay).Path Quiet w w' ∧
      w'.workers.lookup i = some (.sleeping deadline) ∧ w'.pending = w.pending ∧
      w'.reports = w.reports := by
  have hstart : ∀ u : World, u.workers.lookup i = some .starting → u.pending = w.pending →
      ∃ u' deadline, (debounce delay).Path Quiet u u' ∧
        u'.workers.lookup i = some (.sleeping deadline) ∧ u'.pending = u.pending ∧
        u'.reports = u.reports := by
    intro u hu hpending
    obtain ⟨deadline, hdeadline⟩ : ∃ deadline, u.pending.nextDeadline = some deadline := by
      refine Option.ne_none_iff_exists'.mp fun hnone => hne ?_
      rw [← hpending]
      exact List.map_eq_nil_iff.mp (List.min?_eq_none_iff.mp hnone)
    have hstep : u.step delay (.advance i) = some (u.goOn i (.sleeping deadline)) := by
      rw [World.step, hu, Option.bind_some, World.advance, hdeadline]
    exact ⟨_, deadline, Machine.Path.single (a := .advance i) trivial hstep,
      AList.lookup_insert _, rfl, rfl⟩
  cases phase with
  | starting => exact hstart w hi rfl
  | sleeping deadline => exact ⟨w, deadline, Machine.Path.refl, hi, rfl, rfl⟩
  | dispatching groups done =>
    cases done with
    | true => cases hattends
    | false =>
      obtain ⟨u, hpath, hu, hpending, hreports⟩ := @exists_starting delay w i groups hi
      obtain ⟨u', deadline, hpath', hu', hpending', hreports'⟩ := hstart u hu hpending
      exact ⟨u', deadline, hpath.trans hpath', hu', hpending'.trans hpending,
        hreports'.trans hreports⟩

theorem path_ticks (w : World) (n : Nat) :
    (debounce delay).Path Quiet w { w with now := w.now + n } := by
  induction n with
  | zero => exact Machine.Path.refl
  | succ n ih => exact Machine.Path.tail (a := .tick) ih trivial rfl

theorem exists_taken {i deadline : Nat} (hi : w.workers.lookup i = some (.sleeping deadline)) :
    ∃ w', (debounce delay).Path Quiet w w' ∧ w'.pending.groups = [] ∧
      w'.reports = w.reports := by
  -- the worker sleeps until after the last of the deadlines
  let last := (w.pending.groups.map PendingGroup.deadline).max?.getD 0
  have hlate : ∀ g ∈ w.pending.groups, g.deadline ≤ w.now + last := by
    intro g hg
    have hle : g.deadline ≤ last :=
      List.le_max?_getD_of_mem (List.mem_map_of_mem (f := PendingGroup.deadline) hg)
    omega
  let u : World := { w with now := w.now + last }
  have hstep : u.step delay (.wake i false) = some (u.pass i) := by
    rw [World.step, show u.workers.lookup i = _ from hi, Option.bind_some, World.wake]
    rfl
  refine ⟨u.pass i, (path_ticks w _).tail (a := .wake i false) trivial hstep, ?_, rfl⟩
  refine List.filter_eq_nil_iff.mpr fun g hg => ?_
  simpa using hlate g hg

end World

/-! ### What the monitor promises -/

/-- **No change is lost**: the path of a report that was accepted is in its group, which is
pending or was taken after the report; no group is taken twice, or pending once it was
taken, and no path is pending in two groups: a pass leaves it pending or takes it once; a
group's deadline is within `maxSettleWindows` delays of each of its reports; a pass takes the
groups whose deadlines have come; and while a group is pending there is one worker that
attends to it, which takes it in the end, and never two. -/
theorem no_change_lost {delay : Nat} {w : World}
    (h : (debounce delay).Reaches World.Settled w) :
    (∀ r ∈ w.reports, r.In w.pending.groups ∨ r.In (w.taken.drop r.before)) ∧
    ((w.pending.groups ++ w.taken).map PendingGroup.number).Nodup ∧
    (∀ path, countOf w.pending.groups path ≤ 1 ∧
      ∀ worker flushed w', w.step delay (.wake worker flushed) = some w' →
        countOf w'.pending.groups path + countOf (w'.taken.drop w.taken.length) path =
          countOf w.pending.groups path) ∧
    (∀ r ∈ w.reports, ∀ g ∈ w.pending.groups ++ w.taken, g.number = r.group →
      g.deadline ≤ r.time + delay * maxSettleWindows) ∧
    (∀ worker flushed w', w.step delay (.wake worker flushed) = some w' →
      ∀ g ∈ w.pending.groups, g.deadline ≤ w.now →
        g ∈ w'.taken.drop w.taken.length ∧ g ∉ w'.pending.groups) ∧
    (w.pending.groups ≠ [] → (∃ i phase, w.workers.lookup i = some phase ∧
        phase.attends = true) ∧
      ∃ w', (debounce delay).Path World.Quiet w w' ∧ w'.pending.groups = [] ∧
        w'.reports = w.reports) ∧
    ∀ i j phase phase', w.workers.lookup i = some phase → w.workers.lookup j = some phase' →
      phase.attends = true → phase'.attends = true → i = j := by
  obtain ⟨haccounted, hapart⟩ := World.accounted_of_reaches h
  have hmanned := World.manned_of_reachable h.reachable
  have hpass : ∀ {worker flushed w'}, w.step delay (.wake worker flushed) = some w' →
      w'.pending.groups = (w.pass worker).pending.groups ∧ w'.taken.drop w.taken.length =
        w.pending.groups.filter fun g => g.deadline ≤ w.now := fun hs => by
    obtain ⟨hpending, htaken, -⟩ := World.pass_of_wake hs
    refine ⟨congrArg _ hpending, ?_⟩
    rw [htaken]
    exact List.drop_left
  refine ⟨fun r hr => (haccounted.reports r hr).isIn, haccounted.nodup, fun path => ⟨hapart path,
    fun worker flushed w' hs => ?_⟩, fun r hr g hg hgroup => ?_,
    fun worker flushed w' hs g hg hdue => ?_, fun hne => ?_, hmanned.unique⟩
  · rw [(hpass hs).1, (hpass hs).2]
    exact World.countOf_pass w worker path
  · exact Nat.le_trans (haccounted.deadline g hg)
      ((haccounted.reports r hr).hardDeadline g hg hgroup)
  · rw [(hpass hs).1, (hpass hs).2]
    refine ⟨mem_filter.mpr ⟨hg, decide_eq_true hdue⟩, fun hmem => ?_⟩
    have hkept := (mem_filter.mp hmem).2
    simp [hdue] at hkept
  · obtain ⟨i, phase, hi, hattends⟩ := hmanned.running (hmanned.pending hne)
    obtain ⟨u, deadline, hpath, hu, -, hreports⟩ :=
      @World.exists_sleeping delay w i phase hi hattends hne
    obtain ⟨w', hpath', hnil, hreports'⟩ := @World.exists_taken delay u i deadline hu
    exact ⟨⟨i, phase, hi, hattends⟩, w', hpath.trans hpath', hnil, hreports'.trans hreports⟩

/-! ### A group that is filled up late -/

/-- Three reports, the second of a folder that holds the first; the worker takes the two
groups when they have settled, and the third report opens another. -/
theorem no_change_lost_settled : ∃ w : World, (debounce 2).Reaches World.Settled w ∧
    (∀ r ∈ w.reports, r.In w.pending.groups ∨ r.In (w.taken.drop r.before)) ∧
    w.reports.length = 3 ∧ w.taken.length = 1 ∧
    countOf w.pending.groups "/tv/c.mkv".toList ≤ 1 := by
  obtain ⟨w, hw⟩ : ∃ w, (debounce 2).runWhile World.Settled {}
      [.report 0 "/m/a/b.mkv".toList .watcher, .advance 0, .report 1 "/m/a".toList .webhook,
        .tick, .tick, .wake 0 false, .report 1 "/tv/c.mkv".toList .watcher] = some w :=
      Option.isSome_iff_exists.mp (by decide +kernel)
  have hr : (debounce 2).Reaches World.Settled w := Machine.path_of_runWhile _ hw
  obtain ⟨hkept, -, hapart, -⟩ := no_change_lost hr
  refine ⟨w, hr, hkept, ?_, ?_, (hapart _).1⟩
  · obtain rfl := Option.some.inj hw
    rfl
  · obtain rfl := Option.some.inj hw
    rfl

/-- The third report moves the first group up to a folder that holds the second one's path, and the
fourth joins it. -/
theorem taken_twice : ∃ w w' : World, (debounce 2).Reachable w ∧
    w.step 2 (.wake 0 false) = some w' ∧
    countOf (w'.taken.drop w.taken.length) "/m/y/b".toList = 2 := by
  have h : ((debounce 2).run {} [.report 0 "/m/x/a".toList .watcher,
      .report 1 "/m/y/b".toList .watcher, .report 1 "/m".toList .watcher,
      .report 1 "/m/y/b".toList .watcher, .advance 0, .tick, .tick]).any (fun w =>
        (w.step 2 (.wake 0 false)).any fun w' =>
          countOf (w'.taken.drop w.taken.length) "/m/y/b".toList = 2) = true := by decide +kernel
  obtain ⟨w, hw, h⟩ := (Option.any_eq_true _ _).mp h
  obtain ⟨w', hw', h⟩ := (Option.any_eq_true _ _).mp h
  exact ⟨w, w', Machine.path_of_runWhile _ hw, hw', of_decide_eq_true h⟩

private def longPath (n : Nat) : Path := '/' :: List.replicate n 'a'

private theorem length_longPath (n : Nat) : (longPath n).length = n + 1 := by
  rw [longPath, List.length_cons, List.length_replicate]

theorem accept_root {w : World} {g : PendingGroup} (hgroups : w.pending.groups = [g])
    (hanchor : g.anchor = ['/']) (delay n : Nat) (trigger : ScanTrigger) :
    (w.accept delay (longPath n) trigger).pending.groups =
      [g.join (longPath n) w.now delay] := by
  have hstarts : startsWith (longPath n) g.anchor = true := by
    rw [hanchor]
    exact startsWith_root _
  have hrelated : g.related (longPath n) = true := by
    rw [PendingGroup.related, hstarts]
    rfl
  have hfind : [g].find? (fun x => x.related (longPath n)) = some g :=
    by simp only [List.find?_cons, hrelated]
  rw [World.accept, PendingChanges.enqueue, PendingChanges.groupFor, PendingChanges.groupOf,
    hgroups, hfind]
  simp only [modifyFirst, hrelated, if_true, PendingGroup.rebase, hstarts]

theorem exists_long_group (n : Nat) : ∃ w g, (debounce 60).Reachable w ∧ w.now = 0 ∧
    w.pending.workerRunning = true ∧ w.pending.groups = [g] ∧ g.anchor = ['/'] ∧ g.number = 0 ∧
    g.hardDeadline = 600 ∧ g.paths.card = n + 1 ∧ (∀ p ∈ g.paths, p.length ≤ n + 1) ∧
    ∃ r ∈ w.reports, r.group = 0 ∧ r.time = 0 := by
  induction n with
  | zero =>
    refine ⟨_, _, Machine.Reaches.next (a := .report 0 (longPath 0) .watcher) .start trivial rfl,
      rfl, rfl, rfl, rfl, rfl, rfl, rfl, ?_, _, .head _, rfl, rfl⟩
    decide
  | succ n ih =>
    obtain ⟨w, g, hr, hnow, hrunning, hgroups, hanchor, hnumber, hhard, hcard, hlength, r, hmem,
      hgroup, htime⟩ := ih
    have hstep : w.step 60 (.report 0 (longPath (n + 1)) .watcher) =
        some (w.accept 60 (longPath (n + 1)) .watcher) := by
      rw [World.step, World.report, if_pos hrunning]
    have hnew : longPath (n + 1) ∉ g.paths := by
      intro hp
      have hle := hlength _ hp
      rw [length_longPath] at hle
      omega
    refine ⟨_, _, hr.next (a := .report 0 (longPath (n + 1)) .watcher) trivial hstep, hnow, rfl,
      accept_root hgroups hanchor 60 _ _, hanchor, hnumber, hhard, ?_, fun p hp => ?_, r,
      mem_append_left _ hmem, hgroup, htime⟩
    · exact (Finset.card_insert_of_notMem hnew).trans (by rw [hcard])
    · rcases Finset.mem_insert.mp hp with rfl | hp
      · exact (length_longPath _).le
      · exact Nat.le_succ_of_le (hlength p hp)

/-- The worker is held up beyond the hard deadline of a group that lacks one path, and then
the path comes: the deadline of the group is set to that time. -/
theorem deadline_exceeded : ∃ w : World, (debounce 60).Reachable w ∧
    ∃ r ∈ w.reports, ∃ g ∈ w.pending.groups, g.number = r.group ∧
      r.time + 60 * maxSettleWindows < g.deadline := by
  obtain ⟨w, g, hr, hnow, hrunning, hgroups, hanchor, hnumber, -, hcard, hlength, r, hmem,
    hgroup, htime⟩ := exists_long_group 19998
  let u : World := { w with now := w.now + 601 }
  have hu : (debounce 60).Reachable u :=
    hr.trans ((World.path_ticks w 601).mono fun _ _ _ => trivial)
  have hstep : u.step 60 (.report 0 (longPath 19999) .watcher) =
      some (u.accept 60 (longPath 19999) .watcher) := by
    rw [World.step, World.report, if_pos hrunning]
  have hnew : longPath 19999 ∉ g.paths := by
    intro hp
    have hle := hlength _ hp
    rw [length_longPath] at hle
    omega
  have hfull : maxPendingPaths ≤ (insert (longPath 19999) g.paths).card := by
    rw [Finset.card_insert_of_notMem hnew, hcard]
    exact Nat.le_refl _
  refine ⟨_, hu.next (a := .report 0 (longPath 19999) .watcher) trivial hstep, r,
    mem_append_left _ hmem, g.join (longPath 19999) u.now 60, ?_,
    hnumber.trans hgroup.symm, ?_⟩
  · rw [accept_root (w := u) hgroups hanchor]
    exact List.mem_singleton_self _
  · have hdeadline : (g.join (longPath 19999) u.now 60).deadline = w.now + 601 := if_pos hfull
    rw [hdeadline, htime, hnow]
    decide

end Ferrofin.Monitor
