import Ferrofin.Changes.Audience

/-!
# Batches lose nothing and leak nothing

From every state the timers and the tasks, on their own, publish every batch
(`published_of_recorded`), and with `Notifier.Sound` each once.

* `library_changed`: the result.
-/

namespace Ferrofin.Changes

open Lib

def Event.Own : Event → Prop
  | .tick _ | .readLength _ _ | .fire _ _ | .publish _ _ => True
  | .setAudience | .add _ _ _ | .flush _ => False

/-- How many steps a task has to go at most, when the audience does not answer. -/
def Phase.left : Phase → Nat
  | .announcing => 2
  | .broadcasting | .listing => 1
  | .libraries _ users => 4 * users.length + 4
  | .topParents _ users _ => 4 * users.length + 3
  | .items _ users _ _ _ _ _ => 4 * users.length + 2
  | .delivering users => 4 * users.length + 1

namespace Notifier

variable {debounce : Nat} {m m' : Notifier}

def Nearer (m : Notifier) (i : Nat) (p : Publisher) (batch : Pending) (n : Nat) : Prop :=
  ∃ p', m.publishers.lookup i = some p' ∧ p'.queue = p.queue ∧
    (p'.current = none ∨ ∃ phase, p'.current = some (batch, phase) ∧ phase.left < n)

theorem nearer_goneOut (m : Notifier) (i : Nat) (p : Publisher) (batch : Pending) (n : Nat) :
    (m.goneOut i p).Nearer i p batch n := ⟨_, AList.lookup_insert _, rfl, .inl rfl⟩

theorem nearer_goOn (m : Notifier) (i : Nat) (p : Publisher) (batch : Pending) (phase : Phase)
    {n : Nat} (h : phase.left < n) : (m.goOn i p batch phase).Nearer i p batch n :=
  ⟨_, AList.lookup_insert _, rfl, .inr ⟨phase, rfl, h⟩⟩

theorem nearer_visit (m : Notifier) (i : Nat) (p : Publisher) (batch : Pending)
    {users : List Uuid} {n : Nat} (h : 4 * users.length < n) :
    (m.visit i p batch users).Nearer i p batch n := by
  cases users with
  | nil => exact m.nearer_goneOut i p batch n
  | cons user users =>
    refine m.nearer_goOn i p batch _ ?_
    rw [List.length_cons] at h
    rw [Phase.left]
    omega

theorem nearer_publishOn (m : Notifier) (i : Nat) (p : Publisher) (batch : Pending)
    (phase : Phase) : (m.publishOn i p none batch phase).Nearer i p batch phase.left := by
  cases phase with
  | announcing =>
    rw [publishOn]
    split
    · exact m.nearer_goOn i p batch .listing (by decide)
    · exact m.nearer_goOn i p batch .broadcasting (by decide)
  | broadcasting => exact m.nearer_goneOut i p batch _
  | listing => exact m.nearer_goneOut i p batch _
  | libraries user users => exact m.nearer_visit i p batch (by rw [Phase.left]; omega)
  | topParents user users visible => exact m.nearer_goOn i p batch _ (Nat.lt_succ_self _)
  | items user users visible tops lists moved candidates =>
    rw [publishOn]
    split
    · exact m.nearer_visit i p batch (by rw [Phase.left]; omega)
    · exact m.nearer_goOn i p batch (.delivering users) (Nat.lt_succ_self _)
  | delivering users => exact m.nearer_visit i p batch (by rw [Phase.left]; omega)

def Runs (debounce : Nat) (m m' : Notifier) : Prop :=
  (notifier debounce).Path (fun _ e => e.Own) m m'

theorem Sound.runs (h : m.Sound []) (hr : Runs debounce m m') : m'.Sound [] :=
  Machine.Path.invariant (I := fun m => m.Sound []) hr h fun _ _ _ hsound _ hs => hsound.step hs

theorem recorded_step {e : Event} (he : e.Own) (hs : m.step debounce e = some m') :
    m'.recorded = m.recorded := by
  have htake : ∀ (m : Notifier) (i : Nat) (window : Option Nat),
      (m.takeAndPublish i window).recorded = m.recorded := by
    intro m i window
    rw [takeAndPublish, Notifier.take]
    by_cases hw : (window.any fun w => m.pending.window ≠ some w) = true
    · rw [if_pos hw]
    · rw [if_neg hw]
      cases m.pending.isEmpty <;> rfl
  cases e with
  | setAudience | add | flush => exact he.elim
  | tick elapsed =>
    cases hs
    rfl
  | readLength window configuration =>
    obtain ⟨timer, -, hs⟩ := Option.bind_eq_some_iff.mp hs
    cases timer with
    | sleeping due => cases hs
    | reading =>
      cases hs
      rfl
  | fire i window =>
    rw [Notifier.step] at hs
    split at hs
    · cases hs
    · obtain ⟨timer, -, hs⟩ := Option.bind_eq_some_iff.mp hs
      cases timer with
      | reading => cases hs
      | sleeping due =>
        rw [Notifier.fire] at hs
        split at hs
        · cases hs
          exact htake _ i (some window)
        · cases hs
  | publish i answer =>
    obtain ⟨p, -, hs⟩ := Option.bind_eq_some_iff.mp hs
    rw [Notifier.publish] at hs
    split at hs
    · next batch phase hcurrent =>
      cases hs
      obtain ⟨p', broadcasts, delivered, heq, -⟩ := m.publishOn_eq i p answer batch phase
      rw [heq]
    · dsimp only at hs
      split at hs
      · cases hs
        rfl
      · cases hs
        rfl
    · cases hs

theorem recorded_runs (hr : Runs debounce m m') : m'.recorded = m.recorded :=
  Machine.Path.invariant (I := fun x => x.recorded = m.recorded) hr rfl
    fun _ _ _ heq hown hs => (recorded_step hown hs).trans heq

theorem runs_done (debounce : Nat) {i : Nat} {batch : Pending} (n : Nat) :
    ∀ {m : Notifier} {p : Publisher} {phase : Phase},
      m.publishers.lookup i = some p → p.current = some (batch, phase) → phase.left < n →
        ∃ m' p', Runs debounce m m' ∧ m'.publishers.lookup i = some p' ∧ p'.current = none ∧
          p'.queue = p.queue := by
  induction n with
  | zero => exact fun _ _ hlt => absurd hlt (Nat.not_lt_zero _)
  | succ n ih =>
    intro m p phase hi hcurrent hlt
    have hs : (notifier debounce).step m (.publish i none) =
        some (m.publishOn i p none batch phase) := by
      show (m.publishers.lookup i).bind (m.publish i none) = _
      rw [hi, Option.bind_some, Notifier.publish, hcurrent]
    have hstep : Runs debounce m (m.publishOn i p none batch phase) :=
      Machine.Path.single (a := .publish i none) trivial hs
    obtain ⟨p', hi', hqueue, hnone | ⟨phase', hcurrent', hlt'⟩⟩ :=
      m.nearer_publishOn i p batch phase
    · exact ⟨_, p', hstep, hi', hnone, hqueue⟩
    · obtain ⟨m'', p'', hruns, hi'', hnone, hqueue'⟩ := ih hi' hcurrent' (by omega)
      exact ⟨m'', p'', hstep.trans hruns, hi'', hnone, hqueue'.trans hqueue⟩

theorem runs_next (debounce : Nat) (h : m.Sound []) {i : Nat} {p : Publisher} {b : Pending}
    {queue : List Pending}
    (hi : m.publishers.lookup i = some p) (hcurrent : p.current = none)
    (hqueue : p.queue = b :: queue) :
    ∃ m' p', Runs debounce m m' ∧ m'.publishers.lookup i = some p' ∧ p'.queue = queue ∧
      (b, (fold b).info) ∈ m'.published := by
  have hout : m.Out [] b := .inr (.inl ⟨i, p, hi, hqueue ▸ List.mem_cons_self⟩)
  have hfull : ¬ (fold b).info.isEmpty = true := fun hempty => by
    have hempty' := isEmpty_of_isEmpty_fold hempty
    rw [(h.accounted.out b hout).2] at hempty'
    cases hempty'
  have hs : (notifier debounce).step m (.publish i none) =
      some { m.goOn i { p with queue := queue } b .announcing with
        published := m.published ++ [(b, (fold b).info)] } := by
    show (m.publishers.lookup i).bind (m.publish i none) = _
    rw [hi, Option.bind_some, Notifier.publish, hcurrent, hqueue]
    exact if_neg hfull
  exact ⟨_, _, Machine.Path.single (a := .publish i none) trivial hs, AList.lookup_insert _, rfl,
    List.mem_append_right _ List.mem_cons_self⟩

/-- **A task publishes its batches**, one after another. -/
theorem runs_queue (queue : List Pending) : ∀ {m : Notifier} {i : Nat} {p : Publisher}
    {b : Pending}, m.Sound [] → m.publishers.lookup i = some p → p.queue = queue → b ∈ queue →
      ∃ m', Runs debounce m m' ∧ (b, (fold b).info) ∈ m'.published := by
  induction queue with
  | nil => exact fun _ _ _ hb => nomatch hb
  | cons b₀ queue ih =>
    intro m i p b h hi hqueue hb
    obtain ⟨m₁, p₁, hruns₁, hi₁, hnone₁, hqueue₁⟩ : ∃ m' p', Runs debounce m m' ∧
        m'.publishers.lookup i = some p' ∧ p'.current = none ∧ p'.queue = p.queue := by
      cases hcurrent : p.current with
      | none => exact ⟨m, p, Machine.Path.refl, hi, hcurrent, rfl⟩
      | some current => exact runs_done debounce _ hi hcurrent (Nat.lt_succ_self _)
    obtain ⟨m₂, p₂, hruns₂, hi₂, hqueue₂, hpublished⟩ :=
      runs_next debounce (h.runs hruns₁) hi₁ hnone₁ (hqueue₁.trans hqueue)
    rcases List.mem_cons.mp hb with rfl | hb
    · exact ⟨m₂, hruns₁.trans hruns₂, hpublished⟩
    · obtain ⟨m₃, hruns₃, hpublished'⟩ := ih ((h.runs hruns₁).runs hruns₂) hi₂ hqueue₂ hb
      exact ⟨m₃, (hruns₁.trans hruns₂).trans hruns₃, hpublished'⟩

/-- **The timer of the open window takes its batch.** -/
theorem runs_timer (debounce : Nat) (h : m.Sound []) {w : Nat} (hw : m.pending.window = some w) :
    ∃ m' i p, Runs debounce m m' ∧ m'.publishers.lookup i = some p ∧ p.queue = [m.pending] := by
  have hsleeping : ∃ m₁ due, Runs debounce m m₁ ∧ m₁.pending = m.pending ∧
      m₁.timers.lookup w = some (.sleeping due) := by
    obtain ⟨timer, htimer⟩ := Option.isSome_iff_exists.mp (h.accounted.timed w hw)
    cases timer with
    | sleeping due => exact ⟨m, due, Machine.Path.refl, rfl, htimer⟩
    | reading =>
      have hs : (notifier debounce).step m (.readLength w none) = some { m with
          timers := m.timers.insert w (.sleeping (m.now + windowLength debounce none)) } := by
        show (m.timers.lookup w).bind (m.readLength debounce w none) = _
        rw [htimer, Option.bind_some]
        rfl
      exact ⟨_, _, Machine.Path.single (a := .readLength w none) trivial hs, rfl,
        AList.lookup_insert _⟩
  obtain ⟨m₁, due, hruns, hpending, htimer⟩ := hsleeping
  have hsized := (h.runs hruns).sized
  obtain ⟨i, hfree⟩ := KeyedMap.exists_lookup_eq_none m₁.publishers
  have htick : (notifier debounce).step m₁ (.tick due) =
      some { m₁ with now := m₁.now + due } := rfl
  have hw₁ : m₁.pending.window = some w := hpending ▸ hw
  have hfire : (notifier debounce).step { m₁ with now := m₁.now + due } (.fire i w) =
      some (spawn { m₁ with
        now := m₁.now + due
        timers := m₁.timers.erase w
        pending := {} } i [m₁.pending]) := by
    show (if (m₁.publishers.lookup i).isSome then none
      else (m₁.timers.lookup w).bind (fire { m₁ with now := m₁.now + due } i w)) = _
    rw [hfree, htimer, Option.bind_some, fire, if_pos (Nat.le_add_left _ _)]
    have hsized' : Sized { m₁ with
        now := m₁.now + due
        timers := m₁.timers.erase w } [] := ⟨hsized.opened, hsized.small, hsized.out⟩
    rw [takeAndPublish_of_window hsized' hw₁ (.inr rfl)]
    rfl
  have hruns₁ : Runs debounce m { m₁ with now := m₁.now + due } :=
    Machine.Path.tail (a := .tick due) hruns trivial htick
  refine ⟨_, i, _, Machine.Path.tail (a := .fire i w) hruns₁ trivial hfire,
    AList.lookup_insert _, ?_⟩
  rw [hpending]

theorem published_of_recorded (debounce : Nat) (h : m.Sound []) {w : Nat} {kind : Kind}
    {c : Changed}
    (hr : (w, kind, c) ∈ m.recorded) :
    ∃ m' b, Runs debounce m m' ∧ (b, (fold b).info) ∈ m'.published ∧ b.window = some w := by
  have honce := h.accounted.once w
  rw [if_pos (h.accounted.recorded _ hr), occurrences, countOf_singleton] at honce
  have hnil : countOf w [] = 0 := rfl
  by_cases hw : m.pending.window = some w
  · obtain ⟨m₁, i, p, hruns₁, hi, hqueue⟩ := runs_timer debounce h hw
    obtain ⟨m₂, hruns₂, hpublished⟩ := runs_queue [m.pending] (h.runs hruns₁) hi hqueue
      List.mem_cons_self
    exact ⟨m₂, m.pending, hruns₁.trans hruns₂, hpublished, hw⟩
  · rw [if_neg hw] at honce
    by_cases hcount : 0 < countOf w (m.published.map Prod.fst)
    · obtain ⟨b, hb, hbw⟩ := List.countP_pos_iff.mp hcount
      obtain ⟨⟨b, info⟩, hmem, rfl⟩ := List.mem_map.mp hb
      have hinfo := h.accounted.info b info hmem
      exact ⟨m, b, Machine.Path.refl, hinfo ▸ hmem, of_decide_eq_true hbw⟩
    · have hpos : 0 < KeyedMap.total (fun p => countOf w p.queue) m.publishers := by omega
      obtain ⟨i, p, hi, hp⟩ := KeyedMap.exists_of_total_pos hpos
      obtain ⟨b, hb, hbw⟩ := List.countP_pos_iff.mp hp
      obtain ⟨m', hruns, hpublished⟩ := runs_queue p.queue h hi rfl hb
      exact ⟨m', b, hruns, hpublished, of_decide_eq_true hbw⟩

theorem Sound.published_le_one (h : m.Sound []) (w : Nat) :
    countOf w (m.published.map Prod.fst) ≤ 1 := by
  have honce := h.accounted.once w
  rw [occurrences] at honce
  split at honce <;> omega

theorem Sound.fire_published (h : m.Sound []) {i w : Nat} {b : Pending} {info : LibraryUpdateInfo}
    (hb : (b, info) ∈ m.published) (hw : b.window = some w)
    (hs : m.step debounce (.fire i w) = some m') :
    m' = { m with timers := m.timers.erase w } := by
  have hopen : m.pending.window ≠ some w := fun hpending =>
    h.accounted.window_ne (.inr (.inr ⟨info, hb⟩)) hpending hw
  rw [Notifier.step] at hs
  split at hs
  · cases hs
  · obtain ⟨timer, -, hs⟩ := Option.bind_eq_some_iff.mp hs
    cases timer with
    | reading => cases hs
    | sleeping due =>
      rw [Notifier.fire, @takeAndPublish_of_ne { m with timers := m.timers.erase w } w hopen] at hs
      split at hs
      · exact (Option.some.inj hs).symm
      · cases hs

theorem recorded_addOne (kind : Kind) (p : Notifier × List Pending) (c : Changed) :
    (addOne kind p c).1.recorded.map Prod.snd = p.1.recorded.map Prod.snd ++ [(kind, c)] := by
  obtain ⟨w, hw⟩ : ∃ w, p.1.openWindow.pending.window = some w := by
    rw [openWindow]
    split
    · next w hw => exact ⟨w, hw⟩
    · exact ⟨_, rfl⟩
  have hopen : p.1.openWindow.recorded = p.1.recorded := by
    rw [openWindow]
    split <;> rfl
  have hinsert : (p.1.openWindow.insert kind c).recorded.map Prod.snd =
      p.1.recorded.map Prod.snd ++ [(kind, c)] := by
    rw [insert, hw, hopen, List.map_append]
    rfl
  rw [addOne]
  split <;> exact hinsert

theorem recorded_foldl (kind : Kind) (changed : List Changed) (p : Notifier × List Pending) :
    (changed.foldl (addOne kind) p).1.recorded.map Prod.snd =
      p.1.recorded.map Prod.snd ++ changed.map (kind, ·) := by
  induction changed generalizing p with
  | nil => exact (List.append_nil _).symm
  | cons c changed ih =>
    rw [List.foldl_cons, ih, recorded_addOne, List.map_cons, List.append_assoc]
    rfl

/-- **What is added is recorded.** -/
theorem recorded_add {i : Nat} {changed : List Changed} {kind : Kind}
    (hs : m.step debounce (.add i changed kind) = some m') :
    m'.recorded.map Prod.snd = m.recorded.map Prod.snd ++ changed.map (kind, ·) := by
  rw [step] at hs
  split at hs
  · cases hs
  · cases hs
    rw [← recorded_foldl kind changed (m, []), add]
    split
    · next hfold => rw [hfold]
    · next hfold => rw [hfold]; rfl

end Notifier

/-! ### The result -/

/-- **Batches lose nothing and leak nothing.**  What is added is recorded; a recorded change gets
into the published batch of its window, that batch is published once, and what it lists was
recorded in the window; the timer of its window does nothing any more; it is no larger than a full
one.  A payload pushed to a user is made of a published batch, is not empty, names besides the items
removed what the user can see in libraries the user can see, and no item as added and as updated. -/
theorem library_changed {debounce : Nat} {m : Notifier} (h : (notifier debounce).Reachable m) :
    (∀ i changed kind m', m.step debounce (.add i changed kind) = some m' →
      m'.recorded.map Prod.snd = m.recorded.map Prod.snd ++ changed.map (kind, ·)) ∧
    (∀ w kind c, (w, kind, c) ∈ m.recorded →
      ∃ m' b info, (notifier debounce).Path (fun _ e => e.Own) m m' ∧ (b, info) ∈ m'.published ∧
        b.window = some w ∧
        (c.id ∈ info.items kind ∨ (kind = .updated ∧ c.id ∈ info.itemsAdded))) ∧
    (∀ w, countOf w (m.published.map Prod.fst) ≤ 1) ∧
    (∀ b info, (b, info) ∈ m.published → ∃ w, b.window = some w ∧ ∀ kind id,
      id ∈ info.items kind → ∃ c, (w, kind, c) ∈ m.recorded ∧ c.id = id) ∧
    (∀ b info w i m', (b, info) ∈ m.published → b.window = some w →
      m.step debounce (.fire i w) = some m' → m' = { m with timers := m.timers.erase w }) ∧
    (∀ b info, (b, info) ∈ m.published → b.len ≤ maxBatchSize) ∧
    (∀ d ∈ m.delivered, m.HasPublished d.batch ∧ d.info.isEmpty = false ∧
      (∀ id ∈ d.info.announced,
        id ∈ d.seen ∧ ∃ c ∈ d.batch.announced, c.id = id ∧ ∃ t ∈ d.tops, c.topParent = some t) ∧
      (∀ id ∈ d.info.collectionFolders, id ∈ d.visible) ∧
      ∀ id ∈ d.info.itemsAdded, id ∉ d.info.itemsUpdated) := by
  have hsound := sound_of_reachable h
  have hfiltered : m.Filtered := h.invariant .init fun _ _ _ hf _ hs => hf.step hs
  refine ⟨fun _ _ _ _ => Notifier.recorded_add, fun w kind c hr => ?_, hsound.published_le_one,
    fun b info hb => ?_,
    fun b info w i m' hb hw hs => hsound.fire_published hb hw hs,
    fun b info hb => hsound.sized.out b (.inr (.inr ⟨info, hb⟩)), fun d hd => ?_⟩
  · obtain ⟨m', b, hruns, hb, hw⟩ := Notifier.published_of_recorded debounce hsound hr
    have hsound' := hsound.runs hruns
    have hr' : (w, kind, c) ∈ m'.recorded := Notifier.recorded_runs hruns ▸ hr
    refine ⟨m', b, _, hruns, hb, hw, listed_of_names ?_⟩
    exact (hsound'.accounted.records b (.inr (.inr (.inr ⟨_, hb⟩))) w hw kind c.id).mpr
      ⟨c, hr', rfl⟩
  · obtain ⟨w, hw⟩ := (hsound.accounted.out b (.inr (.inr ⟨info, hb⟩))).1
    refine ⟨w, hw, fun kind id hid => ?_⟩
    rw [hsound.accounted.info b info hb] at hid
    exact (hsound.accounted.records b (.inr (.inr (.inr ⟨info, hb⟩))) w hw kind id).mp
      (names_of_listed hid)
  · obtain ⟨hpublished, hinfo, hempty⟩ := hfiltered.delivered d hd
    refine ⟨hpublished, hempty, fun id hid => ?_, fun id hid => ?_, fun id hadded hupdated => ?_⟩
    · rw [hinfo] at hid
      exact userInfo_visible hid
    · rw [hinfo] at hid
      exact userInfo_collectionFolders hid
    · rw [hinfo] at hadded hupdated
      exact userInfo_disjoint hadded hupdated

private def movie : Changed := { id := 10, topParent := some 2, parent := some 3 }

private def hidden : Changed := { id := 11, topParent := some 2, parent := some 4 }

/-- Two items of a library are added, and a user who can see the one is told of it. -/
theorem library_changed_told : ∃ m : Notifier, (notifier 30000).Reachable m ∧
    (∃ d ∈ m.delivered, d.user = 7 ∧ d.info.itemsAdded = [10] ∧ d.info.foldersAddedTo = [3] ∧
      10 ∈ d.seen) ∧
    (0, .added, hidden) ∈ m.recorded ∧ countOf 0 (m.published.map Prod.fst) ≤ 1 := by
  obtain ⟨m, hm⟩ : ∃ m, (notifier 30000).run {}
      ([.setAudience, .add 0 [movie, hidden] .added, .readLength 0 (some 5), .tick 5000,
        .fire 0 0, .publish 0 none, .publish 0 none, .publish 0 (some [7]),
        .publish 0 (some [1]), .publish 0 (some [1, 2]), .publish 0 (some [3, 10])]) =
      some m :=
      Option.isSome_iff_exists.mp (by decide +kernel)
  have hr : (notifier 30000).Reachable m := Machine.reachable_of_run _ hm
  obtain ⟨-, -, honce, -, -, -, htold⟩ := library_changed hr
  have hcount := honce 0
  obtain ⟨d, hd, huser, hadded, hfolders⟩ : ∃ d ∈ m.delivered, d.user = 7 ∧
      d.info.itemsAdded = [10] ∧ d.info.foldersAddedTo = [3] := by
    obtain rfl := Option.some.inj hm
    exact ⟨_, .head _, rfl, rfl, rfl⟩
  refine ⟨m, hr, ⟨d, hd, huser, hadded, hfolders, ?_⟩, ?_, hcount⟩
  · refine ((htold d hd).2.2.1 10 ?_).1
    rw [LibraryUpdateInfo.announced, hadded]
    exact List.mem_append_left _ (List.mem_append_left _ (List.mem_append_left _ (.head _)))
  · obtain rfl := Option.some.inj hm
    exact .tail _ (.head _)

end Ferrofin.Changes
