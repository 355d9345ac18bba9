import Ferrofin.Changes.Notifier

/-!
# Every window's batch is in one place

A batch is open, taken and on its way to the task that publishes it, with that task, or
published.  `Notifier.Accounted` says that the batch of every window is in one of these places
once, that a batch names what was recorded in its window, and that the open window has its
timer; `Accounted.step` that every step keeps it.
-/

namespace Ferrofin.Changes

open Lib

def countOf (w : Nat) (batches : List Pending) : Nat :=
  batches.countP fun b => decide (b.window = some w)

theorem countOf_append (w : Nat) (l l' : List Pending) :
    countOf w (l ++ l') = countOf w l + countOf w l' := List.countP_append

theorem countOf_cons (w : Nat) (b : Pending) (l : List Pending) :
    countOf w (b :: l) = countOf w [b] + countOf w l :=
  countOf_append w [b] l

theorem countOf_singleton (w : Nat) (b : Pending) :
    countOf w [b] = if b.window = some w then 1 else 0 := by
  rw [countOf, List.countP_singleton]
  by_cases h : b.window = some w
  · rw [if_pos h, if_pos (decide_eq_true h)]
  · rw [if_neg h, if_neg (by rw [decide_eq_true_eq]; exact h)]

namespace Notifier

variable {debounce : Nat} {m m' : Notifier} {taken : List Pending}

def occurrences (m : Notifier) (taken : List Pending) (w : Nat) : Nat :=
  countOf w [m.pending] + countOf w taken +
    KeyedMap.total (fun p => countOf w p.queue) m.publishers + countOf w (m.published.map Prod.fst)

def Out (m : Notifier) (taken : List Pending) (b : Pending) : Prop :=
  b ∈ taken ∨ (∃ i p, m.publishers.lookup i = some p ∧ b ∈ p.queue) ∨
    ∃ info, (b, info) ∈ m.published

def Records (recorded : List (Nat × Kind × Changed)) (b : Pending) : Prop :=
  ∀ w, b.window = some w → ∀ kind id,
    b.Names kind id ↔ ∃ c, (w, kind, c) ∈ recorded ∧ c.id = id

/-- The invariant; `taken` is on its way to a task. -/
structure Accounted (m : Notifier) (taken : List Pending) : Prop where
  once : ∀ w, m.occurrences taken w = if w < m.nextWindow then 1 else 0
  closed : m.pending.window = none → m.pending.isEmpty = true
  timed : ∀ w, m.pending.window = some w → (m.timers.lookup w).isSome = true
  records : ∀ b, b = m.pending ∨ m.Out taken b → Records m.recorded b
  recorded : ∀ r ∈ m.recorded, r.1 < m.nextWindow
  out : ∀ b, m.Out taken b → (∃ w, b.window = some w) ∧ b.isEmpty = false
  info : ∀ b info, (b, info) ∈ m.published → info = (fold b).info

theorem Accounted.init : Accounted ({} : Notifier) [] where
  once w := by rw [if_neg (Nat.not_lt_zero w)]; rfl
  closed _ := rfl
  timed w h := by cases h
  records b h := by
    rcases h with rfl | h | ⟨i, p, hp, -⟩ | ⟨info, h⟩
    · intro w hw
      cases hw
    · cases h
    · cases hp
    · cases h
  recorded r h := by cases h
  out b h := by
    rcases h with h | ⟨i, p, hp, -⟩ | ⟨info, h⟩
    · cases h
    · cases hp
    · cases h
  info b info h := by cases h

/-! ### The parts of a step -/

theorem countOf_pos {w : Nat} {b : Pending} {l : List Pending} (hb : b ∈ l)
    (hw : b.window = some w) : 0 < countOf w l :=
  List.countP_pos_iff.mpr ⟨b, hb, decide_eq_true hw⟩

theorem occurrences_pos {b : Pending} {w : Nat} (hb : b = m.pending ∨ m.Out taken b)
    (hw : b.window = some w) : 0 < m.occurrences taken w := by
  rw [occurrences]
  rcases hb with rfl | hb | ⟨i, p, hp, hb⟩ | ⟨info, hb⟩
  · have h : 0 < countOf w [m.pending] := countOf_pos List.mem_cons_self hw
    omega
  · have h := countOf_pos hb hw
    omega
  · have h := countOf_pos hb hw
    rw [KeyedMap.total_eq_add_erase _ hp]
    omega
  · have h := countOf_pos (List.mem_map_of_mem (f := Prod.fst) hb) hw
    omega

theorem Accounted.window_lt (h : m.Accounted taken) {b : Pending} {w : Nat}
    (hb : b = m.pending ∨ m.Out taken b) (hw : b.window = some w) : w < m.nextWindow := by
  have hpos := occurrences_pos hb hw
  rw [h.once] at hpos
  split at hpos
  · assumption
  · exact absurd hpos (Nat.lt_irrefl 0)

theorem Accounted.window_ne (h : m.Accounted taken) {b : Pending} {w : Nat}
    (hb : m.Out taken b) (hw : m.pending.window = some w) : b.window ≠ some w := by
  intro hbw
  have hlt := h.window_lt (.inl rfl) hw
  have honce := h.once w
  rw [if_pos hlt, occurrences, countOf_singleton, if_pos hw] at honce
  rcases hb with hb | ⟨i, p, hp, hb⟩ | ⟨info, hb⟩
  · have hpos := countOf_pos hb hbw
    omega
  · have hpos := countOf_pos hb hbw
    rw [KeyedMap.total_eq_add_erase _ hp] at honce
    omega
  · have hpos := countOf_pos (List.mem_map_of_mem (f := Prod.fst) hb) hbw
    omega

/-! ### What is out after a step -/

theorem out_take {b : Pending} (h : Out { m with pending := {} } (taken ++ [m.pending]) b) :
    b = m.pending ∨ m.Out taken b := by
  rcases h with hb | hb
  · rcases List.mem_append.mp hb with hb | hb
    · exact .inr (.inl hb)
    · exact .inl (List.mem_singleton.mp hb)
  · exact .inr (.inr hb)

theorem out_spawn {i : Nat} {b : Pending} (h : (m.spawn i taken).Out [] b) : m.Out taken b := by
  rcases h with hb | ⟨j, p, hp, hb⟩ | hb
  · cases hb
  · rw [Notifier.spawn, KeyedMap.lookup_insert_eq] at hp
    split at hp
    · cases hp
      exact .inl hb
    · exact .inr (.inl ⟨j, p, hp, hb⟩)
  · exact .inr (.inr hb)

theorem out_publisher {i : Nat} {p p' : Publisher} (hi : m.publishers.lookup i = some p)
    (hqueue : p'.queue = p.queue) {b : Pending}
    (h : Out { m with publishers := m.publishers.insert i p' } [] b) : m.Out [] b := by
  rcases h with hb | ⟨j, q, hq, hb⟩ | hb
  · cases hb
  · rw [KeyedMap.lookup_insert_eq] at hq
    split at hq
    · cases hq
      exact .inr (.inl ⟨i, p, hi, hqueue ▸ hb⟩)
    · exact .inr (.inl ⟨j, q, hq, hb⟩)
  · exact .inr (.inr hb)

theorem out_publish {i : Nat} {p p' : Publisher} {b : Pending}
    (hi : m.publishers.lookup i = some p) (hqueue : p.queue = b :: p'.queue) {c : Pending}
    (h : Out { m with
      publishers := m.publishers.insert i p'
      published := m.published ++ [(b, (fold b).info)] } [] c) : m.Out [] c := by
  rcases h with hc | ⟨j, q, hq, hc⟩ | ⟨info, hc⟩
  · cases hc
  · rw [KeyedMap.lookup_insert_eq] at hq
    split at hq
    · cases hq
      exact .inr (.inl ⟨i, p, hi, hqueue ▸ List.mem_cons_of_mem _ hc⟩)
    · exact .inr (.inl ⟨j, q, hq, hc⟩)
  · rcases List.mem_append.mp hc with hc | hc
    · exact .inr (.inr ⟨info, hc⟩)
    · obtain ⟨rfl, -⟩ := Prod.mk.inj (List.mem_singleton.mp hc)
      exact .inr (.inl ⟨i, p, hi, hqueue ▸ List.mem_cons_self⟩)

/-! ### What a step keeps -/

theorem Records.append_of_ne {recorded : List (Nat × Kind × Changed)} {b : Pending}
    (h : Records recorded b) {w : Nat} (hw : b.window ≠ some w) (kind : Kind) (c : Changed) :
    Records (recorded ++ [(w, kind, c)]) b := by
  intro w' hw' kind' id
  rw [h w' hw' kind' id]
  refine exists_congr fun c' => and_congr_left' ?_
  rw [List.mem_append, List.mem_singleton]
  refine (or_iff_left fun heq => hw ?_).symm
  rw [hw', (Prod.mk.inj heq).1]

theorem Records.insert {recorded : List (Nat × Kind × Changed)} {b : Pending}
    (h : Records recorded b) {w : Nat} (hw : b.window = some w) (kind : Kind) (c : Changed) :
    Records (recorded ++ [(w, kind, c)]) (b.insert c kind) := by
  intro w' hw' kind' id
  rw [Pending.window_insert, hw] at hw'
  obtain rfl := Option.some.inj hw'
  rw [Pending.names_insert, h w hw kind' id]
  constructor
  · rintro (⟨rfl, rfl⟩ | ⟨c', hc', rfl⟩)
    · exact ⟨c, List.mem_append_right _ List.mem_cons_self, rfl⟩
    · exact ⟨c', List.mem_append_left _ hc', rfl⟩
  · rintro ⟨c', hc', rfl⟩
    rcases List.mem_append.mp hc' with hc' | hc'
    · exact .inr ⟨c', hc', rfl⟩
    · obtain ⟨rfl, rfl⟩ := Prod.mk.inj (Prod.mk.inj (List.mem_singleton.mp hc')).2
      exact .inl ⟨rfl, rfl⟩

/-- **A window opens.** -/
theorem Accounted.opened (h : m.Accounted taken) (hnone : m.pending.window = none) :
    Accounted { m with
      pending := { m.pending with window := some m.nextWindow }
      nextWindow := m.nextWindow + 1
      timers := m.timers.insert m.nextWindow .reading } taken := by
  have hempty := m.pending.isEmpty_iff.mp (h.closed hnone)
  refine ⟨fun w => ?_, nofun, fun w hw => ?_, ?_, fun r hr => ?_, h.out, h.info⟩
  · have honce := h.once w
    rw [occurrences, countOf_singleton, hnone, if_neg nofun] at honce
    rw [occurrences, countOf_singleton]
    dsimp only
    by_cases hw : w = m.nextWindow
    · rw [hw, if_neg (Nat.lt_irrefl _)] at honce
      rw [hw, if_pos rfl, if_pos (Nat.lt_succ_self _)]
      omega
    · rw [if_neg fun heq => hw (Option.some.inj heq).symm, honce]
      by_cases hlt : w < m.nextWindow
      · rw [if_pos hlt, if_pos (Nat.lt_succ_of_lt hlt)]
      · rw [if_neg hlt, if_neg (by omega)]
  · obtain rfl := Option.some.inj hw
    show (AList.lookup _ (AList.insert _ _ m.timers)).isSome = true
    rw [AList.lookup_insert]
    rfl
  · rintro b (rfl | hb)
    · intro w hw kind id
      obtain rfl := Option.some.inj hw
      constructor
      · intro hnames
        exact absurd hnames (hempty kind id)
      · rintro ⟨c, hc, -⟩
        exact absurd (h.recorded _ hc) (Nat.lt_irrefl _)
    · exact h.records b (.inr hb)
  · exact Nat.lt_succ_of_lt (h.recorded r hr)

theorem Accounted.timers (h : m.Accounted taken) {timers : KeyedMap Nat Timer}
    (htimed : ∀ w, m.pending.window = some w → (timers.lookup w).isSome = true) :
    Accounted { m with timers := timers } taken :=
  ⟨h.once, h.closed, htimed, h.records, h.recorded, h.out, h.info⟩

/-- **A change is inserted.** -/
theorem Accounted.insert (h : m.Accounted taken) {w : Nat} (hw : m.pending.window = some w)
    (kind : Kind) (c : Changed) :
    Accounted { m with
      pending := m.pending.insert c kind
      recorded := m.recorded ++ [(w, kind, c)] } taken := by
  have hwindow := Pending.window_insert m.pending c kind
  refine ⟨fun w' => ?_, fun hnone => ?_, fun w' hw' => h.timed w' (hwindow.symm.trans hw'), ?_,
    fun r hr => ?_, h.out, h.info⟩
  · have honce := h.once w'
    rw [occurrences, countOf_singleton] at honce
    rw [occurrences, countOf_singleton, hwindow]
    exact honce
  · cases hw.symm.trans (hwindow.symm.trans hnone)
  · rintro b (rfl | hb)
    · exact (h.records _ (.inl rfl)).insert hw kind c
    · exact (h.records b (.inr hb)).append_of_ne (h.window_ne hb hw) kind c
  · rcases List.mem_append.mp hr with hr | hr
    · exact h.recorded r hr
    · rw [List.mem_singleton.mp hr]
      exact h.window_lt (.inl rfl) hw

/-- **The open batch is taken.** -/
theorem Accounted.take (h : m.Accounted taken) {w : Nat} (hw : m.pending.window = some w)
    (hne : m.pending.isEmpty = false) :
    Accounted { m with pending := {} } (taken ++ [m.pending]) := by
  refine ⟨fun w' => ?_, fun _ => rfl, nofun, ?_, h.recorded, fun b hb => ?_, h.info⟩
  · have honce := h.once w'
    rw [occurrences] at honce
    rw [occurrences, countOf_append, countOf_singleton, if_neg nofun]
    dsimp only
    omega
  · rintro b (rfl | hb)
    · intro w' hw'
      cases hw'
    · exact h.records b (out_take hb)
  · rcases out_take hb with rfl | hb
    · exact ⟨⟨w, hw⟩, hne⟩
    · exact h.out b hb

/-- **A task takes over what was taken.** -/
theorem Accounted.spawn (h : m.Accounted taken) {i : Nat} (hfree : m.publishers.lookup i = none) :
    (m.spawn i taken).Accounted [] := by
  refine ⟨fun w => ?_, h.closed, h.timed, fun b hb => h.records b (hb.imp_right out_spawn),
    h.recorded, fun b hb => h.out b (out_spawn hb), h.info⟩
  have honce := h.once w
  rw [occurrences] at honce
  rw [occurrences, Notifier.spawn]
  dsimp only
  rw [KeyedMap.total_insert_of_lookup_none _ hfree]
  have hnil : countOf w [] = 0 := rfl
  dsimp only
  omega

/-- **A task goes on** with the same batches to publish. -/
theorem Accounted.publisher (h : m.Accounted []) {i : Nat} {p p' : Publisher}
    (hi : m.publishers.lookup i = some p) (hqueue : p'.queue = p.queue) :
    Accounted { m with publishers := m.publishers.insert i p' } [] := by
  refine ⟨fun w => ?_, h.closed, h.timed,
    fun b hb => h.records b (hb.imp_right (out_publisher hi hqueue)), h.recorded,
    fun b hb => h.out b (out_publisher hi hqueue hb), h.info⟩
  have honce := h.once w
  have htotal := KeyedMap.total_insert_add (fun p => countOf w p.queue) (w := p') hi
  rw [hqueue] at htotal
  rw [occurrences] at honce
  rw [occurrences]
  dsimp only
  omega

/-- **A batch is published.** -/
theorem Accounted.publish (h : m.Accounted []) {i : Nat} {p p' : Publisher} {b : Pending}
    (hi : m.publishers.lookup i = some p) (hqueue : p.queue = b :: p'.queue) :
    Accounted { m with
      publishers := m.publishers.insert i p'
      published := m.published ++ [(b, (fold b).info)] } [] := by
  refine ⟨fun w => ?_, h.closed, h.timed,
    fun c hc => h.records c (hc.imp_right (out_publish hi hqueue)), h.recorded,
    fun c hc => h.out c (out_publish hi hqueue hc), fun c info hc => ?_⟩
  · have honce := h.once w
    have htotal := KeyedMap.total_insert_add (fun p => countOf w p.queue) (w := p') hi
    rw [hqueue, countOf_cons] at htotal
    rw [occurrences] at honce
    rw [occurrences]
    dsimp only
    rw [List.map_append, countOf_append]
    show _ + _ + _ + (_ + countOf w [b]) = _
    omega
  · rcases List.mem_append.mp hc with hc | hc
    · exact h.info c info hc
    · obtain ⟨rfl, rfl⟩ := Prod.mk.inj (List.mem_singleton.mp hc)
      rfl

/-! ### Sizes -/

/-- The open batch holds a change and is not full, and no batch is larger than a full one. -/
structure Sized (m : Notifier) (taken : List Pending) : Prop where
  opened : ∀ w, m.pending.window = some w → m.pending.isEmpty = false
  small : m.pending.len < maxBatchSize
  out : ∀ b, m.Out taken b → b.len ≤ maxBatchSize

theorem len_empty_lt : ({} : Pending).len < maxBatchSize := by decide

theorem Sized.init : Sized ({} : Notifier) [] where
  opened w h := by cases h
  small := len_empty_lt
  out b h := by
    rcases h with h | ⟨i, p, hp, -⟩ | ⟨info, h⟩
    · cases h
    · cases hp
    · cases h

theorem isEmpty_insert (b : Pending) (c : Changed) (kind : Kind) :
    (b.insert c kind).isEmpty = false := by
  refine Bool.eq_false_iff.mpr fun h => ?_
  have hnames := (b.names_insert c kind kind c.id).mpr (.inl ⟨rfl, rfl⟩)
  exact (Pending.isEmpty_iff _).mp h kind c.id hnames

/-- **The invariant.** -/
structure Sound (m : Notifier) (taken : List Pending) : Prop where
  accounted : m.Accounted taken
  sized : m.Sized taken

theorem Sound.init : Sound ({} : Notifier) [] := ⟨.init, .init⟩

theorem Sound.take (h : m.Sound taken) {w : Nat} (hw : m.pending.window = some w) :
    Sound { m with pending := {} } (taken ++ [m.pending]) := by
  refine ⟨h.accounted.take hw (h.sized.opened w hw), nofun, len_empty_lt, fun b hb => ?_⟩
  rcases out_take hb with rfl | hb
  · exact h.sized.small.le
  · exact h.sized.out b hb

theorem Sound.drop (h : m.Sound taken) (hnone : m.pending.window = none) :
    Sound { m with pending := {} } taken := by
  refine ⟨⟨fun w => ?_, fun _ => rfl, nofun, ?_, h.accounted.recorded, h.accounted.out,
    h.accounted.info⟩, nofun, len_empty_lt, h.sized.out⟩
  · have honce := h.accounted.once w
    rw [occurrences, countOf_singleton, hnone] at honce
    exact honce
  · rintro b (rfl | hb)
    · intro w hw
      cases hw
    · exact h.accounted.records b (.inr hb)

theorem openWindow_of_some {w : Nat} (h : m.pending.window = some w) : m.openWindow = m := by
  rw [openWindow, h]

theorem openWindow_of_none (h : m.pending.window = none) : m.openWindow = { m with
    pending := { m.pending with window := some m.nextWindow }
    nextWindow := m.nextWindow + 1
    timers := m.timers.insert m.nextWindow .reading } := by
  rw [openWindow, h]

theorem Accounted.openWindow (h : m.Accounted taken) :
    m.openWindow.Accounted taken ∧ ∃ w, m.openWindow.pending.window = some w := by
  cases hw : m.pending.window with
  | none =>
    rw [openWindow_of_none hw]
    exact ⟨h.opened hw, _, rfl⟩
  | some w =>
    rw [openWindow_of_some hw]
    exact ⟨h, w, hw⟩

theorem len_openWindow (m : Notifier) : m.openWindow.pending.len = m.pending.len := by
  rw [openWindow]
  split <;> rfl

theorem out_openWindow {b : Pending} (h : m.openWindow.Out taken b) : m.Out taken b := by
  rw [openWindow] at h
  split at h <;> exact h

/-- **A change is added.** -/
theorem Sound.addOne (h : m.Sound taken) (kind : Kind) (c : Changed) :
    (Notifier.addOne kind (m, taken) c).1.Sound (Notifier.addOne kind (m, taken) c).2 := by
  obtain ⟨hopen, w, hw⟩ := h.accounted.openWindow
  have haccounted : (m.openWindow.insert kind c).Accounted taken := by
    rw [Notifier.insert, hw]
    exact hopen.insert hw kind c
  have hlen : (m.openWindow.insert kind c).pending.len ≤ maxBatchSize := by
    have hle := m.openWindow.pending.len_insert_le c kind
    rw [len_openWindow] at hle
    exact hle.trans h.sized.small
  have hempty := isEmpty_insert m.openWindow.pending c kind
  have hout : ∀ b, (m.openWindow.insert kind c).Out taken b → b.len ≤ maxBatchSize :=
    fun b hb => h.sized.out b (out_openWindow hb)
  have hw' : (m.openWindow.insert kind c).pending.window = some w :=
    (Pending.window_insert _ c kind).trans hw
  rw [Notifier.addOne]
  split
  · refine ⟨haccounted.take hw' hempty, nofun, len_empty_lt, fun b hb => ?_⟩
    rcases out_take hb with rfl | hb
    · exact hlen
    · exact hout b hb
  · next hsmall => exact ⟨haccounted, fun _ _ => hempty, Nat.lt_of_not_le hsmall, hout⟩

theorem Sound.foldl_addOne (kind : Kind) (changed : List Changed) :
    ∀ {m : Notifier} {taken : List Pending}, m.Sound taken →
      (changed.foldl (Notifier.addOne kind) (m, taken)).1.Sound
        (changed.foldl (Notifier.addOne kind) (m, taken)).2 := by
  induction changed with
  | nil => exact fun h => h
  | cons c changed ih => exact fun h => ih (h.addOne kind c)

theorem Sound.spawn (h : m.Sound taken) {i : Nat} (hfree : m.publishers.lookup i = none) :
    (m.spawn i taken).Sound [] :=
  ⟨h.accounted.spawn hfree, h.sized.opened, h.sized.small, fun b hb => h.sized.out b (out_spawn hb)⟩

theorem Sound.publisher (h : m.Sound []) {i : Nat} {p p' : Publisher}
    (hi : m.publishers.lookup i = some p) (hqueue : p'.queue = p.queue)
    (broadcasts : List LibraryUpdateInfo) (delivered : List Delivery) :
    Sound { m with
      publishers := m.publishers.insert i p'
      broadcasts := broadcasts
      delivered := delivered } [] := by
  have haccounted := h.accounted.publisher hi hqueue
  exact ⟨⟨haccounted.once, haccounted.closed, haccounted.timed, haccounted.records,
    haccounted.recorded, haccounted.out, haccounted.info⟩, h.sized.opened, h.sized.small,
    fun b hb => h.sized.out b (out_publisher hi hqueue hb)⟩

theorem Sound.published (h : m.Sound []) {i : Nat} {p p' : Publisher} {b : Pending}
    (hi : m.publishers.lookup i = some p) (hqueue : p.queue = b :: p'.queue) :
    Sound { m with
      publishers := m.publishers.insert i p'
      published := m.published ++ [(b, (fold b).info)] } [] :=
  ⟨h.accounted.publish hi hqueue, h.sized.opened, h.sized.small,
    fun c hc => h.sized.out c (out_publish hi hqueue hc)⟩

/-! ### The steps -/

theorem Sound.timers (h : m.Sound taken) {timers : KeyedMap Nat Timer}
    (htimed : ∀ w, m.pending.window = some w → (timers.lookup w).isSome = true) :
    Sound { m with timers := timers } taken :=
  ⟨h.accounted.timers htimed, h.sized.opened, h.sized.small, h.sized.out⟩

/-- What was recorded and what went out are left alone but for a new task. -/
structure Spawned (i : Nat) (m m' : Notifier) : Prop where
  publishers : m'.publishers = m.publishers ∨
    ∃ queue, m'.publishers = m.publishers.insert i { queue := queue }
  published : m'.published = m.published
  delivered : m'.delivered = m.delivered

/-- An addition changes the open batch, its window and the history only. -/
theorem addOne_eq (kind : Kind) (m : Notifier) (taken : List Pending) (c : Changed) :
    (addOne kind (m, taken) c).1.publishers = m.publishers ∧
    (addOne kind (m, taken) c).1.published = m.published ∧
    (addOne kind (m, taken) c).1.delivered = m.delivered := by
  have hopen : m.openWindow.publishers = m.publishers ∧ m.openWindow.published = m.published ∧
      m.openWindow.delivered = m.delivered := by
    rw [openWindow]
    split <;> exact ⟨rfl, rfl, rfl⟩
  rw [addOne]
  split <;> exact hopen

theorem foldl_addOne_eq (kind : Kind) (changed : List Changed) :
    ∀ (m : Notifier) (taken : List Pending),
      (changed.foldl (addOne kind) (m, taken)).1.publishers = m.publishers ∧
      (changed.foldl (addOne kind) (m, taken)).1.published = m.published ∧
      (changed.foldl (addOne kind) (m, taken)).1.delivered = m.delivered := by
  induction changed with
  | nil => exact fun _ _ => ⟨rfl, rfl, rfl⟩
  | cons c changed ih =>
    intro m taken
    obtain ⟨hpublishers, hpublished, hdelivered⟩ := addOne_eq kind m taken c
    obtain ⟨hpublishers', hpublished', hdelivered'⟩ := ih (addOne kind (m, taken) c).1
      (addOne kind (m, taken) c).2
    exact ⟨hpublishers'.trans hpublishers, hpublished'.trans hpublished,
      hdelivered'.trans hdelivered⟩

theorem spawned_add (m : Notifier) (i : Nat) (changed : List Changed) (kind : Kind) :
    Spawned i m (m.add i changed kind) := by
  obtain ⟨hpublishers, hpublished, hdelivered⟩ := foldl_addOne_eq kind changed m []
  rw [Notifier.add]
  split
  · next m' heq =>
    rw [heq] at hpublishers hpublished hdelivered
    exact ⟨.inl hpublishers, hpublished, hdelivered⟩
  · next m' full hne heq =>
    rw [heq] at hpublishers hpublished hdelivered
    exact ⟨.inr ⟨full, congrArg (AList.insert i _) hpublishers⟩, hpublished, hdelivered⟩

theorem spawned_takeAndPublish (m : Notifier) (i : Nat) (window : Option Nat) :
    Spawned i m (m.takeAndPublish i window) := by
  rw [takeAndPublish, Notifier.take]
  split
  · next heq =>
    split at heq
    · cases heq
    · obtain ⟨rfl, -⟩ := Prod.mk.inj heq
      exact ⟨.inr ⟨_, rfl⟩, rfl, rfl⟩
  · next heq =>
    split at heq
    · obtain ⟨rfl, -⟩ := Prod.mk.inj heq
      exact ⟨.inl rfl, rfl, rfl⟩
    · obtain ⟨rfl, -⟩ := Prod.mk.inj heq
      exact ⟨.inl rfl, rfl, rfl⟩

theorem Sound.add (h : m.Sound []) {i : Nat} (hfree : m.publishers.lookup i = none)
    (changed : List Changed) (kind : Kind) : (m.add i changed kind).Sound [] := by
  have hsound := h.foldl_addOne kind changed
  have hfree' : (changed.foldl (Notifier.addOne kind) (m, [])).1.publishers.lookup i = none := by
    rw [(foldl_addOne_eq kind changed m []).1, hfree]
  rw [Notifier.add]
  split
  · next m' heq =>
    rw [heq] at hsound
    exact hsound
  · next m' full hne heq =>
    rw [heq] at hsound hfree'
    exact hsound.spawn hfree'

theorem takeAndPublish_of_ne {w : Nat} (h : m.pending.window ≠ some w) (i : Nat) :
    m.takeAndPublish i (some w) = m := by
  rw [takeAndPublish, Notifier.take, if_pos]
  exact decide_eq_true h

theorem takeAndPublish_of_window (h : m.Sized []) {w : Nat} (hw : m.pending.window = some w)
    {window : Option Nat} (hwindow : window = none ∨ window = some w) (i : Nat) :
    m.takeAndPublish i window = spawn { m with pending := {} } i [m.pending] := by
  have hany : (window.any fun w => m.pending.window ≠ some w) = false := by
    rcases hwindow with rfl | rfl
    · rfl
    · exact decide_eq_false fun hne => hne hw
  rw [takeAndPublish, Notifier.take, hany, if_neg Bool.false_ne_true, h.opened w hw,
    if_neg Bool.false_ne_true]

theorem Sound.fire (h : m.Sound []) {i window : Nat} (hfree : m.publishers.lookup i = none)
    {timer : Timer} (hs : m.fire i window timer = some m') : m'.Sound [] := by
  rw [Notifier.fire.eq_def] at hs
  split at hs
  · split at hs
    · cases hs
      by_cases hw : m.pending.window = some window
      · have htake : Sound { m with pending := {}, timers := m.timers.erase window } [m.pending] :=
          (h.take hw).timers nofun
        have hsized : Sized { m with timers := m.timers.erase window } [] :=
          ⟨h.sized.opened, h.sized.small, h.sized.out⟩
        rw [takeAndPublish_of_window hsized hw (.inr rfl)]
        exact htake.spawn hfree
      · rw [@takeAndPublish_of_ne { m with timers := m.timers.erase window } window hw i]
        refine h.timers fun w hw' => ?_
        rw [KeyedMap.lookup_erase_eq, if_neg]
        · exact h.accounted.timed w hw'
        · rintro rfl
          exact hw hw'
    · cases hs
  · cases hs

theorem Sound.flush (h : m.Sound []) {i : Nat} (hfree : m.publishers.lookup i = none) :
    (m.takeAndPublish i none).Sound [] := by
  cases hw : m.pending.window with
  | some w =>
    rw [takeAndPublish_of_window h.sized hw (.inl rfl)]
    exact (h.take hw).spawn hfree
  | none =>
    have htake : m.take none = ({ m with pending := {} }, none) := by
      rw [Notifier.take, h.accounted.closed hw]
      rfl
    rw [takeAndPublish, htake]
    exact h.drop hw

theorem visit_eq (m : Notifier) (i : Nat) (p : Publisher) (batch : Pending) (users : List Uuid) :
    ∃ p', m.visit i p batch users = { m with publishers := m.publishers.insert i p' } ∧
      p'.queue = p.queue := by
  cases users with
  | nil => exact ⟨_, rfl, rfl⟩
  | cons user users => exact ⟨_, rfl, rfl⟩

/-- A task goes on with its batch: nothing but its place, the bus and the payloads changes. -/
theorem publishOn_eq (m : Notifier) (i : Nat) (p : Publisher) (answer : Option (List Uuid))
    (batch : Pending) (phase : Phase) :
    ∃ p' broadcasts delivered, m.publishOn i p answer batch phase = { m with
      publishers := m.publishers.insert i p'
      broadcasts := broadcasts
      delivered := delivered } ∧ p'.queue = p.queue := by
  have hvisit : ∀ users, ∃ p' broadcasts delivered, m.visit i p batch users = { m with
      publishers := m.publishers.insert i p'
      broadcasts := broadcasts
      delivered := delivered } ∧ p'.queue = p.queue := fun users => by
    obtain ⟨p', heq, hqueue⟩ := m.visit_eq i p batch users
    exact ⟨p', m.broadcasts, m.delivered, heq, hqueue⟩
  cases phase with
  | announcing =>
    rw [publishOn]
    split <;> exact ⟨_, _, _, rfl, rfl⟩
  | broadcasting => exact ⟨_, _, _, rfl, rfl⟩
  | listing =>
    cases answer with
    | none => exact ⟨_, _, _, rfl, rfl⟩
    | some users => exact hvisit users
  | libraries user users =>
    cases answer with
    | none => exact hvisit users
    | some visible => exact ⟨_, _, _, rfl, rfl⟩
  | topParents user users visible => exact ⟨_, _, _, rfl, rfl⟩
  | items user users visible tops lists foldersMoved candidates =>
    rw [publishOn]
    split
    · exact hvisit users
    · exact ⟨_, _, _, rfl, rfl⟩
  | delivering users => exact hvisit users

theorem Sound.publish (h : m.Sound []) {i : Nat} {p : Publisher} {answer : Option (List Uuid)}
    (hi : m.publishers.lookup i = some p) (hs : m.publish i answer p = some m') :
    m'.Sound [] := by
  rw [Notifier.publish] at hs
  split at hs
  · next batch phase hcurrent =>
    cases hs
    obtain ⟨p', broadcasts, delivered, heq, hqueue⟩ := m.publishOn_eq i p answer batch phase
    rw [heq]
    exact h.publisher hi hqueue broadcasts delivered
  · next batch queue hcurrent hqueue =>
    have hout : m.Out [] batch := .inr (.inl ⟨i, p, hi, hqueue ▸ List.mem_cons_self⟩)
    dsimp only at hs
    split at hs
    · next hempty =>
      have hempty' := isEmpty_of_isEmpty_fold hempty
      rw [(h.accounted.out batch hout).2] at hempty'
      cases hempty'
    · cases hs
      exact h.published hi hqueue
  · cases hs

/-- **The invariant is kept.** -/
theorem Sound.step (h : m.Sound []) {e : Event} (hs : m.step debounce e = some m') :
    m'.Sound [] := by
  have hfree : ∀ {i : Nat}, ¬ (m.publishers.lookup i).isSome = true →
      m.publishers.lookup i = none := fun hi => Option.not_isSome_iff_eq_none.mp hi
  cases e with
  | tick elapsed =>
    cases hs
    exact ⟨⟨h.accounted.once, h.accounted.closed, h.accounted.timed, h.accounted.records,
      h.accounted.recorded, h.accounted.out, h.accounted.info⟩, h.sized.opened, h.sized.small,
      h.sized.out⟩
  | setAudience =>
    cases hs
    exact ⟨⟨h.accounted.once, h.accounted.closed, h.accounted.timed, h.accounted.records,
      h.accounted.recorded, h.accounted.out, h.accounted.info⟩, h.sized.opened, h.sized.small,
      h.sized.out⟩
  | add i changed kind =>
    rw [Notifier.step] at hs
    split at hs
    · cases hs
    · next hi =>
      cases hs
      exact h.add (hfree hi) changed kind
  | readLength window configuration =>
    obtain ⟨timer, htimer, hs⟩ := Option.bind_eq_some_iff.mp hs
    cases timer with
    | sleeping due => cases hs
    | reading =>
      cases hs
      refine h.timers fun w hw => ?_
      rw [KeyedMap.lookup_insert_eq]
      split
      · rfl
      · exact h.accounted.timed w hw
  | fire i window =>
    rw [Notifier.step] at hs
    split at hs
    · cases hs
    · next hi =>
      obtain ⟨timer, -, hs⟩ := Option.bind_eq_some_iff.mp hs
      exact h.fire (hfree hi) hs
  | flush i =>
    rw [Notifier.step] at hs
    split at hs
    · cases hs
    · next hi =>
      cases hs
      exact h.flush (hfree hi)
  | publish i answer =>
    obtain ⟨p, hi, hs⟩ := Option.bind_eq_some_iff.mp hs
    exact h.publish hi hs

end Notifier

theorem sound_of_reachable {debounce : Nat} {m : Notifier} (h : (notifier debounce).Reachable m) :
    m.Sound [] :=
  Machine.Reaches.invariant (I := fun m => m.Sound []) h .init fun _ _ _ hsound _ hs =>
    hsound.step hs

end Ferrofin.Changes
