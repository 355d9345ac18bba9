import Ferrofin.Changes.Accounted

/-!
# What a user is told

A payload is made of a published batch: cut to the libraries the user can see, then to the
items the user can see (`userInfo`).  `Notifier.Filtered` says that every payload pushed is
such a cut and not empty; `userInfo_visible` and its neighbours what a cut names.
-/

namespace Ferrofin.Changes

open Lib

/-! ### The cut -/

def userLists (b : Pending) (tops : List Uuid) : Lists := (fold b).forLibraries tops

def userInfo (b : Pending) (visible tops seen : List Uuid) : LibraryUpdateInfo :=
  build ((userLists b tops).retainVisible seen)
    (some (visible, foldersMoved (fold b) (userLists b tops)))

/-- What a batch lists: its additions, its updates and the folders it touches. -/
def Pending.announced (b : Pending) : List Changed :=
  b.added.items ++ b.updated.items ++ b.foldersAddedTo.items ++ b.foldersRemovedFrom.items

def LibraryUpdateInfo.announced (info : LibraryUpdateInfo) : List Uuid :=
  info.itemsAdded ++ info.itemsUpdated ++ info.foldersAddedTo ++ info.foldersRemovedFrom

theorem mem_cut {l : List Changed} {tops seen : List Uuid} {id : Uuid}
    (h : id ∈ ((l.filter fun c => c.topParent.any fun t => decide (t ∈ tops)).filter
      fun c => decide (c.id ∈ seen)).map Changed.id) :
    id ∈ seen ∧ ∃ c ∈ l, c.id = id ∧ ∃ t ∈ tops, c.topParent = some t := by
  obtain ⟨c, hc, rfl⟩ := List.mem_map.mp h
  obtain ⟨hc, hseen⟩ := List.mem_filter.mp hc
  obtain ⟨hc, htop⟩ := List.mem_filter.mp hc
  refine ⟨of_decide_eq_true hseen, c, hc, rfl, ?_⟩
  cases htop' : c.topParent with
  | none =>
    rw [htop'] at htop
    cases htop
  | some t =>
    rw [htop'] at htop
    exact ⟨t, of_decide_eq_true htop, rfl⟩

/-- **A cut names what the user can see**, in libraries the user can see. -/
theorem userInfo_visible {b : Pending} {visible tops seen : List Uuid} {id : Uuid}
    (h : id ∈ (userInfo b visible tops seen).announced) :
    id ∈ seen ∧ ∃ c ∈ b.announced, c.id = id ∧ ∃ t ∈ tops, c.topParent = some t := by
  have hmono : ∀ {l : List Changed}, (∀ c ∈ l, c ∈ b.announced) →
      (id ∈ seen ∧ ∃ c ∈ l, c.id = id ∧ ∃ t ∈ tops, c.topParent = some t) →
        id ∈ seen ∧ ∃ c ∈ b.announced, c.id = id ∧ ∃ t ∈ tops, c.topParent = some t := by
    rintro l hl ⟨hseen, c, hc, hid, htop⟩
    exact ⟨hseen, c, hl c hc, hid, htop⟩
  rcases List.mem_append.mp h with h | h
  · rcases List.mem_append.mp h with h | h
    · rcases List.mem_append.mp h with h | h
      · refine hmono (fun c hc => ?_) (mem_cut h)
        exact List.mem_append_left _ (List.mem_append_left _ (List.mem_append_left _ hc))
      · refine hmono (fun c hc => ?_) (mem_cut h)
        have hc' : c ∈ b.updated.items := List.mem_of_mem_filter hc
        exact List.mem_append_left _ (List.mem_append_left _ (List.mem_append_right _ hc'))
    · refine hmono (fun c hc => ?_) (mem_cut h)
      exact List.mem_append_left _ (List.mem_append_right _ hc)
  · exact hmono (fun c hc => List.mem_append_right _ hc) (mem_cut h)

theorem userInfo_added {b : Pending} {visible tops seen : List Uuid} {id : Uuid}
    (h : id ∈ (userInfo b visible tops seen).itemsAdded) : id ∈ (fold b).info.itemsAdded := by
  obtain ⟨-, c, hc, hid, -⟩ := mem_cut h
  exact hid ▸ List.mem_map_of_mem hc

theorem userInfo_updated {b : Pending} {visible tops seen : List Uuid} {id : Uuid}
    (h : id ∈ (userInfo b visible tops seen).itemsUpdated) : id ∈ (fold b).info.itemsUpdated := by
  obtain ⟨-, c, hc, hid, -⟩ := mem_cut h
  exact hid ▸ List.mem_map_of_mem hc

theorem userInfo_disjoint {b : Pending} {visible tops seen : List Uuid} {id : Uuid}
    (hadded : id ∈ (userInfo b visible tops seen).itemsAdded)
    (hupdated : id ∈ (userInfo b visible tops seen).itemsUpdated) : False :=
  ((mem_updated_iff b id).mp (userInfo_updated hupdated)).2
    ((mem_added_iff b id).mp (userInfo_added hadded))

theorem userInfo_collectionFolders {b : Pending} {visible tops seen : List Uuid} {id : Uuid}
    (h : id ∈ (userInfo b visible tops seen).collectionFolders) : id ∈ visible := by
  have hmem : id ∈ collectionFolders ((userLists b tops).retainVisible seen)
      (some (visible, foldersMoved (fold b) (userLists b tops))) := h
  rw [collectionFolders.eq_def] at hmem
  split at hmem
  · next heq =>
    obtain ⟨rfl, -⟩ := Prod.mk.inj (Option.some.inj heq)
    exact List.mem_eraseDups.mp (List.mem_mergeSort.mp hmem)
  · cases hmem
  · next heq => cases heq

/-! ### The payloads of a run -/

/-- The lists of a user under way are the user's cut of the batch. -/
def Phase.Cut (b : Pending) : Phase → Prop
  | .items _ _ _ tops lists moved candidates =>
    lists = userLists b tops ∧ moved = foldersMoved (fold b) lists ∧
      candidates = lists.announcedIds
  | .announcing | .broadcasting | .listing | .libraries _ _ | .topParents _ _ _
  | .delivering _ => True

namespace Notifier

variable {debounce : Nat} {m m' : Notifier}

def HasPublished (m : Notifier) (b : Pending) : Prop := ∃ info, (b, info) ∈ m.published

/-- The batch a task is with is published, and its lists are the user's. -/
def Proceeds (m : Notifier) (p : Publisher) : Prop :=
  ∀ b phase, p.current = some (b, phase) → m.HasPublished b ∧ phase.Cut b

/-- A payload is a cut of a published batch, and not empty. -/
def IsCut (m : Notifier) (d : Delivery) : Prop :=
  m.HasPublished d.batch ∧ d.info = userInfo d.batch d.visible d.tops d.seen ∧
    d.info.isEmpty = false

structure Filtered (m : Notifier) : Prop where
  proceeds : ∀ i p, m.publishers.lookup i = some p → m.Proceeds p
  delivered : ∀ d ∈ m.delivered, m.IsCut d

theorem Filtered.init : Filtered {} where
  proceeds i p h := by cases h
  delivered d h := by cases h

theorem proceeds_of_none {p : Publisher} (h : p.current = none) : m.Proceeds p := by
  intro b phase heq
  cases h.symm.trans heq

theorem Filtered.spawned (h : m.Filtered) {i : Nat} (hs : Spawned i m m') : m'.Filtered := by
  have hpublished : ∀ b, m.HasPublished b → m'.HasPublished b := by
    rintro b ⟨info, hb⟩
    exact ⟨info, hs.published ▸ hb⟩
  refine ⟨fun j p hj => ?_, fun d hd => ?_⟩
  · have hold : ∀ p, m.publishers.lookup j = some p → m'.Proceeds p := fun p hp b phase hb =>
      (h.proceeds j p hp b phase hb).imp_left (hpublished b)
    rcases hs.publishers with heq | ⟨queue, heq⟩
    · exact hold p (heq ▸ hj)
    · rw [heq, KeyedMap.lookup_insert_eq] at hj
      split at hj
      · cases hj
        exact proceeds_of_none rfl
      · exact hold p hj
  · have hcut := h.delivered d (hs.delivered ▸ hd)
    exact hcut.imp_left (hpublished _)

theorem Filtered.publisher (h : m.Filtered) {i : Nat} {p' : Publisher} (hp' : m.Proceeds p')
    (broadcasts : List LibraryUpdateInfo) {delivered : List Delivery}
    (hd : ∀ d ∈ delivered, m.IsCut d) :
    Filtered { m with
      publishers := m.publishers.insert i p'
      broadcasts := broadcasts
      delivered := delivered } := by
  refine ⟨fun j p hj => ?_, hd⟩
  rw [KeyedMap.lookup_insert_eq] at hj
  split at hj
  · cases hj
    exact hp'
  · exact h.proceeds j p hj

theorem Filtered.visit (h : m.Filtered) (i : Nat) (p : Publisher) {batch : Pending}
    (hb : m.HasPublished batch) (users : List Uuid) : (m.visit i p batch users).Filtered := by
  cases users with
  | nil => exact h.publisher (proceeds_of_none rfl) m.broadcasts h.delivered
  | cons user users =>
    refine h.publisher (fun b phase heq => ?_) m.broadcasts h.delivered
    obtain ⟨rfl, rfl⟩ := Prod.mk.inj (Option.some.inj heq)
    exact ⟨hb, trivial⟩

theorem Filtered.goOn (h : m.Filtered) (i : Nat) (p : Publisher) {batch : Pending}
    (hb : m.HasPublished batch) (phase : Phase) (hphase : phase.Cut batch)
    (broadcasts : List LibraryUpdateInfo) {delivered : List Delivery}
    (hd : ∀ d ∈ delivered, m.IsCut d) :
    Filtered { m.goOn i p batch phase with
      broadcasts := broadcasts
      delivered := delivered } := by
  refine h.publisher (fun b phase' heq => ?_) broadcasts hd
  obtain ⟨rfl, rfl⟩ := Prod.mk.inj (Option.some.inj heq)
  exact ⟨hb, hphase⟩

theorem Filtered.publishOn (h : m.Filtered) (i : Nat) (p : Publisher)
    (answer : Option (List Uuid)) {batch : Pending} (hb : m.HasPublished batch) {phase : Phase}
    (hphase : phase.Cut batch) : (m.publishOn i p answer batch phase).Filtered := by
  have hgone : (m.goneOut i p).Filtered :=
    h.publisher (proceeds_of_none rfl) m.broadcasts h.delivered
  cases phase with
  | announcing =>
    rw [Notifier.publishOn]
    split
    · exact h.goOn i p hb .listing trivial m.broadcasts h.delivered
    · exact h.goOn i p hb .broadcasting trivial _ h.delivered
  | broadcasting => exact hgone
  | listing =>
    cases answer with
    | none => exact hgone
    | some users => exact h.visit i p hb users
  | libraries user users =>
    cases answer with
    | none => exact h.visit i p hb users
    | some visible =>
      exact h.goOn i p hb (.topParents user users visible) trivial m.broadcasts h.delivered
  | topParents user users visible =>
    have hcut : ∀ tops lists, lists = userLists batch tops →
        Phase.Cut batch (.items user users visible tops lists (foldersMoved (fold batch) lists)
          lists.announcedIds) := fun tops lists hlists => ⟨hlists, rfl, rfl⟩
    exact h.goOn i p hb _ (hcut (answer.getD visible) _ rfl) m.broadcasts h.delivered
  | items user users visible tops lists moved candidates =>
    obtain ⟨rfl, rfl, -⟩ := hphase
    rw [Notifier.publishOn]
    dsimp only
    split
    · exact h.visit i p hb users
    · next hempty =>
      refine h.goOn i p hb (.delivering users) trivial m.broadcasts fun d hd => ?_
      rcases List.mem_append.mp hd with hd | hd
      · exact h.delivered d hd
      · rw [List.mem_singleton.mp hd]
        exact ⟨hb, rfl, Bool.eq_false_iff.mpr hempty⟩
  | delivering users => exact h.visit i p hb users

/-- **The invariant is kept.** -/
theorem Filtered.step (h : m.Filtered) {e : Event} (hs : m.step debounce e = some m') :
    m'.Filtered := by
  cases e with
  | tick elapsed =>
    cases hs
    exact ⟨h.proceeds, h.delivered⟩
  | setAudience =>
    cases hs
    exact ⟨h.proceeds, h.delivered⟩
  | add i changed kind =>
    rw [Notifier.step] at hs
    split at hs
    · cases hs
    · cases hs
      exact h.spawned (spawned_add m i changed kind)
  | readLength window configuration =>
    obtain ⟨timer, htimer, hs⟩ := Option.bind_eq_some_iff.mp hs
    cases timer with
    | sleeping due => cases hs
    | reading =>
      cases hs
      exact ⟨h.proceeds, h.delivered⟩
  | fire i window =>
    rw [Notifier.step] at hs
    split at hs
    · cases hs
    · obtain ⟨timer, -, hs⟩ := Option.bind_eq_some_iff.mp hs
      rw [Notifier.fire.eq_def] at hs
      split at hs
      · split at hs
        · cases hs
          have htimers : Filtered { m with timers := m.timers.erase window } :=
            ⟨h.proceeds, h.delivered⟩
          exact htimers.spawned (spawned_takeAndPublish _ i (some window))
        · cases hs
      · cases hs
  | flush i =>
    rw [Notifier.step] at hs
    split at hs
    · cases hs
    · cases hs
      exact h.spawned (spawned_takeAndPublish m i none)
  | publish i answer =>
    obtain ⟨p, hi, hs⟩ := Option.bind_eq_some_iff.mp hs
    rw [Notifier.publish] at hs
    split at hs
    · next batch phase hcurrent =>
      cases hs
      obtain ⟨hb, hphase⟩ := h.proceeds i p hi batch phase hcurrent
      exact h.publishOn i p answer hb hphase
    · next batch queue hcurrent hqueue =>
      dsimp only at hs
      split at hs
      · cases hs
        exact h.publisher (proceeds_of_none rfl) m.broadcasts h.delivered
      · cases hs
        have hpublished : Filtered { m with
            published := m.published ++ [(batch, (fold batch).info)] } := by
          have hmono : ∀ b, m.HasPublished b → HasPublished { m with
              published := m.published ++ [(batch, (fold batch).info)] } b := by
            rintro b ⟨info, hb⟩
            exact ⟨info, List.mem_append_left _ hb⟩
          exact ⟨fun j p hj b phase hb => (h.proceeds j p hj b phase hb).imp_left (hmono b),
            fun d hd => (h.delivered d hd).imp_left (hmono _)⟩
        exact hpublished.goOn i _ ⟨_, List.mem_append_right _ List.mem_cons_self⟩ .announcing
          trivial m.broadcasts hpublished.delivered
    · cases hs

end Notifier

end Ferrofin.Changes
