import Ferrofin.Lib.KeyedMap
import Ferrofin.Lib.Machine
import Ferrofin.UserData.Updates
import Mathlib.Data.Finset.Insert

/-!
# Batches of changed user data

Every save is recorded for a `UserDataChanged` message (`record_change`).  The first one opens a
window, which a timer ends (`send_batch`); a batch that fills up goes out at once, and its timer
wakes later, when another window may be open.  `changeNotifier` is the machine of all orders of
saves and of timers.

History, which a step writes: `recorded`, each change that was announced, with the number of the
window of its save; the number of the window of each batch in `sent`; `woken`, the timers that have
gone off.
-/

namespace Ferrofin.UserData

open Lib
open Option (getD_some)

def userDataChangeMaxBatch : Nat := 2000

/-- The items saved for one user, in order and as a set. -/
structure SavedItems where
  items : List Nat := []
  seen : Finset Nat := ∅

structure PendingChanges where
  users : KeyedMap Nat SavedItems := ∅
  count : Nat := 0
  batch : Option Nat := none
  next : Nat := 0

def PendingChanges.saved (p : PendingChanges) (user : Nat) : SavedItems :=
  (p.users.lookup user).getD {}

/-- `PendingChanges::take`: what was gathered, and what is left. -/
def PendingChanges.take (p : PendingChanges) : KeyedMap Nat (List Nat) × PendingChanges :=
  (KeyedMap.mapValues (fun _ saved => saved.items) p.users,
    { p with users := ∅, count := 0, batch := none })

structure Change where
  window : Nat
  user : Nat
  item : Nat
deriving DecidableEq

structure SentBatch where
  window : Nat
  changes : KeyedMap Nat (List Nat)

def SentBatch.count (b : SentBatch) (user item : Nat) : Nat :=
  ((b.changes.lookup user).getD []).count item

/-- The user data manager, its part that announces changes: whether a sink is attached, what
waits, and the timers that run. -/
structure ChangeNotifier where
  changed : Bool := false
  pending : PendingChanges := {}
  timers : List Nat := []
  recorded : List Change := []
  sent : List SentBatch := []
  woken : List Nat := []

namespace ChangeNotifier

variable (n : ChangeNotifier)

def flush (window : Nat) : ChangeNotifier :=
  let (changes, pending) := n.pending.take
  { n with pending := pending, sent := n.sent ++ [⟨window, changes⟩] }

def insertItem (user item : Nat) : ChangeNotifier :=
  let saved := n.pending.saved user
  if item ∈ saved.seen then n
  else { n with pending := { n.pending with
    users := n.pending.users.insert user ⟨saved.items ++ [item], insert item saved.seen⟩
    count := n.pending.count + 1 } }

def openWindow : ChangeNotifier :=
  match n.pending.batch with
  | some _ => n
  | none => { n with
      pending := { n.pending with batch := some n.pending.next, next := n.pending.next + 1 }
      timers := n.timers ++ [n.pending.next] }

def recordChange (user item : Nat) (reason : UserDataSaveReason) : ChangeNotifier :=
  if reason = .playbackProgress ∨ n.changed = false then n
  else
    let n := (n.insertItem user item).openWindow
    if userDataChangeMaxBatch ≤ n.pending.count then n.flush (n.pending.batch.getD 0) else n

/-- `send_batch`, when the timer of a window goes off. -/
def sendBatch (batch : Nat) : ChangeNotifier :=
  let n := { n with timers := n.timers.erase batch, woken := n.woken ++ [batch] }
  if n.pending.batch = some batch then n.flush batch else n

end ChangeNotifier

/-- What happens: a sink is attached, something is saved, a timer goes off. -/
inductive NotifierEvent where
  | setUserDataChangedSink
  | save (user item : Nat) (reason : UserDataSaveReason)
  | wake (batch : Nat)

namespace ChangeNotifier

variable (n : ChangeNotifier)

/-- The window that is open, or that a save would open. -/
def window : Nat := n.pending.batch.getD n.pending.next

def note (window user item : Nat) : ChangeNotifier :=
  { n with recorded := n.recorded ++ [⟨window, user, item⟩] }

/-- A save, and its change in the history where somebody is to hear of it. -/
def save (user item : Nat) (reason : UserDataSaveReason) : ChangeNotifier :=
  if reason ≠ .playbackProgress ∧ n.changed = true then
    (n.recordChange user item reason).note n.window user item
  else n.recordChange user item reason

end ChangeNotifier

/-- One event; a timer that does not run does not go off. -/
def ChangeNotifier.step (n : ChangeNotifier) : NotifierEvent → Option ChangeNotifier
  | .setUserDataChangedSink => some { n with changed := true }
  | .save user item reason => some (n.save user item reason)
  | .wake batch => if batch ∈ n.timers then some (n.sendBatch batch) else none

def changeNotifier : Machine ChangeNotifier NotifierEvent where
  init := {}
  step := ChangeNotifier.step

namespace ChangeNotifier

variable {n : ChangeNotifier}

def sentWindows (n : ChangeNotifier) : List Nat := n.sent.map SentBatch.window

/-- What the open window and the batches sent hold is what was recorded, each item once. -/
structure Sound (n : ChangeNotifier) : Prop where
  recorded : ∀ c ∈ n.recorded, c.window < n.pending.next
  next : ∀ b, b < n.pending.next ↔ n.pending.batch = some b ∨ b ∈ n.sentWindows
  fresh : ∀ b, n.pending.batch = some b → b ∉ n.sentWindows
  nodup : n.sentWindows.Nodup
  seen : ∀ user item, item ∈ (n.pending.saved user).seen ↔ item ∈ (n.pending.saved user).items
  held : ∀ user item, (n.pending.saved user).items.count item =
    if ⟨n.window, user, item⟩ ∈ n.recorded then 1 else 0
  sent : ∀ b ∈ n.sent, ∀ user item, b.count user item =
    if ⟨b.window, user, item⟩ ∈ n.recorded then 1 else 0
  timers : ∀ b, b < n.pending.next ↔ b ∈ n.timers ∨ b ∈ n.woken
  woken : ∀ b ∈ n.woken, b ∈ n.sentWindows

theorem sound_init : Sound {} where
  recorded := nofun
  next b := by simp [sentWindows]
  fresh := nofun
  nodup := List.nodup_nil
  seen user item := by simp [PendingChanges.saved]
  held user item := by simp [PendingChanges.saved]
  sent := nofun
  timers b := by simp
  woken := nofun

theorem Sound.notMem_recorded (h : n.Sound) {b : Nat} (hb : n.pending.next ≤ b) (user item : Nat) :
    ⟨b, user, item⟩ ∉ n.recorded := fun hmem => absurd (h.recorded _ hmem) (Nat.not_lt.mpr hb)

theorem saved_insertItem (user item user' : Nat) :
    (n.insertItem user item).pending.saved user' =
      if user' = user ∧ item ∉ (n.pending.saved user).seen then
        ⟨(n.pending.saved user).items ++ [item], insert item (n.pending.saved user).seen⟩
      else n.pending.saved user' := by
  unfold insertItem
  dsimp only
  split
  · next hmem => rw [if_neg fun hne => hne.2 hmem]
  · next hmem =>
    rw [PendingChanges.saved, KeyedMap.lookup_insert_eq]
    by_cases hu : user' = user
    · rw [if_pos hu, if_pos ⟨hu, hmem⟩, getD_some]
    · rw [if_neg hu, if_neg fun hne => hu hne.1]
      rfl

theorem count_insertItem (h : n.Sound) (user item user' item' : Nat) :
    ((n.insertItem user item).pending.saved user').items.count item' =
      if user' = user ∧ item' = item then 1 else (n.pending.saved user').items.count item' := by
  rw [saved_insertItem]
  split
  · next hnew =>
    obtain ⟨rfl, hnew⟩ := hnew
    rw [h.seen, ← List.count_eq_zero] at hnew
    by_cases hi : item' = item
    · rw [if_pos ⟨rfl, hi⟩, hi, List.count_append, hnew, List.count_singleton_self]
    · rw [if_neg fun hne => hi hne.2, List.count_append, List.count_singleton, if_neg (by
        simpa using Ne.symm hi)]
      rfl
  · next hold =>
    split
    · next hsame =>
      obtain ⟨rfl, rfl⟩ := hsame
      have hmem : item' ∈ (n.pending.saved user').items := by
        rw [← h.seen]
        by_contra hnew
        exact hold ⟨rfl, hnew⟩
      have hcount := h.held user' item'
      have hpos := List.count_pos_iff.mpr hmem
      split at hcount
      · exact hcount
      · omega
    · rfl

def saveItem (n : ChangeNotifier) (user item : Nat) : ChangeNotifier :=
  (n.insertItem user item).openWindow.note n.window user item

/-- What a save does before the batch may go out. -/
structure SaveOf (n : ChangeNotifier) (user item : Nat) (m : ChangeNotifier) : Prop where
  saved : m.pending.saved = (n.insertItem user item).pending.saved
  batch : m.pending.batch = some n.window
  next : ∀ b, b < m.pending.next ↔ b < n.pending.next ∨ b = n.window
  timers : ∀ b, b ∈ m.timers ↔ b ∈ n.timers ∨ n.pending.batch = none ∧ b = n.window
  recorded : m.recorded = n.recorded ++ [⟨n.window, user, item⟩]
  sent : m.sent = n.sent
  woken : m.woken = n.woken

theorem insertItem_frame (user item : Nat) :
    ∃ users count, n.insertItem user item =
      { n with pending := { n.pending with users := users, count := count } } := by
  unfold insertItem
  dsimp only
  split
  · exact ⟨_, _, rfl⟩
  · exact ⟨_, _, rfl⟩

theorem saveOf_saveItem (h : n.Sound) (user item : Nat) :
    n.SaveOf user item (n.saveItem user item) := by
  obtain ⟨users, count, hinsert⟩ := insertItem_frame (n := n) user item
  unfold saveItem
  rw [hinsert]
  cases hb : n.pending.batch with
  | some b =>
    have hw : n.window = b := by rw [window, hb, getD_some]
    have hlt : b < n.pending.next := (h.next b).mpr (.inl hb)
    have hopen : openWindow
        { n with pending := { n.pending with users := users, count := count } } =
        { n with pending := { n.pending with users := users, count := count } } := by
      simp only [openWindow, hb]
    rw [hopen, hw]
    refine ⟨by rw [hinsert]; rfl, by rw [hw]; exact hb, fun c => ?_, fun c => by simp [note, hb],
      by rw [hw]; rfl, rfl, rfl⟩
    show c < n.pending.next ↔ _
    rw [hw]
    omega
  | none =>
    have hw : n.window = n.pending.next := by rw [window, hb, Option.getD_none]
    have hopen : openWindow
        { n with pending := { n.pending with users := users, count := count } } =
        { n with
          pending := ⟨users, count, some n.pending.next, n.pending.next + 1⟩
          timers := n.timers ++ [n.pending.next] } := by
      simp only [openWindow, hb]
    rw [hopen, hw]
    refine ⟨by rw [hinsert]; rfl, by rw [hw]; rfl, fun c => ?_, fun c => by simp [note, hw, hb],
      by rw [hw]; rfl, rfl, rfl⟩
    show c < n.pending.next + 1 ↔ _
    rw [hw]
    omega

theorem SaveOf.sound {m : ChangeNotifier} {user item : Nat} (h : n.Sound)
    (hm : n.SaveOf user item m) : m.Sound := by
  have hwindow : m.window = n.window := by rw [window, hm.batch, getD_some]
  have hsent : m.sentWindows = n.sentWindows := by rw [sentWindows, sentWindows, hm.sent]
  have hopen : ∀ b, n.pending.batch = some b → n.window = b := fun b hb => by
    rw [window, hb, getD_some]
  have hfresh : n.window ∉ n.sentWindows := by
    cases hb : n.pending.batch with
    | some b => rw [hopen b hb]; exact h.fresh b hb
    | none =>
      have hw : n.window = n.pending.next := by rw [window, hb, Option.getD_none]
      exact fun hmem => by have := (h.next n.window).mpr (.inr hmem); omega
  have hmem : ∀ c, c ∈ m.recorded ↔ c ∈ n.recorded ∨ c = ⟨n.window, user, item⟩ := fun c => by
    rw [hm.recorded, List.mem_append, List.mem_singleton]
  exact {
    recorded := fun c hc => by
      rw [hm.next]
      rcases (hmem c).mp hc with hc | rfl
      · exact .inl (h.recorded c hc)
      · exact .inr rfl
    next := fun b => by
      rw [hm.next, hm.batch, hsent, h.next]
      constructor
      · rintro ((hb | hb) | rfl)
        · exact .inl (congrArg some (hopen b hb))
        · exact .inr hb
        · exact .inl rfl
      · rintro (hb | hb)
        · exact .inr (Option.some.inj hb).symm
        · exact .inl (.inr hb)
    fresh := fun b hb => by
      rw [hm.batch] at hb
      rw [hsent, ← Option.some.inj hb]
      exact hfresh
    nodup := hsent ▸ h.nodup
    seen := fun user' item' => by
      rw [hm.saved, saved_insertItem]
      split
      · rw [Finset.mem_insert, List.mem_append, List.mem_singleton, h.seen, or_comm]
      · exact h.seen user' item'
    held := fun user' item' => by
      rw [hm.saved, count_insertItem h, hwindow, h.held]
      by_cases hsame : user' = user ∧ item' = item
      · obtain ⟨rfl, rfl⟩ := hsame
        rw [if_pos ⟨rfl, rfl⟩, if_pos ((hmem _).mpr (.inr rfl))]
      · have hiff : (⟨n.window, user', item'⟩ : Change) ∈ m.recorded ↔
            ⟨n.window, user', item'⟩ ∈ n.recorded := by
          rw [hmem]
          exact or_iff_left fun heq => hsame (by cases heq; exact ⟨rfl, rfl⟩)
        rw [if_neg hsame]
        simp only [hiff]
    sent := fun b hb user' item' => by
      rw [hm.sent] at hb
      have hiff : (⟨b.window, user', item'⟩ : Change) ∈ m.recorded ↔
          ⟨b.window, user', item'⟩ ∈ n.recorded := by
        rw [hmem]
        refine or_iff_left fun heq => hfresh ?_
        have hw : b.window = n.window := congrArg Change.window heq
        exact hw ▸ List.mem_map_of_mem hb
      rw [h.sent b hb]
      simp only [hiff]
    timers := fun b => by
      rw [hm.next, hm.timers, hm.woken, h.timers]
      constructor
      · rintro (hb | rfl)
        · exact hb.imp_left .inl
        · cases hb : n.pending.batch with
          | none => exact .inl (.inr ⟨rfl, rfl⟩)
          | some b =>
            have hlt := (h.next b).mpr (.inl hb)
            rw [← hopen b hb] at hlt
            exact ((h.timers _).mp hlt).imp_left .inl
      · rintro ((hb | ⟨-, rfl⟩) | hb)
        · exact .inl (.inl hb)
        · exact .inr rfl
        · exact .inl (.inr hb)
    woken := fun b hb => by
      rw [hsent]
      rw [hm.woken] at hb
      exact h.woken b hb }

theorem Sound.flush (h : n.Sound) {b : Nat} (hb : n.pending.batch = some b) :
    (n.flush b).Sound := by
  have hw : n.window = b := by rw [window, hb, getD_some]
  have hwindows : (n.flush b).sentWindows = n.sentWindows ++ [b] := by
    rw [sentWindows, sentWindows, ChangeNotifier.flush, List.map_append]
    rfl
  exact {
    recorded := h.recorded
    next := fun c => by
      rw [hwindows, List.mem_append, List.mem_singleton]
      show c < n.pending.next ↔ none = some c ∨ _
      rw [h.next, hb]
      constructor
      · rintro (hc | hc)
        · exact .inr (.inr (Option.some.inj hc).symm)
        · exact .inr (.inl hc)
      · rintro (hc | hc | rfl)
        · cases hc
        · exact .inr hc
        · exact .inl rfl
    fresh := fun c hc => by cases hc
    nodup := by
      rw [hwindows]
      exact List.nodup_append.mpr ⟨h.nodup, List.nodup_singleton b, fun x hx y hy => by
        rw [List.mem_singleton.mp hy]
        exact fun heq => h.fresh b hb (heq ▸ hx)⟩
    seen := fun user item => by
      simp [ChangeNotifier.flush, PendingChanges.take, PendingChanges.saved]
    held := fun user item => by
      have hnew : (⟨(n.flush b).window, user, item⟩ : Change) ∉ (n.flush b).recorded :=
        h.notMem_recorded (Nat.le_refl _) user item
      rw [if_neg hnew]
      rfl
    sent := fun c hc user item => by
      rcases List.mem_append.mp hc with hc | hc
      · exact h.sent c hc user item
      · rw [List.mem_singleton.mp hc, SentBatch.count]
        have hheld := h.held user item
        rw [hw] at hheld
        refine Eq.trans ?_ hheld
        rw [PendingChanges.saved, KeyedMap.lookup_mapValues]
        cases AList.lookup user n.pending.users with
        | none => rfl
        | some saved => rfl
    timers := h.timers
    woken := fun c hc => by
      rw [hwindows]
      exact List.mem_append_left _ (h.woken c hc) }

theorem Sound.save (h : n.Sound) (user item : Nat) (reason : UserDataSaveReason) :
    (n.save user item reason).Sound := by
  unfold ChangeNotifier.save ChangeNotifier.recordChange
  split
  · next hannounced =>
    have hsave := saveOf_saveItem h user item
    have hwindow : ((n.insertItem user item).openWindow).pending.batch = some n.window :=
      hsave.batch
    rw [if_neg (by simpa using hannounced)]
    dsimp only
    rw [hwindow, getD_some]
    split
    · exact (hsave.sound h).flush hsave.batch
    · exact hsave.sound h
  · next hquiet =>
    rw [if_pos (by simpa [or_iff_not_imp_left] using hquiet)]
    exact h

theorem Sound.sendBatch (h : n.Sound) {b : Nat} (hb : b ∈ n.timers) : (n.sendBatch b).Sound := by
  have htimers : ∀ c, c < n.pending.next ↔ c ∈ n.timers.erase b ∨ c ∈ n.woken ++ [b] := fun c => by
    rw [h.timers, List.mem_append, List.mem_singleton]
    by_cases hc : c = b
    · simp [hc, hb]
    · rw [List.mem_erase_of_ne hc, or_iff_left hc]
  unfold ChangeNotifier.sendBatch
  dsimp only
  split
  · next hopen =>
    have hflush := h.flush hopen
    exact { hflush with
      timers := htimers
      woken := fun c hc => by
        rcases List.mem_append.mp hc with hc | hc
        · exact hflush.woken c hc
        · rw [List.mem_singleton.mp hc]
          exact (hflush.next b).mp ((h.timers b).mpr (.inl hb)) |>.resolve_left nofun }
  · next hclosed =>
    exact { h with
      timers := htimers
      woken := fun c hc => by
        rcases List.mem_append.mp hc with hc | hc
        · exact h.woken c hc
        · rw [List.mem_singleton.mp hc]
          exact ((h.next b).mp ((h.timers b).mpr (.inl hb))).resolve_left hclosed }

theorem sound_of_reachable (h : changeNotifier.Reachable n) : n.Sound := by
  refine h.invariant sound_init fun n e n' hn _ hs => ?_
  cases e with
  | setUserDataChangedSink =>
    cases hs
    exact { hn with }
  | save user item reason =>
    cases hs
    exact hn.save user item reason
  | wake b =>
    obtain ⟨hb, hs⟩ := Option.ite_none_right_eq_some.mp hs
    cases hs
    exact hn.sendBatch hb

end ChangeNotifier

end Ferrofin.UserData
