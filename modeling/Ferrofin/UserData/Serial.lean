import Ferrofin.Lib.Journal
import Ferrofin.UserData.Agree

/-!
# No update is lost while the rows hold still

A request saves whole rows of what it read earlier, and nothing keeps another one from
saving in between.  As long as no row that was read changes before it is saved
(`World.Unchanged`), the rows are those that the saves leave when each is read and
saved at once, in the order they were made.
-/

namespace Ferrofin.UserData

open Lib Lib.Journal

variable {Rating : Type}

/-! ### One request after another -/

def Save.run (R : Ratings Rating) (s : Save Rating) (rows : List (UserDataEntity Rating)) :
    List (UserDataEntity Rating) :=
  match (s.update.apply R s.now (readOrUnwrittenRow s.place.2 rows s.readKeys).values).saves with
  | none => rows
  | some values => upsertRow (values.saved R) s.saveKeys rows

namespace Write

def place : Write Rating → Place
  | save s => s.place
  | clear p | reset p => p

def run (R : Ratings Rating) : Write Rating → List (UserDataEntity Rating) →
    List (UserDataEntity Rating)
  | save s => s.run R
  | clear _ => clearOwnPlayState
  | reset _ => resetPlaybackStreamSelections

def saveOf (i : Nat) (p : Place) : Write Rating → Option (Save Rating)
  | save s => if s.call = i ∧ s.place = p then some s else none
  | clear _ | reset _ => none

end Write

/-- What a request saves of what it read earlier: the item, the keys it was read under,
and the row. -/
def Call.held (c : Call Rating) : Option (String × List String × UserDataEntity Rating) :=
  match c.current with
  | some (item, _, .saving keys _ before _ _) => some (item, keys, before)
  | some (_, _, .reading) | none => none

namespace World

variable {R : Ratings Rating} {w w' : World Rating}

def savesOf (w : World Rating) (i : Nat) (p : Place) : List (Save Rating) :=
  w.journal.filterMap (Write.saveOf i p)

def Unchanged (w : World Rating) : Event Rating → Prop
  | .save i _ => ∀ c ∈ w.calls.lookup i, ∀ h ∈ c.held,
      (readOrUnwrittenRow h.1 (w.table (c.user, h.1)) h.2.1).values = h.2.2.values
  | .begin _ _ _ _ | .read _ _ _ | .propagate _ _ | .fail _ | .clear _ | .reset _ => True

instance [DecidableEq Rating] (w : World Rating) (e : Event Rating) :
    Decidable (w.Unchanged e) := by
  cases e with
  | save i keys =>
    exact inferInstanceAs (Decidable (∀ c ∈ w.calls.lookup i, ∀ h ∈ c.held,
      (readOrUnwrittenRow h.1 (w.table (c.user, h.1)) h.2.1).values = h.2.2.values))
  | begin | read | propagate | fail | clear | reset => exact inferInstanceAs (Decidable True)

/-! ### The invariant -/

def Saved (own : List (Save Rating)) (c : Call Rating) : Prop :=
  ∃ s, own = [s] ∧ s.update = c.update

def PhaseOk (own : List (Save Rating)) (c : Call Rating) : Prop :=
  match c.phase with
  | .own _ => own = []
  | .versions _ | .returned => Saved own c
  | .version _ item rest _ => Saved own c ∧ item ≠ c.item ∧ c.item ∉ rest
  | .failed => True

def HeldOk (R : Ratings Rating) (c : Call Rating) : Prop :=
  ∀ item update keys now before values propagates,
    c.current = some (item, update, .saving keys now before values propagates) →
      (update.apply R now before.values).saves = some values

structure Serial (R : Ratings Rating) (start : Place → List (UserDataEntity Rating))
    (w : World Rating) : Prop where
  tables : ∀ p, w.table p = replay Write.place (Write.run R) (start p) w.journal p
  fresh : ∀ i p, w.calls.lookup i = none → w.savesOf i p = []
  phases : ∀ i c, w.calls.lookup i = some c → PhaseOk (w.savesOf i (c.user, c.item)) c
  held : ∀ i c, w.calls.lookup i = some c → HeldOk R c

section Calls

variable {own : List (Save Rating)} {c : Call Rating}

theorem phaseOk_toVersions (hs : Saved own c) (played : Bool) {rest : List String}
    (hrest : c.item ∉ rest) : PhaseOk own (c.toVersions played rest) := by
  cases rest with
  | nil => exact hs
  | cons item rest =>
    rw [List.mem_cons, not_or] at hrest
    exact ⟨hs, fun heq => hrest.1 heq.symm, hrest.2⟩

theorem heldOk_toVersions (c : Call Rating) (played : Bool) (rest : List String) :
    HeldOk R (c.toVersions played rest) := by
  intro item update keys now before values propagates hcurrent
  cases rest <;> cases hcurrent

theorem heldOk_afterSave {item : String} {update : Update Rating} {stage : Stage Rating}
    (hcurrent : c.current = some (item, update, stage)) (propagates : Option Bool) :
    HeldOk R (c.afterSave propagates) := by
  intro _ _ _ _ _ _ _ hafter
  obtain ⟨user, own, edit, phase⟩ := c
  cases phase with
  | own stage => cases propagates <;> cases hafter
  | version played target rest stage => exact heldOk_toVersions _ _ _ _ _ _ _ _ _ _ hafter
  | versions | returned | failed => cases hcurrent

theorem phaseOk_withStage (h : PhaseOk own c) (stage : Stage Rating) :
    PhaseOk own (c.withStage stage) := by
  obtain ⟨user, item, update, phase⟩ := c
  cases phase <;> exact h

theorem withStage_current {item : String} {update : Update Rating} {stage stage' : Stage Rating}
    (hcurrent : c.current = some (item, update, stage)) :
    (c.withStage stage').current = some (item, update, stage') := by
  obtain ⟨user, own, edit, phase⟩ := c
  cases phase with
  | own | version => cases hcurrent; rfl
  | versions | returned | failed => cases hcurrent

end Calls

theorem lookup_setCall {i j : Nat} {c c' : Call Rating}
    (h : (w.setCall i c).calls.lookup j = some c') :
    (j = i ∧ c' = c) ∨ j ≠ i ∧ w.calls.lookup j = some c' := by
  rw [setCall, KeyedMap.lookup_insert_eq] at h
  split at h
  · next heq => exact .inl ⟨heq, (Option.some.inj h).symm⟩
  · next hne => exact .inr ⟨hne, h⟩

/-! ### What a write adds -/

theorem savesOf_append {write : Write Rating} {i : Nat} {p : Place}
    (h : w'.journal = w.journal ++ [write]) :
    w'.savesOf i p = w.savesOf i p ++ (write.saveOf i p).toList := by
  rw [savesOf, h, List.filterMap_append]
  cases hs : write.saveOf i p <;> simp [savesOf, hs]

/-- The save of a request is its own at its item, and none of it anywhere else. -/
theorem phaseOk_afterSave {c : Call Rating} {own : List (Save Rating)} {item : String}
    {update : Update Rating} {stage : Stage Rating} {s : Save Rating}
    (hcurrent : c.current = some (item, update, stage)) (h : PhaseOk own c)
    (hs : s.update = update) (hplace : s.place = (c.user, item)) (propagates : Option Bool) :
    PhaseOk (own ++ ((Write.save s).saveOf s.call (c.user, c.item)).toList)
      (c.afterSave propagates) := by
  obtain ⟨user, item', update', phase⟩ := c
  cases phase with
  | own stage =>
    cases hcurrent
    have hown : own = [] := h
    have hsaved : Saved (own ++ ((Write.save s).saveOf s.call (user, item')).toList)
        { user := user, item := item', update := update', phase := .own stage } := by
      refine ⟨s, ?_, hs⟩
      rw [hown, Write.saveOf, if_pos ⟨rfl, hplace⟩]
      rfl
    cases propagates <;> exact hsaved
  | version played target rest stage =>
    cases hcurrent
    obtain ⟨hsaved, htarget, hrest⟩ := h
    have hnone : (Write.save s).saveOf s.call (user, item') = none := by
      refine if_neg fun heq => htarget ?_
      rw [hplace] at heq
      exact (Prod.mk.inj heq.2).2
    rw [hnone, Option.toList_none, List.append_nil]
    exact phaseOk_toVersions hsaved played hrest
  | versions | returned | failed => cases hcurrent

/-- A request saves, or finds nothing to save: the write is journalled, the rows are as it
leaves them, and the request goes on. -/
theorem Serial.write {start : Place → List (UserDataEntity Rating)} (h : w.Serial R start)
    {i : Nat} {c : Call Rating} {item : String} {update : Update Rating} {stage : Stage Rating}
    (hc : w.calls.lookup i = some c) (hcurrent : c.current = some (item, update, stage))
    {s : Save Rating} (hcall : s.call = i) (hs : s.update = update)
    (hplace : s.place = (c.user, item)) (propagates : Option Bool)
    (hcalls : w'.calls = (w.setCall i (c.afterSave propagates)).calls)
    (hjournal : w'.journal = w.journal ++ [Write.save s])
    (htables : ∀ q, w'.table q = if q = s.place then s.run R (w.table q) else w.table q) :
    w'.Serial R start := by
  have hother : ∀ j p, j ≠ i → w'.savesOf j p = w.savesOf j p := by
    intro j p hj
    have hnone : (Write.save s).saveOf j p = none :=
      if_neg fun heq => hj (heq.1.symm.trans hcall)
    rw [savesOf_append hjournal, hnone, Option.toList_none, List.append_nil]
  refine ⟨fun q => ?_, fun j p hj => ?_, fun j c' hj => ?_, fun j c' hj => ?_⟩
  · rw [htables, hjournal]
    split
    · next heq =>
      rw [replay_append_self (show (Write.save s).place = q from heq.symm), ← h.tables]
      rfl
    · next hne =>
      rw [replay_append_of_ne (show (Write.save s).place ≠ q from fun heq => hne heq.symm),
        ← h.tables]
  · rw [hcalls, setCall, KeyedMap.lookup_insert_eq] at hj
    split at hj
    · cases hj
    · next hne =>
      rw [hother j p hne]
      exact h.fresh j p hj
  · rw [hcalls] at hj
    rcases lookup_setCall hj with ⟨rfl, rfl⟩ | ⟨hne, hj⟩
    · have hafter : (c.afterSave propagates).user = c.user ∧
          (c.afterSave propagates).item = c.item := by
        rcases c with ⟨user, item', update', _ | _ | ⟨_, _, rest, _⟩ | _ | _⟩
        · cases propagates <;> exact ⟨rfl, rfl⟩
        · exact ⟨rfl, rfl⟩
        · cases rest <;> exact ⟨rfl, rfl⟩
        · exact ⟨rfl, rfl⟩
        · exact ⟨rfl, rfl⟩
      rw [hafter.1, hafter.2, savesOf_append hjournal, ← hcall]
      exact phaseOk_afterSave hcurrent (hcall ▸ h.phases j c hc) hs hplace propagates
    · rw [hother j _ hne]
      exact h.phases j c' hj
  · rw [hcalls] at hj
    rcases lookup_setCall hj with ⟨-, rfl⟩ | ⟨-, hj⟩
    · exact heldOk_afterSave hcurrent propagates
    · exact h.held j c' hj

theorem Serial.setCall {start : Place → List (UserDataEntity Rating)} (h : w.Serial R start)
    {i : Nat} {c : Call Rating} (hphase : PhaseOk (w.savesOf i (c.user, c.item)) c)
    (hheld : HeldOk R c) : (w.setCall i c).Serial R start := by
  refine ⟨h.tables, fun j p hj => ?_, fun j c' hj => ?_, fun j c' hj => ?_⟩
  · rw [World.setCall, KeyedMap.lookup_insert_eq] at hj
    split at hj
    · cases hj
    · exact h.fresh j p hj
  · rcases lookup_setCall hj with ⟨rfl, rfl⟩ | ⟨-, hj⟩
    · exact hphase
    · exact h.phases j c' hj
  · rcases lookup_setCall hj with ⟨-, rfl⟩ | ⟨-, hj⟩
    · exact hheld
    · exact h.held j c' hj

theorem Serial.statement {start : Place → List (UserDataEntity Rating)} (h : w.Serial R start)
    {p : Place} {write : Write Rating} (hplace : write.place = p)
    (hnone : ∀ i q, write.saveOf i q = none)
    (values : UserDataValues Rating → UserDataValues Rating) :
    (w.statement p write (write.run R) values).Serial R start := by
  have hsaves : ∀ i q, (w.statement p write (write.run R) values).savesOf i q = w.savesOf i q := by
    intro i q
    have hjournal : (w.statement p write (write.run R) values).journal = w.journal ++ [write] := rfl
    rw [savesOf_append hjournal, hnone, Option.toList_none, List.append_nil]
  refine ⟨fun q => ?_, fun j q hj => (hsaves j q).trans (h.fresh j q hj), fun j c hj => ?_,
    h.held⟩
  · show ((w.tables.insert p (write.run R (w.table p))).lookup q).getD [] =
      replay Write.place (Write.run R) (start q) (w.journal ++ [write]) q
    rw [table_insert]
    split
    · next heq =>
      subst heq
      rw [replay_append_self hplace, ← h.tables]
    · next hne =>
      rw [replay_append_of_ne fun heq => hne (heq.symm.trans hplace), ← h.tables]
  · rw [hsaves]
    exact h.phases j c hj

/-- **Every step that saves a row as it was read keeps the rows serial.** -/
theorem Serial.step {start : Place → List (UserDataEntity Rating)} {e : Event Rating}
    (h : w.Serial R start) (hok : w.Unchanged e) (hs : w.step R e = some w') :
    w'.Serial R start := by
  cases e with
  | begin i user item update =>
    obtain ⟨hnone, rfl⟩ := begin_eq hs
    refine h.setCall ?_ fun _ _ _ _ _ _ _ hcurrent => ?_
    · have hempty := h.fresh i (user, item) hnone
      dsimp only
      split
      · trivial
      · exact hempty
    · rw [Call.current] at hcurrent
      cases hrefused : update.isRefused R <;> simp [hrefused] at hcurrent
  | read i keys now =>
    obtain ⟨c, item, update, hc, hcurrent, before, outcome, hbefore, houtcome, hcases⟩ :=
      read_cases hs
    rcases hcases with ⟨values, hvalues, rfl⟩ | ⟨hnone, rfl⟩
    · have hphase := h.phases i c hc
      refine h.setCall ?_ fun _ _ _ _ _ _ _ hnext => ?_
      · have hplace : ∀ stage, (c.withStage stage).user = c.user ∧
            (c.withStage stage).item = c.item := by
          intro stage
          rcases c with ⟨user, item', update', _ | _ | _ | _ | _⟩ <;> exact ⟨rfl, rfl⟩
        rw [(hplace _).1, (hplace _).2]
        exact phaseOk_withStage hphase _
      · rw [withStage_current hcurrent] at hnext
        cases hnext
        rw [← houtcome]
        exact hvalues
    · refine h.write hc hcurrent rfl rfl rfl outcome.propagates rfl rfl fun q => ?_
      show w.table q = _
      split
      · next heq =>
        subst heq
        rw [Save.run]
        dsimp only
        rw [← hbefore, ← houtcome, hnone]
      · rfl
  | save i keys =>
    obtain ⟨c, item, update, readKeys, now, before, values, propagates, hc, hcurrent, rfl⟩ :=
      save_cases hs
    have hheld : c.held = some (item, readKeys, before) := by rw [Call.held, hcurrent]
    have hsame := hok c hc _ hheld
    have hvalues := h.held i c hc _ _ _ _ _ _ _ hcurrent
    refine h.write hc hcurrent rfl rfl rfl propagates rfl rfl fun q => ?_
    show ((w.tables.insert _ _).lookup q).getD [] = _
    rw [table_insert]
    split
    · next heq =>
      subst heq
      rw [Save.run]
      dsimp only
      rw [hsame, hvalues]
    · rfl
  | propagate i versions =>
    obtain ⟨c, played, hc, hphase, rfl⟩ := propagate_cases hs
    have hsaved : Saved (w.savesOf i (c.user, c.item)) c := by
      have hok := h.phases i c hc
      rw [PhaseOk, hphase] at hok
      exact hok
    have hrest : c.item ∉ versions.filter fun v => v ≠ c.item := by simp
    refine h.setCall ?_ (heldOk_toVersions c played _)
    have hplace : ∀ rest, (c.toVersions played rest).user = c.user ∧
        (c.toVersions played rest).item = c.item := by
      intro rest
      cases rest <;> exact ⟨rfl, rfl⟩
    rw [(hplace _).1, (hplace _).2]
    exact phaseOk_toVersions hsaved played hrest
  | fail i =>
    obtain ⟨c, hc, rfl⟩ := Option.map_eq_some_iff.mp hs
    exact h.setCall trivial fun _ _ _ _ _ _ _ hcurrent => by cases hcurrent
  | clear p =>
    cases hs
    have hnone : ∀ i q, (Write.clear p : Write Rating).saveOf i q = none := fun _ _ => rfl
    exact h.statement rfl hnone _
  | reset p =>
    cases hs
    have hnone : ∀ i q, (Write.reset p : Write Rating).saveOf i q = none := fun _ _ => rfl
    exact h.statement rfl hnone _

theorem serial_of_reaches {tables : KeyedMap Place (List (UserDataEntity Rating))}
    (h : (userData R tables).Reaches Unchanged w) :
    w.Serial R fun p => (tables.lookup p).getD [] := by
  refine h.invariant ⟨fun _ => rfl, fun _ _ _ => rfl, fun _ _ hc => ?_, fun _ _ hc => ?_⟩
    fun _ _ _ hserial hok hs => hserial.step hok hs
  · cases hc
  · cases hc

end World

/-- **No update is lost**: the rows of a user on an item are those that the saves leave
when each is read and saved at once, in the order they were made, and among them is the
save of every request that returned, once. -/
theorem no_lost_update {R : Ratings Rating}
    {tables : KeyedMap Place (List (UserDataEntity Rating))} {w : World Rating}
    (h : (userData R tables).Reaches World.Unchanged w) :
    (∀ p, w.table p =
      replay Write.place (Write.run R) ((tables.lookup p).getD []) w.journal p) ∧
    ∀ i c, w.calls.lookup i = some c → c.phase = .returned →
      ∃ s, w.savesOf i (c.user, c.item) = [s] ∧ s.update = c.update := by
  have hserial := World.serial_of_reaches h
  refine ⟨hserial.tables, fun i c hc hreturned => ?_⟩
  have hphase := hserial.phases i c hc
  rw [World.PhaseOk, hreturned] at hphase
  exact hphase

/-! ### A favourite that is lost -/

private def wholeRatings : Ratings Nat where
  like := 10
  dislike := 1
  isLiked r := 7 ≤ r
  isInvalid r := 10 < r
  column r := some r

/-- The settings of a server that keeps every position. -/
private def keepsAll : ResumeOptions where
  belowMinPct _ _ := false
  aboveMaxPct _ _ := false
  belowMinDuration _ := false
  belowMinAudiobook _ := false
  belowMaxAudiobook _ := false

private def favouriteAndReport : List (Event Nat) :=
  [.begin 0 "u" "film" (.userData { isFavorite := some true }),
    .begin 1 "u" "film" (.playState keepsAll { runtimeTicks := 72000000000 } (some 600000000)
      .playbackProgress none)]

/-- One after the other, both are kept. -/
theorem no_lost_update_report : ∃ w : World Nat,
    (∀ p, w.table p = replay Write.place (Write.run wholeRatings) [] w.journal p) ∧
    ∃ row, w.table ("u", "film") = [row] ∧
      row.values.isFavorite = true ∧ row.values.playbackPositionTicks = 600000000 := by
  obtain ⟨w, hw⟩ : ∃ w, (userData wholeRatings ∅).runWhile World.Unchanged
      (userData wholeRatings ∅).init
      (favouriteAndReport ++ [Event.read 0 ["film"] 5, .save 0 ["film"],
        .read 1 ["film"] 6, .save 1 ["film"]]) = some w :=
      Option.isSome_iff_exists.mp (by decide +kernel)
  have hr : (userData wholeRatings ∅).Reaches World.Unchanged w := Machine.path_of_runWhile _ hw
  have hrows := (no_lost_update hr).1
  refine ⟨w, hrows, ?_⟩
  obtain rfl := Option.some.inj hw
  exact ⟨_, rfl, rfl, rfl⟩

/-- The report read the row before the favourite was saved: both requests return, and the
row is not what either order leaves. -/
theorem favourite_lost : ∃ w : World Nat, (userData wholeRatings ∅).Reachable w ∧
    (∀ i ∈ [0, 1], ∃ c, w.calls.lookup i = some c ∧ c.phase = .returned) ∧
    ∃ favourite report, w.journal = [favourite, report] ∧
      ∀ order ∈ [[favourite, report], [report, favourite]],
        w.table ("u", "film") ≠
          replay Write.place (Write.run wholeRatings) [] order ("u", "film") := by
  obtain ⟨w, hw⟩ : ∃ w, (userData wholeRatings ∅).run (userData wholeRatings ∅).init
      (favouriteAndReport ++ [Event.read 0 ["film"] 5, .read 1 ["film"] 6,
        .save 0 ["film"], .save 1 ["film"]]) = some w :=
      Option.isSome_iff_exists.mp (by decide +kernel)
  refine ⟨w, Machine.reachable_of_run _ hw, ?_⟩
  obtain rfl := Option.some.inj hw
  refine ⟨fun i hi => ?_, _, _, rfl, by decide⟩
  rcases List.mem_pair.mp hi with rfl | rfl
  · exact ⟨_, rfl, rfl⟩
  · exact ⟨_, rfl, rfl⟩

end Ferrofin.UserData
