import Ferrofin.UserData.Manager

/-!
# The rows of an item agree

What each step does to the rows (`World.step_rows`), and what follows: once a save has
completed, all rows of the user on the item carry what was saved last, under whatever
keys they are, so whatever keys the item has later, a read finds it (`rows_agree`).
-/

namespace Ferrofin.UserData

open Lib

variable {Rating : Type}

namespace World

variable {R : Ratings Rating} {w w' : World Rating} {i : Nat}

/-! ### What the steps do -/

theorem begin_eq {user item : String} {update : Update Rating}
    (h : w.begin R i user item update = some w') :
    w.calls.lookup i = none ∧ w' = w.setCall i {
      user := user
      item := item
      update := update
      phase := if update.isRefused R then .failed else .own .reading } := by
  rw [begin] at h
  split at h
  · cases h
  · next hnone => exact ⟨by simpa using hnone, (Option.some.inj h).symm⟩

/-- A read finds an edit to save, or nothing to save, which is done then. -/
theorem read_cases {keys : List String} {now : Int} (h : w.read R i keys now = some w') :
    ∃ c item update, w.calls.lookup i = some c ∧ c.current = some (item, update, .reading) ∧
      ∃ before outcome, before = readOrUnwrittenRow item (w.table (c.user, item)) keys ∧
        outcome = update.apply R now before.values ∧
        ((∃ values, outcome.saves = some values ∧
            w' = w.setCall i (c.withStage (.saving keys now before values outcome.propagates))) ∨
          outcome.saves = none ∧
            w' = { w.setCall i (c.afterSave outcome.propagates) with
              journal := w.journal ++ [.save {
                call := i, place := (c.user, item), update := update, now := now
                readKeys := keys, saveKeys := [] }] }) := by
  obtain ⟨c, hc, h⟩ := Option.bind_eq_some_iff.mp h
  split at h
  · next item update hcurrent =>
    refine ⟨c, item, update, hc, hcurrent, _, _, rfl, rfl, ?_⟩
    dsimp only at h
    split at h
    · next values hvalues => exact .inl ⟨values, hvalues, (Option.some.inj h).symm⟩
    · next hnone => exact .inr ⟨hnone, (Option.some.inj h).symm⟩
  · cases h

theorem save_cases {keys : List String} (h : w.save R i keys = some w') :
    ∃ c item update readKeys now before values propagates, w.calls.lookup i = some c ∧
      c.current = some (item, update, .saving readKeys now before values propagates) ∧
      w' = { w.setCall i (c.afterSave propagates) with
        tables := w.tables.insert (c.user, item)
          (upsertRow (values.saved R) keys (w.table (c.user, item)))
        journal := w.journal ++ [.save {
          call := i, place := (c.user, item), update := update, now := now
          readKeys := readKeys, saveKeys := keys }]
        last := w.last.insert (c.user, item) (values.saved R) } := by
  obtain ⟨c, hc, h⟩ := Option.bind_eq_some_iff.mp h
  split at h
  · next item update readKeys now before values propagates hcurrent =>
    exact ⟨c, item, update, readKeys, now, before, values, propagates, hc, hcurrent,
      (Option.some.inj h).symm⟩
  · cases h

theorem propagate_cases {versions : List String} (h : w.propagate i versions = some w') :
    ∃ c played, w.calls.lookup i = some c ∧ c.phase = .versions played ∧
      w' = w.setCall i (c.toVersions played (versions.filter fun v => v ≠ c.item)) := by
  obtain ⟨c, hc, h⟩ := Option.bind_eq_some_iff.mp h
  split at h
  · next played hphase => exact ⟨c, played, hc, hphase, (Option.some.inj h).symm⟩
  · cases h

theorem table_insert (w : World Rating) (p q : Place) (rows : List (UserDataEntity Rating)) :
    ((w.tables.insert p rows).lookup q).getD [] = if q = p then rows else w.table q := by
  rw [KeyedMap.lookup_insert_eq]
  split <;> rfl

/-! ### The invariant -/

/-- The rows of a place that was saved carry what was saved last. -/
def Agreed (w : World Rating) : Prop :=
  ∀ p values, w.last.lookup p = some values → Agree values (w.table p)

theorem Agreed.congr (h : w.Agreed) (htables : w'.tables = w.tables) (hlast : w'.last = w.last) :
    w'.Agreed := by
  intro p values hp
  rw [hlast] at hp
  rw [table, htables]
  exact h p values hp

theorem Agreed.insert (h : w.Agreed) {p : Place} {rows : List (UserDataEntity Rating)}
    (htables : w'.tables = w.tables.insert p rows)
    (hother : ∀ q, q ≠ p → w'.last.lookup q = w.last.lookup q)
    (hself : ∀ values, w'.last.lookup p = some values → Agree values rows) : w'.Agreed := by
  intro q values hq
  rw [table, htables, table_insert]
  split
  · next heq =>
    subst heq
    exact hself values hq
  · next hne =>
    rw [hother q hne] at hq
    exact h q values hq

theorem Agreed.statement (h : w.Agreed) (p : Place) (write : Write Rating)
    {rows : List (UserDataEntity Rating) → List (UserDataEntity Rating)}
    {f : UserDataValues Rating → UserDataValues Rating}
    (hagree : ∀ values, Agree values (w.table p) → Agree (f values) (rows (w.table p))) :
    (w.statement p write rows f).Agreed := by
  refine h.insert (p := p) rfl (fun q hne => ?_) fun values hvalues => ?_
  · rw [World.statement]
    cases hlast : w.last.lookup p with
    | none => rfl
    | some v => exact AList.lookup_insert_ne hne
  · rw [World.statement] at hvalues
    cases hlast : w.last.lookup p with
    | none =>
      rw [hlast] at hvalues
      dsimp only at hvalues
      rw [hlast] at hvalues
      cases hvalues
    | some v =>
      rw [hlast] at hvalues
      dsimp only at hvalues
      rw [AList.lookup_insert] at hvalues
      cases hvalues
      exact hagree v (h p v hlast)

/-- **Every step keeps the rows in agreement.** -/
theorem Agreed.step {e : Event Rating} (h : w.Agreed) (hs : w.step R e = some w') :
    w'.Agreed := by
  cases e with
  | begin i user item update =>
    obtain ⟨-, rfl⟩ := begin_eq hs
    exact h.congr rfl rfl
  | read i keys now =>
    obtain ⟨c, item, update, -, -, before, outcome, -, -, ⟨values, -, rfl⟩ | ⟨-, rfl⟩⟩ :=
      read_cases hs
    · exact h.congr rfl rfl
    · exact h.congr rfl rfl
  | save i keys =>
    obtain ⟨c, item, update, readKeys, now, before, values, propagates, -, -, rfl⟩ :=
      save_cases hs
    refine h.insert (p := (c.user, item)) rfl (fun q hne => AList.lookup_insert_ne hne) ?_
    intro v hv
    rw [AList.lookup_insert] at hv
    cases hv
    exact agree_upsertRow _ _ _
  | propagate i versions =>
    obtain ⟨c, played, -, -, rfl⟩ := propagate_cases hs
    exact h.congr rfl rfl
  | fail i =>
    obtain ⟨c, -, rfl⟩ := Option.map_eq_some_iff.mp hs
    exact h.congr rfl rfl
  | clear p =>
    cases hs
    exact h.statement p _ fun values hagree => hagree.clearOwnPlayState
  | reset p =>
    cases hs
    exact h.statement p _ fun values hagree => hagree.resetPlaybackStreamSelections

theorem agreed_of_reachable {tables : KeyedMap Place (List (UserDataEntity Rating))}
    (h : (userData R tables).Reachable w) : w.Agreed :=
  h.invariant (fun _ _ hp => by cases hp) fun _ _ _ hagreed _ hs => hagreed.step hs

end World

/-- **All rows of an item agree**: once a save of the user's data of the item completed,
every row carries the values of the last one, and a read under any keys finds them when
one of these keys has a row. -/
theorem rows_agree {R : Ratings Rating} {tables : KeyedMap Place (List (UserDataEntity Rating))}
    {w : World Rating} (h : (userData R tables).Reachable w) {user item : String}
    {values : UserDataValues Rating} (hlast : w.last.lookup (user, item) = some values) :
    (∀ row ∈ w.table (user, item), row.values = values) ∧
      ∀ keys : List String, (∃ row ∈ w.table (user, item), row.customDataKey ∈ keys) →
        (readOrUnwrittenRow item (w.table (user, item)) keys).values = values := by
  have hagree : Agree values (w.table (user, item)) :=
    World.agreed_of_reachable h (user, item) values hlast
  refine ⟨hagree, fun keys ⟨row, hrow, _⟩ => ?_⟩
  exact hagree.read item keys (List.ne_nil_of_mem hrow)

/-- A film is a favourite under its id; it then gains a provider's id and is marked played,
and loses the provider's id again: the row of its id is found, with both. -/
theorem rows_agree_renamed : ∃ (w : World Nat) (values : UserDataValues Nat),
    w.last.lookup ("u", "film") = some values ∧ values.isFavorite = true ∧ values.played = true ∧
      (w.table ("u", "film")).map UserDataEntity.customDataKey = ["film", "tmdb"] ∧
      (∀ row ∈ w.table ("u", "film"), row.values = values) ∧
      (readOrUnwrittenRow "film" (w.table ("u", "film")) ["imdb", "film"]).values = values := by
  let ratings : Ratings Nat := {
    like := 10
    dislike := 1
    isLiked := fun r => 7 ≤ r
    isInvalid := fun r => 10 < r
    column := some }
  obtain ⟨w, hw⟩ : ∃ w, (userData ratings ∅).run (userData ratings ∅).init
      [.begin 0 "u" "film" (.userData { isFavorite := some true }), .read 0 ["film"] 5,
        .save 0 ["film"], .begin 1 "u" "film" (.markPlayed none), .read 1 ["tmdb", "film"] 6,
        .save 1 ["tmdb"]] = some w := ⟨_, rfl⟩
  have hr : (userData ratings ∅).Reachable w := Machine.reachable_of_run _ hw
  obtain ⟨values, hvalues⟩ : ∃ values, w.last.lookup ("u", "film") = some values := by
    obtain rfl := Option.some.inj hw
    exact ⟨_, rfl⟩
  obtain ⟨hrows, hread⟩ := rows_agree hr hvalues
  refine ⟨w, values, hvalues, ?_⟩
  obtain rfl := Option.some.inj hw
  cases hvalues
  exact ⟨rfl, rfl, rfl, hrows, hread _ ⟨_, List.mem_cons_self, by decide⟩⟩

end Ferrofin.UserData
