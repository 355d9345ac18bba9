import Ferrofin.Segments.Superseded

/-!
# Failed writes

A call that writes segments clears the rows of each namespace of its provider and inserts the new
ones, statement after statement and without a transaction.  When one of them fails, what the ones
before it did stays: the old rows are gone, or some of the new ones are there.  So a failed write
leaves the rows as they were where it had at most one statement to run that changes any
(`WritesOnce`), and only there (`failed_write_leaves_iff`).
-/

namespace Ferrofin.Segments

open Lib

def scope (item : Nat) (ids : List String) (rows : List Row) : List Row :=
  rows.filter fun row => row.itemId == item && ids.contains row.segmentProviderId

def writes (item : Nat) (ids : List String) (types : Option MediaSegmentType)
    (segments : List Segment) (providerId : String) : List Statement :=
  (ids.map fun id => .clearProvider item id types) ++
    segments.map fun segment => .insert segment providerId

/-- However far the statements come: where they fail, the rows are `base`. -/
def FailsTo (base : List Row) (item : Nat) (ids : List String) (statements : List Statement)
    (rows : List Row) : Prop :=
  ∀ ran, (exec statements ran rows).2 = false → scope item ids (exec statements ran rows).1 = base

/-- The segment is refused: it ends before it starts, or its id is taken. -/
def Refused (rows : List Row) (segment : Segment) : Prop :=
  segment.valid = false ∨ ∃ row ∈ rows, segment.id = some row.id

/-- At most one statement changes rows: nothing is stored that is cleared before another statement,
and one segment is inserted at most, or the first one is refused. -/
structure WritesOnce (rows : List Row) (item : Nat) (ids : List String)
    (types : Option MediaSegmentType) (segments : List Segment) : Prop where
  cleared : ∀ id ∈ (if segments = [] then ids.dropLast else ids), ∀ row ∈ rows,
    row.itemId = item → row.segmentProviderId = id → row.hasType types = false
  inserted : segments.tail = [] ∨ ∀ segment ∈ segments.head?, Refused rows segment

variable {item : Nat} {ids : List String} {types : Option MediaSegmentType} {providerId id : String}
  {segments : List Segment} {segment : Segment} {rows rows' base : List Row}
  {statement : Statement} {statements : List Statement}

/-! ### Statements that fail -/

theorem failsTo_nil : FailsTo base item ids [] rows := by
  intro ran h
  rw [exec] at h
  cases h

theorem failsTo_cons : FailsTo base item ids (statement :: statements) rows ↔
    scope item ids rows = base ∧
      ∀ rows', statement.run rows = some rows' → FailsTo base item ids statements rows' := by
  constructor
  · refine fun h => ⟨h 0 rfl, fun rows' hrun ran hfails => ?_⟩
    have hsucc := h (ran + 1)
    rw [exec, hrun] at hsucc
    exact hsucc hfails
  · rintro ⟨hbase, hrest⟩ ran hfails
    cases ran with
    | zero => exact hbase
    | succ ran =>
      rw [exec] at hfails ⊢
      rcases hrun : statement.run rows with _ | rows'
      · exact hbase
      · rw [hrun] at hfails
        exact hrest rows' hrun ran hfails

theorem FailsTo.scope_eq (h : FailsTo base item ids statements rows) (hne : statements ≠ []) :
    scope item ids rows = base := by
  obtain ⟨statement, rest, rfl⟩ := List.exists_cons_of_ne_nil hne
  exact (failsTo_cons.mp h).1

theorem refused_iff (providerId : String) :
    Refused rows segment ↔ (Statement.insert segment providerId).run rows = none := by
  have hfresh : (rows.all fun row => row.id != segment.id.getD (freshId rows)) = false ↔
      ∃ row ∈ rows, segment.id = some row.id := by
    rw [List.all_eq_false]
    refine exists_congr fun row => and_congr_right fun hrow => ?_
    have hnew := freshId_notMem rows row hrow
    rcases segment.id with _ | id
    · exact ⟨fun h => absurd (bne_iff_ne.mpr hnew) h, nofun⟩
    · change ¬(row.id != id) = true ↔ some id = some row.id
      rw [bne_iff_ne, not_not, Option.some.injEq]
      exact eq_comm
  rw [Refused, ← hfresh, Statement.run]
  cases segment.valid <;> cases rows.all fun row => row.id != segment.id.getD (freshId rows) <;>
    simp

theorem scope_insert (hitem : segment.itemId = item) (hid : providerId ∈ ids)
    (hrun : (Statement.insert segment providerId).run rows = some rows') :
    scope item ids rows' ≠ scope item ids rows := by
  simp only [Statement.run, Option.ite_none_right_eq_some, Option.some.injEq] at hrun
  obtain ⟨-, rfl⟩ := hrun
  intro heq
  have hlength := congrArg List.length heq
  rw [scope, List.filter_append, List.filter_cons_of_pos (by simp [hitem, hid])] at hlength
  exact Nat.succ_ne_self _ (List.length_append.symm.trans hlength)

theorem failsTo_inserts (hitem : ∀ segment ∈ segments, segment.itemId = item)
    (hid : providerId ∈ ids) :
    FailsTo (scope item ids rows) item ids
        (segments.map fun segment => .insert segment providerId) rows ↔
      segments.tail = [] ∨ ∀ segment ∈ segments.head?, Refused rows segment := by
  rcases segments with _ | ⟨segment, rest⟩
  · exact iff_of_true failsTo_nil (.inl rfl)
  have hfirst : (∀ s ∈ (segment :: rest).head?, Refused rows s) ↔ Refused rows segment := by simp
  rw [List.map_cons, failsTo_cons, hfirst, List.tail_cons, refused_iff providerId]
  constructor
  · rintro ⟨-, h⟩
    rcases hrun : (Statement.insert segment providerId).run rows with _ | rows'
    · exact .inr rfl
    · refine .inl (by_contra fun hne => ?_)
      refine scope_insert (hitem segment List.mem_cons_self) hid hrun ((h rows' hrun).scope_eq ?_)
      rwa [ne_eq, List.map_eq_nil_iff]
  · intro h
    refine ⟨rfl, fun rows' hrun => ?_⟩
    rcases h with hnil | hnone
    · rw [hnil]
      exact failsTo_nil
    · rw [hnone] at hrun
      cases hrun

theorem filter_clear_eq_self (h : ∀ row ∈ rows, row.itemId = item → row.segmentProviderId = id →
      row.hasType types = false) :
    (rows.filter fun row =>
      !(row.itemId == item && row.segmentProviderId == id && row.hasType types)) = rows := by
  refine List.filter_eq_self.mpr fun row hrow => ?_
  have hrow := h row hrow
  cases hitem : row.itemId == item <;> cases hprovider : row.segmentProviderId == id <;> simp_all

theorem scope_clear_eq_iff (hid : id ∈ ids) :
    scope item ids (rows.filter fun row =>
        !(row.itemId == item && row.segmentProviderId == id && row.hasType types)) =
      scope item ids rows ↔
    ∀ row ∈ rows, row.itemId = item → row.segmentProviderId = id → row.hasType types = false := by
  constructor
  · intro h row hrow hitem hprovider
    have hmem : row ∈ scope item ids rows := by
      refine List.mem_filter.mpr ⟨hrow, ?_⟩
      simp [hitem, hprovider, hid]
    rw [← h] at hmem
    have hkept := (List.mem_filter.mp (List.mem_filter.mp hmem).1).2
    simpa [hitem, hprovider] using hkept
  · intro h
    rw [filter_clear_eq_self h]

theorem writesOnce_cons_iff {cleared : List String} (hlast : ¬(cleared = [] ∧ segments = [])) :
    WritesOnce rows item (id :: cleared) types segments ↔
      (∀ row ∈ rows, row.itemId = item → row.segmentProviderId = id → row.hasType types = false) ∧
        WritesOnce rows item cleared types segments := by
  have hmem : ∀ x, x ∈ (if segments = [] then (id :: cleared).dropLast else id :: cleared) ↔
      x = id ∨ x ∈ (if segments = [] then cleared.dropLast else cleared) := fun x => by
    split
    · next hnil => rw [List.dropLast_cons_of_ne_nil fun h => hlast ⟨h, hnil⟩, List.mem_cons]
    · exact List.mem_cons
  constructor
  · intro h
    exact ⟨h.cleared id ((hmem id).mpr (.inl rfl)),
      fun x hx => h.cleared x ((hmem x).mpr (.inr hx)), h.inserted⟩
  · rintro ⟨hid, h⟩
    refine ⟨fun x hx => ?_, h.inserted⟩
    rcases (hmem x).mp hx with rfl | hx
    · exact hid
    · exact h.cleared x hx

theorem failsTo_writes_iff {cleared : List String} (hsub : ∀ id ∈ cleared, id ∈ ids)
    (hitem : ∀ segment ∈ segments, segment.itemId = item) (hid : providerId ∈ ids) :
    FailsTo (scope item ids rows) item ids (writes item cleared types segments providerId) rows ↔
      WritesOnce rows item cleared types segments := by
  have hinserts := @failsTo_inserts item ids providerId segments rows hitem hid
  induction cleared with
  | nil =>
    refine hinserts.trans ⟨fun h => ⟨?_, h⟩, fun h => h.inserted⟩
    intro id hid
    rw [List.dropLast_nil, ite_self] at hid
    cases hid
  | cons id cleared ih =>
    have hfirst := hsub id List.mem_cons_self
    have ih := ih fun id hid => hsub id (List.mem_cons_of_mem _ hid)
    have hrun : (Statement.clearProvider item id types).run rows = some (rows.filter fun row =>
        !(row.itemId == item && row.segmentProviderId == id && row.hasType types)) := rfl
    rw [writes, List.map_cons, List.cons_append, failsTo_cons, and_iff_right rfl, hrun]
    simp only [Option.some.injEq, forall_eq']
    by_cases hlast : cleared = [] ∧ segments = []
    · obtain ⟨rfl, rfl⟩ := hlast
      exact iff_of_true failsTo_nil ⟨nofun, .inl rfl⟩
    rw [writesOnce_cons_iff hlast]
    constructor
    · -- another statement may fail, so nothing must have been cleared
      intro h
      have hne : writes item cleared types segments providerId ≠ [] := fun h => by
        obtain ⟨hclears, hinserts⟩ := List.append_eq_nil_iff.mp h
        exact hlast ⟨List.map_eq_nil_iff.mp hclears, List.map_eq_nil_iff.mp hinserts⟩
      have hnone := (scope_clear_eq_iff hfirst).mp (h.scope_eq hne)
      rw [filter_clear_eq_self hnone] at h
      exact ⟨hnone, ih.mp h⟩
    · rintro ⟨hnone, h⟩
      rw [filter_clear_eq_self hnone]
      exact ih.mpr h

/-! ### Calls that fail -/

namespace Manager

variable (m : Manager)

/-- `run_provider` returns an error after it extracted. -/
def commitFails (run : Run) (segments : List Segment) (ran : Nat) : Bool :=
  m.current run && !unchanged segments run.previous &&
    !(exec (run.statements segments) ran m.rows).2

def replaceStatements (item : Nat) (identifier : String) (types : Option MediaSegmentType)
    (segments : List Segment) : List Statement :=
  writes item (m.namespaces identifier) types
    (segments.map fun segment => { segment with itemId := item }) (m.providerId identifier)

/-- `replace_producer_segments` returns an error. -/
def replaceFails (item : Nat) (identifier : String) (types : Option MediaSegmentType)
    (segments : List Segment) (published : Bool) (ran : Nat) : Bool :=
  !(segments.all Segment.valid && published) ||
    !(exec (m.replaceStatements item identifier types segments) ran m.rows).2

def createClears (segment : Segment) (identifier : String) : List String :=
  if segment.type = .commercial then [] else m.namespaces identifier

/-- `create_producer_segment` returns an error. -/
def createFails (segment : Segment) (identifier : String) (published : Bool) (ran : Nat) : Bool :=
  !(segment.valid && published) ||
    !(exec (writes segment.itemId (m.createClears segment identifier) (some segment.type)
      [segment] (m.providerId identifier)) ran m.rows).2

end Manager

theorem providerId_mem_namespaces (m : Manager) (identifier : String) :
    m.providerId identifier ∈ m.namespaces identifier := by
  rw [Manager.providerId, Manager.namespaces]
  rcases m.provider identifier with _ | provider
  · exact List.mem_singleton.mpr rfl
  · exact List.mem_cons_self

def Run.inserted (run : Run) (segments : List Segment) : List Segment :=
  segments.map fun segment => { segment with itemId := run.item, id := none }

theorem Run.statements_eq (run : Run) (segments : List Segment) : run.statements segments =
    writes run.item run.provider.namespaces none (run.inserted segments) run.provider.id := by
  rw [statements, writes, inserted, List.map_map]
  rfl

theorem commit_fails_iff (m : Manager) {k : Nat} {run : Run} (hrun : m.runs.lookup k = some run)
    (segments : List Segment) :
    (∀ ran m', m.commit k segments ran = some m' → m.commitFails run segments ran = true →
        scope run.item run.provider.namespaces m'.rows =
          scope run.item run.provider.namespaces m.rows) ↔
      (m.current run = true → unchanged segments run.previous = false →
        WritesOnce m.rows run.item run.provider.namespaces none (run.inserted segments)) := by
  have hitem : ∀ segment ∈ run.inserted segments, segment.itemId = run.item :=
    List.forall_mem_map.mpr fun _ _ => rfl
  have hid : run.provider.id ∈ run.provider.namespaces := List.mem_cons_self
  have hsub : ∀ id ∈ run.provider.namespaces, id ∈ run.provider.namespaces := fun _ h => h
  rw [← failsTo_writes_iff hsub hitem hid, ← run.statements_eq]
  have hcommit : ∀ ran, m.commit k segments ran = some (
      let m := { m with runs := m.runs.erase k }
      if !m.current run then m
      else if unchanged segments run.previous then m
      else m.mutate run.item (run.statements segments) ran) := fun ran => by
    rw [Manager.commit, hrun]
    rfl
  constructor
  · intro h hcurrent hchanged ran hfails
    have hrows := h ran _ (hcommit ran) (by simp [Manager.commitFails, hcurrent, hchanged, hfails])
    have hcurrent' : { m with runs := m.runs.erase k }.current run = true := hcurrent
    simp only [hcurrent', hchanged, Bool.not_true, Bool.false_eq_true, if_false] at hrows
    exact hrows
  · intro h ran m' hm' hfails
    simp only [Manager.commitFails, Bool.and_eq_true, Bool.not_eq_true'] at hfails
    obtain ⟨⟨hcurrent, hchanged⟩, hfails⟩ := hfails
    have hcurrent' : { m with runs := m.runs.erase k }.current run = true := hcurrent
    rw [hcommit] at hm'
    simp only [hcurrent', hchanged, Bool.not_true, Bool.false_eq_true, if_false,
      Option.some.injEq] at hm'
    rw [← hm']
    exact h hcurrent hchanged ran hfails

theorem replace_fails_iff (m : Manager) (item : Nat) (identifier : String)
    (types : Option MediaSegmentType) (segments : List Segment) (published : Bool) :
    (∀ ran, m.replaceFails item identifier types segments published ran = true →
        scope item (m.namespaces identifier)
            (m.call ran (.replaceProducerSegments item identifier types segments published)).rows =
          scope item (m.namespaces identifier) m.rows) ↔
      (segments.all Segment.valid = true → published = true →
        WritesOnce m.rows item (m.namespaces identifier) types
          (segments.map fun segment => { segment with itemId := item })) := by
  have hitem : ∀ s ∈ segments.map fun segment => { segment with itemId := item },
      s.itemId = item := List.forall_mem_map.mpr fun _ _ => rfl
  have hsub : ∀ id ∈ m.namespaces identifier, id ∈ m.namespaces identifier := fun _ h => h
  have hvalid : (segments.map fun segment => { segment with itemId := item }).all Segment.valid =
      segments.all Segment.valid := by
    rw [List.all_map]
    rfl
  rw [← failsTo_writes_iff hsub hitem (providerId_mem_namespaces m identifier)]
  have hcall : ∀ ran, (m.call ran
      (.replaceProducerSegments item identifier types segments published)).rows =
      if segments.all Segment.valid && published then
        (exec (m.replaceStatements item identifier types segments) ran m.rows).1
      else m.rows := fun ran => by
    simp only [Manager.call, hvalid]
    split
    · rw [Manager.replaceStatements, writes, List.map_map]
      rfl
    · rfl
  simp only [hcall, Manager.replaceFails]
  constructor
  · intro h hsegments hpublished ran hfails
    have hrows := h ran
    rw [hsegments, hpublished] at hrows
    exact hrows (by rw [Manager.replaceStatements, hfails]; rfl)
  · intro h ran hfails
    split
    · next hok =>
      rw [hok] at hfails
      obtain ⟨hsegments, hpublished⟩ := Bool.and_eq_true_iff.mp hok
      rw [Bool.not_true, Bool.false_or, Bool.not_eq_true'] at hfails
      exact h hsegments hpublished ran hfails
    · rfl

theorem create_fails_iff (m : Manager) (segment : Segment) (identifier : String)
    (published : Bool) :
    (∀ ran, m.createFails segment identifier published ran = true →
        scope segment.itemId (m.namespaces identifier)
            (m.call ran (.createProducerSegment segment identifier published)).rows =
          scope segment.itemId (m.namespaces identifier) m.rows) ↔
      (segment.valid = true → published = true →
        WritesOnce m.rows segment.itemId (m.createClears segment identifier) (some segment.type)
          [segment]) := by
  have hsub : ∀ id ∈ m.createClears segment identifier, id ∈ m.namespaces identifier := by
    intro id hid
    rw [Manager.createClears] at hid
    split at hid
    · cases hid
    · exact hid
  have hitem : ∀ s ∈ [segment], s.itemId = segment.itemId := List.forall_mem_singleton.mpr rfl
  rw [← failsTo_writes_iff hsub hitem (providerId_mem_namespaces m identifier)]
  have hcall : ∀ ran, (m.call ran (.createProducerSegment segment identifier published)).rows =
      if segment.valid && published then
        (exec (writes segment.itemId (m.createClears segment identifier) (some segment.type)
          [segment] (m.providerId identifier)) ran m.rows).1
      else m.rows := fun ran => by
    rw [Manager.call, Manager.createClears]
    by_cases hcommercial : segment.type = .commercial <;> simp only [hcommercial, if_true, if_false]
    · split <;> rfl
    · split <;> rfl
  simp only [hcall, Manager.createFails]
  constructor
  · intro h hsegment hpublished ran hfails
    have hrows := h ran
    rw [hsegment, hpublished] at hrows
    exact hrows (by rw [hfails]; rfl)
  · intro h ran hfails
    split
    · next hok =>
      rw [hok] at hfails
      obtain ⟨hsegment, hpublished⟩ := Bool.and_eq_true_iff.mp hok
      rw [Bool.not_true, Bool.false_or, Bool.not_eq_true'] at hfails
      exact h hsegment hpublished ran hfails
    · rfl

/-- A write that fails, wherever it does, leaves the rows of its item and provider as they were if
and only if it writes once. -/
theorem failed_write_leaves_iff (m : Manager) :
    (∀ k run segments, m.runs.lookup k = some run →
      ((∀ ran m', m.commit k segments ran = some m' → m.commitFails run segments ran = true →
          scope run.item run.provider.namespaces m'.rows =
            scope run.item run.provider.namespaces m.rows) ↔
        (m.current run = true → unchanged segments run.previous = false →
          WritesOnce m.rows run.item run.provider.namespaces none (run.inserted segments)))) ∧
    (∀ item identifier types segments published,
      ((∀ ran, m.replaceFails item identifier types segments published ran = true →
          scope item (m.namespaces identifier)
              (m.call ran
                (.replaceProducerSegments item identifier types segments published)).rows =
            scope item (m.namespaces identifier) m.rows) ↔
        (segments.all Segment.valid = true → published = true →
          WritesOnce m.rows item (m.namespaces identifier) types
            (segments.map fun segment => { segment with itemId := item })))) ∧
    ∀ segment identifier published,
      ((∀ ran, m.createFails segment identifier published ran = true →
          scope segment.itemId (m.namespaces identifier)
              (m.call ran (.createProducerSegment segment identifier published)).rows =
            scope segment.itemId (m.namespaces identifier) m.rows) ↔
        (segment.valid = true → published = true →
          WritesOnce m.rows segment.itemId (m.createClears segment identifier) (some segment.type)
            [segment])) :=
  ⟨fun _ _ segments hrun => commit_fails_iff m hrun segments, replace_fails_iff m,
    create_fails_iff m⟩

def intro : Row where
  id := 1
  itemId := 1
  segmentProviderId := "p"
  type := .intro
  startTicks := 0
  endTicks := 100

def reading : Run where
  item := 1
  provider := { id := "p" }
  overwrite := false
  previous := [intro.toDto]
  epoch := 0
  revision := 0
  stored := [intro]

def producing : Manager where
  rows := [intro]
  providers := [{ id := "p" }]
  runs := (∅ : KeyedMap Nat Run).insert 0 reading

/-- A segment that ends before it starts is extracted: the run fails, and the intro that was stored
is gone. -/
theorem failed_run_erases :
    ∃ m', producing.runs.lookup 0 = some reading ∧
      producing.commit 0 [{ type := .intro, startTicks := 9, endTicks := 5 }] 2 = some m' ∧
      producing.commitFails reading [{ type := .intro, startTicks := 9, endTicks := 5 }] 2 = true ∧
      providerRows producing.rows 1 reading.provider = [intro] ∧
      providerRows m'.rows 1 reading.provider = [] :=
  ⟨_, rfl, rfl, rfl, rfl, rfl⟩

/-- A run, a replacement and a creation that insert. -/
theorem failed_write_leaves_iff_producing :
    ((∀ ran m', producing.commit 0 [⟨none, 0, .intro, 5, 9⟩] ran = some m' →
        producing.commitFails reading [⟨none, 0, .intro, 5, 9⟩] ran = true →
        scope 1 reading.provider.namespaces m'.rows =
          scope 1 reading.provider.namespaces producing.rows) ↔
      (producing.current reading = true →
        unchanged [⟨none, 0, .intro, 5, 9⟩] reading.previous = false →
        WritesOnce producing.rows 1 reading.provider.namespaces none
          (reading.inserted [⟨none, 0, .intro, 5, 9⟩]))) ∧
    ((∀ ran, producing.replaceFails 1 "p" none [⟨none, 1, .outro, 5, 9⟩] true ran = true →
        scope 1 (producing.namespaces "p") (producing.call ran
          (.replaceProducerSegments 1 "p" none [⟨none, 1, .outro, 5, 9⟩] true)).rows =
            scope 1 (producing.namespaces "p") producing.rows) ↔
      ([(⟨none, 1, .outro, 5, 9⟩ : Segment)].all Segment.valid = true → true = true →
        WritesOnce producing.rows 1 (producing.namespaces "p") none [⟨none, 1, .outro, 5, 9⟩])) ∧
    ((∀ ran, producing.createFails ⟨none, 2, .outro, 5, 9⟩ "p" true ran = true →
        scope 2 (producing.namespaces "p") (producing.call ran
          (.createProducerSegment ⟨none, 2, .outro, 5, 9⟩ "p" true)).rows =
            scope 2 (producing.namespaces "p") producing.rows) ↔
      ((⟨none, 2, .outro, 5, 9⟩ : Segment).valid = true → true = true →
        WritesOnce producing.rows 2 (producing.createClears ⟨none, 2, .outro, 5, 9⟩ "p")
          (some .outro) [⟨none, 2, .outro, 5, 9⟩])) :=
  have h := failed_write_leaves_iff producing
  ⟨h.1 0 reading _ rfl, h.2.1 1 "p" none _ true, h.2.2 ⟨none, 2, .outro, 5, 9⟩ "p" true⟩

end Ferrofin.Segments
