import Ferrofin.Segments.Manager

/-!
# Superseded extractions

A run whose item a call changed meanwhile finds another revision or epoch when it commits
(`Tracked`), unless the counter went round, and a run of which nothing changed finds the rows it
started from.  So a superseded run changes no row, and a run that is not superseded leaves the
segments it extracted (`commit_stores_exactly`), where calls name the item of the segment that
they delete, and what is extracted is well formed and no rearrangement with repetitions of what
was there (`Manager.settled`).
-/

namespace Ferrofin.Segments

open Lib
open List (filter_filter map_cons mem_append mem_map mem_singleton)
open Option (map_eq_some_iff)

/-! ### What statements leave alone -/

theorem le_of_mem_foldr_max {n : Nat} {l : List Nat} (h : n ∈ l) : n ≤ l.foldr max 0 := by
  induction l with
  | nil => cases h
  | cons x xs ih =>
    rcases List.mem_cons.mp h with rfl | h
    · exact Nat.le_max_left _ _
    · exact Nat.le_trans (ih h) (Nat.le_max_right _ _)

theorem freshId_notMem (rows : List Row) : ∀ row ∈ rows, row.id ≠ freshId rows := by
  intro row hrow heq
  have hle := le_of_mem_foldr_max (List.mem_map_of_mem (f := Row.id) hrow)
  rw [freshId] at heq
  omega

theorem run_nodup {rows rows' : List Row} {s : Statement} (h : (rows.map Row.id).Nodup)
    (hs : s.run rows = some rows') : (rows'.map Row.id).Nodup := by
  cases s with
  | insert segment providerId =>
    simp only [Statement.run, Bool.and_eq_true, List.all_eq_true, bne_iff_ne,
      Option.ite_none_right_eq_some, Option.some.injEq] at hs
    obtain ⟨⟨-, hne⟩, rfl⟩ := hs
    rw [List.map_append, List.map_singleton, List.nodup_append]
    refine ⟨h, List.nodup_singleton _, fun a ha b hb => ?_⟩
    obtain ⟨row, hrow, rfl⟩ := mem_map.mp ha
    rw [mem_singleton.mp hb]
    exact hne row hrow
  | clearProvider | clearItem | deleteId =>
    cases hs
    exact h.sublist (List.filter_sublist.map _)

theorem exec_nodup {statements : List Statement} {n : Nat} {rows : List Row}
    (h : (rows.map Row.id).Nodup) : ((exec statements n rows).1.map Row.id).Nodup := by
  induction statements generalizing n rows with
  | nil => exact h
  | cons s ss ih =>
    cases n with
    | zero => exact h
    | succ n =>
      rw [exec]
      split
      · next rows' hs => exact ih (run_nodup h hs)
      · exact h

def Statement.about (item : Nat) : Statement → Prop
  | .insert segment _ => segment.itemId = item
  | .clearProvider item' _ _ | .clearItem item' => item' = item
  | .deleteId _ => False

def KeepsOthers (item : Nat) (rows rows' : List Row) : Prop :=
  ∀ item', item' ≠ item → rows'.filter (·.itemId == item') = rows.filter (·.itemId == item')

theorem keepsOthers_filter {item : Nat} {rows : List Row} {p : Row → Bool}
    (h : ∀ row ∈ rows, p row = false → row.itemId = item) :
    KeepsOthers item rows (rows.filter p) := by
  intro item' hne
  rw [filter_filter]
  refine List.filter_congr fun row hrow => ?_
  cases hp : p row with
  | true => rw [Bool.and_true]
  | false =>
    have heq := h row hrow hp
    simp [heq, Ne.symm hne]

theorem keepsOthers_run {item : Nat} {rows rows' : List Row} {s : Statement}
    (ha : s.about item) (hs : s.run rows = some rows') : KeepsOthers item rows rows' := by
  cases s with
  | insert segment providerId =>
    intro item' hne
    simp only [Statement.run, Option.ite_none_right_eq_some, Option.some.injEq] at hs
    obtain ⟨-, rfl⟩ := hs
    have hitem : segment.itemId = item := ha
    rw [List.filter_append]
    simp [hitem, Ne.symm hne]
  | clearProvider item' providerId types =>
    cases hs
    have hitem : item' = item := ha
    refine keepsOthers_filter fun row _ hp => ?_
    simp only [Bool.not_eq_false', Bool.and_eq_true, beq_iff_eq] at hp
    rw [hp.1.1, hitem]
  | clearItem item' =>
    cases hs
    have hitem : item' = item := ha
    refine keepsOthers_filter fun row _ hp => ?_
    simpa [hitem] using hp
  | deleteId id => exact ha.elim

theorem keepsOthers_exec {item : Nat} {statements : List Statement} {n : Nat} {rows : List Row}
    (h : ∀ s ∈ statements, s.about item) : KeepsOthers item rows (exec statements n rows).1 := by
  induction statements generalizing n rows with
  | nil => exact fun _ _ => rfl
  | cons s ss ih =>
    cases n with
    | zero => exact fun _ _ => rfl
    | succ n =>
      rw [exec]
      split
      · next rows' hs =>
        intro item' hne
        have hrest : KeepsOthers item rows' (exec ss n rows').1 :=
          ih fun s hs => h s (List.mem_cons_of_mem _ hs)
        exact (hrest item' hne).trans
          (keepsOthers_run (h s (List.mem_cons_self ..)) hs item' hne)
      · exact fun _ _ => rfl

theorem keepsOthers_deleteId {item id n : Nat} {rows : List Row}
    (h : ∀ row ∈ rows, row.id = id → row.itemId = item) :
    KeepsOthers item rows (exec [.deleteId id] n rows).1 := by
  cases n with
  | zero => exact fun _ _ => rfl
  | succ n =>
    refine keepsOthers_filter fun row hrow hp => h row hrow ?_
    simpa using hp

theorem KeepsOthers.providerRows {item item' : Nat} {rows rows' : List Row}
    (h : KeepsOthers item rows rows') (hne : item' ≠ item) (provider : Provider) :
    providerRows rows' item' provider = providerRows rows item' provider := by
  have hsplit : ∀ rows : List Row, Segments.providerRows rows item' provider =
      (rows.filter (·.itemId == item')).filter (provider.identifies ·.segmentProviderId) := by
    intro rows
    rw [filter_filter]
    refine List.filter_congr fun row _ => Bool.and_comm ..
  rw [hsplit, hsplit, h item' hne]

/-! ### Runs keep track -/

/-- What a run knows of where the revision, the epoch and its rows went since it started. -/
structure Tracked (rows : List Row) (revision epoch : Nat) (run : Run) : Prop where
  revision : revision = (run.revision + run.behind) % wraps
  revisionLt : run.revision < wraps
  epoch : epoch = (run.epoch + run.erased) % wraps
  epochLt : run.epoch < wraps
  stale : run.stale = true → 0 < run.behind + run.erased
  fresh : run.stale = false → run.behind = 0 ∧ run.erased = 0
  stored : run.stale = false → providerRows rows run.item run.provider = run.stored
  previous : run.previous = if run.overwrite then []
    else (run.stored.insertionSort (·.startTicks ≤ ·.startTicks)).map Row.toDto

/-- Ids are unique, counters in range, and every run is tracked. -/
structure Inv (m : Manager) : Prop where
  ids : (m.rows.map Row.id).Nodup
  revisions : ∀ item, m.revision item < wraps
  epoch : m.epoch < wraps
  runs : ∀ k run, m.runs.lookup k = some run → Tracked m.rows (m.revision run.item) m.epoch run

theorem revision_changed (m : Manager) (item item' : Nat) : (m.changed item).revision item' =
    if item' = item then (m.revision item + 1) % wraps else m.revision item' := by
  simp only [Manager.changed, Manager.revision, KeyedMap.lookup_insert_eq]
  split <;> rfl

theorem wraps_pos : 0 < wraps := Nat.two_pow_pos 64

theorem revision_behind {m : Manager} {item : Nat} {run : Run}
    (h : m.revision run.item = (run.revision + run.behind) % wraps) :
    (m.changed item).revision run.item =
      (run.revision + if run.item = item then run.behind + 1 else run.behind) % wraps := by
  rw [revision_changed]
  split
  · next heq => rw [← heq, h, Nat.mod_add_mod, Nat.add_assoc]
  · exact h

def AllStale (m : Manager) : Prop := ∀ k run, m.runs.lookup k = some run → run.stale = true

namespace Inv

variable {m : Manager}

theorem revisions_changed (h : Inv m) (item : Nat) (item' : Nat) :
    (m.changed item).revision item' < wraps := by
  rw [revision_changed]
  split
  · exact Nat.mod_lt _ wraps_pos
  · exact h.revisions item'

theorem mutate (h : Inv m) {item n : Nat} {statements : List Statement}
    (hkeep : KeepsOthers item m.rows (exec statements n m.rows).1) :
    Inv (m.mutate item statements n) where
  ids := exec_nodup h.ids
  revisions := h.revisions_changed item
  epoch := h.epoch
  runs k run hk := by
    obtain ⟨run', hk', rfl⟩ := map_eq_some_iff.mp
      ((KeyedMap.lookup_mapValues ..).symm.trans hk)
    obtain ⟨run, hk'', rfl⟩ := map_eq_some_iff.mp
      ((KeyedMap.lookup_mapValues ..).symm.trans hk')
    have ht := h.runs k run hk''
    refine ⟨revision_behind ht.revision, ht.revisionLt, ht.epoch, ht.epochLt, fun hs => ?_,
      fun hs => ?_, fun hs => ?_, ht.previous⟩
    · by_cases hitem : run.item = item
      · simp only [if_pos hitem]
        omega
      · simp only [if_neg hitem]
        refine ht.stale ?_
        simpa [hitem] using hs
    · obtain ⟨hstale, hitem⟩ : run.stale = false ∧ run.item ≠ item := by simpa using hs
      simp only [if_neg hitem]
      exact ht.fresh hstale
    · obtain ⟨hstale, hitem⟩ : run.stale = false ∧ run.item ≠ item := by simpa using hs
      exact (hkeep.providerRows hitem run.provider).trans (ht.stored hstale)

theorem mutated (h : Inv m) {item : Nat}
    (hb : ∀ k run, m.runs.lookup k = some run → run.item = item → 0 < run.behind + run.erased) :
    Inv (m.mutated item) where
  ids := h.ids
  revisions := h.revisions
  epoch := h.epoch
  runs k run hk := by
    obtain ⟨run, hk', rfl⟩ := map_eq_some_iff.mp
      ((KeyedMap.lookup_mapValues ..).symm.trans hk)
    have ht := h.runs k run hk'
    refine ⟨ht.revision, ht.revisionLt, ht.epoch, ht.epochLt, fun hs => ?_, fun hs => ?_,
      fun hs => ?_, ht.previous⟩
    · by_cases hitem : run.item = item
      · exact hb k run hk' hitem
      · refine ht.stale ?_
        simpa [hitem] using hs
    · exact ht.fresh (Bool.or_eq_false_iff.mp hs).1
    · exact ht.stored (Bool.or_eq_false_iff.mp hs).1

theorem filter (h : Inv m) (hall : ∀ k run, m.runs.lookup k = some run → run.stale = true)
    (p : Row → Bool) : Inv { m with rows := m.rows.filter p } where
  ids := h.ids.sublist (List.filter_sublist.map _)
  revisions := h.revisions
  epoch := h.epoch
  runs k run hk := by
    have ht := h.runs k run hk
    refine ⟨ht.revision, ht.revisionLt, ht.epoch, ht.epochLt, ht.stale, ht.fresh, fun hs => ?_,
      ht.previous⟩
    rw [hall k run hk] at hs
    cases hs

theorem changed (h : Inv m) (hall : AllStale m) (item : Nat) : Inv (m.changed item) where
  ids := h.ids
  revisions := h.revisions_changed item
  epoch := h.epoch
  runs k run hk := by
    obtain ⟨run, hk', rfl⟩ := map_eq_some_iff.mp
      ((KeyedMap.lookup_mapValues ..).symm.trans hk)
    have ht := h.runs k run hk'
    have hstale := hall k run hk'
    refine ⟨revision_behind ht.revision, ht.revisionLt, ht.epoch, ht.epochLt, fun hs => ?_,
      fun hs => ?_, ht.stored, ht.previous⟩
    · have := ht.stale hs
      dsimp only
      split <;> omega
    · cases hstale.symm.trans hs

theorem erase (h : Inv m) : Inv m.erase where
  ids := h.ids
  revisions := h.revisions
  epoch := Nat.mod_lt _ wraps_pos
  runs k run hk := by
    obtain ⟨run, hk', rfl⟩ := map_eq_some_iff.mp
      ((KeyedMap.lookup_mapValues ..).symm.trans hk)
    have ht := h.runs k run hk'
    refine ⟨ht.revision, ht.revisionLt, ?_, ht.epochLt, fun _ => Nat.succ_pos _, nofun, nofun,
      ht.previous⟩
    show (m.epoch + 1) % wraps = _
    rw [ht.epoch, Nat.mod_add_mod, Nat.add_assoc]

theorem register (h : Inv m) (provider : Provider) : Inv (m.register provider) := by
  unfold Manager.register
  split
  · exact h
  · exact ⟨h.ids, h.revisions, h.epoch, h.runs⟩

end Inv

theorem AllStale.changed {m : Manager} (h : AllStale m) (item : Nat) :
    AllStale (m.changed item) := by
  intro k run hk
  obtain ⟨run, hk', rfl⟩ := map_eq_some_iff.mp
    ((KeyedMap.lookup_mapValues ..).symm.trans hk)
  exact h k run hk'

theorem allStale_erase (m : Manager) : AllStale m.erase := by
  intro k run hk
  obtain ⟨run, hk, rfl⟩ := map_eq_some_iff.mp
    ((KeyedMap.lookup_mapValues ..).symm.trans hk)
  rfl

theorem changedAll {m : Manager} (h : Inv m) (hs : AllStale m) (rows : List Row) :
    Inv (rows.foldl (fun m row => m.changed row.itemId) m) ∧
      AllStale (rows.foldl (fun m row => m.changed row.itemId) m) := by
  induction rows generalizing m with
  | nil => exact ⟨h, hs⟩
  | cons row rows ih => exact ih (h.changed hs _) (hs.changed _)

theorem Inv.clearAllProvider {m : Manager} (h : Inv m) (hs : AllStale m)
    (types : Option MediaSegmentType) (ids : List String) (n : Nat) :
    Inv (Manager.clearAllProvider types ids n m) := by
  induction ids generalizing m n with
  | nil => exact h
  | cons id ids ih =>
    cases n with
    | zero => exact h
    | succ n =>
      have hf := h.filter hs fun row => !(row.segmentProviderId == id && row.hasType types)
      have hall := changedAll hf hs
        (m.rows.filter fun row => row.segmentProviderId == id && row.hasType types)
      exact ih hall.1 hall.2 n

/-! ### Calls -/

def Manager.namesItem (m : Manager) : Call → Bool
  | .deleteProducerSegment item segmentId _ =>
    m.rows.all fun row => row.id != segmentId || row.itemId == item
  | _ => true

theorem about_clears {m : Manager} {item : Nat} {identifier : String}
    {types : Option MediaSegmentType} : ∀ s ∈ m.clears item identifier types, s.about item := by
  intro s hs
  obtain ⟨id, -, rfl⟩ := mem_map.mp hs
  rfl

theorem behind_mutate {m : Manager} {item n : Nat} {statements : List Statement} :
    ∀ k run, (m.mutate item statements n).runs.lookup k = some run → run.item = item →
      0 < run.behind + run.erased := by
  intro k run hk hitem
  obtain ⟨run', hk', rfl⟩ := map_eq_some_iff.mp
    ((KeyedMap.lookup_mapValues ..).symm.trans hk)
  obtain ⟨run, -, rfl⟩ := map_eq_some_iff.mp
    ((KeyedMap.lookup_mapValues ..).symm.trans hk')
  have hitem' : run.item = item := hitem
  simp only [if_pos hitem']
  omega

theorem Inv.call {m : Manager} (h : Inv m) {c : Call} (hc : m.namesItem c = true) (n : Nat) :
    Inv (m.call n c) := by
  cases c with
  | createSegment segment providerId =>
    simp only [Manager.call]
    split
    · refine h.mutate (keepsOthers_exec ?_)
      intro s hs
      rw [mem_singleton.mp hs]
      rfl
    · exact h
  | deleteSegment segmentId =>
    simp only [Manager.call]
    split
    · next row n hrow =>
      refine h.mutate (keepsOthers_deleteId fun row' hrow' hid => ?_)
      have hfound := List.find?_some hrow
      have heq : row' = row := List.inj_on_of_nodup_map h.ids hrow' (List.mem_of_find?_eq_some hrow)
        (hid.trans (Eq.symm (by simpa using hfound)))
      rw [heq]
    · exact h
  | deleteSegments item =>
    refine h.mutate (keepsOthers_exec ?_)
    intro s hs
    rw [mem_singleton.mp hs]
    rfl
  | deleteProviderSegments item providerId types => exact h.mutate (keepsOthers_exec about_clears)
  | deleteAllProviderSegments providerId types =>
    exact h.erase.clearAllProvider (allStale_erase m) types _ n
  | replaceProducerSegments item identifier types segments published =>
    simp only [Manager.call]
    split
    · refine h.mutate (keepsOthers_exec fun s hs => ?_)
      rcases mem_append.mp hs with hs | hs
      · exact about_clears s hs
      · obtain ⟨segment, hsegment, rfl⟩ := mem_map.mp hs
        obtain ⟨segment, -, rfl⟩ := mem_map.mp hsegment
        rfl
    · exact h
  | replaceLoadedProducerSegments item candidate segments published =>
    simp only [Manager.call]
    split
    · split
      · next provider _ _ =>
        have hm : Inv (m.mutate item ((provider.namespaces.map fun id =>
            .clearProvider item id none) ++ (segments.map fun segment =>
              { segment with itemId := item }).map fun segment =>
                .insert segment candidate.id) n) := by
          refine h.mutate (keepsOthers_exec fun s hs => ?_)
          rcases mem_append.mp hs with hs | hs
          · obtain ⟨id, -, rfl⟩ := mem_map.mp hs
            rfl
          · obtain ⟨segment, hsegment, rfl⟩ := mem_map.mp hs
            obtain ⟨segment, -, rfl⟩ := mem_map.mp hsegment
            rfl
        split
        · exact hm.register provider
        · exact hm
      · exact h
    · exact h
  | createProducerSegment segment identifier published =>
    simp only [Manager.call]
    split
    · refine h.mutate (keepsOthers_exec fun s hs => ?_)
      rcases mem_append.mp hs with hs | hs
      · split at hs
        · cases hs
        · exact about_clears s hs
      · rw [mem_singleton.mp hs]
        rfl
    · exact h
  | deleteProducerSegment item segmentId published =>
    simp only [Manager.namesItem, List.all_eq_true, Bool.or_eq_true, bne_iff_ne, beq_iff_eq] at hc
    have hnames : ∀ row ∈ m.rows, row.id = segmentId → row.itemId = item :=
      fun row hrow hid => (hc row hrow).resolve_left fun hne => hne hid
    have hm : Inv (m.mutate item [.deleteId segmentId] n) :=
      h.mutate (keepsOthers_deleteId hnames)
    simp only [Manager.call]
    split
    · split
      · next row hrow =>
        have hfound : row.id = segmentId := by simpa using List.find?_some hrow
        rw [hnames row (List.mem_of_find?_eq_some hrow) hfound]
        exact hm.mutated behind_mutate
      · exact hm
    · exact h
  | deleteAllProducerSegments identifier types published =>
    simp only [Manager.call]
    split
    · exact h.erase.clearAllProvider (allStale_erase m) types _ n
    · exact h.erase
  | overwrite item published =>
    simp only [Manager.call]
    split
    · refine h.mutate (keepsOthers_exec ?_)
      intro s hs
      rw [mem_singleton.mp hs]
      rfl
    · exact h
  | register provider => exact h.register provider

/-! ### Commits -/

namespace Manager

variable (m : Manager)

/-- What a commit of extracted segments needs to keep the promise: the counters have not gone
round; where the segments look unchanged they are the previous ones, each as often, and an
overwriting run found no rows; where they do not, each is well formed. -/
def commits (run : Run) (segments : List Segment) : Bool :=
  run.behind < wraps && run.erased < wraps &&
    (run.stale ||
      if unchanged segments run.previous then
        (segments.map Segment.extent).isPerm (run.previous.map Segment.extent) &&
          (!run.overwrite || (providerRows m.rows run.item run.provider).isEmpty)
      else segments.all Segment.valid)

def settled : Event → Bool
  | .call call _ => m.namesItem call
  | .commit k segments _ => (m.runs.lookup k).all fun run => m.commits run segments
  | _ => true

end Manager

theorem Tracked.not_current {m : Manager} {run : Run}
    (h : Tracked m.rows (m.revision run.item) m.epoch run) (hstale : run.stale = true)
    (hb : run.behind < wraps) (he : run.erased < wraps) : m.current run = false := by
  have hpos := h.stale hstale
  have hrev := h.revision
  have hepoch := h.epoch
  have hlt := h.revisionLt
  have hlt' := h.epochLt
  simp only [wraps] at *
  by_contra hc
  simp only [Manager.current, Bool.not_eq_false, Bool.and_eq_true, beq_iff_eq] at hc
  omega

theorem Inv.erase_run {m : Manager} (h : Inv m) (k : Nat) :
    Inv { m with runs := m.runs.erase k } := by
  refine ⟨h.ids, h.revisions, h.epoch, fun k' run hk => ?_⟩
  have hk' := (KeyedMap.lookup_erase_eq ..).symm.trans hk
  split at hk'
  · cases hk'
  · exact h.runs k' run hk'

theorem about_statements {run : Run} {segments : List Segment} :
    ∀ s ∈ run.statements segments, s.about run.item := by
  intro s hs
  rcases mem_append.mp hs with hs | hs
  · obtain ⟨id, -, rfl⟩ := mem_map.mp hs
    rfl
  · obtain ⟨segment, -, rfl⟩ := mem_map.mp hs
    rfl

theorem Inv.step {m m' : Manager} (h : Inv m) {event : Event} (hset : m.settled event = true)
    (hs : m.step event = some m') : Inv m' := by
  cases event with
  | call call n =>
    cases hs
    exact h.call hset n
  | start k item provider overwrite =>
    simp only [Manager.step] at hs
    split at hs
    · cases hs
    cases hs
    refine ⟨h.ids, h.revisions, h.epoch, fun k' run hk => ?_⟩
    have hk' := (KeyedMap.lookup_insert_eq ..).symm.trans hk
    split at hk'
    · cases hk'
      exact ⟨(Nat.mod_eq_of_lt (h.revisions item)).symm, h.revisions item,
        (Nat.mod_eq_of_lt h.epoch).symm, h.epoch, nofun, fun _ => ⟨rfl, rfl⟩, fun _ => rfl, rfl⟩
    · exact h.runs k' run hk'
  | commit k segments n =>
    obtain ⟨run, -, rfl⟩ := map_eq_some_iff.mp hs
    dsimp only
    split
    · exact h.erase_run k
    · split
      · exact h.erase_run k
      · exact (h.erase_run k).mutate (keepsOthers_exec about_statements)
  | fail k =>
    cases hs
    exact h.erase_run k

theorem inv_of_reaches {m : Manager}
    (h : Segments.segments.Reaches (fun m event => m.settled event = true) m) : Inv m := by
  refine h.invariant ?_ fun m _ m' hm hset hs => hm.step hset hs
  exact ⟨List.nodup_nil, fun _ => wraps_pos, wraps_pos, fun _ _ hk => by cases hk⟩

theorem exec_clears (item : Nat) (ids : List String) (rest : List Statement) (n : Nat)
    (rows : List Row) :
    exec (ids.map (fun id => .clearProvider item id none) ++ rest) (ids.length + n) rows =
      exec rest n (rows.filter fun row =>
        !(row.itemId == item && ids.any (· == row.segmentProviderId))) := by
  induction ids generalizing rows with
  | nil => simp
  | cons id ids ih =>
    have hlen : (id :: ids).length + n = (ids.length + n) + 1 := by
      simp only [List.length_cons]; omega
    rw [hlen]
    simp only [map_cons, List.cons_append, exec, Statement.run]
    rw [ih, filter_filter]
    congr 1
    refine List.filter_congr fun row _ => ?_
    have hcomm : (row.segmentProviderId == id) = (id == row.segmentProviderId) := BEq.comm
    cases hitem : row.itemId == item <;> simp [Row.hasType, Bool.and_comm, hcomm]

theorem exec_inserts (item : Nat) (providerId : String) (segments : List Segment) (n : Nat)
    (rows : List Row) (hvalid : segments.all Segment.valid = true) :
    ∃ stored : List Row, (exec (segments.map fun segment =>
        .insert { segment with itemId := item, id := none } providerId)
        (segments.length + n) rows).1 = rows ++ stored ∧
      stored.map Row.extent = segments.map Segment.extent ∧
      ∀ row ∈ stored, row.itemId = item ∧ row.segmentProviderId = providerId := by
  induction segments generalizing rows with
  | nil => exact ⟨[], (List.append_nil rows).symm, rfl, nofun⟩
  | cons segment segments ih =>
    obtain ⟨hv, hvs⟩ : segment.valid = true ∧ segments.all Segment.valid = true := by
      simpa using hvalid
    have hfresh : rows.all (·.id != freshId rows) = true :=
      List.all_eq_true.mpr fun row hrow => by simpa using freshId_notMem rows row hrow
    have hv' : Segment.valid { segment with itemId := item, id := none } = true := hv
    have hlen : (segment :: segments).length + n = (segments.length + n) + 1 := by
      simp only [List.length_cons]; omega
    rw [hlen]
    simp only [map_cons, exec, Statement.run, Option.getD_none, hv', hfresh, Bool.and_self,
      if_true]
    obtain ⟨stored, hexec, hextent, hof⟩ := ih (rows ++ [{
      id := freshId rows
      itemId := item
      segmentProviderId := providerId
      type := segment.type
      startTicks := segment.startTicks
      endTicks := segment.endTicks }]) hvs
    refine ⟨_ :: stored, by rw [hexec, List.append_assoc]; rfl, ?_, ?_⟩
    · rw [map_cons, hextent]
      rfl
    · intro row hrow
      rcases List.mem_cons.mp hrow with rfl | hrow
      · exact ⟨rfl, rfl⟩
      · exact hof row hrow

theorem providerRows_exec {run : Run} {segments : List Segment} {n : Nat} {rows : List Row}
    (hn : (run.statements segments).length ≤ n) (hvalid : segments.all Segment.valid = true) :
    (providerRows (exec (run.statements segments) n rows).1 run.item run.provider).map Row.extent =
      segments.map Segment.extent := by
  simp only [Run.statements, List.length_append, List.length_map] at hn
  obtain ⟨k, rfl⟩ := Nat.exists_eq_add_of_le hn
  rw [Run.statements, Nat.add_assoc, exec_clears]
  obtain ⟨stored, hexec, hextent, hof⟩ :=
    exec_inserts run.item run.provider.id segments k _ hvalid
  rw [hexec, providerRows, List.filter_append, ← hextent]
  have hcleared : (rows.filter fun row => !(row.itemId == run.item &&
      run.provider.namespaces.any (· == row.segmentProviderId))).filter (fun row =>
        row.itemId == run.item && run.provider.identifies row.segmentProviderId) = [] := by
    rw [filter_filter, List.filter_eq_nil_iff]
    intro row _ hrow
    simp only [Provider.identifies, Provider.namespaces, List.any_cons] at hrow
    cases h : (row.itemId == run.item && (run.provider.id == row.segmentProviderId ||
      run.provider.legacyIds.any (· == row.segmentProviderId))) <;> simp_all
  have hstored : stored.filter (fun row => row.itemId == run.item &&
      run.provider.identifies row.segmentProviderId) = stored := by
    refine List.filter_eq_self.mpr fun row hrow => ?_
    obtain ⟨hitem, hid⟩ := hof row hrow
    simp [hitem, hid, Provider.identifies]
  rw [hcleared, hstored, List.nil_append]

/-- **Where no counter goes round, calls name the item of the segment that they delete, segments
that look unchanged are unchanged, and others are well formed: a run that is superseded changes no
row, and one that is not leaves exactly the segments it extracted.** -/
theorem commit_stores_exactly {m m' : Manager} {k n : Nat} {extracted : List Segment} {run : Run}
    (h : segments.Reaches (fun m event => m.settled event = true) m)
    (hset : m.settled (.commit k extracted n) = true) (hrun : m.runs.lookup k = some run)
    (hs : m.step (.commit k extracted n) = some m') :
    (run.stale = true → m'.rows = m.rows) ∧
      (run.stale = false → (run.statements extracted).length ≤ n →
        ((providerRows m'.rows run.item run.provider).map Row.extent).Perm
          (extracted.map Segment.extent)) := by
  have ht := (inv_of_reaches h).runs k run hrun
  simp only [Manager.settled, hrun, Option.all_some, Manager.commits, Bool.and_eq_true,
    decide_eq_true_eq] at hset
  obtain ⟨⟨hb, he⟩, hset⟩ := hset
  simp only [Manager.step, Manager.commit, hrun, Option.map_some, Option.some.injEq] at hs
  refine ⟨fun hstale => ?_, fun hstale hn => ?_⟩
  · have hguard : Manager.current { m with runs := m.runs.erase k } run = false :=
      ht.not_current hstale hb he
    rw [hguard] at hs
    rw [← hs]
    rfl
  · have hguard : Manager.current { m with runs := m.runs.erase k } run = true := by
      obtain ⟨hbehind, herased⟩ := ht.fresh hstale
      have hrev := ht.revision
      have hepoch := ht.epoch
      rw [hbehind, Nat.add_zero, Nat.mod_eq_of_lt ht.revisionLt] at hrev
      rw [herased, Nat.add_zero, Nat.mod_eq_of_lt ht.epochLt] at hepoch
      simp only [Manager.current, Manager.revision] at hrev ⊢
      simp [hrev, hepoch]
    rw [hguard] at hs
    simp only [Bool.not_true, Bool.false_eq_true, if_false] at hs
    rw [hstale, Bool.false_or] at hset
    split at hs
    · next hun =>
      subst hs
      rw [if_pos hun, Bool.and_eq_true, List.isPerm_iff] at hset
      obtain ⟨hperm, hover⟩ := hset
      refine List.Perm.trans ?_ hperm.symm
      have hprev := ht.previous
      cases hoverwrite : run.overwrite with
      | true =>
        simp only [hoverwrite, Bool.not_true, Bool.false_or, List.isEmpty_iff] at hover
        rw [hprev, if_pos hoverwrite]
        show List.Perm ((providerRows m.rows run.item run.provider).map Row.extent) _
        rw [hover]
        exact List.Perm.refl _
      | false =>
        rw [hprev, if_neg (by simp [hoverwrite]), List.map_map]
        show List.Perm ((providerRows m.rows run.item run.provider).map Row.extent) _
        rw [ht.stored hstale]
        exact (List.perm_insertionSort _ _).symm.map _
    · next hun =>
      subst hs
      rw [if_neg hun] at hset
      exact List.Perm.of_eq (providerRows_exec hn hset)

def skipper : Provider := { id := "skipper" }

def introduction : Segment := { itemId := 7, type := .intro, startTicks := 0, endTicks := 90 }

def outro : Segment := { itemId := 7, type := .outro, startTicks := 500, endTicks := 560 }

def extracting : List Event :=
  [.call (.register skipper) 1, .call (.createSegment introduction "skipper") 1,
    .call (.createSegment outro "skipper") 1, .start 0 7 skipper false]

/-- The outro is not found again; the introduction alone is left. -/
theorem commit_stores_introduction : ∃ m m' run,
    segments.Reaches (fun m event => m.settled event = true) m ∧ m.runs.lookup 0 = some run ∧
    m.step (.commit 0 [introduction] 2) = some m' ∧
    ((providerRows m'.rows run.item run.provider).map Row.extent).Perm
      [introduction.extent] := by
  obtain ⟨m, run, m', hm, hrun, hset, hs, hstale, hn⟩ : ∃ m run m',
      segments.runWhile (fun m event => m.settled event = true) {} extracting = some m ∧
      m.runs.lookup 0 = some run ∧ m.settled (.commit 0 [introduction] 2) = true ∧
      m.step (.commit 0 [introduction] 2) = some m' ∧ run.stale = false ∧
      (run.statements [introduction]).length ≤ 2 :=
    ⟨_, _, _, rfl, rfl, rfl, rfl, rfl, Nat.le_refl _⟩
  have h : segments.Reaches (fun m event => m.settled event = true) m :=
    Machine.path_of_runWhile _ hm
  exact ⟨m, m', run, h, hrun, hs, (commit_stores_exactly h hset hrun hs).2 hstale hn⟩

/-- **What looks unchanged need not be**: the introduction, found twice, leaves the outro and one
introduction. -/
theorem repeated_not_stored : ¬ ∀ m m' k n extracted run, segments.Reachable m →
    m.runs.lookup k = some run → m.step (.commit k extracted n) = some m' →
    (run.stale = true → m'.rows = m.rows) ∧
      (run.stale = false → (run.statements extracted).length ≤ n →
        ((providerRows m'.rows run.item run.provider).map Row.extent).Perm
          (extracted.map Segment.extent)) := by
  intro hall
  obtain ⟨m, run, m', hm, hrun, hs, hstale, hn, hrows⟩ : ∃ m run m',
      segments.run {} extracting = some m ∧ m.runs.lookup 0 = some run ∧
      m.step (.commit 0 [introduction, introduction] 3) = some m' ∧ run.stale = false ∧
      (run.statements [introduction, introduction]).length ≤ 3 ∧
      (providerRows m'.rows run.item run.provider).map Row.extent =
        [introduction.extent, outro.extent] :=
    ⟨_, _, _, rfl, rfl, rfl, rfl, Nat.le_refl _, rfl⟩
  have hperm := (hall m m' 0 3 _ run (Machine.reachable_of_run _ hm) hrun hs).2 hstale hn
  rw [hrows] at hperm
  exact absurd hperm (by decide)

end Ferrofin.Segments
