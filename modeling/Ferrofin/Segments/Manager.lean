import Ferrofin.Lib.Machine
import Ferrofin.Lib.KeyedMap
import Mathlib.Data.List.Sort

/-!
# Media segments

`FerrofinMediaSegmentManager`: stored segments, the calls that edit them, and the runs of the
providers.  A run reads the rows of its provider and the revision of its item under the lock
(`Manager.start`), extracts with the lock let go, and commits under the lock again unless the
revision or the epoch has moved on (`Manager.commit`).  `segments` is the machine of all
interleavings of runs and calls; a call holds the lock for its whole length and is one step, of
which `ran` says how many of its statements the database ran.  Whether a provider's cache takes a
publication is told from outside.

History, in the runs: `stored`, the provider's rows at the start; `behind` and `erased`, how often
the revision and the epoch went up since; `stale`, whether a call changed the item since.
-/

namespace Ferrofin.Segments

open Lib

inductive MediaSegmentType where
  | unknown
  | commercial
  | preview
  | recap
  | outro
  | intro
deriving DecidableEq

/-- `MediaSegmentDto`; without an id it is nil. -/
structure Segment where
  id : Option Nat := none
  itemId : Nat := 0
  type : MediaSegmentType
  startTicks : Int
  endTicks : Int

/-- A row of `MediaSegments`. -/
structure Row where
  id : Nat
  itemId : Nat
  segmentProviderId : String
  type : MediaSegmentType
  startTicks : Int
  endTicks : Int
deriving DecidableEq

/-- A `MediaSegmentProvider`; `id` is the `media_segment_provider_id` of its name. -/
structure Provider where
  id : String
  order : Int := 0
  legacyIds : List String := []

def Provider.identifies (provider : Provider) (id : String) : Bool :=
  provider.id == id || provider.legacyIds.any (· == id)

def Provider.namespaces (provider : Provider) : List String := provider.id :: provider.legacyIds

def Segment.extent (segment : Segment) : Int × Int × MediaSegmentType :=
  (segment.startTicks, segment.endTicks, segment.type)

def Row.extent (row : Row) : Int × Int × MediaSegmentType :=
  (row.startTicks, row.endTicks, row.type)

def Row.toDto (row : Row) : Segment :=
  { id := some row.id, itemId := row.itemId, type := row.type, startTicks := row.startTicks,
    endTicks := row.endTicks }

def Segment.valid (segment : Segment) : Bool := segment.startTicks ≤ segment.endTicks

/-! ### Statements -/

inductive Statement where
  | insert (segment : Segment) (providerId : String)
  | clearProvider (item : Nat) (providerId : String) (types : Option MediaSegmentType)
  | clearItem (item : Nat)
  | deleteId (id : Nat)

/-- An id that no row has (`Uuid::new_v4`). -/
def freshId (rows : List Row) : Nat := (rows.map Row.id).foldr max 0 + 1

def Row.hasType (row : Row) (types : Option MediaSegmentType) : Bool := types.all (· == row.type)

/-- One statement; `none` when it fails (`create_stored` refuses a segment that ends before it
starts, the database an id that is there). -/
def Statement.run (rows : List Row) : Statement → Option (List Row)
  | .insert segment providerId =>
    let id := segment.id.getD (freshId rows)
    if segment.valid && rows.all (·.id != id) then
      some (rows ++ [{
        id := id
        itemId := segment.itemId
        segmentProviderId := providerId
        type := segment.type
        startTicks := segment.startTicks
        endTicks := segment.endTicks }])
    else none
  | .clearProvider item providerId types =>
    some (rows.filter fun row =>
      !(row.itemId == item && row.segmentProviderId == providerId && row.hasType types))
  | .clearItem item => some (rows.filter (·.itemId != item))
  | .deleteId id => some (rows.filter (·.id != id))

/-- The statements one after the other, until one fails or the database does; whether all ran. -/
def exec : List Statement → Nat → List Row → List Row × Bool
  | [], _, rows => (rows, true)
  | _ :: _, 0, rows => (rows, false)
  | s :: ss, n + 1, rows =>
    match s.run rows with
    | some rows => exec ss n rows
    | none => (rows, false)

/-! ### The manager -/

structure Run where
  item : Nat
  provider : Provider
  overwrite : Bool
  previous : List Segment
  epoch : Nat
  revision : Nat
  stored : List Row
  behind : Nat := 0
  erased : Nat := 0
  stale : Bool := false

/-- `FerrofinMediaSegmentManager` with the rows it keeps. -/
structure Manager where
  rows : List Row := []
  revisions : KeyedMap Nat Nat := ∅
  epoch : Nat := 0
  providers : List Provider := []
  runs : KeyedMap Nat Run := ∅

/-- The values of a `u64`. -/
def wraps : Nat := 2 ^ 64

def providerRows (rows : List Row) (item : Nat) (provider : Provider) : List Row :=
  rows.filter fun row => row.itemId == item && provider.identifies row.segmentProviderId

namespace Manager

variable (m : Manager)

def revision (item : Nat) : Nat := (m.revisions.lookup item).getD 0

def changed (item : Nat) : Manager :=
  { m with
    revisions := m.revisions.insert item ((m.revision item + 1) % wraps)
    runs := KeyedMap.mapValues (fun _ run =>
      { run with behind := if run.item = item then run.behind + 1 else run.behind }) m.runs }

def mutated (item : Nat) : Manager :=
  { m with
    runs := KeyedMap.mapValues (fun _ run =>
      { run with stale := run.stale || run.item == item }) m.runs }

/-- Statements about the item run under its new revision. -/
def mutate (item : Nat) (statements : List Statement) (ran : Nat) : Manager :=
  mutated { m.changed item with rows := (exec statements ran m.rows).1 } item

def provider (id : String) : Option Provider := m.providers.find? (·.identifies id)

def providerId (identifier : String) : String :=
  ((m.provider identifier).map Provider.id).getD identifier

def namespaces (identifier : String) : List String :=
  ((m.provider identifier).map Provider.namespaces).getD [identifier]

def register (provider : Provider) : Manager :=
  if m.providers.any (·.id == provider.id) then m
  else { m with providers := (m.providers ++ [provider]).insertionSort (·.order ≤ ·.order) }

def loadedProvider (candidate : Provider) : Option Provider :=
  match m.provider candidate.id with
  | none => some candidate
  | some registered =>
    if candidate.legacyIds.isEmpty || candidate.legacyIds.any (registered.legacyIds.contains ·)
    then some registered else none

def clears (item : Nat) (identifier : String) (types : Option MediaSegmentType) :
    List Statement :=
  (m.namespaces identifier).map fun providerId => .clearProvider item providerId types

def erase : Manager :=
  { m with
    epoch := (m.epoch + 1) % wraps
    runs := KeyedMap.mapValues (fun _ run =>
      { run with erased := run.erased + 1, stale := true }) m.runs }

def clearAllProvider (types : Option MediaSegmentType) : List String → Nat → Manager → Manager
  | providerId :: ids, n + 1, m =>
    let cleared := m.rows.filter fun row => row.segmentProviderId == providerId && row.hasType types
    let m := { m with rows := m.rows.filter fun row =>
      !(row.segmentProviderId == providerId && row.hasType types) }
    clearAllProvider types ids n (cleared.foldl (fun m row => m.changed row.itemId) m)
  | _, _, m => m

end Manager

inductive Call where
  | createSegment (segment : Segment) (providerId : String)
  | deleteSegment (segmentId : Nat)
  | deleteSegments (item : Nat)
  | deleteProviderSegments (item : Nat) (providerId : String) (types : Option MediaSegmentType)
  | deleteAllProviderSegments (providerId : String) (types : Option MediaSegmentType)
  | replaceProducerSegments (item : Nat) (identifier : String) (types : Option MediaSegmentType)
      (segments : List Segment) (published : Bool)
  | replaceLoadedProducerSegments (item : Nat) (candidate : Provider) (segments : List Segment)
      (published : Bool)
  | createProducerSegment (segment : Segment) (identifier : String) (published : Bool)
  | deleteProducerSegment (item : Nat) (segmentId : Nat) (published : Bool)
  | deleteAllProducerSegments (identifier : String) (types : Option MediaSegmentType)
      (published : Bool)
  | overwrite (item : Nat) (published : Bool)
  | register (provider : Provider)

namespace Manager

variable (m : Manager)

def call (ran : Nat) : Call → Manager
  | .createSegment segment providerId =>
    let statements := [.insert segment (m.providerId providerId)]
    if (exec statements ran m.rows).2 then m.mutate segment.itemId statements ran else m
  | .deleteSegment segmentId =>
    match m.rows.find? (·.id == segmentId), ran with
    | some row, n + 1 => m.mutate row.itemId [.deleteId segmentId] (n + 1)
    | _, _ => m
  | .deleteSegments item => m.mutate item [.clearItem item] ran
  | .deleteProviderSegments item providerId types =>
    m.mutate item (m.clears item providerId types) ran
  | .deleteAllProviderSegments providerId types =>
    clearAllProvider types (m.namespaces providerId) ran m.erase
  | .replaceProducerSegments item identifier types segments published =>
    let segments := segments.map fun segment => { segment with itemId := item }
    if segments.all Segment.valid && published then
      m.mutate item (m.clears item identifier types ++
        segments.map fun segment => .insert segment (m.providerId identifier)) ran
    else m
  | .replaceLoadedProducerSegments item candidate segments published =>
    let segments := segments.map fun segment => { segment with itemId := item }
    match m.loadedProvider candidate with
    | some provider =>
      if segments.all Segment.valid && published then
        let statements := (provider.namespaces.map fun id => .clearProvider item id none) ++
          segments.map fun segment => .insert segment candidate.id
        let m' := m.mutate item statements ran
        if (exec statements ran m.rows).2 then m'.register provider else m'
      else m
    | none => m
  | .createProducerSegment segment identifier published =>
    if segment.valid && published then
      m.mutate segment.itemId ((if segment.type = .commercial then []
        else m.clears segment.itemId identifier (some segment.type)) ++
          [Statement.insert segment (m.providerId identifier)]) ran
    else m
  | .deleteProducerSegment item segmentId published =>
    if published then
      -- the revision that goes up is of the item that was named
      let m' := m.mutate item [.deleteId segmentId] ran
      match m.rows.find? (·.id == segmentId) with
      | some row => m'.mutated row.itemId
      | none => m'
    else m
  | .deleteAllProducerSegments identifier types published =>
    if published then clearAllProvider types (m.namespaces identifier) ran m.erase else m.erase
  | .overwrite item published => if published then m.mutate item [.clearItem item] ran else m
  | .register provider => m.register provider

/-- `run_provider`, until it extracts. -/
def start (k : Nat) (item : Nat) (provider : Provider) (overwrite : Bool) : Manager :=
  let stored := providerRows m.rows item provider
  { m with runs := m.runs.insert k {
      item := item
      provider := provider
      overwrite := overwrite
      previous := if overwrite then []
        else (stored.insertionSort (·.startTicks ≤ ·.startTicks)).map Row.toDto
      epoch := m.epoch
      revision := m.revision item
      stored := stored } }

end Manager

/-- What was extracted is what was there: as long, and each segment among the previous ones. -/
def unchanged (segments previous : List Segment) : Bool :=
  segments.length == previous.length &&
    segments.all fun segment => previous.any fun old => old.extent == segment.extent

def Run.statements (run : Run) (segments : List Segment) : List Statement :=
  (run.provider.namespaces.map fun id => .clearProvider run.item id none) ++
    segments.map fun segment =>
      .insert { segment with itemId := run.item, id := none } run.provider.id

namespace Manager

variable (m : Manager)

def current (run : Run) : Bool := m.epoch == run.epoch && m.revision run.item == run.revision

/-- `run_provider`, after it extracted. -/
def commit (k : Nat) (segments : List Segment) (ran : Nat) : Option Manager :=
  (m.runs.lookup k).map fun run =>
    let m := { m with runs := m.runs.erase k }
    if !m.current run then m
    else if unchanged segments run.previous then m
    else m.mutate run.item (run.statements segments) ran

end Manager

inductive Event where
  | call (call : Call) (ran : Nat)
  | start (k : Nat) (item : Nat) (provider : Provider) (overwrite : Bool)
  | commit (k : Nat) (segments : List Segment) (ran : Nat)
  | fail (k : Nat)

namespace Manager

def step (m : Manager) : Event → Option Manager
  | .call call ran => some (m.call ran call)
  | .start k item provider overwrite =>
    if (m.runs.lookup k).isSome then none else some (m.start k item provider overwrite)
  | .commit k segments ran => m.commit k segments ran
  | .fail k => some { m with runs := m.runs.erase k }

end Manager

def segments : Machine Manager Event where
  init := {}
  step := Manager.step

end Ferrofin.Segments
