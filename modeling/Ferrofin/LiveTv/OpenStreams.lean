import Ferrofin.Lib.Machine
import Ferrofin.Lib.KeyedMap
import Ferrofin.Util.Text

/-!
# Open live streams

`LiveTvManager` gives a channel's viewers one stream of a tuner (`open_channel_stream`,
`close_channel_stream`, `join_open_stream`, `enforce_tuner_count`).  A stream goes by the id of
its source, which a later stream of the channel has again; an open goes on under one lock, and
closes and hang-ups of tuners come between any two of its steps.  `liveStreams` is the machine of
all interleavings.

A stream whose tuner is alive goes when an open puts another under its id, or with a close.  The
close is the last viewer's, unless a viewer of an earlier stream still held the id when the stream
was opened (`streams_accounted`): that viewer's close is taken for one of the new stream's.  No host
has more streams open than it has tuners.

History: `number`, which stream a handle is; `inherited`, whether a viewer held the id when the
stream was opened; `held`, which stream a viewer was given.
-/

namespace Ferrofin.LiveTv

open Lib Util
open Lib.KeyedMap (lookup_erase_eq lookup_insert_eq)

def eqOrdinalIgnoreCase (ordinalUpper : Char → Char) (a b : String) : Bool :=
  a.toList.map ordinalUpper == b.toList.map ordinalUpper

/-- The id that a stream is asked for by; the channel's own is none. -/
def askedId (channelKey : String) (mediaSourceId : Option String) : Option String :=
  (mediaSourceId.map trim).filter fun id => id != "" && !eqIgnoreAsciiCase id channelKey

structure LiveStreamHandle where
  number : Nat
  originalStreamId : Option String
  tunerHostId : String
  consumerCount : Int
  enableStreamSharing : Bool
  inherited : Bool
deriving DecidableEq

def LiveStreamHandle.joins (handle : LiveStreamHandle) (streamId : String) : Bool :=
  handle.enableStreamSharing && handle.originalStreamId.any (eqIgnoreAsciiCase · streamId)

/-- What a viewer was given: the id to close, and the stream it was. -/
structure Held where
  liveStreamId : String
  number : Nat
deriving DecidableEq

/-- Where the open that has the lock is: before it knows the channel's tuner host, before it looks
for a stream to join, before it asks for a tuner, and while its tuner is started. -/
inductive Stage where
  | resolving
  | joining (tunerHostId : String)
  | enforcing (tunerHostId : String)
  | starting (tunerHostId : String)
deriving DecidableEq

structure Opening where
  viewer : Nat
  streamId : Option String
  stage : Stage

structure Manager where
  liveStreams : KeyedMap String LiveStreamHandle := ∅
  opening : Option Opening := none
  held : KeyedMap Nat Held := ∅
  nextNumber : Nat := 0

/-- What happens; a HashMap finds any of the streams to join, and `insert` says under which id the
tuner's source comes and whether the tuner has already hung up. -/
inductive Event where
  | lock (viewer : Nat) (channelKey : String) (mediaSourceId : Option String)
  | resolve (tunerHostId : String)
  | join (liveStreamId : String)
  | miss
  | enforce
  | insert (liveStreamId : String) (alive : Bool)
  | fail
  | close (viewer : Nat)
  | hangUp (liveStreamId : String)

/-- The tuners of a host that a stream has; one whose tuner has hung up has none. -/
def LiveStreamHandle.uses (sameHost : String → String → Bool) (tunerHostId : String)
    (handle : LiveStreamHandle) : Nat :=
  if handle.enableStreamSharing && sameHost handle.tunerHostId tunerHostId then 1 else 0

namespace Manager

variable (m : Manager)

def inUse (sameHost : String → String → Bool) (tunerHostId : String) : Nat :=
  KeyedMap.total (LiveStreamHandle.uses sameHost tunerHostId) m.liveStreams

def enforceTunerCount (ordinalUpper : Char → Char) (tunerHostId : String) (tunerCount : Int) :
    Bool :=
  tunerCount ≤ 0 || m.inUse (eqOrdinalIgnoreCase ordinalUpper) tunerHostId < tunerCount

def closeChannelStream (liveStreamId : String) : Manager :=
  match m.liveStreams.lookup liveStreamId with
  | some handle =>
    if handle.consumerCount - 1 ≤ 0 then
      { m with liveStreams := m.liveStreams.erase liveStreamId }
    else { m with
      liveStreams := m.liveStreams.insert liveStreamId
        { handle with consumerCount := handle.consumerCount - 1 } }
  | none => m

def holds (liveStreamId : String) : Bool :=
  m.held.values.any fun held => held.liveStreamId == liveStreamId

def register (viewer : Nat) (streamId : Option String) (tunerHostId liveStreamId : String)
    (alive : Bool) : Manager :=
  { liveStreams := m.liveStreams.insert liveStreamId
      { number := m.nextNumber
        originalStreamId := streamId
        tunerHostId := tunerHostId
        consumerCount := 1
        enableStreamSharing := alive
        inherited := m.holds liveStreamId }
    opening := none
    held := m.held.insert viewer ⟨liveStreamId, m.nextNumber⟩
    nextNumber := m.nextNumber + 1 }

def step (ordinalUpper : Char → Char) (tunerCount : String → Int) : Event → Option Manager
  | .lock viewer channelKey mediaSourceId =>
    if m.opening.isNone && (m.held.lookup viewer).isNone then some { m with
      liveStreams := KeyedMap.retain (fun _ handle => handle.enableStreamSharing) m.liveStreams
      opening := some ⟨viewer, askedId channelKey mediaSourceId, .resolving⟩ }
    else none
  | .resolve tunerHostId =>
    match m.opening with
    | some ⟨viewer, streamId, .resolving⟩ =>
      some { m with opening := some ⟨viewer, streamId, .joining tunerHostId⟩ }
    | _ => none
  | .join liveStreamId =>
    match m.opening, m.liveStreams.lookup liveStreamId with
    | some ⟨viewer, some streamId, .joining _⟩, some handle =>
      if handle.joins streamId then some { m with
        liveStreams := m.liveStreams.insert liveStreamId
          { handle with consumerCount := handle.consumerCount + 1 }
        opening := none
        held := m.held.insert viewer ⟨liveStreamId, handle.number⟩ }
      else none
    | _, _ => none
  | .miss =>
    match m.opening with
    | some ⟨viewer, streamId, .joining tunerHostId⟩ =>
      if streamId.any fun id => m.liveStreams.values.any (·.joins id) then none
      else some { m with opening := some ⟨viewer, streamId, .enforcing tunerHostId⟩ }
    | _ => none
  | .enforce =>
    match m.opening with
    | some ⟨viewer, streamId, .enforcing tunerHostId⟩ =>
      if m.enforceTunerCount ordinalUpper tunerHostId (tunerCount tunerHostId) then
        some { m with opening := some ⟨viewer, streamId, .starting tunerHostId⟩ }
      else some { m with opening := none }
    | _ => none
  | .insert liveStreamId alive =>
    match m.opening with
    | some ⟨viewer, streamId, .starting tunerHostId⟩ =>
      some (m.register viewer streamId tunerHostId liveStreamId alive)
    | _ => none
  | .fail => if m.opening.isSome then some { m with opening := none } else none
  | .close viewer => (m.held.lookup viewer).map fun held =>
    { m.closeChannelStream held.liveStreamId with held := m.held.erase viewer }
  | .hangUp liveStreamId => (m.liveStreams.lookup liveStreamId).map fun handle =>
    { m with
      liveStreams := m.liveStreams.insert liveStreamId
        { handle with enableStreamSharing := false } }

end Manager

def liveStreams (ordinalUpper : Char → Char) (tunerCount : String → Int) :
    Machine Manager Event where
  init := {}
  step m := m.step ordinalUpper tunerCount

variable {ordinalUpper : Char → Char} {tunerCount : String → Int} {m m' : Manager}

/-! ### Tuners -/

def Opening.starts (opening : Opening) (tunerHostId : String) : Nat :=
  if opening.stage = .starting tunerHostId then 1 else 0

def sameId (a b : String) : Bool := a == b

def Manager.occupied (m : Manager) (tunerHostId : String) : Nat :=
  m.inUse sameId tunerHostId + (m.opening.map (·.starts tunerHostId)).getD 0

def Manager.Within (tunerCount : String → Int) (m : Manager) : Prop :=
  ∀ tunerHostId, 0 < tunerCount tunerHostId →
    (m.occupied tunerHostId : Int) ≤ tunerCount tunerHostId

theorem eqOrdinalIgnoreCase_self (ordinalUpper : Char → Char) (a : String) :
    eqOrdinalIgnoreCase ordinalUpper a a = true :=
  beq_self_eq_true _

theorem inUse_le (m : Manager) (ordinalUpper : Char → Char) (tunerHostId : String) :
    m.inUse sameId tunerHostId ≤ m.inUse (eqOrdinalIgnoreCase ordinalUpper) tunerHostId := by
  refine KeyedMap.total_le_total (fun handle => ?_) m.liveStreams
  rw [LiveStreamHandle.uses, LiveStreamHandle.uses]
  by_cases hsame : handle.tunerHostId = tunerHostId
  · rw [hsame, eqOrdinalIgnoreCase_self, sameId, beq_self_eq_true]
  · rw [sameId, beq_false_of_ne hsame, Bool.and_false, if_neg Bool.false_ne_true]
    exact Nat.zero_le _

namespace Manager

theorem Within.of_le (h : m.Within tunerCount)
    (hle : ∀ tunerHostId, m'.occupied tunerHostId ≤ m.occupied tunerHostId) :
    m'.Within tunerCount := by
  intro tunerHostId hpos
  have hm := h tunerHostId hpos
  have hm' := hle tunerHostId
  omega

theorem occupied_starting (m : Manager) (viewer : Nat) (streamId : Option String)
    (host tunerHostId : String) :
    occupied { m with opening := some ⟨viewer, streamId, .starting host⟩ } tunerHostId =
      m.inUse sameId tunerHostId + if host = tunerHostId then 1 else 0 := by
  simp [occupied, Opening.starts, inUse]

theorem occupied_close (m : Manager) (viewer : Nat) (liveStreamId tunerHostId : String) :
    occupied { m.closeChannelStream liveStreamId with held := m.held.erase viewer } tunerHostId ≤
      m.occupied tunerHostId := by
  rw [closeChannelStream]
  split
  · next handle hl =>
    split
    · have hle := KeyedMap.total_erase_le (LiveStreamHandle.uses sameId tunerHostId)
        m.liveStreams liveStreamId
      exact Nat.add_le_add_right hle _
    · have hsame := KeyedMap.total_insert_of_eq (f := LiveStreamHandle.uses sameId tunerHostId)
        (w := { handle with consumerCount := handle.consumerCount - 1 }) hl rfl
      exact Nat.add_le_add_right (Nat.le_of_eq hsame) _
  · exact Nat.le_refl _

theorem Within.step (h : m.Within tunerCount) {event : Event}
    (hs : m.step ordinalUpper tunerCount event = some m') : m'.Within tunerCount := by
  cases event with
  | lock viewer channelKey mediaSourceId =>
    simp only [Manager.step] at hs
    split at hs
    · cases hs
      refine h.of_le fun tunerHostId => Nat.add_le_add ?_ (Nat.zero_le _)
      exact KeyedMap.total_retain_le (LiveStreamHandle.uses sameId tunerHostId) _ _
    · cases hs
  | resolve tunerHostId =>
    simp only [Manager.step] at hs
    split at hs
    · cases hs
      exact h.of_le fun _ => Nat.add_le_add_left (Nat.zero_le _) _
    · cases hs
  | join liveStreamId =>
    simp only [Manager.step] at hs
    split at hs
    · next viewer streamId host handle hopen hl =>
      split at hs
      · cases hs
        refine h.of_le fun tunerHostId => Nat.add_le_add (Nat.le_of_eq ?_) (Nat.zero_le _)
        exact KeyedMap.total_insert_of_eq hl rfl
      · cases hs
    · cases hs
  | miss =>
    simp only [Manager.step] at hs
    split at hs
    · split at hs
      · cases hs
      · cases hs
        exact h.of_le fun _ => Nat.add_le_add_left (Nat.zero_le _) _
    · cases hs
  | enforce =>
    simp only [Manager.step] at hs
    split at hs
    · next viewer streamId host hopen =>
      split at hs
      · next hfree =>
        cases hs
        -- the host has a tuner left for this open; the other hosts start none
        intro tunerHostId hpos
        have hm := h tunerHostId hpos
        rw [enforceTunerCount, Bool.or_eq_true, decide_eq_true_iff, decide_eq_true_iff] at hfree
        have hle := inUse_le m ordinalUpper tunerHostId
        rw [occupied_starting]
        split
        · next hhost =>
          subst hhost
          omega
        · exact Int.le_trans (Int.ofNat_le.mpr (Nat.le_add_right ..)) hm
      · cases hs
        exact h.of_le fun _ => Nat.add_le_add_left (Nat.zero_le _) _
    · cases hs
  | insert liveStreamId alive =>
    simp only [Manager.step] at hs
    split at hs
    · next viewer streamId host hopen =>
      cases hs
      refine h.of_le fun tunerHostId => ?_
      -- the tuner that was started is the new stream's
      have hm : m.occupied tunerHostId =
          m.inUse sameId tunerHostId + if host = tunerHostId then 1 else 0 := by
        simp [occupied, Opening.starts, hopen]
      refine Nat.le_trans
        (KeyedMap.total_insert_le (LiveStreamHandle.uses sameId tunerHostId) _ _ _) ?_
      rw [hm, Nat.add_comm]
      refine Nat.add_le_add_left ?_ _
      cases alive <;> simp [LiveStreamHandle.uses, sameId]
    · cases hs
  | fail =>
    simp only [Manager.step] at hs
    split at hs
    · cases hs
      exact h.of_le fun _ => Nat.add_le_add_left (Nat.zero_le _) _
    · cases hs
  | close viewer =>
    obtain ⟨held, hheld, rfl⟩ := Option.map_eq_some_iff.mp hs
    exact h.of_le fun tunerHostId => occupied_close m viewer held.liveStreamId tunerHostId
  | hangUp liveStreamId =>
    obtain ⟨handle, hl, rfl⟩ := Option.map_eq_some_iff.mp hs
    refine h.of_le fun tunerHostId => Nat.add_le_add_right ?_ _
    exact KeyedMap.total_insert_le_of_le hl (Nat.zero_le _)

end Manager

theorem within_of_reachable (h : (liveStreams ordinalUpper tunerCount).Reachable m) :
    m.Within tunerCount := by
  refine h.invariant (I := Manager.Within tunerCount) ?_ fun m _ m' hm _ hs => hm.step hs
  exact fun tunerHostId hpos => Int.le_of_lt hpos

/-! ### Viewers -/

def viewers (held : KeyedMap Nat Held) (stream : Held) : Nat :=
  KeyedMap.total (fun other : Held => if other = stream then 1 else 0) held

section

variable {held : KeyedMap Nat Held} {viewer other : Nat} {stream stream' : Held}

theorem viewers_insert (h : held.lookup viewer = none) (stream stream' : Held) :
    viewers (held.insert viewer stream) stream' =
      (if stream = stream' then 1 else 0) + viewers held stream' :=
  KeyedMap.total_insert_of_lookup_none _ h

theorem viewers_erase (h : held.lookup viewer = some stream) (stream' : Held) :
    viewers held stream' =
      (if stream = stream' then 1 else 0) + viewers (held.erase viewer) stream' :=
  KeyedMap.total_eq_add_erase _ h

theorem two_le_viewers (h : held.lookup viewer = some stream)
    (h' : held.lookup other = some stream) (hne : other ≠ viewer) : 2 ≤ viewers held stream := by
  have hother : (held.erase viewer).lookup other = some stream := by
    rw [lookup_erase_eq, if_neg hne]
    exact h'
  rw [viewers_erase h, viewers_erase hother, if_pos rfl]
  omega

theorem viewers_eq_zero (h : ∀ viewer, held.lookup viewer ≠ some stream) :
    viewers held stream = 0 := by
  by_contra hne
  obtain ⟨viewer, other, hl, hpos⟩ := KeyedMap.exists_of_total_pos (Nat.pos_of_ne_zero hne)
  split at hpos
  · next heq => exact h viewer (heq ▸ hl)
  · exact Nat.lt_irrefl 0 hpos

end

/-- A stream whose id no viewer held when it was opened counts the viewers who were given it, and
nobody holds its id for another stream. -/
structure Counted (m : Manager) : Prop where
  count : ∀ key handle, m.liveStreams.lookup key = some handle → handle.inherited = false →
    handle.consumerCount = viewers m.held ⟨key, handle.number⟩
  alone : ∀ key handle, m.liveStreams.lookup key = some handle → handle.inherited = false →
    ∀ viewer held, m.held.lookup viewer = some held → held.liveStreamId = key →
      held.number = handle.number
  idle : ∀ opening, m.opening = some opening → m.held.lookup opening.viewer = none

namespace Counted

theorem give (h : Counted m) {viewer : Nat} (hv : m.held.lookup viewer = none) {key : String}
    {handle : LiveStreamHandle}
    (hcount : handle.inherited = false →
      handle.consumerCount = viewers m.held ⟨key, handle.number⟩ + 1)
    (halone : handle.inherited = false → ∀ viewer held, m.held.lookup viewer = some held →
      held.liveStreamId = key → held.number = handle.number) (nextNumber : Nat) :
    Counted
      { liveStreams := m.liveStreams.insert key handle
        opening := none
        held := m.held.insert viewer ⟨key, handle.number⟩
        nextNumber := nextNumber } where
  count key' handle' hl hi := by
    rw [lookup_insert_eq] at hl
    rw [viewers_insert hv]
    split at hl
    · next heq =>
      cases hl
      subst heq
      rw [if_pos rfl, hcount hi]
      omega
    · next hne =>
      rw [if_neg fun heq => hne (Held.mk.inj heq).1.symm, Nat.zero_add]
      exact h.count key' handle' hl hi
  alone key' handle' hl hi viewer' held hheld hid := by
    rw [lookup_insert_eq] at hl hheld
    split at hheld
    · cases hheld
      rw [if_pos hid.symm] at hl
      cases hl
      rfl
    · split at hl
      · next heq =>
        cases hl
        exact halone hi viewer' held hheld (hid.trans heq)
      · exact h.alone key' handle' hl hi viewer' held hheld hid
  idle _ ho := by cases ho

theorem replace (h : Counted m) {key : String} {handle handle' : LiveStreamHandle}
    (hl : m.liveStreams.lookup key = some handle) (hnumber : handle'.number = handle.number)
    (hinherited : handle'.inherited = handle.inherited)
    (hcount : handle'.consumerCount = handle.consumerCount) :
    Counted { m with liveStreams := m.liveStreams.insert key handle' } where
  count key' other hl' hi := by
    rw [lookup_insert_eq] at hl'
    split at hl'
    · next heq =>
      cases hl'
      rw [heq, hnumber, hcount]
      exact h.count key handle hl (hinherited ▸ hi)
    · exact h.count key' other hl' hi
  alone key' other hl' hi := by
    rw [lookup_insert_eq] at hl'
    split at hl'
    · next heq =>
      cases hl'
      rw [heq, hnumber]
      exact h.alone key handle hl (hinherited ▸ hi)
    · exact h.alone key' other hl' hi
  idle := h.idle

theorem goOn (h : Counted m) {opening' : Option Opening}
    (ho : ∀ opening, opening' = some opening →
      ∃ old, m.opening = some old ∧ old.viewer = opening.viewer) :
    Counted { m with opening := opening' } where
  count := h.count
  alone := h.alone
  idle opening hopening := by
    obtain ⟨old, hold, hviewer⟩ := ho opening hopening
    exact hviewer ▸ h.idle old hold

theorem closes (h : Counted m) {viewer : Nat} {held : Held}
    (hheld : m.held.lookup viewer = some held) {handle : LiveStreamHandle}
    (hl : m.liveStreams.lookup held.liveStreamId = some handle) (hi : handle.inherited = false) :
    held = ⟨held.liveStreamId, handle.number⟩ := by
  have hnumber := h.alone _ handle hl hi viewer held hheld rfl
  rw [← hnumber]

theorem close (h : Counted m) {viewer : Nat} {held : Held}
    (hheld : m.held.lookup viewer = some held) :
    Counted { m.closeChannelStream held.liveStreamId with held := m.held.erase viewer } := by
  -- what another stream counts is not touched
  have hother : ∀ key' handle', key' ≠ held.liveStreamId →
      m.liveStreams.lookup key' = some handle' → handle'.inherited = false →
      handle'.consumerCount = viewers (m.held.erase viewer) ⟨key', handle'.number⟩ := by
    intro key' handle' hne hl' hi
    have hcount := h.count key' handle' hl' hi
    rw [viewers_erase hheld, if_neg fun heq => hne (congrArg Held.liveStreamId heq).symm,
      Nat.zero_add] at hcount
    exact hcount
  have hkept : ∀ {viewer' held'}, (m.held.erase viewer).lookup viewer' = some held' →
      m.held.lookup viewer' = some held' := by
    intro viewer' held' hl'
    rw [lookup_erase_eq] at hl'
    split at hl'
    · cases hl'
    · exact hl'
  have hidle : ∀ opening, m.opening = some opening →
      (m.held.erase viewer).lookup opening.viewer = none := by
    intro opening ho
    rw [lookup_erase_eq]
    split
    · rfl
    · exact h.idle opening ho
  cases hl : m.liveStreams.lookup held.liveStreamId with
  | none =>
    simp only [Manager.closeChannelStream, hl]
    refine ⟨fun key' handle' hl' hi => hother key' handle' ?_ hl' hi,
      fun key' handle' hl' hi viewer' held' hheld' => h.alone key' handle' hl' hi viewer' held'
        (hkept hheld'), hidle⟩
    rintro rfl
    rw [hl] at hl'
    cases hl'
  | some handle =>
    simp only [Manager.closeChannelStream, hl]
    split
    · refine ⟨fun key' handle' hl' hi => ?_, fun key' handle' hl' hi viewer' held' hheld' => ?_,
        hidle⟩
      · rw [lookup_erase_eq] at hl'
        split at hl'
        · cases hl'
        · next hne => exact hother key' handle' hne hl' hi
      · rw [lookup_erase_eq] at hl'
        split at hl'
        · cases hl'
        · exact h.alone key' handle' hl' hi viewer' held' (hkept hheld')
    · refine ⟨fun key' handle' hl' hi => ?_, fun key' handle' hl' hi viewer' held' hheld' => ?_,
        hidle⟩
      · rw [lookup_insert_eq] at hl'
        split at hl'
        · next heq =>
          cases hl'
          subst heq
          have hcount := h.count _ handle hl hi
          rw [viewers_erase hheld, if_pos (h.closes hheld hl hi)] at hcount
          simp only
          omega
        · next hne => exact hother key' handle' hne hl' hi
      · rw [lookup_insert_eq] at hl'
        split at hl'
        · next heq =>
          cases hl'
          subst heq
          exact h.alone _ handle hl hi viewer' held' (hkept hheld')
        · exact h.alone key' handle' hl' hi viewer' held' (hkept hheld')

theorem step (h : Counted m) {event : Event}
    (hs : m.step ordinalUpper tunerCount event = some m') : Counted m' := by
  cases event with
  | lock viewer channelKey mediaSourceId =>
    simp only [Manager.step] at hs
    split at hs
    · next hfree =>
      cases hs
      rw [Bool.and_eq_true, Option.isNone_iff_eq_none, Option.isNone_iff_eq_none] at hfree
      have hkept : ∀ {key : String} {handle : LiveStreamHandle},
          (KeyedMap.retain (fun _ handle => handle.enableStreamSharing)
            m.liveStreams).lookup key = some handle → m.liveStreams.lookup key = some handle := by
        intro key handle hl
        rw [KeyedMap.lookup_retain] at hl
        exact (Option.filter_eq_some_iff.mp hl).1
      refine ⟨fun key handle hl => h.count key handle (hkept hl),
        fun key handle hl => h.alone key handle (hkept hl), fun opening ho => ?_⟩
      cases ho
      exact hfree.2
    · cases hs
  | resolve tunerHostId =>
    simp only [Manager.step] at hs
    split at hs
    · next hopen =>
      cases hs
      exact h.goOn fun opening ho => ⟨_, hopen, by cases ho; rfl⟩
    · cases hs
  | join liveStreamId =>
    simp only [Manager.step] at hs
    split at hs
    · next viewer streamId host handle hopen hl =>
      split at hs
      · cases hs
        have hcount : handle.inherited = false →
            handle.consumerCount + 1 = viewers m.held ⟨liveStreamId, handle.number⟩ + 1 :=
          fun hi => congrArg (· + 1) (h.count _ handle hl hi)
        have hgive := @give m h viewer (h.idle _ hopen) liveStreamId
          { handle with consumerCount := handle.consumerCount + 1 } hcount
          (h.alone _ handle hl) m.nextNumber
        exact hgive
      · cases hs
    · cases hs
  | miss =>
    simp only [Manager.step] at hs
    split at hs
    · next hopen =>
      split at hs
      · cases hs
      · cases hs
        exact h.goOn fun opening ho => ⟨_, hopen, by cases ho; rfl⟩
    · cases hs
  | enforce =>
    simp only [Manager.step] at hs
    split at hs
    · next hopen =>
      split at hs
      · cases hs
        exact h.goOn fun opening ho => ⟨_, hopen, by cases ho; rfl⟩
      · cases hs
        exact h.goOn fun opening ho => by cases ho
    · cases hs
  | insert liveStreamId alive =>
    simp only [Manager.step] at hs
    split at hs
    · next viewer streamId host hopen =>
      cases hs
      -- the id is nobody's, or the stream has inherited it
      have hnobody : m.holds liveStreamId = false → ∀ viewer held,
          m.held.lookup viewer = some held → held.liveStreamId ≠ liveStreamId := by
        intro hholds viewer held hheld heq
        exact List.any_eq_false.mp hholds held (KeyedMap.mem_values_of_lookup hheld)
          (beq_iff_eq.mpr heq)
      refine h.give (h.idle _ hopen) (fun hi => ?_)
        (fun hi viewer held hheld heq => absurd heq (hnobody hi viewer held hheld)) _
      rw [viewers_eq_zero fun viewer hheld => hnobody hi viewer _ hheld rfl]
      rfl
    · cases hs
  | fail =>
    simp only [Manager.step] at hs
    split at hs
    · cases hs
      exact h.goOn fun opening ho => by cases ho
    · cases hs
  | close viewer =>
    obtain ⟨held, hheld, rfl⟩ := Option.map_eq_some_iff.mp hs
    exact h.close hheld
  | hangUp liveStreamId =>
    obtain ⟨handle, hl, rfl⟩ := Option.map_eq_some_iff.mp hs
    exact h.replace hl rfl rfl rfl

end Counted

theorem counted_init : Counted {} where
  count key handle hl := by cases hl
  alone key handle hl := by cases hl
  idle opening ho := by cases ho

theorem counted_of_reachable (h : (liveStreams ordinalUpper tunerCount).Reachable m) :
    Counted m := by
  refine h.invariant (I := Counted) ?_ fun m _ m' hm _ hs => hm.step hs
  exact counted_init

def Manager.Gone (m : Manager) (key : String) (handle : LiveStreamHandle) : Prop :=
  ∀ handle', m.liveStreams.lookup key = some handle' → handle'.number ≠ handle.number

def Manager.LastCloses (m : Manager) (event : Event) (stream : Held) : Prop :=
  ∃ viewer, event = .close viewer ∧ m.held.lookup viewer = some stream ∧
    ∀ other, m.held.lookup other = some stream → other = viewer

theorem Counted.gone (h : Counted m) {event : Event}
    (hs : m.step ordinalUpper tunerCount event = some m') {key : String}
    {handle : LiveStreamHandle} (hl : m.liveStreams.lookup key = some handle)
    (halive : handle.enableStreamSharing = true) (hgone : m'.Gone key handle)
    (hi : handle.inherited = false) :
    (∃ alive, event = .insert key alive) ∨ m.LastCloses event ⟨key, handle.number⟩ := by
  have hkept : m'.liveStreams = m.liveStreams → False := by
    intro heq
    exact hgone handle (heq ▸ hl) rfl
  have hreplaced : ∀ key' handle' new, m'.liveStreams = m.liveStreams.insert key' new →
      m.liveStreams.lookup key' = some handle' → new.number = handle'.number → False := by
    intro key' handle' new heq hl' hnumber
    by_cases hkey : key = key'
    · subst hkey
      refine hgone new ?_ ?_
      · rw [heq, lookup_insert_eq, if_pos rfl]
      · rw [hl] at hl'
        rw [hnumber, Option.some.inj hl']
    · refine hgone handle ?_ rfl
      rw [heq, lookup_insert_eq, if_neg hkey]
      exact hl
  cases event with
  | lock viewer channelKey mediaSourceId =>
    simp only [Manager.step] at hs
    split at hs
    · cases hs
      refine (hgone handle ?_ rfl).elim
      rw [KeyedMap.lookup_retain, hl]
      exact Option.filter_some_pos halive
    · cases hs
  | resolve tunerHostId =>
    simp only [Manager.step] at hs
    split at hs
    · cases hs
      exact (hkept rfl).elim
    · cases hs
  | join liveStreamId =>
    simp only [Manager.step] at hs
    split at hs
    · next hl' =>
      split at hs
      · cases hs
        exact (hreplaced _ _ _ rfl hl' rfl).elim
      · cases hs
    · cases hs
  | miss =>
    simp only [Manager.step] at hs
    split at hs
    · split at hs
      · cases hs
      · cases hs
        exact (hkept rfl).elim
    · cases hs
  | enforce =>
    simp only [Manager.step] at hs
    split at hs
    · split at hs
      · cases hs
        exact (hkept rfl).elim
      · cases hs
        exact (hkept rfl).elim
    · cases hs
  | insert liveStreamId alive =>
    simp only [Manager.step] at hs
    split at hs
    · cases hs
      by_cases hkey : key = liveStreamId
      · exact .inl ⟨alive, by rw [hkey]⟩
      · refine (hgone handle ?_ rfl).elim
        simp only [Manager.register, lookup_insert_eq, if_neg hkey]
        exact hl
    · cases hs
  | fail =>
    simp only [Manager.step] at hs
    split at hs
    · cases hs
      exact (hkept rfl).elim
    · cases hs
  | close viewer =>
    obtain ⟨held, hheld, rfl⟩ := Option.map_eq_some_iff.mp hs
    by_cases hkey : held.liveStreamId = key
    · subst hkey
      have hheq := h.closes hheld hl hi
      rw [hheq] at hheld
      have hlast : handle.consumerCount - 1 ≤ 0 := by
        by_contra hmore
        simp only [Manager.closeChannelStream, hl, if_neg hmore] at hreplaced
        exact hreplaced _ _ _ rfl hl rfl
      have hcount := h.count _ handle hl hi
      refine .inr ⟨viewer, rfl, hheld, fun other hother => ?_⟩
      by_contra hne
      have htwo := two_le_viewers hheld hother hne
      omega
    · refine (hgone handle ?_ rfl).elim
      rw [Manager.closeChannelStream]
      split
      · split
        · rw [lookup_erase_eq, if_neg (Ne.symm hkey)]
          exact hl
        · rw [lookup_insert_eq, if_neg (Ne.symm hkey)]
          exact hl
      · exact hl
  | hangUp liveStreamId =>
    obtain ⟨handle', hl', rfl⟩ := Option.map_eq_some_iff.mp hs
    exact (hreplaced _ _ _ rfl hl' rfl).elim

/-- **Streams go with their last viewer, or when another takes their id, and hosts keep to their
tuners.**  In every run, a stream whose tuner is alive goes only when an open puts another under
its id or, if no viewer of an earlier stream held the id when it was opened, with the close of the
last viewer who was given it; and no host that has a number of tuners has more streams open, the
one that is started counted, than that. -/
theorem streams_accounted (h : (liveStreams ordinalUpper tunerCount).Reachable m) :
    (∀ event m' key handle, m.step ordinalUpper tunerCount event = some m' →
        m.liveStreams.lookup key = some handle → handle.enableStreamSharing = true →
        m'.Gone key handle → handle.inherited = false →
        (∃ alive, event = .insert key alive) ∨ m.LastCloses event ⟨key, handle.number⟩) ∧
      ∀ tunerHostId, 0 < tunerCount tunerHostId →
        (m.occupied tunerHostId : Int) ≤ tunerCount tunerHostId :=
  ⟨fun _ _ _ _ hs hl halive hgone hi => (counted_of_reachable h).gone hs hl halive hgone hi,
    within_of_reachable h⟩

def opens (viewer : Nat) (mediaSourceId : Option String) (key : String) : List Event :=
  [.lock viewer "channel" mediaSourceId, .resolve "host", .miss, .enforce, .insert key true]

def joined : List Event :=
  opens 0 (some "source") "live" ++
    [Event.lock 1 "channel" (some "source"), .resolve "host", .join "live"]

/-- The first viewer leaves, and the last one ends the stream. -/
theorem streams_accounted_joined : ∃ m m' handle,
    (liveStreams id fun _ => 1).Reachable m ∧ m.step id (fun _ => 1) (.close 1) = some m' ∧
      m.liveStreams.lookup "live" = some handle ∧ m'.Gone "live" handle ∧
      m.LastCloses (.close 1) ⟨"live", handle.number⟩ ∧ (m.occupied "host" : Int) ≤ 1 := by
  obtain ⟨m, hm⟩ : ∃ m, (liveStreams id fun _ => 1).run {} (joined ++ [Event.close 0]) = some m :=
      Option.isSome_iff_exists.mp (by decide +kernel)
  have h := Machine.reachable_of_run _ hm
  obtain ⟨hgo, hwithin⟩ := streams_accounted h
  obtain rfl := Option.some.inj hm
  refine ⟨_, _, _, h, rfl, rfl, nofun, ?_, hwithin "host" (by decide)⟩
  exact (hgo (.close 1) _ "live" _ rfl rfl rfl nofun rfl).resolve_left nofun

/-- **A stream is closed under its viewer**: another open of the channel came to the same id. -/
theorem stream_displaced : ¬ ∀ m event m' key handle,
    (liveStreams id fun _ => 2).Reachable m → m.step id (fun _ => 2) event = some m' →
      m.liveStreams.lookup key = some handle → handle.enableStreamSharing = true →
      m'.Gone key handle → m.LastCloses event ⟨key, handle.number⟩ := by
  intro hall
  obtain ⟨m, hm⟩ : ∃ m, (liveStreams id fun _ => 2).run {}
      (opens 0 none "live" ++ (opens 1 none "live").dropLast) = some m :=
      Option.isSome_iff_exists.mp (by decide +kernel)
  have h := Machine.reachable_of_run _ hm
  obtain rfl := Option.some.inj hm
  obtain ⟨viewer, hevent, -⟩ := hall _ (.insert "live" true) _ "live" _ h rfl rfl rfl (by
    intro handle' hl
    cases hl
    decide)
  cases hevent

end Ferrofin.LiveTv
