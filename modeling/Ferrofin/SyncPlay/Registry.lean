import Ferrofin.Lib.Machine
import Ferrofin.SyncPlay.Handle

/-!
# The SyncPlay manager

`Registry` (the groups, the group of each session, the session count of each
user) and the calls of `FerrofinSyncPlayManager` on it.  Each call is cut where
it gives the registry lock up: `join_group` and `handle_request` read a snapshot,
check the access to the queue off the lock, and commit under the lock once the
snapshot is confirmed.

* `Registry.newGroup`, `Registry.joinCommit`, `Registry.leaveGroup`,
  `Registry.requestCommit`, `Registry.sweepGroupWaits`: the critical sections,
  with the messages they send.
* `syncPlay`: the machine of all interleavings.  Its state is the registry, the
  calls between snapshot and commit, and the history of who founded what.
-/

namespace Ferrofin.SyncPlay

open Lib

/-- The settings of a `FerrofinSyncPlayManager`, and its library access seam:
which items a user sees, `none` when no seam is wired. -/
structure Manager where
  groupWaitTimeout : Int := defaultGroupWaitTimeout
  groupWaitSweep : Bool := true
  access : Option (Uuid → Uuid → Bool) := none

namespace Manager

/-- `visible_subset`.  `fault`: the user is unknown, or a lookup failed. -/
def visibleSubset (m : Manager) (fault : Bool) (userId : Uuid) (ids : List Uuid) :
    Option (List Uuid) :=
  m.access.map fun visible =>
    if ids.isEmpty || fault then [] else ids.filter (visible userId)

def hasAccessToQueue (m : Manager) (fault : Bool) (userId : Uuid) (items : List Uuid) : Bool :=
  match m.visibleSubset fault userId items with
  | none => true
  | some visible => items.all fun id => visible.contains id

def allMembersHaveAccess (m : Manager) (fault : Uuid → Bool) (members items : List Uuid) : Bool :=
  members.all fun userId => m.hasAccessToQueue (fault userId) userId items

end Manager

/-! ### Delivery -/

/-- A message on the bus: the session it goes to, and the message. -/
abbrev Sent := String × Envelope

def memberTargets (g : Group) : List (String × Bool) :=
  g.members.map fun m => (m.sessionId, m.isBuffering)

/-- Whether a message addressed to `target` goes to a member (in `deliver_to`). -/
def Target.admits (target : Target) (fromSession : String) (member : String × Bool) : Bool :=
  match target with
  | .allGroup => true
  | .currentSession => member.1 == fromSession
  | .allExceptCurrentSession => member.1 != fromSession
  | .allReady => !member.2

def deliverTo (members : List (String × Bool)) (fromSession : String) (outbound : List Outbound) :
    List Sent :=
  outbound.flatMap fun msg =>
    (members.filter (msg.target.admits fromSession)).map fun member => (member.1, msg.body)

/-! ### The registry -/

structure Registry where
  groups : KeyedMap Uuid Group := ∅
  sessionToGroup : KeyedMap String Uuid := ∅
  activeUsers : KeyedMap Uuid Nat := ∅
  sweeping : Bool := false

structure LeaveNotices where
  outbound : List Outbound
  targets : List (String × Bool)
  leftEnv : Envelope
  userLeftEnv : Envelope
  others : List String

/-- What a call answers: the messages it sends, and `Ok` or a `ServiceError`. -/
structure Reply where
  sent : List Sent := []
  result : Except String Unit := .ok ()

def deliverLeave (sessionId : String) (notices : LeaveNotices) : List Sent :=
  deliverTo notices.targets sessionId notices.outbound ++
    (sessionId, notices.leftEnv) :: notices.others.map fun sid => (sid, notices.userLeftEnv)

namespace Registry

/-- `*active_users.entry(user_id).or_insert(0) += 1`. -/
def countUser (reg : Registry) (userId : Uuid) : Registry :=
  { reg with
    activeUsers := reg.activeUsers.insert userId ((reg.activeUsers.lookup userId).getD 0 + 1) }

def decrement (counts : KeyedMap Uuid Nat) (userId : Uuid) : KeyedMap Uuid Nat :=
  match counts.lookup userId with
  | none => counts
  | some count => if count - 1 = 0 then counts.erase userId else counts.insert userId (count - 1)

def decrementUser (reg : Registry) (userId : Uuid) : Registry :=
  { reg with activeUsers := decrement reg.activeUsers userId }

def armGroupWaitSweep (reg : Registry) (m : Manager) : Registry :=
  { reg with sweeping := reg.sweeping || m.groupWaitSweep }

def putGroup (reg : Registry) (groupId : Uuid) (group : Group) : Registry :=
  { reg with groups := reg.groups.insert groupId group }

/-- Puts a group a session left back, or drops it when nobody is left. -/
def putOrDrop (groups : KeyedMap Uuid Group) (groupId : Uuid) (group : Group) :
    KeyedMap Uuid Group :=
  if group.isEmpty then groups.erase groupId else groups.insert groupId group

def leaveLockedWithNotices (reg : Registry) (session : SyncPlaySession) (now : Clock) :
    Registry × Option LeaveNotices :=
  match reg.sessionToGroup.lookup session.sessionId with
  | none => (reg, none)
  | some groupId =>
    let reg := { reg with sessionToGroup := reg.sessionToGroup.erase session.sessionId }
    let reg := reg.decrementUser session.userId
    match reg.groups.lookup groupId with
    | none => (reg, none)
    | some group =>
      let left := group.leave session.sessionId now
      ({ reg with groups := putOrDrop reg.groups groupId left }, some {
        outbound := (group.sessionLeaving session.sessionId now).2
        targets := memberTargets (group.sessionLeaving session.sessionId now).1
        leftEnv := .groupUpdate (.groupLeft groupId groupId)
        userLeftEnv := .groupUpdate (.userLeft groupId session.userName)
        others := left.members.map (·.sessionId) })

def mapSession (reg : Registry) (session : SyncPlaySession) (groupId : Uuid) : Registry :=
  { reg with sessionToGroup := reg.sessionToGroup.insert session.sessionId groupId }.countUser
    session.userId

/-! ### The calls -/

def newGroup (reg : Registry) (m : Manager) (session : SyncPlaySession) (name : String)
    (nowPlaying : Option (SyncPlayNowPlaying × List (Uuid × Int))) (groupId : Uuid)
    (fresh : Nat → Uuid) (now : Clock) : Registry × GroupInfoDto × List Sent :=
  let (reg, left) := reg.leaveLockedWithNotices session now
  let created := Group.create groupId name m.groupWaitTimeout session nowPlaying fresh now
  let joined : Envelope := .groupUpdate (.groupJoined groupId (created.info now))
  let (group, outbound) := created.sessionJoined session.sessionId now
  let reg := ((reg.putGroup groupId group).mapSession session groupId).armGroupWaitSweep m
  (reg, group.info now,
    (left.map (deliverLeave session.sessionId)).getD [] ++
      (session.sessionId, joined) :: deliverTo (memberTargets group) session.sessionId outbound)

/-- A `join_group` between its snapshot of the queue and its commit. -/
structure PendingJoin where
  session : SyncPlaySession
  groupId : Uuid
  checkedQueue : Option (List Uuid)
  deriving DecidableEq

def joinSnapshot (reg : Registry) (session : SyncPlaySession) (groupId : Uuid) : PendingJoin where
  session
  groupId
  checkedQueue := (reg.groups.lookup groupId).map (·.queue.itemIds)

/-- Why a join is refused, as the caller is told: the queue it checked is not
visible, the group is gone, or the queue moved on since. -/
def joinRefusal (reg : Registry) (m : Manager) (join : PendingJoin) (fault : Bool) :
    Option GroupUpdate :=
  if join.checkedQueue.any fun queue => !m.hasAccessToQueue fault join.session.userId queue then
    some (.libraryAccessDenied join.groupId)
  else
    match reg.groups.lookup join.groupId with
    | none => some (.groupDoesNotExist join.groupId join.groupId)
    | some group =>
      if some group.queue.itemIds ≠ join.checkedQueue then
        some (.libraryAccessDenied join.groupId)
      else none

/-- `join_group` under the lock, past its checks. -/
def joinAdmitted (reg : Registry) (join : PendingJoin) (now : Clock) : Registry × Reply :=
  let session := join.session
  let restore := reg.sessionToGroup.lookup session.sessionId = some join.groupId
  let (reg, left) := if restore then (reg, none) else reg.leaveLockedWithNotices session now
  match reg.groups.lookup join.groupId with
  | none => (reg, { result := .error "sync-play group vanished during join" })
  | some group =>
    let joined : Envelope :=
      .groupUpdate (.groupJoined join.groupId ((group.addMember session).info now))
    let userJoined : Envelope := .groupUpdate (.userJoined join.groupId session.userName)
    let others := ((group.addMember session).members.map (·.sessionId)).filter
      (· != session.sessionId)
    let (group, outbound) := group.join session now
    let reg := reg.putGroup join.groupId group
    (if restore then reg else reg.mapSession session join.groupId, {
      sent := (left.map (deliverLeave session.sessionId)).getD [] ++
        (session.sessionId, joined) :: others.map (fun sid => (sid, userJoined)) ++
        deliverTo (memberTargets group) session.sessionId outbound })

/-- `join_group` from its access check on. -/
def joinCommit (reg : Registry) (m : Manager) (join : PendingJoin) (fault : Bool) (now : Clock) :
    Registry × Reply :=
  match reg.joinRefusal m join fault with
  | some update => (reg, { sent := [(join.session.sessionId, .groupUpdate update)] })
  | none => reg.joinAdmitted join now

def leaveGroup (reg : Registry) (session : SyncPlaySession) (now : Clock) :
    Registry × List Sent :=
  match reg.leaveLockedWithNotices session now with
  | (reg, some notices) => (reg, deliverLeave session.sessionId notices)
  | (reg, none) => (reg, [(session.sessionId, .groupUpdate (.notInGroup .nil))])

def incoming : PlaybackRequest → List Uuid
  | .play playingQueue _ _ => playingQueue
  | .queue itemIds _ => itemIds
  | _ => []

/-- A `handle_request` between its snapshot of the members and its commit. -/
structure PendingRequest where
  session : SyncPlaySession
  request : PlaybackRequest
  checkedMembers : Option (List Uuid)
  deriving DecidableEq

def groupOf (reg : Registry) (sessionId : String) : Option Group :=
  (reg.sessionToGroup.lookup sessionId).bind fun groupId => reg.groups.lookup groupId

def requestSnapshot (reg : Registry) (session : SyncPlaySession) (request : PlaybackRequest) :
    PendingRequest where
  session
  request
  checkedMembers :=
    if (incoming request).isEmpty then none
    else some (((reg.groupOf session.sessionId).map (·.memberUserIds)).getD [])

def requestRefused (m : Manager) (task : PendingRequest) (fault : Uuid → Bool) : Bool :=
  task.checkedMembers.any fun members =>
    !members.isEmpty && !m.allMembersHaveAccess fault members (incoming task.request)

/-- `handle_request` from its access check on.  `runtimes` is what the library
answered for the new items. -/
def requestCommit (reg : Registry) (m : Manager) (task : PendingRequest) (fault : Uuid → Bool)
    (runtimes : List (Uuid × Int)) (draws : Draws) (now : Clock) : Registry × Reply :=
  if requestRefused m task fault then (reg, {})
  else
    let sessionId := task.session.sessionId
    match reg.sessionToGroup.lookup sessionId with
    | none => (reg, { sent := [(sessionId, .groupUpdate (.notInGroup .nil))] })
    | some groupId =>
      match reg.groups.lookup groupId with
      | none => (reg, { result := .error "sync-play mapped group missing" })
      | some group =>
        -- the membership the items were checked against must still be the group's
        if task.checkedMembers.any (· ≠ group.memberUserIds) then (reg, {})
        else
          let (group, outbound) := group.applyRequest sessionId task.request runtimes draws now
          (reg.putGroup groupId group,
            { sent := deliverTo (memberTargets group) sessionId outbound })

def sweepGroupWaits (reg : Registry) (now : Clock) : Registry × List Sent :=
  if reg.groups.entries.isEmpty then ({ reg with sweeping := false }, [])
  else
    ({ reg with groups := reg.groups.mapValues fun _ g => (g.handleGroupWaitTimeout now).1 },
      reg.groups.entries.flatMap fun entry =>
        match entry.2.handleGroupWaitTimeout now with
        | (_, none) => []
        | (group, some (fromSession, outbound)) =>
          deliverTo (memberTargets group) fromSession outbound)

end Registry

/-! ### All interleavings -/

open Registry (PendingJoin PendingRequest)

/-- What the calls so far founded.  `founded` maps a session to the group it
created, until it leaves or joins; `seeded` keeps the entries a group's queue was
created with. -/
structure History where
  founded : KeyedMap String Uuid := ∅
  seeded : KeyedMap Uuid (List SyncPlayQueueItem) := ∅

/-- The registry, the calls in flight, and the history. -/
structure World where
  registry : Registry := {}
  joins : List PendingJoin := []
  requests : List PendingRequest := []
  history : History := {}

/-- One step of the manager.  A join or a request takes two: the snapshot, and
the rest of the call at the index it has among those in flight. -/
inductive Event
  | newGroup (session : SyncPlaySession) (name : String)
      (nowPlaying : Option (SyncPlayNowPlaying × List (Uuid × Int))) (groupId : Uuid)
      (fresh : Nat → Uuid) (now : Clock)
  | joinGroup (session : SyncPlaySession) (groupId : Uuid)
  | joinResume (index : Nat) (fault : Bool) (now : Clock)
  | leaveGroup (session : SyncPlaySession) (now : Clock)
  | handleRequest (session : SyncPlaySession) (request : PlaybackRequest)
  | requestResume (index : Nat) (fault : Uuid → Bool) (runtimes : List (Uuid × Int))
      (draws : Draws) (now : Clock)
  | sweep (now : Clock)

def Event.caller : Event → Option SyncPlaySession
  | .newGroup session .. | .joinGroup session _ | .leaveGroup session _
  | .handleRequest session _ => some session
  | _ => none

def Event.clock : Event → Option Clock
  | .newGroup _ _ _ _ _ now | .joinResume _ _ now | .leaveGroup _ now
  | .requestResume _ _ _ _ now | .sweep now => some now
  | .joinGroup _ _ | .handleRequest _ _ => none

namespace World

/-- The step of an event whose caller is who it says it is. -/
def advance (w : World) (m : Manager) : Event → Option World
  | .newGroup session name nowPlaying groupId fresh now =>
    if groupId ∈ w.registry.groups then none
    else
      let created := Group.create groupId name m.groupWaitTimeout session nowPlaying fresh now
      some { w with
        registry := (w.registry.newGroup m session name nowPlaying groupId fresh now).1
        history := {
          founded := w.history.founded.insert session.sessionId groupId
          seeded := w.history.seeded.insert groupId created.queue.sorted } }
  | .joinGroup session groupId =>
    some { w with joins := w.joins ++ [w.registry.joinSnapshot session groupId] }
  | .joinResume index fault now =>
    w.joins[index]?.map fun join =>
      { w with
        registry := (w.registry.joinCommit m join fault now).1
        joins := w.joins.eraseIdx index
        history :=
          if (w.registry.joinRefusal m join fault).isSome then w.history
          else { w.history with founded := w.history.founded.erase join.session.sessionId } }
  | .leaveGroup session now =>
    some { w with
      registry := (w.registry.leaveGroup session now).1
      history := { w.history with founded := w.history.founded.erase session.sessionId } }
  | .handleRequest session request =>
    some { w with requests := w.requests ++ [w.registry.requestSnapshot session request] }
  | .requestResume index fault runtimes draws now =>
    w.requests[index]?.map fun task =>
      { w with
        registry := (w.registry.requestCommit m task fault runtimes draws now).1
        requests := w.requests.eraseIdx index }
  | .sweep now => some { w with registry := (w.registry.sweepGroupWaits now).1 }

def step (m : Manager) (userOf : String → Uuid) (w : World) (e : Event) : Option World :=
  if e.caller.all fun s => s.userId == userOf s.sessionId then w.advance m e else none

end World

/-- The SyncPlay manager as a machine: every interleaving of its calls. -/
def syncPlay (m : Manager) (userOf : String → Uuid) : Machine World Event where
  init := {}
  step := World.step m userOf

end Ferrofin.SyncPlay
