import Ferrofin.HdHomerun.Packets

/-!
# The lock of a tuner

`startStreaming` walks the tuners of a device: it claims a free one with a lock key, sends it the
channel commands and points its target here.  A claim is released again when the target is refused,
and also when a command is, after which the remaining commands and the target are still sent.

What the device does is a parameter: it tells of each message whether it is sent, and what is read
after it.  A message is sent at most once in a call.
-/

namespace Ferrofin.HdHomerun

open Lib Lib.Reading Util

/-- What becomes of a message: `write_all`, and the `read` after it, which may fail. -/
structure Io where
  sent : Bool
  reply : Option (List UInt8)

/-- The messages of a call.  A release comes after a refused command or, as the last one, after the
target. -/
inductive Message where
  | availability (tuner : Nat)
  | claim (tuner : Nat)
  | command (tuner i : Nat)
  | target (tuner : Nat)
  | clearTarget (tuner : Nat) (after : Option Nat)
  | dropKey (tuner : Nat) (after : Option Nat)
deriving DecidableEq

/-- `ServiceError`, as far as a call returns it. -/
inductive ServiceError where
  | backend (e : String)
  | io (doing : List Char)
  | conflict (message : String)
  | panic
deriving DecidableEq

inductive Event where
  | acquired (tuner : Nat)
  | released (tuner : Nat)
  | releaseFailed (tuner : Nat)
deriving DecidableEq

def packetBuffer : Nat := 8192

@[irreducible] def scratch : List UInt8 := List.replicate packetBuffer 0

/-- What is sent of a message; what the buffer held before does not show in it. -/
def written (write : Filling UInt8 String Nat) : Except ServiceError (List UInt8) :=
  match write scratch with
  | some (.ok len, buffer) => .ok (buffer.take len)
  | some (.error e, _) => .error (.backend e)
  | none => .error .panic

def eqIgnoreAsciiCase (a b : List UInt8) : Bool :=
  a.map (fun c => if 65 ≤ c ∧ c ≤ 90 then c + 32 else c) =
    b.map (fun c => if 65 ≤ c ∧ c ≤ 90 then c + 32 else c)

structure Call where
  crc32 : List UInt8 → UInt32
  device : Message → Io
  connects : Bool
  deviceName : List Char
  localIp : List Char
  localPort : UInt16
  commands : List (List Char × List Char)
  numTuners : Int32
  lockkey : UInt32

namespace Call

variable (call : Call)

/-- The reply to a message, or why there is none. -/
def reply (write : Filling UInt8 String Nat) (setting : List Char) (verb : String) (io : Io) :
    Except ServiceError (List UInt8) :=
  match written write with
  | .error e => .error e
  | .ok _ =>
    if io.sent then
      match io.reply with
      | some reply => .ok (reply.take packetBuffer)
      | none => .error (.io ("hdhomerun reply ".toList ++ setting))
    else .error (.io (verb.toList ++ setting))

def checkTunerAvailability (tuner : Nat) : Except ServiceError Bool :=
  let name := "lockkey".toList
  match reply (writeGetMessage call.crc32 (.ofNat tuner) name) (tunerSetting (.ofNat tuner) name)
    "hdhomerun get " (call.device (.availability tuner)) with
  | .error e => .error e
  | .ok received =>
    -- `verify_return_value_of_get_set`; bytes that spell a text are UTF-8
    match (tryGetReturnValueOfGetSet call.crc32 received).run with
    | some (some value) => .ok (eqIgnoreAsciiCase value (utf8 "none".toList))
    | some none => .ok false
    | none => .error .panic

def exchange (tuner : Nat) (name value : List Char) (lockkey : Option UInt32) (message : Message) :
    Except ServiceError Bool :=
  match reply (writeSetMessage call.crc32 (.ofNat tuner) name value lockkey)
    (tunerSetting (.ofNat tuner) name) "hdhomerun set " (call.device message) with
  | .error e => .error e
  | .ok received =>
    match (tryGetReturnValueOfGetSet call.crc32 received).run with
    | some value => .ok value.isSome
    | none => .error .panic

/-- One of the two messages of a release goes through; what is read after it does not matter. -/
def goesThrough (tuner : Nat) (name : List Char) (message : Message) : Bool :=
  (reply (writeSetMessage call.crc32 (.ofNat tuner) name "none".toList (some call.lockkey))
    (tunerSetting (.ofNat tuner) name) "" (call.device message)).toBool

/-- `release_lockkey`: the second message is sent when the first went through. -/
def releaseLockkey (tuner : Nat) (after : Option Nat) : Event :=
  if call.goesThrough tuner "target".toList (.clearTarget tuner after) then
    if call.goesThrough tuner "lockkey".toList (.dropKey tuner after) then .released tuner
    else .releaseFailed tuner
  else .releaseFailed tuner

def claim (tuner : Nat) : Except ServiceError Bool :=
  call.exchange tuner "lockkey".toList (decimal call.lockkey.toNat) none (.claim tuner)

def command (tuner i : Nat) (c : List Char × List Char) : Except ServiceError Bool :=
  call.exchange tuner c.1 c.2 (some call.lockkey) (.command tuner i)

def target (tuner : Nat) : Except ServiceError Bool :=
  call.exchange tuner "target".toList
    ("rtp://".toList ++ call.localIp ++ ':' :: decimal call.localPort.toNat) (some call.lockkey)
    (.target tuner)

/-- The loop of `start_streaming` over the commands. -/
def runCommands (tuner : Nat) :
    Nat → List (List Char × List Char) → Except ServiceError Unit × List Event
  | _, [] => (.ok (), [])
  | i, c :: rest =>
    match call.command tuner i c with
    | .error e => (.error e, [])
    | .ok true => runCommands tuner (i + 1) rest
    -- the key is released, and the remaining commands are sent
    | .ok false =>
      let (result, events) := runCommands tuner (i + 1) rest
      (result, call.releaseLockkey tuner (some i) :: events)

/-- The body of the loop of `start_streaming` over the tuners: whether it streams from this one. -/
def tryTuner (tuner : Nat) : Except ServiceError Bool × List Event :=
  match call.checkTunerAvailability tuner with
  | .error e => (.error e, [])
  | .ok false => (.ok false, [])
  | .ok true =>
    match call.claim tuner with
    | .error e => (.error e, [])
    | .ok false => (.ok false, [])
    | .ok true =>
      match call.runCommands tuner 0 call.commands with
      | (.error e, events) => (.error e, .acquired tuner :: events)
      | (.ok (), events) =>
        match call.target tuner with
        | .error e => (.error e, .acquired tuner :: events)
        | .ok true => (.ok true, .acquired tuner :: events)
        | .ok false => (.ok false, .acquired tuner :: events ++ [call.releaseLockkey tuner none])

/-- The loop of `start_streaming` over the tuners: the one it streams from. -/
def walkTuners : List Nat → Except ServiceError Nat × List Event
  | [] => (.error (.conflict "No tuners available"), [])
  | tuner :: tuners =>
    match call.tryTuner tuner with
    | (.error e, events) => (.error e, events)
    | (.ok true, events) => (.ok tuner, events)
    | (.ok false, events) =>
      let (result, later) := walkTuners tuners
      (result, events ++ later)

/-- `start_streaming`: the active tuner of the session, or the error; and what happened to the
locks. -/
def startStreaming : Except ServiceError Nat × List Event :=
  if call.connects then call.walkTuners (List.range call.numTuners.toInt.toNat)
  else (.error (.io ("connect to hdhomerun ".toList ++ call.deviceName)), [])

end Call

/-! ### Who holds the lock -/

def Holds (tuner : Nat) (events : List Event) : Prop :=
  ∃ before after, events = before ++ Event.acquired tuner :: after ∧ .released tuner ∉ after

def ReleaseFailed (events : List Event) : Prop := ∃ tuner, .releaseFailed tuner ∈ events

variable {call : Call} {tuner u : Nat} {ev ev' : List Event}

theorem not_holds_nil : ¬ Holds u [] := by
  rintro ⟨before, after, h, -⟩
  cases before <;> cases h

theorem holds_append : Holds u (ev ++ ev') ↔ Holds u ev' ∨ (Holds u ev ∧ .released u ∉ ev') := by
  constructor
  · rintro ⟨before, after, h, hafter⟩
    rcases List.append_eq_append_iff.mp h with ⟨mid, rfl, rfl⟩ | ⟨mid, rfl, hmid⟩
    · exact .inl ⟨mid, after, rfl, hafter⟩
    · cases mid with
      | nil => exact .inl ⟨[], after, hmid.symm, hafter⟩
      | cons e mid =>
        obtain ⟨rfl, rfl⟩ := List.cons.inj hmid
        have hboth : .released u ∉ mid ∧ .released u ∉ ev' := by
          rw [← not_or, ← List.mem_append]
          exact hafter
        exact .inr ⟨⟨before, mid, rfl, hboth.1⟩, hboth.2⟩
  · rintro (⟨before, after, rfl, hafter⟩ | ⟨⟨before, after, rfl, hafter⟩, hev'⟩)
    · exact ⟨ev ++ before, after, (List.append_assoc ..).symm, hafter⟩
    · refine ⟨before, after ++ ev', by simp, ?_⟩
      rw [List.mem_append, not_or]
      exact ⟨hafter, hev'⟩

theorem holds_cons_acquired : Holds u (.acquired tuner :: ev) ↔
    Holds u ev ∨ (u = tuner ∧ .released u ∉ ev) := by
  rw [← List.singleton_append, holds_append]
  refine or_congr_right (and_congr_left fun _ => ⟨?_, ?_⟩)
  · rintro ⟨before, after, h, -⟩
    cases before with
    | nil => exact (Event.acquired.inj (List.cons.inj h).1).symm
    | cons e before => cases before <;> cases (List.cons.inj h).2
  · rintro rfl
    exact ⟨[], [], rfl, List.not_mem_nil⟩

namespace Call

/-- A command or the target of the tuner cannot be written, sent or answered. -/
def FailsAt (call : Call) (tuner : Nat) : Prop :=
  (∃ i c, call.commands[i]? = some c ∧ ∃ e, call.command tuner i c = .error e) ∨
    ∃ e, call.target tuner = .error e

def RefusesAt (call : Call) (tuner : Nat) : Prop :=
  ∃ i c, call.commands[i]? = some c ∧ call.command tuner i c = .ok false

end Call

def Releases (tuner : Nat) (events : List Event) : Prop :=
  ∀ e ∈ events, e = .released tuner ∨ e = .releaseFailed tuner

theorem releases_releaseLockkey (after : Option Nat) :
    Releases tuner [call.releaseLockkey tuner after] := by
  intro e he
  rw [List.mem_singleton.mp he, Call.releaseLockkey]
  split
  · split
    · exact .inl rfl
    · exact .inr rfl
  · exact .inr rfl

theorem Releases.released (h : Releases tuner ev) (hfailed : ¬ ReleaseFailed ev) :
    .released tuner ∈ ev ↔ ev ≠ [] := by
  constructor
  · exact List.ne_nil_of_mem
  · intro hev
    obtain ⟨e, he⟩ := List.exists_mem_of_ne_nil ev hev
    rcases h e he with rfl | rfl
    · exact he
    · exact absurd ⟨tuner, he⟩ hfailed

theorem Releases.not_holds (h : Releases tuner ev) : ¬ Holds u ev := by
  rintro ⟨before, after, rfl, -⟩
  rcases h (.acquired u) (by simp) with he | he <;> cases he

/-- What the loop over the commands does, with the index of the first: an error is that of a
command; else the key was released if, and only if, one was refused. -/
structure CommandsSpec (call : Call) (tuner i : Nat) (rest : List (List Char × List Char)) :
    Prop where
  releases : Releases tuner (call.runCommands tuner i rest).2
  fails : ∀ e, (call.runCommands tuner i rest).1 = .error e →
    ∃ j c, rest[j]? = some c ∧ ∃ e, call.command tuner (i + j) c = .error e
  refuses : (call.runCommands tuner i rest).1 = .ok () →
    ((call.runCommands tuner i rest).2 ≠ [] ↔
      ∃ j c, rest[j]? = some c ∧ call.command tuner (i + j) c = .ok false)

/-- A property of a command of a list, from that of the first or of one of the others. -/
theorem exists_command_cons {i : Nat} {c : List Char × List Char}
    {l : List (List Char × List Char)} {P : Nat → List Char × List Char → Prop} :
    (∃ j d, (c :: l)[j]? = some d ∧ P (i + j) d) ↔
      P i c ∨ ∃ j d, l[j]? = some d ∧ P (i + 1 + j) d := by
  constructor
  · rintro ⟨j, d, hj, hd⟩
    cases j with
    | zero =>
      cases hj
      exact .inl hd
    | succ j => exact .inr ⟨j, d, hj, by rwa [Nat.add_right_comm]⟩
  · rintro (hc | ⟨j, d, hj, hd⟩)
    · exact ⟨0, c, rfl, hc⟩
    · exact ⟨j + 1, d, hj, by rwa [Nat.add_right_comm] at hd⟩

theorem commandsSpec (i : Nat) (rest : List (List Char × List Char)) :
    CommandsSpec call tuner i rest := by
  induction rest generalizing i with
  | nil =>
    refine ⟨fun e he => (List.not_mem_nil he).elim, (by rintro e ⟨⟩), fun _ => ?_⟩
    refine ⟨fun h => absurd rfl h, ?_⟩
    rintro ⟨j, c, hj, -⟩
    cases hj
  | cons c rest ih =>
    have hrest := ih (i + 1)
    have hfails := exists_command_cons (i := i) (c := c) (l := rest)
      (P := fun j d => ∃ e, call.command tuner j d = .error e)
    have hrefuses := exists_command_cons (i := i) (c := c) (l := rest)
      (P := fun j d => call.command tuner j d = .ok false)
    cases hc : call.command tuner i c with
    | error e =>
      have hrun : call.runCommands tuner i (c :: rest) = (.error e, []) := by
        rw [Call.runCommands, hc]
      refine ⟨?_, fun _ _ => hfails.mpr (.inl ⟨e, hc⟩), ?_⟩
      · rw [hrun]
        exact fun e he => (List.not_mem_nil he).elim
      · rw [hrun]
        rintro ⟨⟩
    | ok accepted =>
      cases accepted with
      | true =>
        have hrun : call.runCommands tuner i (c :: rest) = call.runCommands tuner (i + 1) rest := by
          rw [Call.runCommands, hc]
        refine ⟨hrun ▸ hrest.releases, ?_, ?_⟩
        · rw [hrun]
          exact fun e he => hfails.mpr (.inr (hrest.fails e he))
        · rw [hrun]
          intro hok
          rw [hrest.refuses hok, hrefuses, hc]
          exact (or_iff_right (by simp)).symm
      | false =>
        have hrun : call.runCommands tuner i (c :: rest) =
            ((call.runCommands tuner (i + 1) rest).1,
              call.releaseLockkey tuner (some i) :: (call.runCommands tuner (i + 1) rest).2) := by
          rw [Call.runCommands, hc]
        refine ⟨?_, ?_, ?_⟩
        · rw [hrun]
          intro e he
          rcases List.mem_cons.mp he with rfl | he
          · exact releases_releaseLockkey _ _ (List.mem_singleton_self _)
          · exact hrest.releases e he
        · rw [hrun]
          exact fun e he => hfails.mpr (.inr (hrest.fails e he))
        · rw [hrun]
          exact fun _ => ⟨fun _ => hrefuses.mpr (.inl hc), fun _ => List.cons_ne_nil _ _⟩

theorem Releases.holds (h : Releases tuner ev) (hfailed : ¬ ReleaseFailed (.acquired tuner :: ev)) :
    Holds u (.acquired tuner :: ev) ↔ u = tuner ∧ ev = [] := by
  have hev : ¬ ReleaseFailed ev := fun ⟨t, ht⟩ => hfailed ⟨t, List.mem_cons_of_mem _ ht⟩
  rw [holds_cons_acquired, or_iff_right h.not_holds]
  refine and_congr_right fun hu => ?_
  rw [hu, h.released hev, not_not]

/-- What the call does at one tuner: nothing to its lock; or it acquires it, and an exchange fails,
or the target is accepted, or it is refused and the key released. -/
theorem tryTuner_cases (call : Call) (tuner : Nat) :
    ((call.tryTuner tuner).1 ≠ .ok true ∧ (call.tryTuner tuner).2 = []) ∨
      ∃ ev, Releases tuner ev ∧
        ((call.FailsAt tuner ∧ ∃ e, call.tryTuner tuner = (.error e, .acquired tuner :: ev)) ∨
          ((ev ≠ [] ↔ call.RefusesAt tuner) ∧
            call.tryTuner tuner = (.ok true, .acquired tuner :: ev)) ∨
          (ev ≠ [] ∧ call.tryTuner tuner = (.ok false, .acquired tuner :: ev))) := by
  have hspec : CommandsSpec call tuner 0 call.commands := commandsSpec 0 _
  unfold Call.tryTuner
  cases call.checkTunerAvailability tuner with
  | error e => exact .inl ⟨by simp, rfl⟩
  | ok free =>
  cases free with
  | false => exact .inl ⟨by simp, rfl⟩
  | true =>
  cases call.claim tuner with
  | error e => exact .inl ⟨by simp, rfl⟩
  | ok claimed =>
  cases claimed with
  | false => exact .inl ⟨by simp, rfl⟩
  | true =>
  refine .inr ?_
  rcases hrun : call.runCommands tuner 0 call.commands with ⟨result, ev⟩
  obtain ⟨hreleases, hfails, hrefuses⟩ := hspec
  simp only [hrun, Nat.zero_add] at hreleases hfails hrefuses
  cases result with
  | error e => exact ⟨ev, hreleases, .inl ⟨.inl (hfails e rfl), e, rfl⟩⟩
  | ok done =>
  cases htarget : call.target tuner with
  | error e => exact ⟨ev, hreleases, .inl ⟨.inr ⟨e, htarget⟩, e, rfl⟩⟩
  | ok accepted =>
  cases accepted with
  | true => exact ⟨ev, hreleases, .inr (.inl ⟨hrefuses rfl, rfl⟩)⟩
  | false =>
    refine ⟨ev ++ [call.releaseLockkey tuner none], ?_, .inr (.inr ⟨by simp, rfl⟩)⟩
    intro e he
    rcases List.mem_append.mp he with he | he
    · exact hreleases e he
    · exact releases_releaseLockkey _ e he

theorem ReleaseFailed.append_left (h : ReleaseFailed ev) : ReleaseFailed (ev ++ ev') :=
  h.imp fun _ => List.mem_append_left _

theorem ReleaseFailed.append_right (h : ReleaseFailed ev') : ReleaseFailed (ev ++ ev') :=
  h.imp fun _ => List.mem_append_right _

/-- What is true of the locks when the call returns the result. -/
def Settled (call : Call) (result : Except ServiceError Nat) (events : List Event) : Prop :=
  match result with
  | .error _ => ∀ u, Holds u events → call.FailsAt u
  | .ok tuner => ∀ u, Holds u events ↔ u = tuner ∧ ¬ call.RefusesAt tuner

theorem Settled.append {result : Except ServiceError Nat} (hev : ∀ u, ¬ Holds u ev)
    (h : Settled call result ev') : Settled call result (ev ++ ev') := by
  have hsame : ∀ u, Holds u (ev ++ ev') ↔ Holds u ev' := fun u => by
    rw [holds_append, or_iff_left fun h => hev u h.1]
  cases result with
  | error e => exact fun u hu => h u ((hsame u).mp hu)
  | ok tuner => exact fun u => (hsame u).trans (h u)

theorem settled_walkTuners (tuners : List Nat) :
    ReleaseFailed (call.walkTuners tuners).2 ∨
      Settled call (call.walkTuners tuners).1 (call.walkTuners tuners).2 := by
  induction tuners with
  | nil => exact .inr fun u hu => absurd hu not_holds_nil
  | cons tuner tuners ih =>
    rcases tryTuner_cases call tuner with ⟨hne, hnil⟩ | ⟨ev, hreleases, hend⟩
    · rcases htry : call.tryTuner tuner with ⟨result, ev⟩
      rw [htry] at hne hnil
      obtain rfl : ev = [] := hnil
      simp only [Call.walkTuners, htry]
      cases result with
      | error e => exact .inr fun u hu => absurd hu not_holds_nil
      | ok streams =>
        cases streams with
        | true => exact absurd rfl hne
        | false => exact ih
    by_cases hfailed : ReleaseFailed (.acquired tuner :: ev)
    · left
      rcases hend with ⟨-, e, htry⟩ | ⟨-, htry⟩ | ⟨-, htry⟩ <;> simp only [Call.walkTuners, htry]
      · exact hfailed
      · exact hfailed
      · exact hfailed.append_left
    have hholds := fun u => hreleases.holds (u := u) hfailed
    rcases hend with ⟨hfails, e, htry⟩ | ⟨hrefuses, htry⟩ | ⟨hev, htry⟩ <;>
      simp only [Call.walkTuners, htry]
    · exact .inr fun u hu => ((hholds u).mp hu).1 ▸ hfails
    · refine .inr fun u => (hholds u).trans (and_congr_right fun _ => ?_)
      rw [← hrefuses, not_not]
    · refine ih.imp ReleaseFailed.append_right (Settled.append fun u hu => hev ?_)
      exact ((hholds u).mp hu).2

/-- **Locks**: unless a release fails, a call that returns an error leaves no tuner locked, but one
where a command or the target could not be sent; and a call that streams from a tuner leaves no
other locked, and this one unless a command was refused. -/
theorem locks_settled (call : Call) :
    ReleaseFailed call.startStreaming.2 ∨
      match call.startStreaming.1 with
      | .error _ => ∀ u, Holds u call.startStreaming.2 → call.FailsAt u
      | .ok tuner => ∀ u, Holds u call.startStreaming.2 ↔ u = tuner ∧ ¬ call.RefusesAt tuner := by
  unfold Call.startStreaming
  split
  · exact settled_walkTuners _
  · exact .inr fun u hu => absurd hu not_holds_nil

/-! ### A refused command -/

theorem written_of_fits {crc32 : List UInt8 → UInt32} {write : Filling UInt8 String Nat}
    {strings : List (List UInt8)} {payload : List UInt8} (h : Writes crc32 write strings payload)
    (hstrings : ∀ s ∈ strings, FitsByte s) (hpayload : payload.length + 8 ≤ packetBuffer) :
    ∃ message, written write = .ok message := by
  have hsize : scratch.length = packetBuffer := by rw [scratch, List.length_replicate]
  have hfits := h.fits scratch hstrings (by rwa [hsize])
  rw [written, hfits]
  exact ⟨_, rfl⟩

theorem reply_ok {write : Filling UInt8 String Nat} {io : Io} {bytes : List UInt8}
    (setting : List Char) (verb : String) (hwrite : ∃ message, written write = .ok message)
    (hio : io = ⟨true, some bytes⟩) :
    Call.reply write setting verb io = .ok (bytes.take packetBuffer) := by
  obtain ⟨message, hmessage⟩ := hwrite
  rw [Call.reply, hmessage, hio]
  rfl

theorem written_setMessage {crc32 : List UInt8 → UInt32} {name value : List Char}
    {lockkey : Option UInt32} (hname : FitsByte (utf8 (tunerSetting (.ofNat tuner) name)))
    (hvalue : FitsByte (utf8 value)) :
    ∃ message, written (writeSetMessage crc32 (.ofNat tuner) name value lockkey) = .ok message := by
  refine written_of_fits (writes_setMessage crc32 (.ofNat tuner) name value lockkey) ?_ ?_
  · intro s hs
    rcases List.mem_pair.mp hs with rfl | rfl
    · exact hname
    · exact hvalue
  · have hlength := length_setPayload (utf8 (tunerSetting (.ofNat tuner) name)) (utf8 value) lockkey
    have hlockkey := length_lockkeyPayload lockkey
    unfold FitsByte at hname hvalue
    unfold packetBuffer
    omega

theorem exchange_ok {name value : List Char} {lockkey : Option UInt32} {message : Message}
    (bytes : List UInt8) (read : Option (List UInt8))
    (hname : FitsByte (utf8 (tunerSetting (.ofNat tuner) name))) (hvalue : FitsByte (utf8 value))
    (hio : call.device message = ⟨true, some bytes⟩)
    (hread : (tryGetReturnValueOfGetSet call.crc32 (bytes.take packetBuffer)).run = some read) :
    call.exchange tuner name value lockkey message = .ok read.isSome := by
  rw [Call.exchange, reply_ok _ _ (written_setMessage hname hvalue) hio]
  simp only [hread]

def noneReply : List UInt8 := [0, 5, 0, 9, 3, 0, 4, 5, 110, 111, 110, 101, 0, 0, 0, 0, 0]

/-- A device with one free tuner, which accepts all but the channel. -/
def refusing : Call where
  crc32 _ := 0
  device
    | .command .. | .clearTarget .. | .dropKey .. => ⟨true, some []⟩
    | _ => ⟨true, some noneReply⟩
  connects := true
  deviceName := "192.168.1.2:65001".toList
  localIp := "192.168.1.1".toList
  localPort := 5000
  commands := [("channel".toList, "99".toList)]
  numTuners := 1
  lockkey := 7

/-- The tuner is streamed from, and its lock is not held. -/
theorem refusing_released :
    refusing.startStreaming.1 = .ok 0 ∧ ¬ ∃! u, Holds u refusing.startStreaming.2 := by
  have hcheck : refusing.checkTunerAvailability 0 = .ok true := by
    have hget := writes_getMessage refusing.crc32 (.ofNat 0) "lockkey".toList
    have hfits : ∀ s ∈ [utf8 (tunerSetting (.ofNat 0) "lockkey".toList)], FitsByte s := by
      intro s hs
      rw [List.mem_singleton.mp hs]
      decide
    have hwritten := written_of_fits hget hfits (by decide)
    have hio : refusing.device (.availability 0) = ⟨true, some noneReply⟩ := rfl
    have hreply := reply_ok (tunerSetting (.ofNat 0) "lockkey".toList) "hdhomerun get "
      hwritten hio
    rw [Call.checkTunerAvailability, hreply]
    rfl
  have hclaim : refusing.claim 0 = .ok true :=
    exchange_ok noneReply (some [110, 111, 110, 101]) (by decide) (by decide) rfl rfl
  have hcommand : refusing.command 0 0 ("channel".toList, "99".toList) = .ok false :=
    exchange_ok [] none (by decide) (by decide) rfl rfl
  have htarget : refusing.target 0 = .ok true :=
    exchange_ok noneReply (some [110, 111, 110, 101]) (by decide) (by decide) rfl rfl
  have hgoes : ∀ name message, FitsByte (utf8 (tunerSetting 0 name)) →
      refusing.device message = ⟨true, some []⟩ →
      refusing.goesThrough 0 name message = true := by
    intro name message hname hio
    rw [Call.goesThrough, reply_ok _ _ (written_setMessage hname (by decide)) hio]
    rfl
  have hrelease : refusing.releaseLockkey 0 (some 0) = .released 0 := by
    rw [Call.releaseLockkey, hgoes _ _ (by decide) rfl, hgoes _ _ (by decide) rfl]
    rfl
  have hrun : refusing.startStreaming = (.ok 0, [.acquired 0, .released 0]) := by
    have hcommands : refusing.commands = [("channel".toList, "99".toList)] := rfl
    have hrange : List.range refusing.numTuners.toInt.toNat = [0] := by decide
    have hconnects : refusing.connects = true := rfl
    rw [Call.startStreaming, if_pos hconnects, hrange]
    simp only [Call.walkTuners, Call.tryTuner, hcheck, hclaim, hcommands, Call.runCommands,
      hcommand, hrelease, htarget]
  rw [hrun]
  refine ⟨rfl, ?_⟩
  rintro ⟨u, hu, -⟩
  rcases holds_cons_acquired.mp hu with hu | ⟨rfl, hu⟩
  · exact Releases.not_holds (fun e he => .inl (List.mem_singleton.mp he)) hu
  · exact hu (List.mem_singleton_self _)

end Ferrofin.HdHomerun
