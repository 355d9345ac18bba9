import Ferrofin.Lib.KeyedMap
import Ferrofin.Lib.ModifyFirst
import Ferrofin.Util.Text
import Mathlib.Algebra.Group.Int.Defs

/-!
# The registered transcode jobs

The job list of `TranscodeManagerImpl` and its critical sections: each function
below is what one method does to the list while it holds the `jobs` lock.

A job is found by its type and its path, the path up to ASCII case
(`RegisteredJob.isFor`), and the first one found is taken.  `register_job` does
not look whether one is there already.

An `Instant` is its number of nanoseconds.  Two fields are history only:
`RegisteredJob.serial` numbers the registrations, and `RunningJob.progress`
numbers the `Arc`s, which the code compares by pointer.
-/

namespace Ferrofin.Transcode

open Lib Util

inductive TranscodingJobType where
  | progressive | hls | dash
deriving DecidableEq

structure TranscodingJobHandle where
  playSessionId : Option String := none
  path : String
  jobType : TranscodingJobType
  deviceId : Option String := none
  liveStreamId : Option String := none
deriving DecidableEq

def progressivePingTimeoutMs : Int := 10000

def hlsPingTimeoutMs : Int := 60000

/-- `RunningJob`, as far as the registry reads it. -/
structure RunningJob where
  progress : Nat
  playlistPath : String
  segmentEndings : KeyedMap String Int := ∅

structure RegisteredJob where
  serial : Nat
  handle : TranscodingJobHandle
  display : String
  isUserPaused : Bool
  pingTimeoutMs : Int
  activeRequestCount : Int
  lastActivity : Nat
  running : Option RunningJob

def pingTimeoutFor : TranscodingJobType → Int
  | .progressive => progressivePingTimeoutMs
  | .hls | .dash => hlsPingTimeoutMs

theorem pingTimeoutFor_pos (jobType : TranscodingJobType) : 0 < pingTimeoutFor jobType := by
  cases jobType <;> decide

namespace RegisteredJob

def isFor (jobType : TranscodingJobType) (path : String) (j : RegisteredJob) : Bool :=
  j.handle.jobType == jobType && eqIgnoreAsciiCase j.handle.path path

/-- `isFor` at the key of a handle. -/
def isOf (handle : TranscodingJobHandle) (j : RegisteredJob) : Bool :=
  j.isFor handle.jobType handle.path

def ofSession (playSessionId : String) (j : RegisteredJob) : Bool :=
  j.handle.playSessionId.any fun s => eqIgnoreAsciiCase s playSessionId

def produces (file : String) (j : RegisteredJob) : Bool :=
  j.running.any fun running =>
    (j.handle.jobType == .progressive && running.playlistPath == file) ||
      (running.segmentEndings.lookup file).isSome

/-- The `Arc` of the job's live process is `progress` (`Arc::ptr_eq`). -/
def runs (progress : Nat) (j : RegisteredJob) : Bool :=
  j.running.any fun running => running.progress == progress

/-- `i64::try_from(last_activity.elapsed().as_millis()).unwrap_or(i64::MAX)`. -/
def elapsedMillis (now : Nat) (j : RegisteredJob) : Int :=
  min (((now - j.lastActivity) / 1000000 : Nat) : Int) (2 ^ 63 - 1)

/-- The filter of `reap_idle_jobs`. -/
def isIdle (now : Nat) (j : RegisteredJob) : Bool :=
  decide (j.activeRequestCount ≤ 0) && decide (j.elapsedMillis now > j.pingTimeoutMs)

def begin (now : Nat) (j : RegisteredJob) : RegisteredJob :=
  { j with activeRequestCount := j.activeRequestCount + 1, lastActivity := now }

def release (now : Nat) (j : RegisteredJob) : RegisteredJob :=
  { j with activeRequestCount := max (j.activeRequestCount - 1) 0, lastActivity := now }

def ping (now : Nat) (isUserPaused : Option Bool) (j : RegisteredJob) : RegisteredJob :=
  { j with
    isUserPaused := isUserPaused.getD j.isUserPaused
    pingTimeoutMs := pingTimeoutFor j.handle.jobType
    lastActivity := now }

end RegisteredJob

open RegisteredJob

/-! ### The critical sections -/

def registerJob (now serial : Nat) (handle : TranscodingJobHandle) (jobs : List RegisteredJob) :
    List RegisteredJob :=
  jobs ++ [{
    serial := serial
    handle := handle
    display := ""
    isUserPaused := false
    pingTimeoutMs := pingTimeoutFor handle.jobType
    activeRequestCount := 0
    lastActivity := now
    running := none }]

def setJobDisplay (handle : TranscodingJobHandle) (display : String) (jobs : List RegisteredJob) :
    List RegisteredJob :=
  if display = "" then jobs
  else modifyFirst (isOf handle) (fun j => { j with display := display }) jobs

def attachRunning (handle : TranscodingJobHandle) (running : RunningJob)
    (jobs : List RegisteredJob) : List RegisteredJob :=
  modifyFirst (isOf handle) (fun j => { j with running := some running }) jobs

def trackSegmentDownload (playlist file : String) (endingTicks : Int)
    (jobs : List RegisteredJob) : List RegisteredJob :=
  modifyFirst (isFor .hls playlist)
    (fun j => { j with
      running := j.running.map fun running =>
        { running with segmentEndings := running.segmentEndings.insert file endingTicks } }) jobs

def beginRequestGuard (now : Nat) (path : String) (jobType : TranscodingJobType)
    (jobs : List RegisteredJob) : Option (RegisteredJob × List RegisteredJob) :=
  (jobs.find? (isFor jobType path)).map fun j =>
    (j, modifyFirst (isFor jobType path) (begin now) jobs)

/-- The body of `stream_progress` and `segment_progress`: the first job with `p`,
its process, and the list with a mark on the job; nothing when it has no process. -/
def bindObserver (now : Nat) (p : RegisteredJob → Bool) (jobs : List RegisteredJob) :
    Option (RegisteredJob × RunningJob × List RegisteredJob) :=
  (jobs.find? p).bind fun j => j.running.map fun running =>
    (j, running, modifyFirst p (begin now) jobs)

def streamProgress (now : Nat) (file : String) (jobs : List RegisteredJob) :
    Option (RegisteredJob × RunningJob × List RegisteredJob) :=
  bindObserver now (produces file) jobs

def segmentProgress (now : Nat) (playlist : String) (jobs : List RegisteredJob) :
    Option (RegisteredJob × RunningJob × List RegisteredJob) :=
  bindObserver now (isFor .hls playlist) jobs

def endRequestSync (now : Nat) (handle : TranscodingJobHandle) (jobs : List RegisteredJob) :
    List RegisteredJob :=
  modifyFirst (isOf handle) (release now) jobs

def endDownload (now : Nat) (progress : Nat) (jobs : List RegisteredJob) : List RegisteredJob :=
  modifyFirst (runs progress) (release now) jobs

/-- `ping_transcoding_job`; a blank session id is refused. -/
def pingTranscodingJob (now : Nat) (playSessionId : String) (isUserPaused : Option Bool)
    (jobs : List RegisteredJob) : Option (List RegisteredJob) :=
  if trim playSessionId = "" then none
  else some (jobs.map fun j => if j.ofSession playSessionId then j.ping now isUserPaused else j)

def killAndRemove (handle : TranscodingJobHandle) (jobs : List RegisteredJob) :
    Option RegisteredJob × List RegisteredJob :=
  (jobs.find? (isOf handle), jobs.eraseP (isOf handle))

def removeJobByPath (path : String) (jobType : TranscodingJobType) (jobs : List RegisteredJob) :
    List RegisteredJob :=
  jobs.filter fun j => !j.isFor jobType path

/-- The first section of `reap_idle_jobs`: the jobs it selects. -/
def idleJobs (now : Nat) (jobs : List RegisteredJob) : List RegisteredJob :=
  jobs.filter (isIdle now)

end Ferrofin.Transcode
