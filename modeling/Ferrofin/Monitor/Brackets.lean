import Mathlib.Data.Finset.Insert
import Mathlib.Data.Finset.Erase
import Ferrofin.Lib.Machine
import Ferrofin.Lib.KeyedMap
import Ferrofin.Util.Paths

/-!
# Brackets around the server's own writes

The server's writers bracket each file they write (`SelfWriteGuard`), and the library
monitor (`library_monitor.rs`) ignores the reports of what they bracket.  `selfWrites` is
the machine of all interleavings of brackets, of the timers that release them, and of
reports, each up to the point where it is accepted.

A bracket and a report have a number each.  `Report.windows` is history: the brackets that
were open when the report was made, or not yet settled.
-/

namespace Ferrofin.Monitor

open Lib Util

def selfWriteSettle : Nat := 45000

/-- `trim_separators`: a root stays as it is. -/
def trimSeparators (p : Path) : Path :=
  if p.rdropWhile (· == '/') = [] then p else p.rdropWhile (· == '/')

def pathsEqual (a b : Path) : Bool := trimSeparators a == trimSeparators b

def containsSubPath (parent path : Path) : Bool :=
  let parent := trimSeparators parent
  decide (parent.length < path.length) && parent.isPrefixOf path &&
    (parent.getLast? == some '/' || (path.drop parent.length).head? == some '/')

def suppresses (written path : Path) : Bool :=
  pathsEqual written path || containsSubPath written path ||
    (parent written).any fun folder => !folder.isEmpty && pathsEqual folder path

def isPathSuppressed (suppressed : Finset Path) (path : Path) : Bool :=
  decide (∃ written ∈ suppressed, suppresses written path = true)

/-- Where a bracket stands: open, completed at some time with its timer running, with its
path let go but still to be reported, and released. -/
inductive BracketPhase where
  | writing
  | settling (completed : Nat) (refresh : Bool)
  | refreshing (completed : Nat)
  | released (completed : Nat)

structure Bracket where
  path : Path
  phase : BracketPhase := .writing

/-- The bracket is open, or was completed less than the settle delay ago. -/
def Bracket.Covers (b : Bracket) (now : Nat) : Prop :=
  match b.phase with
  | .writing => True
  | .settling completed _ | .refreshing completed | .released completed =>
    now < completed + selfWriteSettle

instance (b : Bracket) (now : Nat) : Decidable (b.Covers now) := by
  unfold Bracket.Covers
  cases b.phase <;> infer_instance

/-- Where a report stands: in the lookup of `.ignore` files, before the test of what is
suppressed, past it, and accepted; or it was dropped. -/
inductive ReportPhase where
  | looking
  | testing
  | passed
  | accepted
  | dropped
deriving DecidableEq

structure Report where
  path : Path
  windows : List Nat
  phase : ReportPhase := .looking

/-- The clock, the paths being written, the brackets and the reports. -/
structure Brackets where
  now : Nat := 0
  suppressed : Finset Path := ∅
  brackets : KeyedMap Nat Bracket := ∅
  reports : KeyedMap Nat Report := ∅

/-- What happens.  `look` is told whether a `.ignore` file hides the path. -/
inductive BracketEvent where
  | tick (elapsed : Nat)
  | begin (i : Nat) (path : Path)
  | complete (i : Nat) (refresh : Bool)
  | release (i : Nat)
  | refresh (i report : Nat)
  | report (i : Nat) (path : Path)
  | look (i : Nat) (hidden : Bool)
  | test (i : Nat)
  | accept (i : Nat)

namespace Brackets

variable (ignored : Path → Bool) (w : Brackets)

def toBracket (i : Nat) (b : Bracket) (phase : BracketPhase) : Brackets :=
  { w with brackets := w.brackets.insert i { b with phase := phase } }

def toReport (i : Nat) (r : Report) (phase : ReportPhase) : Brackets :=
  { w with reports := w.reports.insert i { r with phase := phase } }

def windows : List Nat :=
  (w.brackets.entries.filter fun e => decide (e.2.Covers w.now)).map Sigma.fst

def begin (i : Nat) (path : Path) : Option Brackets :=
  if (w.brackets.lookup i).isSome then none
  else if path = [] then some w
  else some { w with
    suppressed := insert path w.suppressed
    brackets := w.brackets.insert i { path := path } }

/-- `SelfWriteGuard::complete`: the timer starts. -/
def complete (i : Nat) (refresh : Bool) (b : Bracket) : Option Brackets :=
  match b.phase with
  | .writing => some (w.toBracket i b (.settling w.now refresh))
  | .settling _ _ | .refreshing _ | .released _ => none

/-- `release`, up to the report: the timer has run down. -/
def release (i : Nat) (b : Bracket) : Option Brackets :=
  match b.phase with
  | .settling completed refresh =>
    if completed + selfWriteSettle ≤ w.now then some
      { w.toBracket i b (if refresh then .refreshing completed else .released completed) with
        suppressed := w.suppressed.erase b.path }
    else none
  | .writing | .refreshing _ | .released _ => none

/-- `report_change`, up to the lookup of `.ignore` files. -/
def report (i : Nat) (path : Path) : Option Brackets :=
  if (w.reports.lookup i).isSome then none
  else if path = [] ∨ ignored path then some w
  else some { w with reports := w.reports.insert i { path := path, windows := w.windows } }

/-- The end of `release`: the written path is reported. -/
def refresh (i j : Nat) (b : Bracket) : Option Brackets :=
  match b.phase with
  | .refreshing completed => (w.toBracket i b (.released completed)).report ignored j b.path
  | .writing | .settling _ _ | .released _ => none

/-- The lookup of `.ignore` files has ended. -/
def look (i : Nat) (hidden : Bool) (r : Report) : Option Brackets :=
  match r.phase with
  | .looking => some (w.toReport i r (if hidden then .dropped else .testing))
  | .testing | .passed | .accepted | .dropped => none

def test (i : Nat) (r : Report) : Option Brackets :=
  match r.phase with
  | .testing =>
    some (w.toReport i r (if isPathSuppressed w.suppressed r.path then .dropped else .passed))
  | .looking | .passed | .accepted | .dropped => none

/-- With the delay read, the change is queued for a scan, at once or with its settle
group. -/
def accept (i : Nat) (r : Report) : Option Brackets :=
  match r.phase with
  | .passed => some (w.toReport i r .accepted)
  | .looking | .testing | .accepted | .dropped => none

def step : BracketEvent → Option Brackets
  | .tick elapsed => some { w with now := w.now + elapsed }
  | .begin i path => w.begin i path
  | .complete i refresh => (w.brackets.lookup i).bind (w.complete i refresh)
  | .release i => (w.brackets.lookup i).bind (w.release i)
  | .refresh i j => (w.brackets.lookup i).bind (w.refresh ignored i j)
  | .report i path => w.report ignored i path
  | .look i hidden => (w.reports.lookup i).bind (w.look i hidden)
  | .test i => (w.reports.lookup i).bind (w.test i)
  | .accept i => (w.reports.lookup i).bind (w.accept i)

end Brackets

/-- The machine of all interleavings, with no bracket; `ignored` is what the ignore patterns
say (`should_ignore_path`). -/
def selfWrites (ignored : Path → Bool) : Machine Brackets BracketEvent where
  init := {}
  step w := w.step ignored

end Ferrofin.Monitor
