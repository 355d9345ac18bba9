import Mathlib.Data.List.Basic

/-!
# Journals

Transactions that each read and write one place of a store, in the order they were
made.  `replay` is what running them one after another leaves at a place.
-/

namespace Ferrofin.Lib.Journal

variable {κ ε τ : Type*} [DecidableEq κ] (place : ε → κ) (run : ε → τ → τ)

/-- What the transactions leave at a place that held `start`. -/
def replay (start : τ) (log : List ε) (k : κ) : τ :=
  (log.filter fun e => place e = k).foldl (fun t e => run e t) start

variable {place run} {start : τ} {log : List ε} {e : ε} {k : κ}

theorem replay_append_self (h : place e = k) :
    replay place run start (log ++ [e]) k = run e (replay place run start log k) := by
  have hlast : [e].filter (fun e => place e = k) = [e] := by simp [h]
  rw [replay, List.filter_append, hlast, List.foldl_append]
  rfl

theorem replay_append_of_ne (h : place e ≠ k) :
    replay place run start (log ++ [e]) k = replay place run start log k := by
  have hlast : [e].filter (fun e => place e = k) = [] := by simp [h]
  rw [replay, List.filter_append, hlast, List.append_nil]
  rfl

end Ferrofin.Lib.Journal
