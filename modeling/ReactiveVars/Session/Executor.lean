import ReactiveVars.SyncError

/-!
# Executors

An executor owns something that must not be used by two at a time, and runs jobs on it one after the
other. A job that gives up takes the executor with it: no later job is run.
-/

namespace ReactiveVars

/-- What an executor owns, nothing once it is closed. -/
structure Executor (σ : Type) where
  owned : Option σ

namespace Executor

variable {σ α : Type}

/-- An executor that owns something. -/
def new (a : σ) : Executor σ := ⟨some a⟩

/-- Runs a job and returns its result; a job without result has given up. -/
def execute (e : Executor σ) (job : σ → Option α × σ) : Except SyncError α × Executor σ :=
  match e.owned with
  | none => (.error .executorClosed, e)
  | some a =>
    match job a with
    | (some result, a') => (.ok result, ⟨some a'⟩)
    | (none, _) => (.error .executorClosed, ⟨none⟩)

/-- Has a job run without waiting for it. -/
def submit (e : Executor σ) (job : σ → Option σ) : Except SyncError Unit × Executor σ :=
  match e.owned with
  | none => (.error .executorClosed, e)
  | some a => (.ok (), ⟨job a⟩)

end Executor

end ReactiveVars
