import ILDump.Diagnosis
import ILDump.Search.Pattern
import ILDump.Workspace.Tree

/-!
# Work

Work changes a state and ends with a result or a failure; either way the state keeps what
was done to it. Work on a part of a state is work on the whole.
-/

namespace ILDump

/-- How much a log record matters. -/
inductive LogLevel where
  | info
  | warning
  | error
deriving DecidableEq, Repr

/-- A record of the log. -/
structure LogRecord where
  level : LogLevel
  text : String
deriving DecidableEq, Repr

/-- What kind of work a diagnosis is about. -/
inductive DiagnosedWork where
  | input
  | tool
  | disassembly
  | options
deriving DecidableEq, Repr

/-- How a session may end early. -/
inductive Failure where
  | diagnosed (work : DiagnosedWork) (d : Diagnosis)
  | disk (e : DiskError) (path : String)
  /-- It cannot be told where the working directory is. -/
  | astray (e : DiskError)
  /-- A file of settings is not UTF-8. -/
  | undecodable (path : String)
  | pattern (fault : PatternFault)
  /-- Something was done by way of itself, without end. -/
  | endless
deriving Repr

/-- Work on a state. -/
abbrev Work (σ α : Type) : Type :=
  EStateM Failure σ α

namespace Work

variable {ρ σ α : Type}

/-- Does work on the second half of a pair. -/
def onSecond (work : Work σ α) : Work (ρ × σ) α := fun s =>
  match work s.2 with
  | .ok a t => .ok a (s.1, t)
  | .error e t => .error e (s.1, t)

/-- Does work on a pair whose first half is given, and gives what becomes of that half. -/
def withFirst (first : ρ) (work : Work (ρ × σ) α) : Work σ (α × ρ) := fun s =>
  match work (first, s) with
  | .ok a t => .ok (a, t.1) t.2
  | .error e t => .error e t.2

/-- Does work that may find a tool missing, and tells so instead of failing. -/
def unlessToolMissing (work : Work σ Unit) : Work σ (Option Diagnosis) := fun s =>
  match work s with
  | .ok _ t => .ok none t
  | .error (.diagnosed .tool d) t => .ok (some d) t
  | .error e t => .error e t

/-- Does work that may end in a diagnosis, and gives that instead of failing. -/
def unlessDiagnosed (work : Work σ Unit) : Work σ (Option Diagnosis) := fun s =>
  match work s with
  | .ok _ t => .ok none t
  | .error (.diagnosed _ d) t => .ok (some d) t
  | .error e t => .error e t

end Work

end ILDump
