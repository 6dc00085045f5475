import ILDump.Workspace.Work

/-!
# Stages

A stage writes a listing for a file. Before the first file it prepares, which gives the
work it will do on each file; that is when a missing tool is noticed. Stages run in the
order of their ranks, and stages of one rank in the order they were given in. A later
stage may replace what an earlier one wrote.
-/

namespace ILDump

/-- What a prepared stage does: it is given a source and the destination of its listing. -/
abbrev StageWork (σ : Type) : Type :=
  Path → Path → Work σ Unit

structure Stage (σ : Type) where
  name : String
  rank : Int
  prepare : Work σ (StageWork σ)

namespace Stage

variable {ρ σ : Type}

/-- Stages in the order of their ranks; equal ranks keep their order. -/
def inRankOrder (stages : List (Stage σ)) : List (Stage σ) :=
  stages.mergeSort fun a b => decide (a.rank ≤ b.rank)

/-- Prepares stages one after the other. -/
def prepareAll : List (Stage σ) → Work σ (List (StageWork σ))
  | [] => return []
  | stage :: rest => do
    let work ← stage.prepare
    return work :: (← prepareAll rest)

/-- Runs prepared stages on a file, one after the other. -/
def runAll (source destination : Path) : List (StageWork σ) → Work σ Unit
  | [] => return
  | work :: rest => do
    work source destination
    runAll source destination rest

/-- A stage whose state is the second half of a pair. -/
def onSecond (stage : Stage σ) : Stage (ρ × σ) where
  name := stage.name
  rank := stage.rank
  prepare := Work.onSecond do
    let work ← stage.prepare
    return fun source destination => (work source destination).onSecond

end Stage

end ILDump
