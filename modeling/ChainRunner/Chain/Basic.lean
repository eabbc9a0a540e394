/-!
Chain expressions: the steps a user writes and the batches that the pauses cut them into.
-/

namespace ChainRunner

/-- How a step takes part in its batch. -/
inductive Mode
  | sequential
  | background
  | pause
deriving DecidableEq, Repr, Inhabited

/-- One step of a chain. A pause names nothing. -/
inductive Step
  | sequential (target : String)
  | background (target : String)
  | pause
deriving DecidableEq, Repr, Inhabited

namespace Step

def target? : Step → Option String
  | .sequential t => some t
  | .background t => some t
  | .pause => none

def mode : Step → Mode
  | .sequential _ => .sequential
  | .background _ => .background
  | .pause => .pause

def isPause (s : Step) : Bool := s.mode = .pause

end Step

/-- Steps between two pauses; they start together. -/
structure Batch where
  steps : List Step
deriving DecidableEq, Repr, Inhabited

namespace Batch

def sequential (b : Batch) : List Step := b.steps.filter (·.mode = .sequential)

def background (b : Batch) : List Step := b.steps.filter (·.mode = .background)

/-- Cut at the pauses; a batch without steps is left out. -/
def ofSteps (steps : List Step) : List Batch :=
  ((steps.splitOnP Step.isPause).filter (!·.isEmpty)).map Batch.mk

end Batch

end ChainRunner
