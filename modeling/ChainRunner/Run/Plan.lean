import ChainRunner.Chain.Parser
import ChainRunner.Expansion
import ChainRunner.Manifest.Basic

/-!
What a chain would start, without starting it.
-/

namespace ChainRunner.Run

inductive Planned
  | launch (i : Instance)
  | chain (name : String) (mode : Mode)
  | unknown (name : String) (mode : Mode)
deriving DecidableEq, Repr

def planStep (m : Manifest) (vars : Variables) (step : Step) : List Planned :=
  match step.target? with
  | none => []
  | some name =>
    match m.resolve name with
    | .script body => (Instance.expand name body step.mode vars).map .launch
    | .chain _ => [.chain name step.mode]
    | .unknown => [.unknown name step.mode]

/-- The planned steps of a chain expression, batch by batch. -/
def plan (m : Manifest) (expr : String) (vars : Variables) : List (List Planned) :=
  (Chain.batches expr).map fun b => b.steps.flatMap (planStep m vars)

end ChainRunner.Run
