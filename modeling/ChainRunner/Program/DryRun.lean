import ChainRunner.Run.Plan
import ChainRunner.Text.Quoted

/-!
What the program prints in place of running a chain.
-/

namespace ChainRunner.Program

def axisTitle : Axis → String
  | .flavor => "Flavor"
  | .project => "Project"
  | .file => "File"

/-- The variables by axis; an axis without values does not show. -/
def showVariables (vs : Variables) : String :=
  let shown := Axis.all.filter fun a => !(vs.values a).isEmpty
  let axis (a : Axis) : String :=
    axisTitle a ++ ": [" ++ ", ".intercalate ((vs.values a).map Text.quote) ++ "]"
  "VariableSet \x7b values: \x7b" ++ ", ".intercalate (shown.map axis) ++ "\x7d \x7d"

def modeLabel : Mode → String
  | .background => " [background]"
  | _ => ""

def showPlanned (m : Manifest) : Run.Planned → List String
  | .launch i => [s!"  - {i.displayName}{modeLabel i.mode}", s!"      cmd: {i.command}"]
  | .chain name mode =>
    let expr := (m.chain? name).getD ""
    [s!"  - {name}{modeLabel mode} (chain: {expr})"]
  | .unknown name mode => [s!"  - {name}{modeLabel mode} (no such script or chain)"]

/-- The plan of a chain, batch by batch. -/
def dryRun (m : Manifest) (chain : String) (vs : Variables) : String :=
  let batches := (Run.plan m chain vs).zipIdx.flatMap fun b =>
    "" :: s!"batch {b.2 + 1}:" :: b.1.flatMap (showPlanned m)
  String.join ((s!"runna dry-run: {chain}" :: s!"  variables: {showVariables vs}" :: batches).map
    (· ++ "\n"))

end ChainRunner.Program
