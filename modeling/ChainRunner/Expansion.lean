import ChainRunner.Chain.Basic
import ChainRunner.Path
import ChainRunner.Variables.Template

/-!
Expanding a script into the instances to start: one for every combination of the values of the
axes its body mentions.
-/

namespace ChainRunner

/-- One process to start. -/
structure Instance where
  script : String
  displayName : String
  command : String
  mode : Mode
deriving DecidableEq, Repr, Inhabited

namespace Instance

def isBackground (i : Instance) : Bool := i.mode = .background

/-- What a chosen value adds to a display name: a file shows its base name. -/
def label : Axis × String → String
  | (.file, v) => (Path.fileName? v).getD ""
  | (_, v) => v

/-- The script's name, then `::` and the labels joined by `:`; empty labels do not show. -/
def nameFor (script : String) (asg : Template.Assignment) : String :=
  match (asg.map label).filter (· ≠ "") with
  | [] => script
  | labels => script ++ "::" ++ ":".intercalate labels

/-- The instances of a script under `vs`, the first axis of its body varying slowest. -/
def expand (script body : String) (mode : Mode) (vs : Variables) : List Instance :=
  (Template.combinations (Template.axesIn body) vs).map fun asg =>
    ⟨script, nameFor script asg, Template.fill asg body, mode⟩

end Instance

end ChainRunner
