/-!
The three axes along which a script body is varied.
-/

namespace ChainRunner

/-- What a placeholder of a script body stands for. -/
inductive Axis
  | flavor
  | project
  | file
deriving DecidableEq, Repr, Inhabited

namespace Axis

/-- Every axis, the one that varies slowest first. -/
def all : List Axis := [.flavor, .project, .file]

theorem mem_all (a : Axis) : a ∈ all := by cases a <;> decide

/-- The placeholder that stands for a value of the axis. -/
def placeholder : Axis → String
  | .flavor => "$FLV"
  | .project => "$PROJ"
  | .file => "$FILE"

end Axis

end ChainRunner
