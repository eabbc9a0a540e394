import ChainRunner.Files.View
import ChainRunner.Watch.Rule

/-!
The files to poll: those that exist below the watched directories and match a rule.
-/

namespace ChainRunner.Watch

/-- Without the elements that equal the one before them. -/
def dropRepeats (same : String → String → Bool) : List String → List String
  | [] => []
  | x :: xs => x :: dropRepeats same (xs.dropWhile (same x))
termination_by xs => xs.length
decreasing_by have := (List.dropWhile_sublist (same x) (l := xs)).length_le; grind

def pollingTargets (v : Files.View) (rules : List Rule) : Except String (List String) := do
  let found ← (roots rules).mapM fun dir => v.collect dir
  let hits := found.flatten.filter fun p => rules.any (·.isMatch (toSlash p))
  return dropRepeats (fun p q => Path.components p = Path.components q)
    (hits.mergeSort (Path.compare · · |>.isLE))

end ChainRunner.Watch
