import ChainRunner.Files.Disk
import ChainRunner.Watch.Rule

/-!
What there is to watch: the watched directory as it really is, and the rules as seen from it.
-/

namespace ChainRunner.Program

open Files

inductive WatchError
  | unresolved (path : String) (e : Errno)
  | pattern (e : PatternError)
deriving DecidableEq, Repr

/-- The directory without links and detours. -/
def realPath (d : Disk) (cwd : Place) (path : String) : Except WatchError String :=
  match d.find cwd path with
  | .ok (p, _) => .ok p.path
  | .error e => .error (.unresolved path e)

/-- The watched directory and the rules that hold in it. -/
def compileWatch (d : Disk) (cwd : Place) (dir : String) (observe : Watch.Observe)
    (vars : Variables) : Except WatchError (String × List Watch.Rule) := do
  let root ← realPath d cwd (Path.join cwd.path dir)
  let rules ← (Watch.Rule.ofObserve observe vars root).mapError .pattern
  return (root, rules)

end ChainRunner.Program
