import ChainRunner.Program.Load
import ChainRunner.Program.Watching
import ChainRunner.Run.Report

/-!
What can go wrong with an invocation of the program, and what it says then.
-/

namespace ChainRunner.Program

open Files

inductive Problem
  | manifest (path : String) (e : LoadError)
  /-- A directory cannot be listed. -/
  | unlisted (text : String)
  | run (why : Run.Failure)
  | watch (e : WatchError)
deriving DecidableEq, Repr

/-- What is wrong, from the outside in. -/
def Problem.causes : Problem → List String
  | .manifest path e => s!"loading manifest {path}" :: e.causes
  | .unlisted text => [text]
  | .run why => [why.message]
  | .watch (.unresolved path e) => [s!"resolving {path}", e.message]
  | .watch (.pattern e) => [e.message, e.cause]

def Problem.message (p : Problem) : String := ": ".intercalate p.causes

end ChainRunner.Program
