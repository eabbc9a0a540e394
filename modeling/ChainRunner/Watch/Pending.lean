import ChainRunner.NameMap
import ChainRunner.Watch.Pattern

/-!
The queue of changed paths and the lock of the dispatch cycle that empties it.
-/

namespace ChainRunner.Watch

/-- Changed paths, each once and in order, and whether a dispatch cycle is going on. -/
structure Pending where
  paths : NameMap Unit := .empty
  locked : Bool := false

namespace Pending

def push (q : Pending) (path : String) : Pending :=
  { q with paths := q.paths.insert (toSlash path) () }

def toList (q : Pending) : List String := q.paths.keys

def size (q : Pending) : Nat := q.toList.length

/-- All paths, and the queue without them. -/
def drain (q : Pending) : List String × Pending := (q.toList, { q with paths := .empty })

/-- Take the lock, if it is free; says whether it was. -/
def tryLock (q : Pending) : Bool × Pending := (!q.locked, { q with locked := true })

def unlock (q : Pending) : Pending := { q with locked := false }

end Pending

end ChainRunner.Watch
