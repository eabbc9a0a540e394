import ChainRunner.Process.Handle

/-!
All handles ever made, by number, and the registry of those that are tracked for shutdown.
-/

namespace ChainRunner

structure ProcessTable where
  handles : List Handle := []
  /-- The tracked handles in tracking order; one tracked twice is listed twice. -/
  tracked : List Nat := []
deriving Inhabited

namespace ProcessTable

def get? (t : ProcessTable) (id : Nat) : Option Handle := t.handles[id]?

def hasEnded (t : ProcessTable) (id : Nat) : Bool :=
  match t.get? id with
  | some h => h.hasEnded
  | none => true

def add (t : ProcessTable) (h : Handle) : ProcessTable × Nat :=
  ({ t with handles := t.handles ++ [h] }, t.handles.length)

def update (t : ProcessTable) (id : Nat) (f : Handle → Handle) : ProcessTable :=
  { t with handles := t.handles.modify id f }

/-- Track a handle. Those that have ended are forgotten on the way. -/
def track (t : ProcessTable) (id : Nat) : ProcessTable :=
  { t with tracked := t.tracked.filter (!t.hasEnded ·) ++ [id] }

/-- The table with one more process, tracked and up. -/
def launch (t : ProcessTable) (h : Handle) (now : Nat) : ProcessTable :=
  let id := t.handles.length
  ((t.add h).1.track id).update id fun h => h.start now none

/-- The tracked handles that have not ended. -/
def live (t : ProcessTable) : List Nat := t.tracked.filter (!t.hasEnded ·)

def names (t : ProcessTable) (ids : List Nat) : List String :=
  ids.filterMap fun id => (t.get? id).map Handle.name

def terminate (t : ProcessTable) (reachable : Nat → Bool) (id : Nat) : ProcessTable :=
  t.update id fun h => (h.terminate reachable).1

/-- Ask every live process to stop. -/
def terminateAll (t : ProcessTable) (reachable : Nat → Bool) : ProcessTable :=
  t.live.foldl (fun t id => t.terminate reachable id) t

/-- Ask every live process to stop, and say how many there were. -/
def stopAll (t : ProcessTable) (reachable : Nat → Bool) : ProcessTable × Nat :=
  (t.terminateAll reachable, t.live.length)

end ProcessTable

end ChainRunner
