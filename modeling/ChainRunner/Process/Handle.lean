/-!
The life of one started process, as its handle records it.

A handle is started, may be marked for what the process writes to its error stream, and is
finished once; the first `finish` decides. Times are those of whatever clock the caller keeps.
-/

namespace ChainRunner

structure Handle where
  name : String
  background : Bool
  pid : Option Nat := none
  startedAt : Option Nat := none
  endedAt : Option Nat := none
  /-- The exit status; none while the process runs, and for a signal or a failed start. -/
  code : Option Int := none
  failed : Bool := false
  /-- A request to kill the process waits to be seen. -/
  killRequested : Bool := false
deriving DecidableEq, Repr, Inhabited

namespace Handle

def hasStarted (h : Handle) : Bool := h.startedAt.isSome

def hasEnded (h : Handle) : Bool := h.endedAt.isSome

def isRunning (h : Handle) : Bool := h.hasStarted && !h.hasEnded

def duration? (h : Handle) : Option Nat :=
  match h.startedAt, h.endedAt with
  | some s, some e => some (e - s)
  | _, _ => none

/-- The process is up. -/
def start (h : Handle) (now : Nat) (pid : Option Nat) : Handle :=
  { h with pid, startedAt := h.startedAt.or (some now) }

/-- The process wrote to its error stream: that fails a foreground process. -/
def markStderr (h : Handle) : Handle :=
  if h.background || h.hasEnded then h else { h with failed := true }

/-- The process is over; says whether this call was the first. -/
def finish (h : Handle) (now : Nat) (code : Option Int) (failed : Bool) : Handle × Bool :=
  if h.hasEnded then (h, false)
  else
    ({ h with
        startedAt := h.startedAt.or (some now), endedAt := some now, code,
        failed := h.failed || failed },
      true)

/-- Ask the process to stop. It is interrupted by a signal to its process id, if one is known
and the signal gets through; otherwise a kill is requested. Gives the id the signal went to. -/
def terminate (h : Handle) (reachable : Nat → Bool) : Handle × Option Nat :=
  if h.hasEnded then (h, none)
  else
    match h.pid.filter reachable with
    | some pid => (h, some pid)
    | none => ({ h with killRequested := true }, none)

/-- Take the kill request, if there is one. Several requests are one. -/
def takeKill (h : Handle) : Handle × Bool := ({ h with killRequested := false }, h.killRequested)

/-- How the process ended, once it has. -/
def outcome? (h : Handle) : Option (Option Int × Bool) :=
  if h.hasEnded then some (h.code, h.failed) else none

end Handle

end ChainRunner
