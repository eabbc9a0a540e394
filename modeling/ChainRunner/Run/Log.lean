import ChainRunner.Run.State

/-!
Questions about the log of a session.
-/

namespace ChainRunner.Run

def Event.process : Event → ProcessId
  | .started _ p => p
  | .ended _ p _ _ _ => p

def Event.isStart : Event → Bool
  | .started _ _ => true
  | .ended _ _ _ _ _ => false

namespace State

def nameOf? (s : State) (e : Event) : Option String := (s.launch? e.process).map Launch.name

def scriptOf? (s : State) (e : Event) : Option String := (s.launch? e.process).map Launch.script

/-- The display names in the order of the starts. -/
def startedNames (s : State) : List String := (s.log.filter Event.isStart).filterMap s.nameOf?

/-- The commands started for a script, in order. -/
def commandsOf (s : State) (script : String) : List String :=
  (s.log.filter fun e => e.isStart && s.scriptOf? e = some script).filterMap fun e =>
    (s.launch? e.process).map Launch.command

/-- Where in the log something of that name first started, or first ended. -/
def position? (s : State) (start : Bool) (name : String) : Option Nat :=
  s.log.findIdx? fun e => e.isStart = start && s.nameOf? e = some name

/-- The largest number of instances of a script that were up at once, and the number up at the
end of the events. -/
def concurrency (s : State) (script : String) (events : List Event) : Nat × Nat :=
  events.foldl
    (fun (most, up) e =>
      if s.scriptOf? e = some script then
        let up := if e.isStart then up + 1 else up - 1
        (max most up, up)
      else (most, up))
    (0, 0)

def maxConcurrent (s : State) (script : String) : Nat := (s.concurrency script s.log).1

end State

end ChainRunner.Run
