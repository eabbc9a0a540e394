import ChainRunner.Chain.Basic
import ChainRunner.Expansion
import ChainRunner.Manifest.Basic
import ChainRunner.Process.Table
import ChainRunner.Run.Names
import ChainRunner.Run.Report
import ChainRunner.Watch.Pending

/-!
Everything that goes on in a session: processes, the tasks that wait for them, and the queue of
tasks that can go on.

A task is a run, a waiter for one process, a dispatch cycle, the loop that makes cycles, or the
keeper of a process. Runs and cycles own the tasks they wait for; a task that is over tells its
owner and wakes it. The history keeps in order what was done by whom.
-/

namespace ChainRunner.Run

abbrev TaskId := Nat

abbrev ProcessId := Nat

/-- Who learns how a run ended. -/
inductive Audience
  | caller (label : String)
  /-- A run that has it as a member of the batch it waits for, under a display name. -/
  | barrier (owner : TaskId) (name : String)
  | cycle (owner : TaskId)
  | nobody
deriving DecidableEq, Repr

/-- A member of a batch is over. -/
inductive Arrival
  | settled (name : String) (failed : Bool) (code : Option Int)
  | broken (why : Failure)
deriving DecidableEq, Repr

/-- What a run still has to do before it waits for its batch. -/
inductive Errand
  | step (s : Step)
  | launch (i : Instance)
deriving DecidableEq, Repr

/-- A chain on its way. -/
structure Course where
  chain : String
  vars : Variables
  exitOnError : Bool
  /-- The batches that have not been begun. -/
  rest : List Batch
  /-- So many batches have been begun; the last one is the current batch. -/
  batch : Nat := 0
  /-- What is left to start of the current batch. -/
  agenda : List Errand := []
  names : Names := .empty
  /-- The members of the current batch that are not over. -/
  waiting : List TaskId := []
  /-- The members that are over and not yet entered, in the order in which they ended. -/
  arrived : List Arrival := []
  entries : List Entry := []
  failed : Bool := false
  /-- The background instances it started. -/
  background : List ProcessId := []

/-- The chains that a dispatch cycle triggered. -/
structure Dispatch where
  paths : List String
  waiting : List TaskId := []
  /-- The runs that are over and not yet entered; none stands for one without a report. -/
  arrived : List (Option Report) := []
  runs : List Report := []

/-- How far a dispatch cycle has come. -/
inductive Cycle
  | idle
  /-- It has the lock. -/
  | locked
  /-- It has the lock and has taken the paths. -/
  | loaded (paths : List String)
  | running (d : Dispatch)
  /-- Nothing is left but to give the lock back. -/
  | finished (r : Option CycleReport)

inductive Task
  /-- Waits for a process on behalf of a run. -/
  | waiter (process : ProcessId) (name : String) (owner : TaskId)
  | run (r : Course) (audience : Audience)
  /-- One dispatch cycle. -/
  | tick (label : String) (cycle : Cycle)
  /-- Cycles for ever; the next is due at some time of the dispatcher's clock. -/
  | loop (due : Nat) (cycle : Cycle)
  /-- Ends a process as soon as it is asked to stop. -/
  | keeper (process : ProcessId)

structure Slot where
  task : Task
  /-- The task is to be dropped when its turn comes. -/
  cancelled : Bool := false

/-- A process that was started. -/
structure Launch where
  script : String
  name : String
  command : String
  background : Bool
  /-- The earlier attempts to start the same script. -/
  earlier : Nat
  waiter : Option TaskId := none
  keeper : Option TaskId := none
deriving DecidableEq, Repr

inductive Event
  | started (time : Nat) (process : ProcessId)
  | ended (time : Nat) (process : ProcessId) (code : Option Int) (failed killed : Bool)
deriving DecidableEq, Repr

/-- What a task that was asked for from outside comes to. -/
inductive Outcome
  | run (r : Except Failure Report)
  | cycle (r : Option CycleReport)

/-- What ends a run before its last batch. -/
inductive Break
  | failure (why : Failure)
  /-- The launcher broke down. -/
  | crash
deriving DecidableEq, Repr

/-- A member of a batch as it was started, under its display name. -/
inductive Member
  | process (p : ProcessId) (i : Instance) (name : String)
  | chain (run : TaskId) (target : String) (mode : Mode) (name : String)
  /-- The step names neither a script nor a chain. -/
  | missing (target : String) (mode : Mode)
deriving DecidableEq, Repr

/-- What was done in a session. The batches of a run count from one. -/
inductive Deed
  | opened (run : TaskId) (chain : String) (vars : Variables) (exitOnError : Bool)
  | started (run : TaskId) (batch : Nat) (member : Member)
  | ended (process : ProcessId)
  /-- A step of the run failed, and everything was asked to stop. -/
  | stopped (run : TaskId)
  | completed (run : TaskId) (report : Report)
  | brokeOff (run : TaskId) (why : Break)
  /-- A changed path was queued. -/
  | pushed (path : String)
  /-- A dispatch cycle of the task took the lock. -/
  | locked (task : TaskId)
  | drained (task : TaskId) (paths : List String)
  | unlocked (task : TaskId)
  /-- A dispatch cycle of the task is over. -/
  | returned (task : TaskId)
deriving DecidableEq, Repr

/-- What a session is about. -/
structure Setting where
  manifest : Manifest
  rules : List Watch.Rule := []
  /-- Milliseconds between two dispatch cycles. -/
  interval : Nat := 300
  /-- The launcher breaks down at this attempt to start the script, counted from 0. -/
  breaksDown : String → Nat → Bool := fun _ _ => false
  /-- A process that is asked to stop ends when the turn of its keeper comes. -/
  keepers : Bool := false

/-- The processes and the tasks, the queue of paths, what was done to them, and what came of
what was asked for. -/
structure Core where
  table : ProcessTable := {}
  /-- The processes by number; their handles are in the table under the same numbers. -/
  launches : List Launch := []
  tasks : List (Option Slot) := []
  pending : Watch.Pending := {}
  /-- The processes that were asked to stop, with the time. -/
  stops : List (ProcessId × Nat) := []
  history : List Deed := []
  outcomes : List (String × Outcome) := []
  /-- Some step failed that counts. -/
  failure : Bool := false

def Core.slot? (c : Core) (id : TaskId) : Option Slot := (c.tasks[id]?).join

structure State extends Core where
  /-- The time of the processes. -/
  now : Nat := 0
  /-- The time of the dispatcher. -/
  clock : Nat := 0
  attempts : NameMap Nat := .empty
  /-- The tasks whose turn will come, first in front. -/
  ready : List TaskId := []
  log : List Event := []
  /-- Something was worth a warning, or an error message. -/
  warned : Bool := false
  complained : Bool := false

namespace State

def note (s : State) (d : Deed) : State := { s with history := s.history ++ [d] }

def mapTask (s : State) (id : TaskId) (f : Task → Task) : State :=
  { s with tasks := s.tasks.modify id (Option.map fun slot => { slot with task := f slot.task }) }

def setTask (s : State) (id : TaskId) (t : Task) : State := s.mapTask id fun _ => t

def drop (s : State) (id : TaskId) : State := { s with tasks := s.tasks.set id none }

/-- A task stands in the queue once. -/
def enqueue (s : State) (id : TaskId) : State :=
  if id ∈ s.ready then s else { s with ready := s.ready ++ [id] }

def wake (s : State) (id : TaskId) : State := if (s.slot? id).isSome then s.enqueue id else s

/-- What the history says of a new task. -/
def openingOf (id : TaskId) : Task → List Deed
  | .run r _ => [.opened id r.chain r.vars r.exitOnError]
  | _ => []

def spawn (s : State) (t : Task) : State × TaskId :=
  ({ s with
      tasks := s.tasks ++ [some ⟨t, false⟩]
      ready := s.ready ++ [s.tasks.length]
      history := s.history ++ openingOf s.tasks.length t },
    s.tasks.length)

/-- Have a task dropped when its turn comes. -/
def cancel (s : State) (id : TaskId) : State :=
  { s with
    tasks := s.tasks.modify id (Option.map fun slot => { slot with cancelled := true }) }.wake id

def cancelAll (s : State) (ids : List TaskId) : State := ids.foldl cancel s

def launch? (s : State) (p : ProcessId) : Option Launch := s.launches[p]?

/-- When a process was first asked to stop. -/
def stoppedAt? (s : State) (p : ProcessId) : Option Nat := s.stops.lookup p

/-- The display names of the live processes in the order in which they started. -/
def live (s : State) : List String := s.table.names s.table.live

/-- Queue a changed path. -/
def push (s : State) (path : String) : State :=
  { s with pending := s.pending.push path }.note (.pushed path)

/-- Ask one live process to stop. -/
def stop (s : State) (p : ProcessId) : State :=
  let s := { s with table := s.table.terminate (fun _ => true) p, stops := s.stops ++ [(p, s.now)] }
  match (s.launch? p).bind Launch.keeper with
  | some k => s.wake k
  | none => s

def stopAll (s : State) : State := s.table.live.foldl stop s

/-- Start a process, unless the launcher breaks down. -/
def launch (cfg : Setting) (i : Instance) (s : State) : State × Option ProcessId :=
  let earlier := (s.attempts.get? i.script).getD 0
  let s := { s with attempts := s.attempts.insert i.script (earlier + 1) }
  if cfg.breaksDown i.script earlier then (s, none)
  else
    let p := s.table.handles.length
    let table := s.table.launch { name := i.displayName, background := i.isBackground } s.now
    let s := { s with table, log := s.log ++ [Event.started s.now p] }
    let (s, keeper) :=
      if cfg.keepers then let r := s.spawn (.keeper p); (r.1, some r.2) else (s, none)
    let l : Launch :=
      { script := i.script, name := i.displayName, command := i.command,
        background := i.isBackground, earlier, keeper }
    ({ s with launches := s.launches ++ [l] }, some p)

def setWaiter (s : State) (p : ProcessId) (id : TaskId) : State :=
  { s with launches := s.launches.modify p fun l => { l with waiter := some id } }

def outcome (s : State) (label : String) (o : Outcome) : State :=
  { s with outcomes := s.outcomes ++ [(label, o)] }

end State

end ChainRunner.Run
