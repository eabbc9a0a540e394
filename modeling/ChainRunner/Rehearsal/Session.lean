import ChainRunner.Run.Clock
import ChainRunner.Run.Horizon

/-!
A session over simulated processes.

Each start of a script has a behaviour of its own. Time moves only when a process ends: the end
that is due first comes first, and everything settles before the next.
-/

namespace ChainRunner.Rehearsal

open Run

/-- What happens at one start of a script. -/
inductive Behaviour
  /-- The launcher breaks down. -/
  | breakdown
  /-- The process ends after a while, or never; a signal leaves no code. -/
  | process (delay : Option Nat) (code : Option Int) (stderr : Bool)
deriving DecidableEq, Repr

instance : Inhabited Behaviour := ⟨.process (some 1) (some 0) false⟩

/-- The behaviours of the starts of each script in order; the last one stays. -/
abbrev Script := NameMap (List Behaviour)

def Script.behaviour (b : Script) (script : String) (n : Nat) : Behaviour :=
  let bs := (NameMap.get? b script).getD []
  ((bs[n]?).or bs.getLast?).getD default

def Script.breaksDown (b : Script) (script : String) (n : Nat) : Bool :=
  b.behaviour script n = .breakdown

structure Session where
  setting : Setting
  script : Script
  state : State := {}
  /-- The tasks asked for, the last one in front. -/
  labels : List (String × TaskId) := []

namespace Session

def settle (s : Session) : Session := { s with state := s.state.settle s.setting }

/-- Change the state and let it settle. -/
def act (s : Session) (f : State → State) : Session := { s with state := f s.state }.settle

def spawn (s : Session) (label : String) (t : Task) : Session :=
  let r := s.state.spawn t
  { s with state := r.1, labels := (label, r.2) :: s.labels }.settle

/-- An end that will come, if nothing else ends the process before. -/
structure End where
  time : Nat
  process : ProcessId
  stderr : Bool
  code : Option Int
  killed : Bool
deriving Repr

/-- The ends that may come to a process: its own, and the one it was asked for. -/
def ends (s : Session) (p : ProcessId) : List End :=
  match s.state.table.get? p, s.state.launch? p with
  | some h, some l =>
    if h.hasEnded then []
    else
      let own : List End :=
        match s.script.behaviour l.script l.earlier with
        | .process (some d) code stderr => [⟨h.startedAt.getD 0 + d, p, stderr, code, false⟩]
        | _ => []
      own ++ ((s.state.stoppedAt? p).map fun t => (⟨t, p, false, none, true⟩ : End)).toList
  | _, _ => []

/-- The earlier of two ends, the first if they are due together. -/
def earlier (best : Option End) (e : End) : Option End :=
  match best with
  | none => some e
  | some b => if e.time < b.time then some e else some b

def nextEnd? (s : Session) : Option End :=
  ((List.range s.state.launches.length).flatMap s.ends).foldl earlier none

/-- Let the next end come, if there is one. -/
def endNext? (s : Session) : Option Session :=
  s.nextEnd?.map fun e => s.act fun st =>
    { st with now := max st.now e.time }.endProcess e.process e.stderr e.code e.killed

/-- Let at most `n` ends come; says how many came. -/
def endN : Nat → Session → Nat × Session
  | 0, s => (0, s)
  | n + 1, s =>
    match s.endNext? with
    | none => (0, s)
    | some s => let r := endN n s; (r.1 + 1, r.2)

def run (s : Session) (label chain : String) (vars : Variables) (exitOnError : Bool) : Session :=
  s.spawn label (.run (.start chain vars exitOnError) (.caller label))

def tick (s : Session) (label : String) : Session := s.spawn label (.tick label .idle)

/-- Make cycles for ever, the first at once. A timetable needs a positive interval. -/
def loop (s : Session) (label : String) : Session :=
  if s.setting.interval = 0 then s else s.spawn label (.loop s.state.clock .idle)

def push (s : Session) (paths : List String) : Session :=
  s.act fun st => paths.foldl State.push st

def stopAll (s : Session) : Session := s.act State.stopAll

/-- Drop a task that was asked for. -/
def abort (s : Session) (label : String) : Session :=
  match s.labels.lookup label with
  | some id => s.act (·.cancel id)
  | none => s

/-- Let the dispatcher's clock run on to `goal`, stopping at most `n` times where a loop is
due on the way. -/
def sleepTo (goal : Nat) : Nat → Session → Session
  | 0, s => s
  | n + 1, s =>
    match s.state.nextDue? with
    | some due =>
      if due ≤ goal then
        sleepTo goal n (s.act fun st => st.passTo (max st.clock due))
      else s
    | none => s

/-- Let the dispatcher's clock run on. -/
def sleep (s : Session) (ms : Nat) : Session :=
  let goal := s.state.clock + ms
  (sleepTo goal (ms + 1) s).act fun st => { st with clock := goal }

end Session

end ChainRunner.Rehearsal
