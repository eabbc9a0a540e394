import ChainRunner.Binaries
import ChainRunner.Process.Supervision
import ChainRunner.Run.Clock
import ChainRunner.Run.Horizon
import ChainRunner.Shell.Machine

/-!
Runs whose processes carry out shell commands on a disk.

Everything that can happen at one moment happens in rounds: tasks have their turns, processes
that were asked to stop get their signal, new processes begin, and those that do not sleep go on.
Then time may pass until the next sleeper wakes. Times are in microseconds.
-/

namespace ChainRunner.Execution

open Files Run

structure Job where
  shell : Shell.State
  watch : Supervision := {}

structure Site where
  setting : Setting
  state : Run.State := {}
  disk : Disk
  binaries : Binaries := .empty
  /-- The directory in which processes begin. -/
  workDir : String
  /-- The processes by number. -/
  jobs : List Job := []
  /-- The lines that processes wrote, in order. -/
  lines : List (ProcessId × Supervision.Line) := []
  /-- So many requests to stop have been passed on. -/
  passedOn : Nat := 0

namespace Site

def job? (s : Site) (p : ProcessId) : Option Job := s.jobs[p]?

/-- The process could still do something. -/
def Job.isOpen (j : Job) : Bool := j.watch.stage ≠ .done

def Job.canGoOn (j : Job) : Bool :=
  Job.isOpen j && j.shell.sleeping.isNone && j.shell.ended.isNone

/-- What an outcome is worth saying. -/
def judge (h : Handle) (s : Run.State) : Run.State :=
  if h.pid.isNone then { s with complained := true }
  else if h.background then { s with warned := s.warned || (h.code != some 0) }
  else { s with complained := s.complained || h.failed }

/-- Take news of a process in. -/
def inform (s : Site) (p : ProcessId) (news : List Supervision.News) (killed : Bool) : Site :=
  match s.job? p, s.state.table.get? p with
  | some j, some h =>
    let (watch, h', lines) := j.watch.run s.state.now h news
    let state := s.state.putHandle p h' killed
    let state := { state with warned := state.warned || lines.any (·.1) }
    let state := if h'.hasEnded && !h.hasEnded then judge h' state else state
    { s with
      state
      jobs := s.jobs.set p { j with watch }
      lines := s.lines ++ lines.map fun l => (p, l) }
  | _, _ => s

/-- What a process did since it was last asked. -/
def newsOf (j : Job) : List Supervision.News :=
  let wrote := j.shell.written.map fun w => Supervision.News.wrote w.1 w.2
  let left (code : Option Int) : List Supervision.News :=
    if j.watch.stage = .running then [.exited code] else []
  match j.shell.ended with
  | some code => wrote ++ left (code.map Int.ofNat) ++ [.closed false, .closed true]
  | none => wrote ++ (if j.shell.doomed then left none else [])

/-- Let a process go on until it sleeps or is over. -/
def goOn (s : Site) (p : ProcessId) : Site :=
  match s.job? p with
  | none => s
  | some j =>
    let (shell, disk) := j.shell.advance s.disk s.state.now
    let news := newsOf { j with shell }
    let j := { j with shell := { shell with written := [] } }
    let s := { s with disk, jobs := s.jobs.set p j }
    s.inform p news false

/-- Numbers for a process and its children. -/
def pidOf (p : ProcessId) : Nat := 1000 * (p + 1)

/-- Begin the process with the next number. -/
def begin (s : Site) (l : Launch) : Site :=
  let p := s.jobs.length
  let command := Binaries.resolveCommand s.binaries.get? l.command
  match s.disk.find [] s.workDir with
  | .ok (cwd, .dir) =>
    let (shell, disk) := Shell.State.start s.disk cwd (pidOf p) command
    let s := { s with disk, jobs := s.jobs ++ [Job.mk shell {}] }
    s.inform p [.spawned (pidOf p)] false
  | _ =>
    let shell : Shell.State :=
      { env := { cwd := [], pid := pidOf p }, frames := [], nextPid := pidOf p, ended := some none }
    let s := { s with jobs := s.jobs ++ [Job.mk shell {}] }
    s.inform p [.notSpawned] false

/-- Pass a request to stop on: a kill if the handle keeps one, else an interrupt. -/
def passOn (s : Site) (p : ProcessId) : Site :=
  match s.job? p, s.state.table.get? p with
  | some j, some h =>
    let (h, kill) := h.takeKill
    let shell := j.shell.deliver (if kill then .kill else .interrupt)
    let state := { s.state with
      table := s.state.table.update p fun _ => h, warned := s.state.warned || kill }
    let j' := { j with shell }
    let s := { s with state, jobs := s.jobs.set p j', passedOn := s.passedOn + 1 }
    s.inform p (newsOf j') kill
  | _, _ => { s with passedOn := s.passedOn + 1 }

/-- One more thing that can happen at this moment. -/
def round? (s : Site) : Option Site :=
  if !s.state.ready.isEmpty then some { s with state := s.state.settle s.setting }
  else
    match s.state.launches[s.jobs.length]? with
    | some l => some (s.begin l)
    | none =>
      match s.state.stops[s.passedOn]? with
      | some (p, _) => some (s.passOn p)
      | none => (s.jobs.findIdx? Job.canGoOn).map s.goOn

def roundN : Nat → Site → Site
  | 0, s => s
  | n + 1, s =>
    match s.round? with
    | none => s
    | some s => roundN n s

/-- Everything that can happen at this moment. -/
def react (s : Site) : Site := roundN (s.state.turnBound s.setting) s

/-- Change the state and see what comes of it. -/
def act (s : Site) (f : Run.State → Run.State) : Site := { s with state := f s.state }.react

/-- When the next sleeper wakes. -/
def nextWake? (s : Site) : Option Nat :=
  (s.jobs.filterMap fun j =>
    if Job.isOpen j then j.shell.sleeping.map (·.1) else none).min?

/-- Set the clock, wake who is due, and see what comes of it. -/
def passTo (s : Site) (t : Nat) : Site :=
  let now := max s.state.now t
  let jobs := s.jobs.map fun j =>
    match j.shell.sleeping with
    | some (u, _) => if u ≤ now then { j with shell := j.shell.wake } else j
    | none => j
  { s with state := { s.state with now }.passTo (now / 1000), jobs }.react

/-- Let time pass from one waking to the next for as long as `go` says so, at most `n` times. -/
def passWhile (go : Site → Bool) : Nat → Site → Site
  | 0, s => s
  | n + 1, s =>
    if go s then
      match s.nextWake? with
      | some t => passWhile go n (s.passTo t)
      | none => s
    else s

/-- No session of ordinary length has more moments. -/
def patience : Nat := 1000000

/-- Let time pass until nothing is live. -/
def finish (s : Site) : Site := passWhile (fun s => !s.state.table.live.isEmpty) patience s

/-- Start a process that no run waits for. -/
def launch (s : Site) (i : Instance) : Site × ProcessId :=
  let p := s.state.launches.length
  ({ s with state := (s.state.launch s.setting i).1 }, p)

def run (s : Site) (label chain : String) (vars : Variables) (exitOnError : Bool) :
    Site × TaskId :=
  let r := s.state.spawn (.run (.start chain vars exitOnError) (.caller label))
  ({ s with state := r.1 }, r.2)

def outcome? (s : Site) (label : String) : Option Outcome := s.state.outcomes.lookup label

/-- When to ask a process to stop. -/
inductive Stop
  | never
  | atOnce
  /-- When it is up. -/
  | started
  /-- When it has written a line. -/
  | line (text : String)
deriving DecidableEq, Repr

def hasEnded (s : Site) (p : ProcessId) : Bool := s.state.table.hasEnded p

/-- Let time pass until a process is over. -/
def await (s : Site) (p : ProcessId) : Site := passWhile (fun s => !s.hasEnded p) patience s

/-- Start a process, perhaps ask it to stop, and wait for it. -/
def perform (s : Site) (i : Instance) (stop : Stop) : Site × ProcessId :=
  let (s, p) := s.launch i
  let s :=
    match stop with
    | .never => s.react
    | .atOnce => s.act (·.stop p)
    | .started => s.react.act (·.stop p)
    | .line text =>
      let seen (s : Site) : Bool := s.lines.contains (p, false, text)
      let s := passWhile (fun s => !seen s && !s.hasEnded p) patience s.react
      if seen s then s.act Run.State.stopAll else s
  (s.await p, p)

/-- The lines that a process wrote to one of its streams. -/
def linesOf (s : Site) (p : ProcessId) (errors : Bool) : List String :=
  s.lines.filterMap fun l => if l.1 = p ∧ l.2.1 = errors then some l.2.2 else none

end Site

end ChainRunner.Execution
