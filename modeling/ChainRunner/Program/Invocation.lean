import ChainRunner.Execution.Site
import ChainRunner.Program.DryRun
import ChainRunner.Program.Logging
import ChainRunner.Program.Problem
import ChainRunner.Watch.Polling

/-!
One invocation of the program, from its command line to its exit code.

The chain is run once, and a failure ends the program. Without a directory to watch it then waits
for the processes that are live at that moment; with one it makes dispatch cycles until it is
interrupted. After an interrupt everything is stopped and given some time to close.
-/

namespace ChainRunner.Program

open Execution Files

inductive Output
  | help
  | version
  | text (s : String)
deriving DecidableEq, Repr

/-- Which changes are seen: those of some files, wherever they are, or all below the root. -/
structure Scope where
  root : Place
  /-- The polled files, each by its path and its place. -/
  polled : Option (List (String × Place))

/-- The paths by which a change of a place is seen. -/
def Scope.seen (sc : Scope) (p : Place) : List String :=
  match sc.polled with
  | some files => (files.filter (·.2 = p)).map (·.1)
  | none => if sc.root.isPrefixOf p then [p.path] else []

inductive Phase
  | running (task : Run.TaskId)
  /-- Waits for processes. -/
  | lingering (ps : List Run.ProcessId)
  | watching (task : Run.TaskId) (scope : Scope)
  /-- Waits for processes that were stopped, but not for ever. -/
  | closing (ps : List Run.ProcessId) (deadline : Nat)
  | ended (exit : Nat)

structure Invocation where
  args : CommandLine.Arguments := {}
  cwd : Place
  vars : Variables := .empty
  site : Site
  phase : Phase
  output : Output := .text ""
  problem : Option Problem := none
  /-- The levels of the messages given so far. -/
  said : List Level := []

namespace Invocation

def exit? (v : Invocation) : Option Nat :=
  match v.phase with
  | .ended n => some n
  | _ => none

def isOver (v : Invocation) : Bool := v.exit?.isSome

def say (v : Invocation) (l : Level) : Invocation :=
  if l ∈ v.said then v else { v with said := v.said ++ [l] }

/-- The levels of all messages, those about runs and processes included. -/
def levels (v : Invocation) : List Level :=
  let s := v.site.state
  let more := (if s.warned then [Level.warn] else []) ++ (if s.complained then [.error] else [])
  v.said ++ more.filter (· ∉ v.said)

def fail (v : Invocation) (p : Problem) : Invocation :=
  { v with phase := .ended 1, problem := some p }

/-- The exit code tells whether a step failed that counts. -/
def leave (v : Invocation) : Invocation :=
  { v with phase := .ended (if v.site.state.failure then 1 else 0) }

/-- Microseconds that stopped processes have to close. -/
def grace : Nat := 2000000

/-- What an interval of no length leads to. -/
def brokenExit : Nat := 101

/-- The label of the run of the command line. -/
def mainLabel : String := "main"

/-- The polled files, each with its place. -/
def polledFiles (d : Disk) (rules : List Watch.Rule) : Except String (List (String × Place)) :=
  (Watch.pollingTargets (d.view []) rules).map fun ts =>
    ts.filterMap fun t => (d.find [] t).toOption.map fun found => (t, found.1)

/-- The run came to its end: watch a directory. -/
def watch (v : Invocation) (dir : String) : Invocation :=
  let m := v.site.setting.manifest
  match compileWatch v.site.disk v.cwd dir m.observe v.vars with
  | .error e => v.fail (.watch e)
  | .ok (root, rules) =>
    let v := if rules.isEmpty then v.say .warn else v
    let polled : Except String (Option (List (String × Place))) :=
      if v.args.polling then (polledFiles v.site.disk rules).map some else .ok none
    match polled with
    | .error e => v.fail (.unlisted e)
    | .ok polled =>
      if m.settings.watchPollMs = 0 then { v with phase := .ended brokenExit }
      else
        let setting := { v.site.setting with rules, interval := m.settings.watchPollMs }
        let state := v.site.state.passTo (v.site.state.now / 1000)
        let r := state.spawn (.loop state.clock .idle)
        let disk := { v.site.disk with touched := [] }
        let site := { v.site with setting, disk, state := r.1 }.react
        { v with site, phase := .watching r.2 ⟨Disk.names root |>.filter (· ≠ ""), polled⟩ }

/-- Queue the changes that are seen. -/
def noteChanges (v : Invocation) : Invocation :=
  let disk := { v.site.disk with touched := [] }
  match v.phase with
  | .watching _ scope =>
    let seen := v.site.disk.touched.flatMap scope.seen
    let state := seen.foldl Run.State.push v.site.state
    { v with site := { v.site with state, disk } }
  | _ => { v with site := { v.site with disk } }

/-- Move on to the next phase if this one is done. -/
def progress (v : Invocation) : Invocation :=
  let v := v.noteChanges
  let table := v.site.state.table
  match v.phase with
  | .running _ =>
    match v.site.outcome? mainLabel with
    | some (.run (.error why)) => v.fail (.run why)
    | some (.run (.ok _)) =>
      match v.args.watch with
      | some dir => v.watch dir
      | none =>
        if table.live.isEmpty then v.leave else { v.say .info with phase := .lingering table.live }
    | _ => v
  | .lingering ps => if ps.all table.hasEnded then v.leave else v
  | .closing ps deadline =>
    if ps.all table.hasEnded then v.leave
    else if deadline ≤ v.site.state.now then (v.say .warn).leave
    else v
  | _ => v

/-- When something happens next by itself. -/
def nextMoment? (v : Invocation) : Option Nat :=
  let own : Option Nat :=
    match v.phase with
    | .watching _ _ => v.site.state.nextDue?.map (· * 1000)
    | .closing _ deadline => some deadline
    | _ => none
  if v.isOver then none else (v.site.nextWake?.toList ++ own.toList).min?

/-- Let time pass up to `t`, one moment after the other, at most `n` of them. -/
def passN (t : Nat) : Nat → Invocation → Invocation
  | 0, v => v
  | n + 1, v =>
    match v.nextMoment? with
    | some u =>
      if u ≤ t then passN t n { v with site := v.site.passTo u }.progress else v
    | none => v

/-- Let time pass up to `t`. -/
def passTo (v : Invocation) (t : Nat) : Invocation :=
  let v := passN t Site.patience v
  let now := max t v.site.state.now
  { v with site := { v.site with state := { v.site.state with now } } }

/-- The program is interrupted. -/
def interrupt (v : Invocation) : Invocation :=
  let close (v : Invocation) (site : Site) : Invocation :=
    let live := site.state.table.live
    let v := { (v.say .info) with phase := .closing live (site.state.now + grace) }
    { v with site := site.act Run.State.stopAll }.progress
  match v.phase with
  | .running task => close v (v.site.act (·.cancel task))
  | .watching task _ => close v (v.site.act (·.cancel task))
  | .lingering _ => close v v.site
  | _ => v

/-- The directory of a manifest; scripts run there. -/
def projectDir (path cwd : String) : String :=
  match Path.parent? path with
  | some p => if p.isEmpty then cwd else p
  | none => cwd

/-- The chain is about to be run. -/
def opening (d : Disk) (cwd : Place) (args : CommandLine.Arguments) (path : String)
    (m : Manifest) (binaries : Binaries) : Invocation :=
  let vars := m.activeVariables args.flavors args.projects
  let site : Site :=
    { setting := { manifest := m }, disk := d, binaries, workDir := projectDir path cwd.path }
  let r := site.run mainLabel args.expression vars true
  { args, cwd, vars, site := r.1, phase := .running r.2, said := [.debug, .info] }

/-- With the manifest at hand: print the plan, or begin to run the chain. -/
def ofManifest (d : Disk) (cwd : Place) (args : CommandLine.Arguments) (path : String)
    (m : Manifest) : Invocation :=
  let vars := m.activeVariables args.flavors args.projects
  let workDir := projectDir path cwd.path
  let v : Invocation :=
    { args, cwd, vars, site := { setting := { manifest := m }, disk := d, workDir },
      phase := .ended 0, said := [.debug] }
  match Binaries.scan (d.view []) (m.settings.binDirs.map (Path.join workDir)) with
  | .error e => v.fail (.unlisted e)
  | .ok binaries =>
    if args.dryRun then { v with output := .text (dryRun m args.expression vars) }
    else
      let v := opening d cwd args path m binaries
      { v with site := v.site.react }.progress

end Invocation

/-- How an invocation starts. -/
inductive Start
  /-- It prints something, or complains, and is over. -/
  | done (output : Output) (exit : Nat) (problem : Option Problem)
  | begun (v : Invocation)

/-- Start the program in a directory with some arguments. -/
def start (d : Disk) (cwd : Place) (argv : List String) : Start :=
  match CommandLine.parse ("runna" :: argv) with
  | .error .help => .done .help 0 none
  | .error .version => .done .version 0 none
  | .error _ => .done (.text "") 2 none
  | .ok args =>
    if args.expression.isEmpty then .done .help 0 none
    else
      let path :=
        match args.config with
        | some p => Path.join cwd.path p
        | none => defaultManifest (d.view cwd) cwd.path
      match load d cwd path with
      | .error e => .done (.text "") 1 (some (.manifest path e))
      | .ok m => .begun (.ofManifest d cwd args path m)

end ChainRunner.Program
