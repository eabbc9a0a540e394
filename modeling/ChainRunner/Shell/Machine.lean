import ChainRunner.Shell.Parser
import ChainRunner.Shell.Utility
import ChainRunner.Text.Blank

/-!
Carrying out command texts, one small step at a time.

The machine stops where the process sleeps and where it ends. A signal that kills the process
while a child of it goes on is remembered: the pipes stay open until the child is over too.
-/

namespace ChainRunner.Shell.State

open Files Text

def push (s : State) (fs : List Frame) : State := { s with frames := fs ++ s.frames }

/-- The frames from the end of the current child on. -/
def rest : List Frame → List Frame
  | [] => []
  | .leave saved :: fs => .leave saved :: fs
  | _ :: fs => rest fs

/-- End the current child, or the whole process. -/
def endLevel (s : State) (status : Nat) (code : Option Nat) : State :=
  match rest s.frames with
  | .leave saved :: fs => { s with env := saved, frames := fs, status }
  | _ => { s with frames := [], status, ended := some code }

/-- The commands of a text, or what is said about one that is not well formed. -/
def enter (s : State) (d : Disk) (source : String) (after : List Frame) : Done :=
  match parse source with
  | .ok c => (s.push (.run c :: after), d)
  | .error why =>
    let (s, d) := s.complain d s!"sh: 1: Syntax error: {why}\n"
    ({ s with status := 2 }.push after, d)

/-- Leave the current text with a status, by way of what it set for its end. -/
def leaveWith (s : State) (d : Disk) (status : Nat) : Done :=
  match s.env.onExit with
  | some source =>
    let s := { s with env := { s.env with onExit := none }, frames := rest s.frames }
    s.enter d source [.status status, .finish]
  | none => (s.endLevel status (some (status % 256)), d)

/-- What is set for a signal. -/
def reaction? (e : Env) (g : Signal) : Option Reaction :=
  if g = .kill then none else e.onSignal.lookup g

/-- The state of the process itself, whatever child is at work. -/
def topEnv (s : State) : Env :=
  s.frames.foldl (fun e f => match f with | .leave saved => saved | _ => e) s.env

/-- The process is gone; what children it has go on. -/
def vanish (s : State) : State :=
  if s.inChild || (match s.sleeping with | some (_, replaced) => !replaced | none => false) then
    { s with doomed := true }
  else { s with ended := some none }

/-- Send a signal to the process. -/
def deliver (s : State) (g : Signal) : State :=
  if s.ended.isSome then s
  else
    match reaction? s.topEnv g with
    | some .ignore => s
    | some (.run _) => { s with pending := s.pending ++ [g] }
    | none => s.vanish

/-- The current child, or the process, sends a signal to itself. -/
def deliverSelf (s : State) (d : Disk) (g : Signal) : Done :=
  if s.env.isSubshell then (s.deliver g, d)
  else
    match reaction? s.env g with
    | some .ignore => (s, d)
    | some (.run source) => s.enter d source [.status s.status]
    | none => (s.endLevel (128 + g.number) none, d)

/-- What a path leads to if it names no file. -/
def device? (s : State) (path : String) : Option Stream :=
  match path with
  | "/dev/null" => some .null
  | "/dev/stdin" => some (s.env.fds.get 0)
  | "/dev/stdout" => some (s.env.fds.get 1)
  | "/dev/stderr" => some (s.env.fds.get 2)
  | _ => none

/-- Where a redirection to a file leads. -/
def openPath (s : State) (d : Disk) (direction : Direction) (t : String) :
    Except String (Stream × Disk) :=
  match s.device? t with
  | some stream => .ok (stream, d)
  | none =>
    if direction = .input then
      match d.read s.env.cwd t with
      | .ok bs => .ok (.source bs, d)
      | .error _ => .error s!"cannot open {t}: No such file"
    else
      match d.openFile s.env.cwd t (direction = .output) with
      | .ok (p, d) => .ok (.file p, d)
      | .error .noEntry => .error s!"cannot create {t}: Directory nonexistent"
      | .error e => .error s!"cannot create {t}: {e.text}"

/-- Where a redirection leads. -/
def open? (s : State) (d : Disk) (r : Redirect) : Except String (Stream × Disk) :=
  let t := s.textOf r.target
  match r.direction with
  | .duplicate =>
    if t = "-" then .ok (.closed, d)
    else
      match t.toNat? with
      | some n => .ok (s.env.fds.get n, d)
      | none => .error "Bad fd number"
  | direction => s.openPath d direction t

/-- Carry out redirections from the left. -/
def redirect (s : State) (d : Disk) : List Redirect → Except String (State × Disk)
  | [] => .ok (s, d)
  | r :: rs => do
    let (stream, d) ← s.open? d r
    redirect { s with env := { s.env with fds := s.env.fds.set r.descriptor stream } } d rs

/-- A child of the current text. -/
def child (s : State) (subshell : Bool) : State :=
  { s with
    frames := .leave s.env :: s.frames
    env := { s.env with isSubshell := subshell, onExit := none } }

/-- A child that is a process of its own, with only the variables it gets. -/
def fork (s : State) (zero : String) (params : List String) : State :=
  let vars := s.env.vars.filter fun n _ => n ∈ s.env.exported
  let s := { s with nextPid := s.nextPid + 1 }
  { s with
    frames := .leave s.env :: s.frames
    env :=
      { s.env with
        vars, zero, params, isSubshell := false, onExit := none, pid := s.nextPid
        onSignal := s.env.onSignal.filter fun p => p.2 = .ignore } }

/-- A command that stands for a file. -/
def startFile (s : State) (d : Disk) (path : String) (args : List String) : Done :=
  let refuse (status : Nat) (why : String) : Done :=
    let (s, d) := s.complain d s!"sh: 1: {path}: {why}\n"
    s.done d status
  match d.find s.env.cwd path with
  | .ok (_, .file bytes true) => (s.fork path args).enter d (decodeLossy bytes) []
  | .ok (_, _) => refuse 126 Errno.denied.text
  | .error _ => refuse 127 "not found"

/-- A command by its name; `asked` is said before the name if there is no such command. -/
def startCommand (s : State) (d : Disk) (now : Nat) (asked name : String) (args : List String) :
    Done :=
  match s.utility? d name args with
  | some done => done
  | none =>
    match name, args with
    | "sleep", args =>
      let total := (args.filterMap microseconds?).foldl (· + ·) 0
      ({ s with sleeping := some (now + total, false), status := 0 }, d)
    | "sh", "-c" :: source :: more =>
      (s.fork (more.headD "sh") (more.drop 1)).enter d source []
    | "sh", path :: more =>
      match d.read s.env.cwd path with
      | .ok bytes => (s.fork path more).enter d (decodeLossy bytes) []
      | .error _ =>
        let (s, d) := s.complain d s!"sh: 0: cannot open {path}: No such file\n"
        s.done d 2
    | name, args =>
      if name.toList.contains '/' then s.startFile d name args
      else
        let (s, d) := s.complain d s!"sh: 1: {asked}{name}: not found\n"
        s.done d 127

/-- Replace the current text by a command. -/
def replaceBy (s : State) (d : Disk) (now : Nat) (name : String) (args : List String) : Done :=
  let env :=
    { s.env with onExit := none, onSignal := s.env.onSignal.filter fun p => p.2 = .ignore }
  let s := { s with env, frames := .finish :: rest s.frames }
  let (s, d) := s.startCommand d now "exec: " name args
  match s.sleeping with
  | some (t, _) => ({ s with sleeping := some (t, !s.inChild) }, d)
  | none => (s, d)

/-- Set what happens at signals, or at the end. -/
def trap (s : State) (action : String) (conditions : List String) : State :=
  conditions.foldl
    (fun s c =>
      if c = "EXIT" ∨ c = "0" then
        { s with env := { s.env with onExit := if action = "-" then none else some action } }
      else
        match Signal.ofName? c with
        | none => s
        | some g =>
          let others := s.env.onSignal.filter fun p => p.1 ≠ g
          let own :=
            if action = "-" then []
            else [(g, if action = "" then Reaction.ignore else .run action)]
          { s with env := { s.env with onSignal := own ++ others } })
    s

/-- Send a signal to a process by its number. -/
def kill (s : State) (d : Disk) (args : List String) : Done :=
  let (g, targets) : Option Signal × List String :=
    match args with
    | "-s" :: n :: rest => (Signal.ofName? n, rest)
    | a :: rest =>
      match a.toList with
      | '-' :: n => (Signal.ofName? (String.ofList n), rest)
      | _ => (some .terminate, a :: rest)
    | [] => (none, [])
  match g, targets with
  | some g, [t] =>
    if t = toString s.env.pid then { s with status := 0 }.deliverSelf d g
    else
      let (s, d) := s.complain d "sh: 1: kill: No such process\n"
      s.done d 1
  | _, _ =>
    let (s, d) := s.complain d "sh: 1: kill: bad arguments\n"
    s.done d 2

/-- The frames from the innermost loop on. -/
def loopFrames : List Frame → List Frame
  | [] => []
  | .again u t b :: fs => .again u t b :: fs
  | .each n vs b :: fs => .each n vs b :: fs
  | _ :: fs => loopFrames fs

def changeDir (s : State) (d : Disk) (path : String) : Done :=
  match d.find s.env.cwd path with
  | .ok (p, .dir) => ({ s with env := { s.env with cwd := p }, status := 0 }, d)
  | _ =>
    let (s, d) := s.complain d s!"sh: 1: cd: can't cd to {path}\n"
    s.done d 2

/-- Give a variable to children, with a value if one is written. -/
def exportName (s : State) (arg : String) : State :=
  let name := String.ofList (arg.toList.takeWhile (· != '='))
  let s := match arg.toList.dropWhile (· != '=') with
    | _ :: v => s.assign name (String.ofList v)
    | [] => s
  { s with env := { s.env with exported := name :: s.env.exported } }

/-- A command whose descriptors are in place; `before` are those to go back to. -/
def invoke (s : State) (d : Disk) (now : Nat) (before : Descriptors) (name : String)
    (args : List String) : Done :=
  let back (r : Done) : Done := ({ r.1 with env := { r.1.env with fds := before } }, r.2)
  match name, args with
  | "exit", args =>
    s.leaveWith d (((args.head?.bind String.toNat?).getD s.status) % 256)
  | "exec", [] => s.done d 0
  | "exec", name :: args => s.replaceBy d now name args
  | "break", _ => back ({ s with frames := (loopFrames s.frames).drop 1, status := 0 }, d)
  | "continue", _ => back ({ s with frames := loopFrames s.frames, status := 0 }, d)
  | "eval", args => s.enter d (" ".intercalate args) [.restore before]
  | "trap", action :: conditions => back ((s.trap action conditions).done d 0)
  | "kill", args =>
    let s := { s with env := { s.env with fds := before } }
    s.kill d args
  | "cd", [path] => back (s.changeDir d path)
  | "export", args => back ((args.foldl exportName s).done d 0)
  | "shift", _ =>
    back (({ s with env := { s.env with params := s.env.params.drop 1 } } : State).done d 0)
  | "unset", names =>
    back (({ s with env := { s.env with
      vars := s.env.vars.filter fun n _ => n ∉ names } } : State).done d 0)
  | name, args =>
    let inner := s.startCommand d now "" name args
    -- when a child has begun, the descriptors go back once it has left
    match inner.1.frames.length - s.frames.length with
    | 0 => back inner
    | n =>
      let frames := inner.1.frames.take n ++ .restore before :: s.frames
      ({ inner.1 with frames }, inner.2)

def isSpecial (name : String) : Bool :=
  name ∈ [":", "exec", "exit", "export", "eval", "trap", "shift", "unset", "break", "continue"]

/-- A simple command with nothing left to capture. -/
def runSimple (s : State) (d : Disk) (now : Nat) (assigns : List (String × Word))
    (words : List Word) (redirects : List Redirect) : Done :=
  let fields := words.flatMap s.fields
  match s.redirect d redirects with
  | .error why =>
    let (s, d) := s.complain d s!"sh: 1: {why}\n"
    if fields.head?.any isSpecial then s.leaveWith d 2 else s.done d 2
  | .ok (inner, d) =>
    let before := s.env.fds
    let inner := assigns.foldl (fun i a => i.assign a.1 (s.textOf a.2)) inner
    match fields with
    | [] => ({ inner with env := { inner.env with fds := before }, status := 0 }, d)
    | name :: args => inner.invoke d now before name args

/-- Keep what a child writes, for a command that waits for it. -/
def keepOutput (s : State) (waiting : Frame) : State :=
  let i := s.kept.length
  let s := ({ s with kept := s.kept ++ [[]] }.push [waiting]).child true
  { s with env := { s.env with fds := s.env.fds.set 1 (.kept i) } }

def runCommand (s : State) (d : Disk) (now : Nat) (c : Command) : Done :=
  match c.words.findSome? Word.captured? with
  | some source => (s.keepOutput (.fill c)).enter d source []
  | none =>
    match c with
    | .nothing => (s, d)
    | .simple assigns words redirects => s.runSimple d now assigns words redirects
    | .seq a b => (s.push [.run a, .run b], d)
    | .both a b => (s.push [.run a, .onSuccess b], d)
    | .either a b => (s.push [.run a, .onFailure b], d)
    | .negate a => (s.push [.run a, .flip], d)
    | .pipe a b => ((s.keepOutput (.feed b)).push [.run a], d)
    | .branch test yes no => (s.push [.run test, .branch yes no], d)
    | .loop u test body => (s.push [.run test, .test u test body], d)
    | .each name words body => (s.push [.each name (words.flatMap s.fields) body], d)
    | .subshell a => ((s.child true).push [.run a], d)
    | .redirected a rs =>
      match s.redirect d rs with
      | .error why =>
        let (s, d) := s.complain d s!"sh: 1: {why}\n"
        s.done d 2
      | .ok (inner, d) => (inner.push [.run a, .restore s.env.fds], d)

/-- What a waiting command kept, without the line ends behind it. -/
def takeKept (s : State) : Bytes × State :=
  (s.kept.getLast?.getD [], { s with kept := s.kept.dropLast })

def runFrame (s : State) (d : Disk) (now : Nat) (f : Frame) : Done :=
  match f with
  | .run c => s.runCommand d now c
  | .onSuccess c => if s.status = 0 then (s.push [.run c], d) else (s, d)
  | .onFailure c => if s.status = 0 then (s, d) else (s.push [.run c], d)
  | .flip => ({ s with status := if s.status = 0 then 1 else 0 }, d)
  | .branch yes no =>
    if s.status = 0 then (s.push [.run yes], d) else ({ s with status := 0 }.push [.run no], d)
  | .test u test body =>
    if (s.status = 0) ≠ u then (s.push [.run body, .again u test body], d)
    else ({ s with status := 0 }, d)
  | .again u test body => (s.push [.run (.loop u test body)], d)
  | .each _ [] _ => (s, d)
  | .each name (v :: vs) body => ((s.assign name v).push [.run body, .each name vs body], d)
  | .restore fds => ({ s with env := { s.env with fds } }, d)
  | .leave saved =>
    match s.env.onExit with
    | some _ => ({ s with frames := .leave saved :: s.frames } : State).leaveWith d s.status
    | none => ({ s with env := saved }, d)
  | .fill c =>
    let (bytes, s) := s.takeKept
    let text := String.ofList (dropEndWhile (· == '\n') (decodeLossy bytes).toList)
    (s.push [.run (c.setWords (fillWords text c.words).1)], d)
  | .feed right =>
    let (bytes, s) := s.takeKept
    let s := s.child true
    ({ s with env := { s.env with fds := s.env.fds.set 0 (.source bytes) } }.push [.run right], d)
  | .status n => ({ s with status := n }, d)
  | .finish => (s.endLevel s.status (some (s.status % 256)), d)

/-- One step, unless the process sleeps or is over. -/
def step? (s : State) (d : Disk) (now : Nat) : Option Done :=
  if s.ended.isSome || s.sleeping.isSome then none
  else if s.doomed && !s.inChild then some ({ s with ended := some none }, d)
  else
    match (if s.inChild then none else s.pending.head?) with
    | some g =>
      let s := { s with pending := s.pending.drop 1 }
      match reaction? s.env g with
      | some (.run source) => some (s.enter d source [.status s.status])
      | some .ignore => some (s, d)
      | none => some (s.vanish, d)
    | none =>
      match s.frames with
      | [] => some (s.leaveWith d s.status)
      | f :: fs => some ({ s with frames := fs }.runFrame d now f)

/-- At most so many steps. -/
def stepN (now : Nat) : Nat → State → Disk → Done
  | 0, s, d => (s, d)
  | n + 1, s, d =>
    match s.step? d now with
    | none => (s, d)
    | some (s, d) => stepN now n s d

/-- No text of ordinary size takes more steps without a sleep. -/
def patience : Nat := 1000000

/-- Go on until the process sleeps or is over. -/
def advance (s : State) (d : Disk) (now : Nat) : Done := stepN now patience s d

/-- The sleep is over. -/
def wake (s : State) : State := { s with sleeping := none }

/-- A process that is to carry out a text. -/
def start (d : Disk) (cwd : Place) (pid : Nat) (source : String) : Done :=
  ({ env := { cwd, pid }, frames := [], nextPid := pid } : State).enter d source []

end ChainRunner.Shell.State
