import ChainRunner.Files.Disk
import ChainRunner.Shell.Syntax

/-!
The state of a running command text.

What is left to do is a stack of frames. A child has variables, descriptors and traps of its own;
the frame below it puts those of its parent back.
-/

namespace ChainRunner.Shell

open Files Text

inductive Signal
  | hangup
  | interrupt
  | quit
  | kill
  | terminate
deriving DecidableEq, Repr

namespace Signal

def all : List Signal := [.hangup, .interrupt, .quit, .kill, .terminate]

def number : Signal → Nat
  | .hangup => 1
  | .interrupt => 2
  | .quit => 3
  | .kill => 9
  | .terminate => 15

def name : Signal → String
  | .hangup => "HUP"
  | .interrupt => "INT"
  | .quit => "QUIT"
  | .kill => "KILL"
  | .terminate => "TERM"

/-- A signal by its name, with or without `SIG`, or by its number. -/
def ofName? (s : String) : Option Signal :=
  all.find? fun g => s = g.name || s = "SIG" ++ g.name || s = toString g.number

end Signal

/-- Where a descriptor leads. -/
inductive Stream
  | closed
  | null
  /-- The two pipes that the process was started with. -/
  | output
  | errors
  | file (p : Place)
  /-- What is left to read. -/
  | source (bytes : Bytes)
  /-- Kept for a command that waits for it. -/
  | kept (index : Nat)
deriving DecidableEq, Repr

abbrev Descriptors := NameMap Stream

def Descriptors.get (fds : Descriptors) (n : Nat) : Stream :=
  (NameMap.get? fds (toString n)).getD .closed

def Descriptors.set (fds : Descriptors) (n : Nat) (s : Stream) : Descriptors :=
  NameMap.insert fds (toString n) s

/-- Nothing to read, and the two pipes to write to. -/
def Descriptors.initial : Descriptors :=
  NameMap.ofList [("0", .null), ("1", .output), ("2", .errors)]

/-- What happens at a signal, or at the end. -/
inductive Reaction
  | ignore
  | run (source : String)
deriving DecidableEq, Repr

structure Env where
  vars : NameMap String := .empty
  /-- Variables that children get. -/
  exported : List String := []
  zero : String := "sh"
  params : List String := []
  cwd : Place
  fds : Descriptors := .initial
  onSignal : List (Signal × Reaction) := []
  onExit : Option String := none
  pid : Nat
  /-- A part of the text around it, and no process of its own. -/
  isSubshell : Bool := false

inductive Frame
  | run (c : Command)
  | onSuccess (c : Command)
  | onFailure (c : Command)
  | flip
  | branch (yes no : Command)
  | test (untilHolds : Bool) (test body : Command)
  | again (untilHolds : Bool) (test body : Command)
  | each (name : String) (values : List String) (body : Command)
  /-- The descriptors from before a redirection. -/
  | restore (fds : Descriptors)
  /-- A child ends here. -/
  | leave (saved : Env)
  /-- What was kept goes into the command that waits for it. -/
  | fill (c : Command)
  /-- What was kept goes into the right side of a pipe. -/
  | feed (right : Command)
  /-- The status from before a trap. -/
  | status (n : Nat)
  /-- The child ends with its replaced text. -/
  | finish

structure State where
  env : Env
  frames : List Frame
  status : Nat := 0
  /-- What waiting commands keep, the innermost last. -/
  kept : List Bytes := []
  /-- Sleeps until then; `replaced` when nothing but the sleep is left of the process. -/
  sleeping : Option (Nat × Bool) := none
  /-- Signals that were sent to it and not yet seen. -/
  pending : List Signal := []
  /-- It is over, but a child of it still goes on. -/
  doomed : Bool := false
  /-- How it ended: the exit code, none after a signal. -/
  ended : Option (Option Nat) := none
  nextPid : Nat
  /-- What it wrote to its pipes, and whether that were errors. -/
  written : List (Bool × Bytes) := []

namespace State

/-- Frames of some child are on the stack. -/
def inChild (s : State) : Bool :=
  s.frames.any fun f => match f with | .leave _ => true | _ => false

def write (s : State) (d : Disk) (fd : Nat) (bytes : Bytes) : State × Disk :=
  if bytes.isEmpty then (s, d)
  else
    match s.env.fds.get fd with
    | .output => ({ s with written := s.written ++ [(false, bytes)] }, d)
    | .errors => ({ s with written := s.written ++ [(true, bytes)] }, d)
    | .file p =>
      match d.node? p with
      | some (.file old x) => (s, d.put p (.file (old ++ bytes) x))
      | _ => (s, d)
    | .kept i => ({ s with kept := s.kept.modify i (· ++ bytes) }, d)
    | _ => (s, d)

def say (s : State) (d : Disk) (text : String) : State × Disk := s.write d 1 (encode text)

def complain (s : State) (d : Disk) (text : String) : State × Disk := s.write d 2 (encode text)

def value (s : State) (name : String) : String :=
  match name with
  | "?" => toString s.status
  | "$" => toString s.env.pid
  | "#" => toString s.env.params.length
  | "0" => s.env.zero
  | "@" | "*" => " ".intercalate s.env.params
  | n =>
    match n.toNat? with
    | some i => (if i = 0 then none else s.env.params[i - 1]?).getD ""
    | none => (s.env.vars.get? n).getD ""

def assign (s : State) (name value : String) : State :=
  { s with env := { s.env with vars := s.env.vars.insert name value } }

end State

end ChainRunner.Shell
