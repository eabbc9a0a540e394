import ChainRunner.Process.Capture
import ChainRunner.Process.Handle

/-!
Watching over one process from its start to its end.

The process counts as over once its status is known and both of its streams are closed. Anything
it writes to its error stream before that still decides how it ended.
-/

namespace ChainRunner

inductive Stage
  | starting
  | running
  /-- Its status is known; its streams may be open. -/
  | exited (code : Option Int)
  | done
deriving DecidableEq, Repr, Inhabited

structure Supervision where
  stage : Stage := .starting
  out : Capture := {}
  err : Capture := {}
  outOpen : Bool := true
  errOpen : Bool := true
deriving DecidableEq, Repr, Inhabited

namespace Supervision

inductive News
  | spawned (pid : Nat)
  | notSpawned
  | wrote (toErrors : Bool) (chunk : Text.Bytes)
  | closed (errors : Bool)
  /-- A signal leaves no code. -/
  | exited (code : Option Int)
deriving DecidableEq, Repr

/-- A line, and whether it was written to the error stream. -/
abbrev Line := Bool × String

/-- Finish the handle when nothing more can come. -/
def conclude (now : Nat) (s : Supervision) (h : Handle) : Supervision × Handle :=
  match s.stage with
  | .exited code =>
    if s.outOpen || s.errOpen then (s, h)
    else ({ s with stage := .done }, (h.finish now code (code != some 0)).1)
  | _ => (s, h)

/-- What some news make of the supervision and the handle, and the lines they complete. -/
def step (now : Nat) (s : Supervision) (h : Handle) : News → Supervision × Handle × List Line
  | .spawned pid => ({ s with stage := .running }, h.start now (some pid), [])
  | .notSpawned => ({ s with stage := .done }, (h.finish now none true).1, [])
  | .wrote false chunk =>
    let r := s.out.feed chunk
    ({ s with out := r.1 }, h, r.2.map fun l => (false, l))
  | .wrote true chunk =>
    let r := s.err.feed chunk
    ({ s with err := r.1 }, if chunk.isEmpty then h else h.markStderr, r.2.map fun l => (true, l))
  | .closed false =>
    let r := conclude now { s with out := {}, outOpen := false } h
    (r.1, r.2, s.out.finish.map fun l => (false, l))
  | .closed true =>
    let r := conclude now { s with err := {}, errOpen := false } h
    (r.1, r.2, s.err.finish.map fun l => (true, l))
  | .exited code =>
    let r := conclude now { s with stage := .exited code } h
    (r.1, r.2, [])

/-- Several news, one after the other. -/
def run (now : Nat) (s : Supervision) (h : Handle) (news : List News) :
    Supervision × Handle × List Line :=
  news.foldl
    (fun (s, h, lines) n =>
      let r := s.step now h n
      (r.1, r.2.1, lines ++ r.2.2))
    (s, h, [])

end Supervision

end ChainRunner
