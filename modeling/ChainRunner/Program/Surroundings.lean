import ChainRunner.Program.Invocation

/-!
What happens around an invocation while it runs: somebody waits, empties files, or interrupts it.
Paths are seen from a base directory.
-/

namespace ChainRunner.Program

open Files

inductive Act
  /-- Wait until a file is there, with some content if one is given. -/
  | await (path : String) (content : Option Text.Bytes)
  | pause (milliseconds : Nat)
  /-- Wait until the invocation is over, so many milliseconds at most. -/
  | awaitEnd (milliseconds : Nat)
  /-- Make a file empty, again and again, until another file is there. -/
  | empty (path goal : String)
  | interrupt
deriving DecidableEq, Repr

namespace Act

/-- Microseconds between two looks at the disk. -/
def glance : Nat := 10000

/-- So many looks before the patience is out. -/
def glances : Nat := 400

/-- So many looks before a file is made empty again. -/
def glancesPerTurn : Nat := 25

def isThere (base : Place) (path : String) (content : Option Text.Bytes) (v : Invocation) :
    Bool :=
  match content, v.site.disk.find base path with
  | none, .ok _ => true
  | some bytes, .ok (_, .file found _) => found = bytes
  | _, _ => false

/-- Let time pass until something holds, looking at most `n` times. -/
def awaitN (p : Invocation → Bool) : Nat → Invocation → Invocation
  | 0, v => v
  | n + 1, v => if p v then v else awaitN p n (v.passTo (v.site.state.now + glance))

def emptyOnce (base : Place) (path : String) (v : Invocation) : Invocation :=
  match v.site.disk.openFile base path true with
  | .ok (_, disk) => { v with site := { v.site with disk } }.progress
  | .error _ => v

def emptyN (base : Place) (path : String) (p : Invocation → Bool) :
    Nat → Invocation → Invocation
  | 0, v => v
  | n + 1, v =>
    let v := awaitN p glancesPerTurn (emptyOnce base path v)
    if p v then v else emptyN base path p n v

/-- Do it; for what is waited for, the answer says whether it came. -/
def perform (base : Place) (act : Act) (v : Invocation) : Invocation × Option Bool :=
  match act with
  | .await path content =>
    let p := isThere base path content
    let v := awaitN p glances v
    (v, some (p v))
  | .pause ms => (v.passTo (v.site.state.now + 1000 * ms), none)
  | .awaitEnd ms =>
    let v := v.passTo (v.site.state.now + 1000 * ms)
    (v, some v.isOver)
  | .empty path goal =>
    let p := isThere base goal none
    let v := emptyN base path p (glances / glancesPerTurn) v
    (v, some (p v))
  | .interrupt => (v.interrupt, none)

end Act

end ChainRunner.Program
