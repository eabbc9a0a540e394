import ChainRunner.Rehearsal.Session

/-!
Trials: runs one after the other over simulated processes, each with time to die away.

A process that is asked to stop ends at once, when its keeper has its turn.
-/

namespace ChainRunner.Rehearsal

open Run

/-- The behaviour of every script, with `other` for those that have none. -/
def Script.ofTable (scripts : List String) (other : Behaviour) (own : NameMap Behaviour) :
    Script :=
  NameMap.ofList (scripts.map fun n => (n, [(own.get? n).getD other]))

namespace Session

/-- A session for trials. -/
def forTrials (m : Manifest) (script : Script) : Session :=
  { setting := { manifest := m, keepers := true }, script }

/-- Let ends come for as long as `go` says so, at most `n` of them. -/
def endWhile (go : Session → Bool) : Nat → Session → Session
  | 0, s => s
  | n + 1, s =>
    if go s then
      match s.endNext? with
      | some s => endWhile go n s
      | none => s
    else s

/-- The outcome of the task asked for under a label. -/
def outcome? (s : Session) (label : String) : Option Outcome := s.state.outcomes.lookup label

/-- Milliseconds for what outlives a run. -/
def afterglow : Nat := 60000

/-- No end is due later than `t`. -/
def endsBy (t : Nat) (s : Session) : Bool :=
  match s.nextEnd? with
  | some e => e.time ≤ t
  | none => false

/-- Run a chain to its end, then let the afterglow pass. -/
def trial (s : Session) (label chain : String) (vars : Variables) (exitOnError : Bool) :
    Session :=
  let s := s.run label chain vars exitOnError
  let bound := s.state.turnBound s.setting
  let s := endWhile (fun s => (s.outcome? label).isNone) bound s
  let goal := s.state.now + afterglow
  (endWhile (endsBy goal) bound s).act fun st => { st with now := goal }

end Session

end ChainRunner.Rehearsal
