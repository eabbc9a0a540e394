import ChainRunner.Run.State

/-!
The clock of the dispatcher: it wakes the loops that wait for their next cycle.
-/

namespace ChainRunner.Run.State

/-- The loops that wait for the next cycle, each with the time when it is due. -/
def idleLoops (s : State) : List (TaskId × Nat) :=
  s.tasks.zipIdx.filterMap fun e =>
    match e.1 with
    | some ⟨.loop due .idle, _⟩ => some (e.2, due)
    | _ => none

/-- When the next cycle is due. -/
def nextDue? (s : State) : Option Nat := (s.idleLoops.map (·.2)).min?

/-- Set the clock and wake the loops that are due. -/
def passTo (s : State) (clock : Nat) : State :=
  s.idleLoops.foldl (fun st e => if e.2 ≤ clock then st.wake e.1 else st) { s with clock }

end ChainRunner.Run.State
