import ChainRunner.Run.Moves

/-!
How a dispatch cycle moves: it takes the lock, takes the paths, runs the chains that they
trigger, and gives the lock back. A cycle that does not get the lock is over at once.
-/

namespace ChainRunner.Run

/-- What one action of a cycle comes to. -/
inductive CycleVerdict
  | goes (s : State) (c : Cycle)
  | rests
  | over (s : State) (r : Option CycleReport)

namespace Cycle

variable (cfg : Setting) (s : State) (self : TaskId)

/-- Take the lock, if it is free. -/
def begin : CycleVerdict :=
  let (free, pending) := s.pending.tryLock
  if free then .goes ({ s with pending }.note (.locked self)) .locked
  else .over (s.note (.returned self)) none

/-- Take the paths. -/
def load : CycleVerdict :=
  let (paths, pending) := s.pending.drain
  let s := { s with pending }.note (.drained self paths)
  .goes s (if paths.isEmpty then .finished none else .loaded paths)

/-- Spawn one run per triggered chain. -/
def trigger (paths : List String) : State × Dispatch :=
  (Watch.planDispatch paths cfg.rules).entries.foldl
    (fun (st : State × Dispatch) e =>
      let r := st.1.spawn (.run (.start e.1 e.2 false) (.cycle self))
      (r.1, { st.2 with waiting := st.2.waiting ++ [r.2] }))
    (s, { paths })

/-- Enter the runs that are over; one without a report counts as a failure. -/
def enterRuns (d : Dispatch) : State × Dispatch :=
  ({ s with failure := s.failure || d.arrived.any Option.isNone },
    { d with arrived := [], runs := d.runs ++ d.arrived.filterMap id })

/-- Give the lock back. -/
def release (r : Option CycleReport) : CycleVerdict :=
  .over (({ s with pending := s.pending.unlock }.note (.unlocked self)).note (.returned self)) r

/-- What a cycle does next. -/
def act : Cycle → CycleVerdict
  | .idle => begin s self
  | .locked => load s self
  | .loaded paths => let r := trigger cfg s self paths; .goes r.1 (.running r.2)
  | .running d =>
    if !d.arrived.isEmpty then let r := enterRuns s d; .goes r.1 (.running r.2)
    else if d.waiting.isEmpty then .goes s (.finished (some ⟨d.paths, d.runs⟩))
    else .rests
  | .finished r => release s self r

/-- The lock is in the hands of the cycle. -/
def holdsLock : Cycle → Bool
  | .idle => false
  | _ => true

/-- The runs that a cycle waits for. -/
def waiting : Cycle → List TaskId
  | .running d => d.waiting
  | _ => []

/-- What lies ahead of a cycle that has the lock. -/
def work : Cycle → Nat × Nat
  | .idle => (0, 0)
  | .finished _ => (1, 0)
  | .running d => (2, d.arrived.length)
  | .loaded _ => (3, 0)
  | .locked => (4, 0)

theorem clock_trigger (paths : List String) : (trigger cfg s self paths).1.clock = s.clock := by
  unfold trigger
  generalize (Watch.planDispatch paths cfg.rules).entries = es
  generalize ({ paths } : Dispatch) = d
  induction es generalizing s d with
  | nil => rfl
  | cons e es ih => exact ih _ _

theorem work_act {cfg : Setting} {s s' : State} {self : TaskId} {c c' : Cycle}
    (h : c.act cfg s self = .goes s' c') :
    s'.clock = s.clock ∧ c'.holdsLock ∧
      (c.holdsLock → Prod.Lex (· < ·) (· < ·) c'.work c.work) := by
  cases c with
  | idle =>
    simp only [act, begin] at h
    split at h <;> cases h
    exact ⟨rfl, rfl, by simp [holdsLock]⟩
  | locked =>
    simp only [act, load] at h
    cases h
    refine ⟨rfl, ?_, fun _ => ?_⟩ <;> split <;> first | rfl | exact .left _ _ (by decide)
  | loaded paths =>
    cases h
    exact ⟨clock_trigger cfg s self paths, rfl, fun _ => .left _ _ (by decide)⟩
  | running d =>
    simp only [act] at h
    split at h
    · cases h
      exact ⟨rfl, rfl, fun _ => .right _ (by simp_all [enterRuns, List.length_pos_iff])⟩
    · split at h <;> cases h
      exact ⟨rfl, rfl, fun _ => .left _ _ (by simp)⟩
  | finished r => cases h

theorem work_over {cfg : Setting} {s s' : State} {self : TaskId} {c : Cycle}
    {r : Option CycleReport} (h : c.act cfg s self = .over s' r) :
    s'.clock = s.clock ∧ (c.holdsLock → c.work = (1, 0)) := by
  cases c with
  | idle =>
    simp only [act, begin] at h
    split at h <;> cases h
    exact ⟨rfl, by simp [holdsLock]⟩
  | locked => cases h
  | loaded paths => cases h
  | running d =>
    simp only [act] at h
    split at h
    · cases h
    · split at h <;> cases h
  | finished r => cases h; exact ⟨rfl, fun _ => rfl⟩

end Cycle

/-- A cycle that begins at most this late keeps to the timetable. -/
def tolerance : Nat := 5

/-- When the cycle after the one due at `due` and begun now is due. -/
def nextDue (cfg : Setting) (clock due : Nat) : Nat :=
  if clock ≤ due + tolerance then due + cfg.interval else clock + cfg.interval

theorem lt_nextDue {cfg : Setting} {clock due : Nat} (h : cfg.interval ≠ 0) (hdue : due ≤ clock) :
    due < nextDue cfg clock due := by
  have hpos : 0 < cfg.interval := Nat.pos_of_ne_zero h
  unfold nextDue
  split
  · exact Nat.lt_add_of_pos_right hpos
  · exact Nat.lt_of_le_of_lt hdue (Nat.lt_add_of_pos_right hpos)

end ChainRunner.Run
