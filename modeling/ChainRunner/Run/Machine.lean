import ChainRunner.Run.Dispatch

/-!
The machine that gives every task its turn.

Tasks stand in one queue. The first one acts for as long as it can; whatever it spawns or wakes
goes to the end of the queue. Time stands still while the machine settles.
-/

namespace ChainRunner.Run.State

/-- A new word on a process. If it is over now, its waiter learns of it. -/
def putHandle (s : State) (p : ProcessId) (h : Handle) (killed : Bool) : State :=
  let ends := h.hasEnded && !s.table.hasEnded p
  let s := { s with table := s.table.update p fun _ => h }
  if ends then
    let s := { s with log := s.log ++ [Event.ended s.now p h.code h.failed killed] }.note (.ended p)
    match (s.launch? p).bind Launch.waiter with
    | some w => s.wake w
    | none => s
  else s

/-- The process is over; only the first word on that counts. -/
def endProcess (s : State) (p : ProcessId) (stderr : Bool) (code : Option Int) (killed : Bool) :
    State :=
  match s.table.get? p with
  | none => s
  | some h =>
    let h := if stderr then h.markStderr else h
    s.putHandle p (h.finish s.now code (killed || code != some 0)).1 killed

def actOfWaiter (s : State) (self : TaskId) (p : ProcessId) (name : String) (owner : TaskId) :
    Verdict :=
  match (s.table.get? p).bind Handle.outcome? with
  | some (code, failed) => .over ((s.drop self).arrive owner self (.settled name failed code))
  | none => .rests

def actOfKeeper (s : State) (self : TaskId) (p : ProcessId) : Verdict :=
  if s.table.hasEnded p then .over (s.drop self)
  else if (s.stoppedAt? p).isSome then .over ((s.drop self).endProcess p false none true)
  else .rests

def actOfTick (cfg : Setting) (s : State) (self : TaskId) (label : String) (c : Cycle) : Verdict :=
  match c.act cfg s self with
  | .goes s c => .goes s (.tick label c)
  | .rests => .rests
  | .over s r => .over ((s.drop self).outcome label (.cycle r))

/-- A loop begins a cycle when it is due, and waits for the next when it is over. -/
def actOfLoop (cfg : Setting) (s : State) (self : TaskId) (due : Nat) (c : Cycle) : Verdict :=
  if !c.holdsLock && (cfg.interval = 0 || s.clock < due) then .rests
  else
    let due := if c.holdsLock then due else nextDue cfg s.clock due
    match c.act cfg s self with
    | .goes s c => .goes s (.loop due c)
    | .rests => .rests
    | .over s _ => .goes s (.loop due .idle)

/-- One action of a task. -/
def act (cfg : Setting) (s : State) (self : TaskId) : Task → Verdict
  | .run r audience => r.act cfg s self audience
  | .waiter p name owner => s.actOfWaiter self p name owner
  | .keeper p => s.actOfKeeper self p
  | .tick label c => s.actOfTick cfg self label c
  | .loop due c => s.actOfLoop cfg self due c

/-- The state after one action of a task. -/
def advance (cfg : Setting) (s : State) (self : TaskId) (t : Task) : State :=
  match s.act cfg self t with
  | .goes s t => s.setTask self t
  | .rests => s
  | .over s => s

/-! ### A task cannot act for ever -/

/-- What lies ahead of a task before it rests or is over. -/
def work (clock : Nat) : Task → Nat × Nat × Nat
  | .run r _ => r.work
  | .tick _ c => (if c.holdsLock then 0 else 1, c.work)
  | .loop due c => (clock + 1 - due, c.work)
  | _ => (0, 0, 0)

theorem work_act {cfg : Setting} {s s' : State} {self : TaskId} {t t' : Task}
    (h : s.act cfg self t = .goes s' t') :
    Prod.Lex (· < ·) (Prod.Lex (· < ·) (· < ·)) (work s'.clock t') (work s.clock t) := by
  cases t with
  | run r audience =>
    obtain ⟨r', rfl, hr⟩ := Course.work_act h
    exact hr
  | waiter p name owner =>
    -- waiters and keepers do not go on: they rest until they are over
    simp only [act, actOfWaiter] at h
    split at h <;> cases h
  | keeper p =>
    simp only [act, actOfKeeper] at h
    split at h
    · cases h
    · split at h <;> cases h
  | tick label c =>
    -- to take the lock is the first thing; from then on the cycle has less ahead
    simp only [act, actOfTick] at h
    split at h <;> cases h
    rename_i c' hc
    obtain ⟨-, h', hlt⟩ := Cycle.work_act hc
    by_cases hl : c.holdsLock
    · simpa [work, h', hl] using .right 0 (hlt hl)
    · exact .left _ _ (by simp [h', hl])
  | loop due c =>
    simp only [act, actOfLoop] at h
    split at h
    · cases h
    · rename_i hdue
      -- a cycle that begins anew moves the time at which the next one is due
      have hlate (hl : ¬c.holdsLock) :
          s.clock + 1 - nextDue cfg s.clock due < s.clock + 1 - due := by
        simp only [hl, Bool.not_false, Bool.true_and, Bool.or_eq_true, decide_eq_true_eq, not_or,
          Nat.not_lt] at hdue
        have := lt_nextDue hdue.1 hdue.2
        omega
      split at h <;> cases h
      · rename_i c' hc
        obtain ⟨hclock, -, hlt⟩ := Cycle.work_act hc
        by_cases hl : c.holdsLock
        · simpa [work, hclock, hl] using .right _ (hlt hl)
        · simpa [work, hclock, hl] using .left _ _ (hlate hl)
      · rename_i hc
        obtain ⟨hclock, hw⟩ := Cycle.work_over hc
        by_cases hl : c.holdsLock
        · simp only [work, hclock, hl, if_true, hw hl]
          exact .right _ (.left _ _ Nat.zero_lt_one)
        · simpa [work, hclock, hl] using .left _ _ (hlate hl)

/-- Let a task act for as long as it can. -/
def goOn (cfg : Setting) (self : TaskId) (s : State) (t : Task) : State :=
  match _h : s.act cfg self t with
  | .goes s' t' => goOn cfg self (s'.setTask self t') t'
  | .rests => s
  | .over s' => s'
termination_by work s.clock t
decreasing_by exact @work_act cfg s s' self t t' _h

def discardCycle (s : State) (self : TaskId) (c : Cycle) : State :=
  let s := s.cancelAll c.waiting
  if c.holdsLock then { s with pending := s.pending.unlock }.note (.unlocked self) else s

/-- Drop a cancelled task. What it waits for is cancelled too, and a cycle gives the lock back. -/
def discard (s : State) (self : TaskId) : Task → State
  | .run r _ => (s.cancelAll r.waiting).drop self
  | .tick _ c => (s.discardCycle self c).drop self
  | .loop _ c => (s.discardCycle self c).drop self
  | _ => s.drop self

/-- The turn of one task. -/
def turn (cfg : Setting) (s : State) (self : TaskId) : State :=
  match s.slot? self with
  | none => s
  | some ⟨task, true⟩ => s.discard self task
  | some ⟨task, false⟩ => goOn cfg self s task

/-- The turn of the first task in the queue, if there is one. -/
def step? (cfg : Setting) (s : State) : Option State :=
  match s.ready with
  | [] => none
  | id :: rest => some (({ s with ready := rest } : State).turn cfg id)

/-- At most so many turns. -/
def stepN (cfg : Setting) : Nat → State → State
  | 0, s => s
  | n + 1, s =>
    match s.step? cfg with
    | none => s
    | some s => stepN cfg n s

end ChainRunner.Run.State
