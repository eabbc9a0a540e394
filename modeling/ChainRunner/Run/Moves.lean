import ChainRunner.Chain.Parser
import ChainRunner.Run.State

/-!
How a run moves: it starts what is left of its batch, then enters the members that are over, and
once none is left it begins the next batch.
-/

namespace ChainRunner.Run

/-- What one action of a task comes to. -/
inductive Verdict
  /-- The task has become another one, and may go on. -/
  | goes (s : State) (t : Task)
  /-- There is nothing to do for now. -/
  | rests
  /-- The task is over and gone. -/
  | over (s : State)

/-- What a break counts as where the run is a member. -/
def Break.why : Break → Failure
  | .failure why => why
  | .crash => .memberLost

/-- A run learns that a member of its batch is over. -/
def Task.receive (member : TaskId) (a : Arrival) : Task → Task
  | .run r audience =>
    .run { r with waiting := r.waiting.erase member, arrived := r.arrived ++ [a] } audience
  | t => t

/-- A cycle learns that one of its runs is over. -/
def Cycle.receive (member : TaskId) (r : Option Report) : Cycle → Cycle
  | .running d =>
    .running { d with waiting := d.waiting.erase member, arrived := d.arrived ++ [r] }
  | c => c

def Task.receiveRun (member : TaskId) (r : Option Report) : Task → Task
  | .tick label c => .tick label (c.receive member r)
  | .loop due c => .loop due (c.receive member r)
  | t => t

namespace State

/-- A member of the run `owner` is over. -/
def arrive (s : State) (owner member : TaskId) (a : Arrival) : State :=
  (s.mapTask owner (Task.receive member a)).wake owner

/-- A run of the cycle `owner` is over. -/
def arriveCycle (s : State) (owner member : TaskId) (r : Option Report) : State :=
  (s.mapTask owner (Task.receiveRun member r)).wake owner

/-- The run `self` came to its end. -/
def conclude (s : State) (self : TaskId) (report : Report) : Audience → State
  | .caller label => s.outcome label (.run (.ok report))
  | .barrier owner name => s.arrive owner self (.settled name report.failed none)
  | .cycle owner => s.arriveCycle owner self (some report)
  | .nobody => { s with warned := s.warned || report.failed }

/-- The run `self` broke off. -/
def breakOff (s : State) (self : TaskId) (b : Break) : Audience → State
  | .caller label =>
    match b with
    | .failure why => s.outcome label (.run (.error why))
    | .crash => s
  | .barrier owner _ => s.arrive owner self (.broken b.why)
  | .cycle owner => { s with complained := true }.arriveCycle owner self none
  | .nobody => { s with warned := true }

end State

/-- What a background instance shows at the end of its run. -/
def backgroundEntry (t : ProcessTable) (p : ProcessId) : Entry :=
  match t.get? p with
  | some h =>
    { name := h.name, background := true, ended := h.hasEnded, failed := h.failed, code := h.code }
  | none => { name := "", background := true, ended := false, failed := false, code := none }

def reportOf (r : Course) (t : ProcessTable) : Report :=
  ⟨r.chain, r.failed, r.entries ++ r.background.map (backgroundEntry t)⟩

def Errand.isStep : Errand → Bool
  | .step _ => true
  | .launch _ => false

namespace Course

/-- A run of an expression before its first batch. -/
def start (chain : String) (vars : Variables) (exitOnError : Bool) : Course :=
  { chain, vars, exitOnError, rest := Chain.batches chain }

/-- The run of a named chain. In the background it never exits on errors. -/
def nested (r : Course) (expr : String) (mode : Mode) : Course :=
  start expr r.vars (r.exitOnError && mode ≠ .background)

variable (cfg : Setting) (s : State) (self : TaskId) (audience : Audience) (r : Course)

/-- The run gives up; the members it waits for are cancelled. -/
def giveUp (b : Break) : Verdict :=
  .over ((((s.note (.brokeOff self b)).cancelAll r.waiting).drop self).breakOff self b audience)

/-- The run has come to its end. -/
def complete : Verdict :=
  let report := reportOf r s.table
  .over (((s.drop self).note (.completed self report)).conclude self report audience)

/-- Enter a member that is over. If it failed, so did the run; a run that exits on errors then
has everything stopped and gives up. -/
def enter (name : String) (failed : Bool) (code : Option Int) (why : Failure) : Verdict :=
  let r := { r with
    entries := r.entries ++ [{ name, background := false, ended := true, failed, code }]
    failed := r.failed || failed }
  if !failed then .goes s (.run r audience)
  else if r.exitOnError then
    giveUp ({ s.stopAll with failure := true, complained := true }.note (.stopped self)) self
      audience r (.failure why)
  else .goes { s with failure := true, warned := true } (.run r audience)

def enterArrival : Arrival → Verdict
  | .settled name failed code => enter s self audience r name failed code (.stepFailed name code)
  | .broken why => giveUp s self audience r (.failure why)

/-- Start one instance of a script. -/
def startInstance (i : Instance) : Verdict :=
  let (name, names) := r.names.unique i.displayName
  let r := { r with names }
  match s.launch cfg { i with displayName := name } with
  | (s, none) => giveUp s self audience r .crash
  | (s, some p) =>
    let s := s.note (.started self r.batch (.process p i name))
    if i.isBackground then .goes s (.run { r with background := r.background ++ [p] } audience)
    else
      let (s, id) := s.spawn (.waiter p name self)
      .goes (s.setWaiter p id) (.run { r with waiting := r.waiting ++ [id] } audience)

/-- Start a named chain. -/
def startChain (target expr : String) (mode : Mode) : Verdict :=
  let (name, names) := r.names.unique target
  let r := { r with names }
  let audienceOfNested := if mode = .background then .nobody else .barrier self name
  let (s, id) := s.spawn (.run (r.nested expr mode) audienceOfNested)
  let s := s.note (.started self r.batch (.chain id target mode name))
  if mode = .background then .goes s (.run r audience)
  else .goes s (.run { r with waiting := r.waiting ++ [id] } audience)

/-- A step that names nothing has failed, unless it is in the background. -/
def missStep (target : String) (mode : Mode) : Verdict :=
  let s := { s with complained := true }.note (.started self r.batch (.missing target mode))
  if mode = .sequential then
    let (name, names) := r.names.unique target
    enter s self audience { r with names } name true none (.unknownScript name)
  else .goes s (.run r audience)

/-- Start a step. The instances of a script follow one by one. -/
def startStep (step : Step) : Verdict :=
  match step.target? with
  | none => .goes s (.run r audience)
  | some target =>
    match cfg.manifest.resolve target with
    | .script body =>
      let launches := (Instance.expand target body step.mode r.vars).map .launch
      .goes s (.run { r with agenda := launches ++ r.agenda } audience)
    | .chain expr => startChain s self audience r target expr step.mode
    | .unknown => missStep s self audience r target step.mode

/-- What a run does next. -/
def act : Verdict :=
  match r.agenda, r.arrived, r.rest with
  | .launch i :: agenda, _, _ => startInstance cfg s self audience { r with agenda } i
  | .step step :: agenda, _, _ => startStep cfg s self audience { r with agenda } step
  | [], a :: arrived, _ => enterArrival s self audience { r with arrived } a
  | [], [], rest =>
    if r.waiting.isEmpty then
      match rest with
      | [] => complete s self audience r
      | b :: rest =>
        .goes s (.run { r with rest, batch := r.batch + 1, agenda := b.steps.map .step } audience)
    else .rests

/-! ### A run cannot act for ever -/

/-- What lies ahead of a run before it waits or is over. -/
def work (r : Course) : Nat × Nat × Nat :=
  (r.rest.length, r.agenda.countP Errand.isStep, r.agenda.length + r.arrived.length)

variable {cfg s self audience r} {s' : State} {t : Task}

theorem work_enter {name : String} {failed : Bool} {code : Option Int} {why : Failure}
    (h : enter s self audience r name failed code why = .goes s' t) :
    ∃ r', t = .run r' audience ∧ r'.work = r.work := by
  simp only [enter] at h
  split at h
  · cases h; exact ⟨_, rfl, rfl⟩
  · split at h
    · cases h
    · cases h; exact ⟨_, rfl, rfl⟩

theorem work_startInstance {i : Instance}
    (h : startInstance cfg s self audience r i = .goes s' t) :
    ∃ r', t = .run r' audience ∧ r'.work = r.work := by
  simp only [startInstance] at h
  split at h
  · cases h
  · split at h <;> cases h <;> exact ⟨_, rfl, rfl⟩

theorem work_startStep {step : Step}
    (h : startStep cfg s self audience r step = .goes s' t) :
    ∃ r', t = .run r' audience ∧ r'.work.1 = r.work.1 ∧ r'.work.2.1 = r.work.2.1 := by
  simp only [startStep] at h
  split at h
  · cases h; exact ⟨_, rfl, rfl, rfl⟩
  · split at h
    · cases h
      exact ⟨_, rfl, rfl, by simp [work, List.countP_eq_zero, Errand.isStep]⟩
    · simp only [startChain] at h
      split at h <;> cases h <;> exact ⟨_, rfl, rfl, rfl⟩
    · simp only [missStep] at h
      split at h
      · obtain ⟨r', rfl, hr⟩ := work_enter h
        exact ⟨r', rfl, by rw [hr]; rfl, by rw [hr]; rfl⟩
      · cases h; exact ⟨_, rfl, rfl, rfl⟩

theorem work_act (h : r.act cfg s self audience = .goes s' t) :
    ∃ r', t = .run r' audience ∧ Prod.Lex (· < ·) (Prod.Lex (· < ·) (· < ·)) r'.work r.work := by
  rcases ha : r.agenda with _ | ⟨step | i, agenda⟩
  · rcases hb : r.arrived with _ | ⟨⟨name, failed, code⟩ | why, arrived⟩
    · simp only [act, ha, hb] at h
      split at h
      · split at h
        · cases h
        · rename_i b rest hr
          cases h
          exact ⟨_, rfl, .left _ _ (by simp [hr])⟩
      · cases h
    · simp only [act, ha, hb, enterArrival] at h
      obtain ⟨r', rfl, hr⟩ := work_enter h
      refine ⟨r', rfl, ?_⟩
      rw [hr, work, work, ha, hb]
      exact .right _ (.right _ (by simp))
    · simp only [act, ha, hb, enterArrival, giveUp] at h
      cases h
  · simp only [act, ha] at h
    obtain ⟨r', rfl, h1, h2⟩ := work_startStep h
    refine ⟨r', rfl, ?_⟩
    have hw : r.work = (r.rest.length, agenda.countP Errand.isStep + 1, agenda.length + 1 +
        r.arrived.length) := by simp [work, ha, List.countP_cons, Errand.isStep]
    rw [show r'.work = (r.rest.length, agenda.countP Errand.isStep, r'.work.2.2) from
      Prod.ext h1 (Prod.ext h2 rfl), hw]
    exact .right _ (.left _ _ (Nat.lt_succ_self _))
  · simp only [act, ha] at h
    obtain ⟨r', rfl, hr⟩ := work_startInstance h
    refine ⟨r', rfl, ?_⟩
    rw [hr, work, work, ha]
    simp only [List.countP_cons, Errand.isStep, Bool.false_eq_true, if_false, Nat.add_zero]
    exact .right _ (.right _ (by simp))

end Course

end ChainRunner.Run
