import ChainRunner.Proofs.Run.Happens
import ChainRunner.Run.Plan

/-!
What one thing that happens changes in the core of a session.

Every property of sessions is proved from `Change`, never from the definitions of the moves.
-/

namespace ChainRunner.Run

open Relation

/-- The cycle of a task that makes cycles. -/
def Task.cycle? : Task → Option Cycle
  | .tick _ k => some k
  | .loop _ k => some k
  | _ => none

/-- A run goes on without a trace in the history. -/
inductive Course.Quiet (m : Manifest) : Course → Course → Prop
  | skip {r : Course} {step : Step} {agenda : List Errand} (ha : r.agenda = .step step :: agenda)
    (ht : step.target? = none) : Quiet m r { r with agenda }
  | expand {r : Course} {step : Step} {agenda : List Errand} {target body : String}
    (ha : r.agenda = .step step :: agenda) (ht : step.target? = some target)
    (hm : m.resolve target = .script body) :
    Quiet m r
      { r with agenda := (Instance.expand target body step.mode r.vars).map .launch ++ agenda }
  | enter {r : Course} {name : String} {failed : Bool} {code : Option Int}
    {arrived : List Arrival} (entries : List Entry) (ha : r.agenda = [])
    (hr : r.arrived = .settled name failed code :: arrived)
    (hgo : failed = true → r.exitOnError = false)
    (he : entries = r.entries ++ [⟨name, false, true, failed, code⟩]) :
    Quiet m r { r with arrived, entries, failed := r.failed || failed }
  | begins {r : Course} {b : Batch} {rest : List Batch} (ha : r.agenda = [])
    (hr : r.arrived = []) (hw : r.waiting = []) (hb : r.rest = b :: rest) :
    Quiet m r { r with rest, batch := r.batch + 1, agenda := b.steps.map .step }

/-- The run is about to enter a member that has failed. -/
def Course.entersFailure (r : Course) : Bool :=
  match r.agenda, r.arrived with
  | [], .settled _ failed _ :: _ => failed
  | _, _ => false

lemma Course.entersFailure_of_cons {r : Course} {e : Errand} {agenda : List Errand}
    (ha : r.agenda = e :: agenda) : r.entersFailure = false := by simp [entersFailure, ha]

/-- Why a run breaks off that has not failed itself. -/
inductive Course.Broken (cfg : Setting) (r : Course) : Break → Prop
  | member {why : Failure} {arrived : List Arrival} (ha : r.agenda = [])
    (hr : r.arrived = .broken why :: arrived) : Broken cfg r (.failure why)
  | crash {i : Instance} {agenda : List Errand} {n : Nat} (ha : r.agenda = .launch i :: agenda)
    (hn : cfg.breaksDown i.script n = true) : Broken cfg r .crash

/-- A step of the run has failed, so that a run that exits on errors stops everything and says why.
A step that names nothing has been started in vain. -/
inductive Course.Fatal (m : Manifest) (self : TaskId) (r : Course) : List Deed → Failure → Prop
  | member {name : String} {code : Option Int} {arrived : List Arrival} (ha : r.agenda = [])
    (hr : r.arrived = .settled name true code :: arrived) :
    Fatal m self r [] (.stepFailed name code)
  | missing {step : Step} {agenda : List Errand} {target : String}
    (ha : r.agenda = .step step :: agenda) (ht : step.target? = some target)
    (hm : m.resolve target = .unknown) (hseq : step.mode = .sequential) :
    Fatal m self r [.started self r.batch (.missing target step.mode)]
      (.unknownScript (r.names.unique target).1)

lemma Course.Fatal.eq_of_mem {m : Manifest} {self : TaskId} {r : Course} {ds : List Deed}
    {why : Failure} {d : Deed} (h : r.Fatal m self ds why) (hd : d ∈ ds) :
    ∃ target mode, d = .started self r.batch (.missing target mode) := by
  cases h with
  | member ha hr => cases hd
  | missing ha ht hm => exact ⟨_, _, List.mem_singleton.1 hd⟩

/-- What is written down when a run fails. -/
lemma Course.Fatal.mem_deeds {m : Manifest} {self : TaskId} {r : Course} {ds : List Deed}
    {why : Failure} {b : Break} {d : Deed} (h : r.Fatal m self ds why)
    (hd : d ∈ ds ++ [.stopped self, .brokeOff self b]) :
    (∃ target mode, d = .started self r.batch (.missing target mode)) ∨
      d = .stopped self ∨ d = .brokeOff self b := by
  refine (List.mem_append.1 hd).imp h.eq_of_mem fun hd => ?_
  simpa using hd

/-- Some run of the cycle is over and has left no report. -/
def Cycle.lostRun : Cycle → Bool
  | .running d => d.arrived.any Option.isNone
  | _ => false

/-- A cycle of a task is over: the task is gone, or it waits for the next cycle. -/
inductive Closes (ts : List (Option Slot)) (self : TaskId) :
    List (Option Slot) → List (String × Outcome) → Prop
  | gone (label : String) (r : Option CycleReport) :
    Closes ts self (ts.set self none) [(label, .cycle r)]
  | again (due : Nat) : Closes ts self (mapAt ts self fun _ => .loop due .idle) []

def keeperSlots (cfg : Setting) (p : ProcessId) : List (Option Slot) :=
  if cfg.keepers then [some ⟨.keeper p, false⟩] else []

section

variable {cfg : Setting} {p : ProcessId} {P : Slot → Prop}

lemma forall_keeperSlots (hkeeper : P ⟨.keeper p, false⟩) :
    ∀ slot, some slot ∈ keeperSlots cfg p → P slot := by
  intro slot h
  unfold keeperSlots at h
  split at h
  · cases List.mem_singleton.1 h
    exact hkeeper
  · cases h

lemma forall_slot_singleton {new : Slot} (hnew : P new) :
    ∀ slot, some slot ∈ [some new] → P slot := by
  intro slot h
  cases List.mem_singleton.1 h
  exact hnew

/-- What is added with a process that is waited for. -/
lemma forall_waiterSlots {new : Slot} (hkeeper : P ⟨.keeper p, false⟩) (hnew : P new) :
    ∀ slot, some slot ∈ keeperSlots cfg p ++ [some new] → P slot := fun slot h =>
  (List.mem_append.1 h).elim (forall_keeperSlots hkeeper slot) (forall_slot_singleton hnew slot)

end

/-- Who learns how a member of the run `self` ended. -/
def audienceOf (self : TaskId) (name : String) (mode : Mode) : Audience :=
  if mode = .background then .nobody else .barrier self name

inductive Change (cfg : Setting) : Core → Core → Prop
  | quiet {c : Core} {self : TaskId} {r r' : Course} {audience : Audience}
    (h : slotAt c.tasks self = some ⟨.run r audience, false⟩) (q : r.Quiet cfg.manifest r') :
    Change cfg c
      { c with
        tasks := mapAt c.tasks self fun _ => .run r' audience
        failure := c.failure || r.entersFailure }
  | launches {c : Core} {self : TaskId} {r : Course} {audience : Audience} {i : Instance}
    {agenda : List Errand} (name : String) (names : Names) (now : Nat)
    (h : slotAt c.tasks self = some ⟨.run r audience, false⟩)
    (ha : r.agenda = .launch i :: agenda) (hb : i.isBackground = true)
    (hn : r.names.unique i.displayName = (name, names)) {l : Launch} (hl : l.Shows i name) :
    Change cfg c
      { c with
        table := c.table.launch { name, background := true } now
        launches := c.launches ++ [l]
        tasks := mapAt (c.tasks ++ keeperSlots cfg c.table.handles.length) self fun _ =>
          .run { r with agenda, names, background := r.background ++ [c.table.handles.length] }
            audience
        history := c.history ++ [.started self r.batch (.process c.table.handles.length i name)] }
  | awaits {c : Core} {self : TaskId} {r : Course} {audience : Audience} {i : Instance}
    {agenda : List Errand} (name : String) (names : Names) (now : Nat)
    (h : slotAt c.tasks self = some ⟨.run r audience, false⟩)
    (ha : r.agenda = .launch i :: agenda) (hb : i.isBackground = false)
    (hn : r.names.unique i.displayName = (name, names)) {l : Launch} (hl : l.Shows i name) :
    Change cfg c
      { c with
        table := c.table.launch { name, background := false } now
        launches := (c.launches ++ [l]).modify c.table.handles.length fun l =>
          { l with waiter := some (c.tasks ++ keeperSlots cfg c.table.handles.length).length }
        tasks := mapAt (c.tasks ++ keeperSlots cfg c.table.handles.length ++
            [some ⟨.waiter c.table.handles.length name self, false⟩]) self fun _ =>
          .run { r with agenda, names, waiting := r.waiting ++
            [(c.tasks ++ keeperSlots cfg c.table.handles.length).length] } audience
        history := c.history ++ [.started self r.batch (.process c.table.handles.length i name)] }
  | nests {c : Core} {self : TaskId} {r : Course} {audience : Audience} {step : Step}
    {agenda : List Errand} {target expr : String} (name : String) (names : Names)
    (h : slotAt c.tasks self = some ⟨.run r audience, false⟩)
    (ha : r.agenda = .step step :: agenda) (ht : step.target? = some target)
    (hm : cfg.manifest.resolve target = .chain expr)
    (hn : r.names.unique target = (name, names)) :
    Change cfg c
      { c with
        tasks := mapAt (c.tasks ++ [some
            ⟨.run (r.nested expr step.mode) (audienceOf self name step.mode), false⟩]) self fun _ =>
          .run { r with agenda, names, waiting := r.waiting ++
            if step.mode = .background then [] else [c.tasks.length] } audience
        history := c.history ++
          [.opened c.tasks.length expr r.vars (r.exitOnError && step.mode ≠ .background),
            .started self r.batch (.chain c.tasks.length target step.mode name)] }
  | misses {c : Core} {self : TaskId} {r : Course} {audience : Audience} {step : Step}
    {agenda : List Errand} {target : String} (names : Names) (entries : List Entry)
    (h : slotAt c.tasks self = some ⟨.run r audience, false⟩)
    (ha : r.agenda = .step step :: agenda) (ht : step.target? = some target)
    (hm : cfg.manifest.resolve target = .unknown)
    (hgo : step.mode = .sequential → r.exitOnError = false)
    (hn : (names, entries) = if step.mode = .sequential then
      ((r.names.unique target).2,
        r.entries ++ [⟨(r.names.unique target).1, false, true, true, none⟩])
      else (r.names, r.entries)) :
    Change cfg c
      { c with
        tasks := mapAt c.tasks self fun _ =>
          .run { r with agenda, names, entries, failed := r.failed || step.mode = .sequential }
            audience
        history := c.history ++ [.started self r.batch (.missing target step.mode)]
        failure := c.failure || step.mode = .sequential }
  | completes {c : Core} {self : TaskId} {r : Course} {audience : Audience}
    (h : slotAt c.tasks self = some ⟨.run r audience, false⟩) (ha : r.agenda = [])
    (hr : r.arrived = []) (hw : r.waiting = []) (hb : r.rest = []) :
    Change cfg c
      { c with
        tasks := State.tellReport self (reportOf r c.table) audience (c.tasks.set self none)
        history := c.history ++ [.completed self (reportOf r c.table)]
        outcomes := c.outcomes ++ State.answerReport (reportOf r c.table) audience }
  | breaks {c : Core} {self : TaskId} {r : Course} {audience : Audience} {b : Break}
    (h : slotAt c.tasks self = some ⟨.run r audience, false⟩) (hb : r.Broken cfg b) :
    Change cfg c
      { c with
        tasks := State.tellBreak self b audience ((cancelAt c.tasks r.waiting).set self none)
        history := c.history ++ [.brokeOff self b]
        outcomes := c.outcomes ++ State.answerBreak b audience }
  | fails {c : Core} {self : TaskId} {r : Course} {audience : Audience} {ds : List Deed}
    (why : Failure) (now : Nat) (h : slotAt c.tasks self = some ⟨.run r audience, false⟩)
    (hf : r.Fatal cfg.manifest self ds why) (he : r.exitOnError = true) :
    Change cfg c
      { c with
        table := c.table.terminateAll fun _ => true
        tasks := State.tellBreak self (.failure why) audience
          ((cancelAt c.tasks r.waiting).set self none)
        stops := c.stops ++ c.table.live.map fun p => (p, now)
        history := c.history ++ (ds ++ [.stopped self, .brokeOff self (.failure why)])
        outcomes := c.outcomes ++ State.answerBreak (.failure why) audience
        failure := true }
  | settles {c : Core} {w : TaskId} {p : ProcessId} {name : String} {owner : TaskId} {h : Handle}
    (failed : Bool) (code : Option Int)
    (hw : slotAt c.tasks w = some ⟨.waiter p name owner, false⟩) (hp : c.table.get? p = some h)
    (ho : h.outcome? = some (code, failed)) :
    Change cfg c
      { c with
        tasks := mapAt (c.tasks.set w none) owner (Task.receive w (.settled name failed code)) }
  | leaves {c : Core} {w : TaskId} {t : Task} {b : Bool} (h : slotAt c.tasks w = some ⟨t, b⟩)
    (ht : (b = true ∧ ∃ p name owner, t = .waiter p name owner) ∨ ∃ p, t = .keeper p) :
    Change cfg c { c with tasks := c.tasks.set w none }
  | news {c : Core} {p : ProcessId} {h h' : Handle} (hp : c.table.get? p = some h)
    (follows : h.Follows h') :
    Change cfg c
      { c with
        table := c.table.update p fun _ => h'
        history := if h'.hasEnded && !c.table.hasEnded p then c.history ++ [.ended p]
          else c.history }
  | locks {c : Core} {self : TaskId} {t t' : Task} (h : slotAt c.tasks self = some ⟨t, false⟩)
    (ht : t.cycle? = some .idle) (ht' : t'.cycle? = some .locked)
    (hl : c.pending.locked = false) :
    Change cfg c
      { c with
        tasks := mapAt c.tasks self fun _ => t'
        pending := { c.pending with locked := true }
        history := c.history ++ [.locked self] }
  | refused {c : Core} {self : TaskId} {t : Task} {ts : List (Option Slot)}
    {os : List (String × Outcome)} (h : slotAt c.tasks self = some ⟨t, false⟩)
    (ht : t.cycle? = some .idle) (hl : c.pending.locked = true) (hc : Closes c.tasks self ts os) :
    Change cfg c
      { c with
        tasks := ts
        history := c.history ++ [.returned self]
        outcomes := c.outcomes ++ os }
  | drains {c : Core} {self : TaskId} {t t' : Task} (h : slotAt c.tasks self = some ⟨t, false⟩)
    (ht : t.cycle? = some .locked)
    (ht' : t'.cycle? = some (.finished none) ∨
      t'.cycle? = some (.loaded c.pending.toList)) :
    Change cfg c
      { c with
        tasks := mapAt c.tasks self fun _ => t'
        pending := { c.pending with paths := .empty }
        history := c.history ++ [.drained self c.pending.toList] }
  | triggers {c : Core} {self : TaskId} {t : Task} {paths : List String} (chain : String)
    (vars : Variables) (h : slotAt c.tasks self = some ⟨t, false⟩)
    (ht : t.cycle? = some (.loaded paths)) :
    Change cfg c
      { c with
        tasks := c.tasks ++ [some ⟨.run (.start chain vars false) (.cycle self), false⟩]
        history := c.history ++ [.opened c.tasks.length chain vars false] }
  | cycles {c : Core} {self : TaskId} {t t' : Task} {k k' : Cycle}
    (h : slotAt c.tasks self = some ⟨t, false⟩) (ht : t.cycle? = some k)
    (ht' : t'.cycle? = some k') (hk : k.holdsLock ∧ k'.holdsLock ∧ k ≠ .locked ∧ k' ≠ .locked)
    (hlost : k'.lostRun = false) :
    Change cfg c
      { c with
        tasks := mapAt c.tasks self fun _ => t'
        failure := c.failure || k.lostRun }
  | releases {c : Core} {self : TaskId} {t : Task} {r : Option CycleReport}
    {ts : List (Option Slot)} {os : List (String × Outcome)}
    (h : slotAt c.tasks self = some ⟨t, false⟩) (ht : t.cycle? = some (.finished r))
    (hc : Closes c.tasks self ts os) :
    Change cfg c
      { c with
        tasks := ts
        pending := { c.pending with locked := false }
        history := c.history ++ [.unlocked self, .returned self]
        outcomes := c.outcomes ++ os }
  | droppedRun {c : Core} {self : TaskId} {r : Course} {audience : Audience}
    (h : slotAt c.tasks self = some ⟨.run r audience, true⟩) :
    Change cfg c { c with tasks := (cancelAt c.tasks r.waiting).set self none }
  | droppedCycle {c : Core} {self : TaskId} {t : Task} {k : Cycle}
    (h : slotAt c.tasks self = some ⟨t, true⟩) (ht : t.cycle? = some k) :
    Change cfg c
      { c with
        tasks := (cancelAt c.tasks k.waiting).set self none
        pending := if k.holdsLock then { c.pending with locked := false } else c.pending
        history := if k.holdsLock then c.history ++ [.unlocked self] else c.history }

/-! ### Everything that happens is a change -/

/-- The core of a session after an action of the task `self`. -/
def Verdict.core (self : TaskId) (s : State) : Verdict → Core
  | .goes s' t => { s'.toCore with tasks := mapAt s'.tasks self fun _ => t }
  | .rests => s.toCore
  | .over s' => s'.toCore

lemma toCore_advance (cfg : Setting) (s : State) (self : TaskId) (t : Task) :
    (s.advance cfg self t).toCore = (s.act cfg self t).core self s := by
  unfold State.advance
  cases s.act cfg self t <;> simp [Verdict.core]

lemma set_cancelAt_mapAt (ts : List (Option Slot)) (a : TaskId) (f : Task → Task)
    (ids : List TaskId) :
    (cancelAt (mapAt ts a f) ids).set a none = (cancelAt ts ids).set a none := by
  unfold cancelAt
  induction ids generalizing ts with
  | nil =>
    refine List.ext_getElem? fun i => ?_
    by_cases h : a = i <;> simp [mapAt, List.getElem?_set, h]
  | cons i ids ih =>
    have hcomm (g : Option Slot → Option Slot) (u : Slot → Slot)
        (hg : g = Option.map u) (hu : ∀ slot, u { slot with task := f slot.task } =
          { u slot with task := f (u slot).task }) :
        (mapAt ts a f).modify i g = mapAt (ts.modify i g) a f := by
      subst hg
      refine List.ext_getElem? fun j => ?_
      simp only [mapAt, List.getElem?_modify]
      rcases ts[j]? with _ | _ | slot <;> by_cases ha : a = j <;> by_cases hi : i = j <;>
        simp [ha, hi, hu]
    rw [List.foldl_cons, List.foldl_cons, hcomm _ _ rfl fun _ => rfl, ih]

section

variable {cfg : Setting} {s : State} {self : TaskId} {audience : Audience} {r r₀ : Course}

lemma core_giveUp (b : Break) (s₀ : State) :
    (Course.giveUp s self audience r b).core self s₀ =
      { s.toCore with
        tasks := State.tellBreak self b audience ((cancelAt s.tasks r.waiting).set self none)
        history := s.history ++ [.brokeOff self b]
        outcomes := s.outcomes ++ State.answerBreak b audience } := by
  simp [Course.giveUp, Verdict.core]

/-- A run enters a member that is no reason to stop. -/
lemma enter_of_go (s : State) (self : TaskId) (audience : Audience) (r : Course) (name : String)
    {failed : Bool} (code : Option Int) (why : Failure)
    (hgo : failed = true → r.exitOnError = false) :
    ∃ s', s'.toCore = { s.toCore with failure := s.failure || failed } ∧
      Course.enter s self audience r name failed code why =
        .goes s' (.run
          { r with
            entries := r.entries ++ [⟨name, false, true, failed, code⟩]
            failed := r.failed || failed } audience) := by
  unfold Course.enter
  cases failed with
  | false => exact ⟨s, by rw [Bool.or_false], rfl⟩
  | true =>
    simp only [hgo rfl, Bool.not_true, Bool.false_eq_true, if_false]
    exact ⟨{ s with failure := true, warned := true }, by simp, rfl⟩

/-- A run that exits on errors enters a member that has failed. -/
lemma core_enter_of_fatal (s : State) (self : TaskId) (audience : Audience) (r : Course)
    (name : String) (code : Option Int) (why : Failure) (he : r.exitOnError = true) (s₀ : State) :
    (Course.enter s self audience r name true code why).core self s₀ =
      { s.toCore with
        table := s.table.terminateAll fun _ => true
        tasks := State.tellBreak self (.failure why) audience
          ((cancelAt s.tasks r.waiting).set self none)
        stops := s.stops ++ s.table.live.map fun p => (p, s.now)
        history := s.history ++ [.stopped self, .brokeOff self (.failure why)]
        outcomes := s.outcomes ++ State.answerBreak (.failure why) audience
        failure := true } := by
  simp [Course.enter, he, core_giveUp]

variable {agenda : List Errand}

lemma change_startInstance {i : Instance}
    (h : slotAt s.tasks self = some ⟨.run r audience, false⟩)
    (ha : r.agenda = .launch i :: agenda) :
    Change cfg s.toCore
      ((Course.startInstance cfg s self audience { r with agenda } i).core self s) := by
  simp only [Course.startInstance]
  split
  · rename_i s₁ hl
    obtain ⟨n, hn⟩ := State.launch_eq_none hl
    have hstep : Change cfg s.toCore _ := .breaks h (.crash ha hn)
    rw [core_giveUp, State.toCore_launch_none hl]
    exact hstep
  · rename_i s₁ p hl
    obtain ⟨rfl, l, hl, hcore⟩ := State.toCore_launch_some hl
    have hl : l.Shows i (r.names.unique i.displayName).1 :=
      ⟨hl.script, hl.name, hl.command, hl.background⟩
    split
    · rename_i hb
      have hm : i.mode = .background := of_decide_eq_true hb
      have hstep : Change cfg s.toCore _ := .launches (r.names.unique i.displayName).1
        (r.names.unique i.displayName).2 s.now h ha hb rfl hl
      simpa [Verdict.core, hcore, Instance.isBackground, hm, keeperSlots] using hstep
    · rename_i hb
      have hm : i.mode ≠ .background := fun hm => hb (decide_eq_true hm)
      have hstep : Change cfg s.toCore _ := .awaits (r.names.unique i.displayName).1
        (r.names.unique i.displayName).2 s.now h ha (Bool.eq_false_iff.2 hb) rfl hl
      simpa [Verdict.core, hcore, Instance.isBackground, hm, keeperSlots, State.openingOf]
        using hstep

lemma change_startStep {step : Step}
    (h : slotAt s.tasks self = some ⟨.run r audience, false⟩)
    (ha : r.agenda = .step step :: agenda) :
    Change cfg s.toCore
      ((Course.startStep cfg s self audience { r with agenda } step).core self s) := by
  unfold Course.startStep
  split
  · rename_i ht
    have hstep : Change cfg s.toCore _ := .quiet h (.skip ha ht)
    simpa [Verdict.core, Course.entersFailure_of_cons ha] using hstep
  · rename_i target ht
    split
    · rename_i body hm
      have hstep : Change cfg s.toCore _ := .quiet h (.expand ha ht hm)
      simpa [Verdict.core, Course.entersFailure_of_cons ha] using hstep
    · rename_i expr hm
      have hstep := Change.nests (r.names.unique target).1 (r.names.unique target).2 h ha ht hm rfl
      simp only [Course.startChain]
      split <;> rename_i hb <;>
        simpa [Verdict.core, audienceOf, hb, State.openingOf, Course.nested, Course.start]
          using hstep
    · rename_i hm
      simp only [Course.missStep]
      split
      · rename_i hseq
        let s₁ : State :=
          { s with complained := true }.note (.started self r.batch (.missing target step.mode))
        let r₁ : Course := { r with agenda, names := (r.names.unique target).2 }
        by_cases he : r.exitOnError = true
        · rw [core_enter_of_fatal s₁ self audience r₁ _ _ _ he]
          have hstep : Change cfg s.toCore _ :=
            .fails (.unknownScript (r.names.unique target).1) s.now h (.missing ha ht hm hseq) he
          simpa [s₁, r₁, State.note] using hstep
        · have he : r.exitOnError = false := Bool.eq_false_iff.2 he
          obtain ⟨s', hs', heq⟩ := enter_of_go s₁ self audience r₁
            (r.names.unique target).1 none (.unknownScript (r.names.unique target).1)
            fun _ => he
          have hstep := Change.misses _ _ h ha ht hm (fun _ => he) (if_pos hseq).symm
          rw [heq]
          simpa [Verdict.core, hs', hseq, s₁, r₁] using hstep
      · rename_i hseq
        have hstep := Change.misses r.names r.entries h ha ht hm (fun h => absurd h hseq)
          (if_neg hseq).symm
        simpa [Verdict.core, hseq] using hstep

/-- One action of a run is one change, unless it rests. -/
lemma change_course (h : slotAt s.tasks self = some ⟨.run r audience, false⟩) :
    r.act cfg s self audience = .rests ∨
      Change cfg s.toCore ((r.act cfg s self audience).core self s) := by
  unfold Course.act
  split
  · rename_i ha
    exact .inr (change_startInstance h ha)
  · rename_i ha
    exact .inr (change_startStep h ha)
  · rename_i a arrived ha hr
    refine .inr ?_
    cases a with
    | settled name failed code =>
      by_cases hgo : failed = true → r.exitOnError = false
      · obtain ⟨s', hs', heq⟩ := enter_of_go s self audience { r with arrived } name code
          (.stepFailed name code) hgo
        have hstep : Change cfg s.toCore _ := .quiet h (.enter _ ha hr hgo rfl)
        rw [Course.enterArrival, heq]
        simpa [Verdict.core, hs', Course.entersFailure, ha, hr] using hstep
      · obtain ⟨rfl, he⟩ := Classical.not_imp.1 hgo
        have he : r.exitOnError = true := by simpa using he
        rw [Course.enterArrival, core_enter_of_fatal s self audience { r with arrived } _ _ _ he]
        have hstep : Change cfg s.toCore _ :=
          .fails (.stepFailed name code) s.now h (.member ha hr) he
        simpa using hstep
    | broken why =>
      have hstep : Change cfg s.toCore _ := .breaks h (.member ha hr)
      rw [Course.enterArrival, core_giveUp]
      exact hstep
  · rename_i ha hr
    split
    · rename_i hw
      have hw : r.waiting = [] := List.isEmpty_iff.1 hw
      refine .inr ?_
      split
      · rename_i hb
        have hstep : Change cfg s.toCore _ := .completes h ha hr hw hb
        simpa [Course.complete, Verdict.core] using hstep
      · rename_i hb
        have hstep : Change cfg s.toCore _ := .quiet h (.begins ha hr hw hb)
        simpa [Verdict.core, Course.entersFailure, ha, hr] using hstep
    · exact .inl rfl

/-! Cycles -/

lemma changes_trigger {t : Task} {paths : List String} (h : slotAt s.tasks self = some ⟨t, false⟩)
    (ht : t.cycle? = some (.loaded paths)) : ∀ ps,
    ReflTransGen (Change cfg) s.toCore (Cycle.trigger cfg s self ps).1.toCore := by
  intro ps
  unfold Cycle.trigger
  generalize (Watch.planDispatch ps cfg.rules).entries = es
  generalize ({ paths := ps } : Dispatch) = d
  induction es generalizing s d with
  | nil => exact .refl
  | cons e es ih =>
    have hstep : Change cfg s.toCore _ := .triggers e.1 e.2 h ht
    refine .head hstep (ih (s := (s.spawn (.run (.start e.1 e.2 false) (.cycle self))).1) ?_ _)
    exact slotAt_of_grown (List.prefix_append ..) h

/-- Runs that have just been spawned are not over. -/
lemma lostRun_trigger (paths : List String) :
    (Cycle.running (Cycle.trigger cfg s self paths).2).lostRun = false := by
  suffices h : (Cycle.trigger cfg s self paths).2.arrived = [] by simp [Cycle.lostRun, h]
  unfold Cycle.trigger
  generalize (Watch.planDispatch paths cfg.rules).entries = es
  have hd : ({ paths } : Dispatch).arrived = [] := rfl
  generalize ({ paths } : Dispatch) = d at hd ⊢
  induction es generalizing s d with
  | nil => exact hd
  | cons e es ih => exact ih _ hd

/-- What an action of a cycle changes, whatever task `g` makes of what is left of the cycle. -/
lemma changes_cycle_goes {t : Task} {k k' : Cycle} {s' : State} {t' : Task}
    (h : slotAt s.tasks self = some ⟨t, false⟩) (ht : t.cycle? = some k)
    (hact : k.act cfg s self = .goes s' k') (ht' : t'.cycle? = some k') :
    ReflTransGen (Change cfg) s.toCore
      { s'.toCore with tasks := mapAt s'.tasks self fun _ => t' } := by
  cases k with
  | idle =>
    simp only [Cycle.act, Cycle.begin] at hact
    split at hact <;> cases hact
    rename_i hl
    have hl : s.pending.locked = false := by simpa [Watch.Pending.tryLock] using hl
    exact .single (.locks h ht ht' hl)
  | locked =>
    simp only [Cycle.act, Cycle.load] at hact
    cases hact
    refine .single (.drains h ht ?_)
    rw [ht']
    split
    · exact .inl rfl
    · exact .inr rfl
  | loaded paths =>
    simp only [Cycle.act] at hact
    cases hact
    have hstep : Change cfg (Cycle.trigger cfg s self paths).1.toCore _ :=
      .cycles (slotAt_of_grown (tasks_trigger paths) h) ht ht' (by simp [Cycle.holdsLock])
        (lostRun_trigger paths)
    exact (changes_trigger h ht paths).tail (by simpa [Cycle.lostRun] using hstep)
  | running d =>
    simp only [Cycle.act] at hact
    split at hact
    · cases hact
      exact .single (.cycles h ht ht' (by simp [Cycle.holdsLock]) rfl)
    · rename_i hd
      split at hact <;> cases hact
      have hstep : Change cfg s.toCore _ := .cycles h ht ht' (by simp [Cycle.holdsLock]) rfl
      have hnone : d.arrived = [] := by simpa using hd
      exact .single (by simpa [Cycle.lostRun, hnone] using hstep)
  | finished report => cases hact

lemma changes_cycle_over {t : Task} {k : Cycle} {s' : State} {report : Option CycleReport}
    {ts : List (Option Slot)} {os : List (String × Outcome)}
    (h : slotAt s.tasks self = some ⟨t, false⟩) (ht : t.cycle? = some k)
    (hact : k.act cfg s self = .over s' report) (hc : Closes s.tasks self ts os) :
    Change cfg s.toCore { s'.toCore with tasks := ts, outcomes := s'.outcomes ++ os } := by
  cases k with
  | idle =>
    simp only [Cycle.act, Cycle.begin] at hact
    split at hact <;> cases hact
    rename_i hl
    have hl : s.pending.locked = true := by simpa [Watch.Pending.tryLock] using hl
    exact .refused h ht hl hc
  | locked => cases hact
  | loaded paths => cases hact
  | running d =>
    simp only [Cycle.act] at hact
    split at hact
    · cases hact
    · split at hact <;> cases hact
  | finished r =>
    simp only [Cycle.act, Cycle.release] at hact
    cases hact
    have hstep : Change cfg s.toCore _ := .releases h ht hc
    simpa [Watch.Pending.unlock] using hstep

/-! Turns -/

lemma changes_advance {t : Task} (h : slotAt s.tasks self = some ⟨t, false⟩) :
    ReflTransGen (Change cfg) s.toCore (s.advance cfg self t).toCore := by
  rw [toCore_advance]
  cases t with
  | run r audience =>
    simp only [State.act]
    rcases change_course h with hrests | hstep
    · rw [hrests]
      exact .refl
    · exact .single hstep
  | waiter p name owner =>
    simp only [State.act, State.actOfWaiter]
    split
    · rename_i code failed ho
      obtain ⟨hd, hp, ho⟩ := Option.bind_eq_some_iff.1 ho
      simpa [Verdict.core] using ReflTransGen.single (Change.settles failed code h hp ho)
    · exact .refl
  | keeper p =>
    -- a keeper whose time is over is gone first, then it ends the process
    have hgone : Change cfg s.toCore (s.drop self).toCore := .leaves h (.inr ⟨p, rfl⟩)
    simp only [State.act, State.actOfKeeper]
    split
    · exact .single hgone
    · split
      · refine .head hgone ?_
        simp only [Verdict.core, State.endProcess]
        split
        · exact .refl
        · rename_i hd hp
          have hstep : Change cfg (s.drop self).toCore _ :=
            .news hp (hd.follows_finish (s.drop self).now none true)
          simpa using ReflTransGen.single hstep
      · exact .refl
  | tick label k =>
    simp only [State.act, State.actOfTick]
    split
    · rename_i hact
      exact changes_cycle_goes h rfl hact rfl
    · exact .refl
    · rename_i s' report hact
      have hstep := changes_cycle_over h rfl hact (.gone label report)
      rw [← tasks_cycleAct_over hact] at hstep
      exact .single hstep
  | loop due k =>
    simp only [State.act, State.actOfLoop]
    split
    · exact .refl
    · split
      · rename_i hact
        exact changes_cycle_goes h rfl hact rfl
      · exact .refl
      · rename_i hact
        have hclose : Closes s.tasks self _ _ :=
          .again (if k.holdsLock then due else nextDue cfg s.clock due)
        have hstep := changes_cycle_over h rfl hact hclose
        rw [← tasks_cycleAct_over hact, List.append_nil] at hstep
        exact .single hstep

lemma change_discard {t : Task} (h : slotAt s.tasks self = some ⟨t, true⟩) :
    Change cfg s.toCore (s.discard self t).toCore := by
  have hcycle (k : Cycle) (hk : t.cycle? = some k) :
      Change cfg s.toCore ((s.discardCycle self k).drop self).toCore := by
    have hstep : Change cfg s.toCore _ := .droppedCycle h hk
    unfold State.discardCycle
    dsimp only
    split <;> rename_i hl <;> simpa [hl, Watch.Pending.unlock] using hstep
  cases t with
  | run r audience => simpa [State.discard] using (Change.droppedRun h : Change cfg _ _)
  | waiter p name owner => exact .leaves h (.inl ⟨rfl, p, name, owner, rfl⟩)
  | keeper p => exact .leaves h (.inr ⟨p, rfl⟩)
  | tick label k => exact hcycle k rfl
  | loop due k => exact hcycle k rfl

theorem changes_of_evolves {s' : State} (h : Evolves cfg s s') :
    ReflTransGen (Change cfg) s.toCore s'.toCore := by
  cases h with
  | acts h => exact changes_advance h
  | dropped h => exact .single (change_discard h)
  | news killed hp follows =>
    rw [State.toCore_putHandle]
    exact .single (.news hp follows)
  | passes => exact .refl

theorem changes_of_evolving {s' : State} (h : ReflTransGen (Evolves cfg) s s') :
    ReflTransGen (Change cfg) s.toCore s'.toCore :=
  ReflTransGen.lift' State.toCore (fun _ _ => changes_of_evolves) _ _ h

end

/-- What is asked of a session from outside changes this in its core. -/
inductive Request : Core → Core → Prop
  | run {c : Core} (chain : String) (vars : Variables) (exitOnError : Bool) (label : String) :
    Request c
      { c with
        tasks := c.tasks ++ [some ⟨.run (.start chain vars exitOnError) (.caller label), false⟩]
        history := c.history ++ [.opened c.tasks.length chain vars exitOnError] }
  | cycles {c : Core} {t : Task} (ht : t.cycle? = some .idle) :
    Request c { c with tasks := c.tasks ++ [some ⟨t, false⟩] }
  | push {c : Core} (path : String) :
    Request c
      { c with
        pending := c.pending.push path
        history := c.history ++ [.pushed path] }
  | stop {c : Core} (p : ProcessId) (now : Nat) :
    Request c
      { c with
        table := c.table.terminate (fun _ => true) p
        stops := c.stops ++ [(p, now)] }
  | cancel {c : Core} (id : TaskId) : Request c { c with tasks := cancelAt c.tasks [id] }

lemma request_of_asked {s s' : State} (h : Asked s s') : Request s.toCore s'.toCore := by
  cases h with
  | run chain vars exitOnError label => exact .run chain vars exitOnError label
  | tick label =>
    have hstep : Request s.toCore _ := .cycles (t := .tick label .idle) rfl
    simpa [State.openingOf] using hstep
  | loop due =>
    have hstep : Request s.toCore _ := .cycles (t := .loop due .idle) rfl
    simpa [State.openingOf] using hstep
  | push path => exact .push path
  | stop p => rw [State.toCore_stop]; exact .stop p s.now
  | cancel id => rw [State.toCore_cancel]; exact .cancel id

/-- A property of the core that no change and no request breaks. -/
structure Stable (cfg : Setting) (P : Core → Prop) : Prop where
  change : ∀ {c c' : Core}, P c → Change cfg c c' → P c'
  request : ∀ {c c' : Core}, P c → Request c c' → P c'

variable {cfg : Setting} {P : Core → Prop}

lemma Stable.changes (hP : Stable cfg P) {c c' : Core} (hc : P c)
    (h : ReflTransGen (Change cfg) c c') : P c' := by
  induction h with
  | refl => exact hc
  | tail _ hstep ih => exact hP.change ih hstep

lemma Stable.happens (hP : Stable cfg P) {s s' : State} (hs : P s.toCore)
    (h : ReflTransGen (Happens cfg) s s') : P s'.toCore := by
  induction h with
  | refl => exact hs
  | tail _ hstep ih =>
    rcases hstep with hstep | hstep
    · exact hP.changes ih (changes_of_evolves hstep)
    · exact hP.request ih (request_of_asked hstep)

theorem Stable.reachable (hP : Stable cfg P) (h0 : P {}) {s : State} (h : Reachable cfg s) :
    P s.toCore := hP.happens h0 h

end ChainRunner.Run
