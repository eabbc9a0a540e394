import ChainRunner.Proofs.Manifest.References
import ChainRunner.Proofs.Process.Handle
import ChainRunner.Proofs.Run.Views
import ChainRunner.Rehearsal.Trial
import Mathlib.Logic.Relation

/-!
Everything that can happen to a session.

A task may act whether or not its turn has come, so that every order of the tasks is covered, and
what others do may come between any two actions of one turn. Processes end when and how they
like. The machine with its queue is one way for a session to evolve (`evolves_turn`), and a
rehearsal reaches nothing that could not happen (`reachable_endN` and its neighbours).
-/

namespace ChainRunner.Run

open Relation

/-- What a session does by itself. -/
inductive Evolves (cfg : Setting) : State → State → Prop
  | acts {s : State} {self : TaskId} {t : Task} (h : s.slot? self = some ⟨t, false⟩) :
    Evolves cfg s (s.advance cfg self t)
  | dropped {s : State} {self : TaskId} {t : Task} (h : s.slot? self = some ⟨t, true⟩) :
    Evolves cfg s (s.discard self t)
  | news {s : State} {p : ProcessId} {h h' : Handle} (killed : Bool)
    (hp : s.table.get? p = some h) (follows : h.Follows h') :
    Evolves cfg s (s.putHandle p h' killed)
  | passes {s : State} (ready : List TaskId) (now clock : Nat) (warned complained : Bool) :
    Evolves cfg s { s with ready, now, clock, warned, complained }

/-- What is asked of a session from outside. -/
inductive Asked : State → State → Prop
  | run {s : State} (chain : String) (vars : Variables) (exitOnError : Bool) (label : String) :
    Asked s (s.spawn (.run (.start chain vars exitOnError) (.caller label))).1
  | tick {s : State} (label : String) : Asked s (s.spawn (.tick label .idle)).1
  | loop {s : State} (due : Nat) : Asked s (s.spawn (.loop due .idle)).1
  | push {s : State} (path : String) : Asked s (s.push path)
  | stop {s : State} (p : ProcessId) : Asked s (s.stop p)
  | cancel {s : State} (id : TaskId) : Asked s (s.cancel id)

def Happens (cfg : Setting) (s s' : State) : Prop := Evolves cfg s s' ∨ Asked s s'

def Reachable (cfg : Setting) (s : State) : Prop := ReflTransGen (Happens cfg) {} s

variable {cfg : Setting} {s s' : State} {self : TaskId}

lemma happens_of_evolves (h : ReflTransGen (Evolves cfg) s s') :
    ReflTransGen (Happens cfg) s s' :=
  ReflTransGen.mono (fun _ _ => Or.inl) _ _ h

theorem Reachable.happens (hs : Reachable cfg s) (h : ReflTransGen (Happens cfg) s s') :
    Reachable cfg s' := ReflTransGen.trans hs h

theorem Reachable.evolves (hs : Reachable cfg s) (h : ReflTransGen (Evolves cfg) s s') :
    Reachable cfg s' := hs.happens (happens_of_evolves h)

theorem Reachable.asked (hs : Reachable cfg s) (h : Asked s s') : Reachable cfg s' :=
  hs.tail (.inr h)

/-! ### The machine

A task that goes on has spawned tasks at most, so it is still there to act again. -/

namespace Course

variable {audience : Audience} {r : Course} {t : Task}

lemma tasks_enter {name : String} {failed : Bool} {code : Option Int} {why : Failure}
    (h : enter s self audience r name failed code why = .goes s' t) : s'.tasks = s.tasks := by
  simp only [enter] at h
  split at h
  · cases h; rfl
  · split at h <;> cases h
    rfl

lemma tasks_startInstance {i : Instance}
    (h : startInstance cfg s self audience r i = .goes s' t) : s.tasks <+: s'.tasks := by
  simp only [startInstance] at h
  split at h
  · cases h
  · rename_i s₁ p hl
    obtain ⟨-, l, -, hcore⟩ := State.toCore_launch_some hl
    have hpre : s.tasks <+: s₁.tasks := by
      rw [hcore]
      exact List.prefix_append ..
    split at h <;> cases h
    · exact hpre
    · exact hpre.trans (List.prefix_append ..)

lemma tasks_startStep {step : Step}
    (h : startStep cfg s self audience r step = .goes s' t) : s.tasks <+: s'.tasks := by
  simp only [startStep] at h
  split at h
  · cases h; exact List.prefix_rfl
  · split at h
    · cases h; exact List.prefix_rfl
    · simp only [startChain] at h
      split at h <;> cases h <;> exact List.prefix_append ..
    · simp only [missStep] at h
      split at h
      · exact ⟨[], (List.append_nil _).trans (tasks_enter h).symm⟩
      · cases h; exact List.prefix_rfl

lemma tasks_act (h : r.act cfg s self audience = .goes s' t) : s.tasks <+: s'.tasks := by
  unfold act at h
  split at h
  · exact tasks_startInstance h
  · exact tasks_startStep h
  · unfold enterArrival at h
    split at h
    · exact ⟨[], (List.append_nil _).trans (tasks_enter h).symm⟩
    · cases h
  · split at h
    · split at h <;> cases h
      exact List.prefix_rfl
    · cases h

end Course

lemma tasks_trigger (paths : List String) :
    s.tasks <+: (Cycle.trigger cfg s self paths).1.tasks := by
  unfold Cycle.trigger
  generalize (Watch.planDispatch paths cfg.rules).entries = es
  generalize ({ paths } : Dispatch) = d
  induction es generalizing s d with
  | nil => exact List.prefix_rfl
  | cons e es ih =>
    have hstep : s.tasks <+: (s.spawn (.run (.start e.1 e.2 false) (.cycle self))).1.tasks :=
      List.prefix_append ..
    exact hstep.trans (ih _)

lemma tasks_cycleAct {c c' : Cycle} (h : c.act cfg s self = .goes s' c') :
    s.tasks <+: s'.tasks := by
  unfold Cycle.act at h
  split at h
  · simp only [Cycle.begin] at h
    split at h <;> cases h
    exact List.prefix_rfl
  · cases h; exact List.prefix_rfl
  · cases h; exact tasks_trigger _
  · split at h
    · cases h; exact List.prefix_rfl
    · split at h <;> cases h
      exact List.prefix_rfl
  · cases h

lemma tasks_cycleAct_over {c : Cycle} {report : Option CycleReport}
    (h : c.act cfg s self = .over s' report) : s'.tasks = s.tasks := by
  unfold Cycle.act at h
  split at h
  · simp only [Cycle.begin] at h
    split at h <;> cases h
    rfl
  · cases h
  · cases h
  · split at h
    · cases h
    · split at h <;> cases h
  · cases h; rfl

lemma tasks_of_goes {t t' : Task} (h : s.act cfg self t = .goes s' t') : s.tasks <+: s'.tasks := by
  cases t with
  | run r audience => exact Course.tasks_act h
  | waiter p name owner =>
    simp only [State.act, State.actOfWaiter] at h
    split at h <;> cases h
  | keeper p =>
    simp only [State.act, State.actOfKeeper] at h
    split at h
    · cases h
    · split at h <;> cases h
  | tick label c =>
    simp only [State.act, State.actOfTick] at h
    split at h <;> cases h
    exact tasks_cycleAct ‹_›
  | loop due c =>
    simp only [State.act, State.actOfLoop] at h
    split at h
    · cases h
    · split at h <;> cases h
      · exact tasks_cycleAct ‹_›
      · rename_i hc
        exact ⟨[], (List.append_nil _).trans (tasks_cycleAct_over hc).symm⟩

lemma slotAt_of_grown {ts ts' : List (Option Slot)} {slot : Slot} (h : ts <+: ts')
    (hs : slotAt ts self = some slot) : slotAt ts' self = some slot := by
  obtain ⟨more, rfl⟩ := h
  rwa [slotAt, List.getElem?_append_left (lt_of_slotAt hs)]

lemma evolves_goOn {t : Task} (h : s.slot? self = some ⟨t, false⟩) :
    ReflTransGen (Evolves cfg) s (State.goOn cfg self s t) := by
  fun_induction State.goOn cfg self s t with
  | case1 s t s' t' hact ih =>
    have hstep : Evolves cfg s _ := .acts h
    simp only [State.advance, hact] at hstep
    refine .head hstep (ih ?_)
    simp [slotAt_of_grown (tasks_of_goes hact) h]
  | case2 s t hact => exact .refl
  | case3 s t s' hact =>
    have hstep : Evolves cfg s _ := .acts h
    simp only [State.advance, hact] at hstep
    exact .single hstep

lemma evolves_turn : ReflTransGen (Evolves cfg) s (s.turn cfg self) := by
  unfold State.turn
  split
  · exact .refl
  · exact .single (.dropped ‹_›)
  · exact evolves_goOn ‹_›

lemma evolves_ready (ready : List TaskId) : Evolves cfg s { s with ready } :=
  .passes ready s.now s.clock s.warned s.complained

lemma evolves_step (h : s.step? cfg = some s') : ReflTransGen (Evolves cfg) s s' := by
  unfold State.step? at h
  split at h
  · cases h
  · cases h
    exact .head (evolves_ready _) evolves_turn

lemma evolves_stepN (n : Nat) : ReflTransGen (Evolves cfg) s (s.stepN cfg n) := by
  induction n generalizing s with
  | zero => exact .refl
  | succ n ih =>
    unfold State.stepN
    split
    · exact .refl
    · exact (evolves_step ‹_›).trans ih

theorem evolves_settle : ReflTransGen (Evolves cfg) s (s.settle cfg) := evolves_stepN _

lemma evolves_wake (id : TaskId) : Evolves cfg s (s.wake id) := by
  unfold State.wake State.enqueue
  split
  · split
    · exact evolves_ready s.ready
    · exact evolves_ready _
  · exact evolves_ready s.ready

lemma evolves_passTo (clock : Nat) : ReflTransGen (Evolves cfg) s (s.passTo clock) := by
  unfold State.passTo
  have h : Evolves cfg s { s with clock } := .passes s.ready s.now clock s.warned s.complained
  refine .head h ?_
  generalize ({ s with clock } : State) = s₁
  generalize s.idleLoops = ls
  induction ls generalizing s₁ with
  | nil => exact .refl
  | cons e ls ih =>
    rw [List.foldl_cons]
    split
    · exact .head (evolves_wake _) (ih _)
    · exact ih _

lemma Evolves.refl (s : State) : Evolves cfg s s := evolves_ready s.ready

lemma Evolves.endProcess (p : ProcessId) (stderr : Bool) (code : Option Int) (killed : Bool) :
    Evolves cfg s (s.endProcess p stderr code killed) := by
  unfold State.endProcess
  split
  · exact .refl s
  · rename_i h hp
    refine .news killed hp ?_
    split
    · exact h.follows_markStderr.trans (Handle.follows_finish ..)
    · exact h.follows_finish ..

lemma evolves_endProcess (p : ProcessId) (stderr : Bool) (code : Option Int) (killed : Bool) :
    ReflTransGen (Evolves cfg) s (s.endProcess p stderr code killed) :=
  .single (.endProcess p stderr code killed)

lemma happens_stopAll : ReflTransGen (Happens cfg) s s.stopAll := by
  unfold State.stopAll
  generalize s.table.live = ps
  induction ps generalizing s with
  | nil => exact .refl
  | cons p ps ih => exact .head (.inr (.stop p)) ih

/-! ### Schedules -/

/-- One action of the task at a number, if it can act. -/
def State.actAt (cfg : Setting) (s : State) (id : TaskId) : State :=
  match s.slot? id with
  | some ⟨t, false⟩ => s.advance cfg id t
  | _ => s

/-- The tasks at these numbers act in this order. -/
def State.actAll (cfg : Setting) (s : State) (ids : List TaskId) : State :=
  ids.foldl (State.actAt cfg) s

lemma Evolves.actAt (id : TaskId) : Evolves cfg s (s.actAt cfg id) := by
  unfold State.actAt
  split
  · exact .acts ‹_›
  · exact .refl s

lemma evolves_actAll (ids : List TaskId) : ReflTransGen (Evolves cfg) s (s.actAll cfg ids) := by
  induction ids generalizing s with
  | nil => exact .refl
  | cons id ids ih => exact .head (.actAt id) ih

/-- The smallest setting, with one script. -/
def Setting.single : Setting where
  manifest := { toDraft := { scripts := NameMap.ofList [("a", "true")] }, checked := rfl }

/-- A chain of two batches, and a script that is to fail. -/
def Setting.pausedDraft : Draft where
  scripts := NameMap.ofList [("a", "true"), ("b", "true"), ("f", "false")]
  chains := NameMap.ofList [("bg", "a - b")]

lemma checked_pausedDraft : Setting.pausedDraft.check = .ok () := by
  have hchains : Setting.pausedDraft.checkChains = .ok () :=
    Draft.checkChains_of_edges_eq_nil rfl rfl
  exact hchains

def Setting.paused : Setting where
  manifest := ⟨pausedDraft, checked_pausedDraft⟩

end ChainRunner.Run

/-! ### Rehearsals -/

namespace ChainRunner.Rehearsal.Session

open Run Relation

/-- Whatever has become of a session could have happened to it. -/
def Sound (s : Session) : Prop := Reachable s.setting s.state

variable {s : Session}

theorem sound_act {f : State → State} (h : Sound s)
    (hf : ReflTransGen (Happens s.setting) s.state (f s.state)) : Sound (s.act f) :=
  (Reachable.happens h hf).evolves evolves_settle

theorem sound_run (h : Sound s) (label chain : String) (vars : Variables) (exitOnError : Bool) :
    Sound (s.run label chain vars exitOnError) :=
  (Reachable.asked h (.run chain vars exitOnError label)).evolves evolves_settle

theorem sound_tick (h : Sound s) (label : String) : Sound (s.tick label) :=
  (Reachable.asked h (.tick label)).evolves evolves_settle

theorem sound_loop (h : Sound s) (label : String) : Sound (s.loop label) := by
  unfold loop
  split
  · exact h
  · exact (Reachable.asked h (.loop _)).evolves evolves_settle

theorem sound_push (h : Sound s) (paths : List String) : Sound (s.push paths) := by
  refine sound_act h ?_
  generalize s.state = st
  induction paths generalizing st with
  | nil => exact .refl
  | cons p paths ih => exact .head (.inr (.push p)) (ih _)

theorem sound_stopAll (h : Sound s) : Sound s.stopAll := sound_act h happens_stopAll

theorem sound_abort (h : Sound s) (label : String) : Sound (s.abort label) := by
  unfold abort
  split
  · exact sound_act h (.single (.inr (.cancel _)))
  · exact h

theorem sound_endNext {s' : Session} (h : Sound s) (he : s.endNext? = some s') : Sound s' := by
  obtain ⟨e, -, rfl⟩ := Option.map_eq_some_iff.1 he
  refine sound_act h (happens_of_evolves (.head ?_ (evolves_endProcess ..)))
  exact .passes _ (max s.state.now e.time) _ _ _

theorem sound_endN (h : Sound s) (n : Nat) : Sound (s.endN n).2 := by
  induction n generalizing s with
  | zero => exact h
  | succ n ih =>
    unfold endN
    split
    · exact h
    · exact ih (sound_endNext h ‹_›)

theorem sound_sleepTo (h : Sound s) (goal n : Nat) : Sound (sleepTo goal n s) := by
  induction n generalizing s with
  | zero => exact h
  | succ n ih =>
    unfold sleepTo
    split
    · split
      · exact ih (sound_act h (happens_of_evolves (evolves_passTo _)))
      · exact h
    · exact h

theorem sound_sleep (h : Sound s) (ms : Nat) : Sound (s.sleep ms) := by
  have hgoal := sound_sleepTo h (s.state.clock + ms) (ms + 1)
  unfold sleep
  dsimp only
  generalize sleepTo (s.state.clock + ms) (ms + 1) s = s₁ at hgoal ⊢
  exact sound_act hgoal (happens_of_evolves (.single (.passes ..)))

end ChainRunner.Rehearsal.Session
