import ChainRunner.Proofs.Run.Happens
import ChainRunner.Proofs.Run.Launch
import ChainRunner.Proofs.Run.Log

/-!
The log of a session.

Whatever happens to a session, only a launch and the end of a process are logged, and both at the
moment at which the table of processes changes. So the log says of every process what its handle
says, and of a process that is started later only behind the ends there were before.
-/

namespace ChainRunner

/-- To be asked to stop is no end. -/
@[simp] lemma Handle.outcome?_terminate (h : Handle) (reachable : Nat → Bool) :
    (h.terminate reachable).1.outcome? = h.outcome? := by
  unfold terminate
  split
  · rfl
  · split <;> rfl

/-- What follows a handle says the same of its end, unless it is the end. -/
lemma Handle.Follows.outcome?_eq {h h' : Handle} (hf : h.Follows h')
    (hend : ¬(h'.hasEnded = true ∧ h.hasEnded = false)) : h'.outcome? = h.outcome? := by
  unfold Handle.outcome?
  cases he : h.hasEnded with
  | false =>
    have he' : h'.hasEnded = false := Bool.eq_false_iff.2 fun he' => hend ⟨he', he⟩
    simp [he']
  | true =>
    obtain ⟨-, hcode, hfailed⟩ := hf.ended he
    simp [hf.hasEnded he, hcode, hfailed]

namespace Run

open Relation

/-! ### What happens to the processes and the log -/

namespace State

variable (s : State)

@[simp] lemma log_wake (id : TaskId) : (s.wake id).log = s.log := by
  unfold wake enqueue
  split
  · split <;> rfl
  · rfl

@[simp] lemma log_cancel (id : TaskId) : (s.cancel id).log = s.log := by simp [cancel]

@[simp] lemma log_cancelAll (ids : List TaskId) : (s.cancelAll ids).log = s.log := by
  unfold cancelAll
  induction ids generalizing s with
  | nil => rfl
  | cons i ids ih => rw [List.foldl_cons, ih, log_cancel]

@[simp] lemma log_arrive (owner member : TaskId) (a : Arrival) :
    (s.arrive owner member a).log = s.log := by simp [arrive, mapTask]

@[simp] lemma log_arriveCycle (owner member : TaskId) (r : Option Report) :
    (s.arriveCycle owner member r).log = s.log := by simp [arriveCycle, mapTask]

@[simp] lemma log_conclude (self : TaskId) (report : Report) (audience : Audience) :
    (s.conclude self report audience).log = s.log := by
  cases audience <;> simp [conclude, outcome]

@[simp] lemma log_breakOff (self : TaskId) (b : Break) (audience : Audience) :
    (s.breakOff self b audience).log = s.log := by
  cases b <;> cases audience <;> simp [breakOff, outcome]

@[simp] lemma log_stop (p : ProcessId) : (s.stop p).log = s.log := by
  unfold stop
  dsimp only
  split <;> simp

@[simp] lemma log_stopAll : s.stopAll.log = s.log := by
  unfold stopAll
  generalize s.table.live = ids
  induction ids generalizing s with
  | nil => rfl
  | cons i ids ih => rw [List.foldl_cons, ih, log_stop]

/-- The end of a process is in the log with what its handle then says. -/
lemma log_putHandle_of_ends {p : ProcessId} {h : Handle} (hp : s.table.hasEnded p = false)
    (hh : h.hasEnded = true) (killed : Bool) : (s.putHandle p h killed).log =
      s.log ++ [.ended s.now p h.code h.failed killed] := by
  unfold putHandle
  simp only [hp, hh, Bool.not_false, Bool.and_self, if_true]
  split <;> simp [note]

lemma log_launch_some {cfg : Setting} {i : Instance} {s' : State} {p : ProcessId}
    (h : s.launch cfg i = (s', some p)) :
    s'.log = s.log ++ [.started s.now s.table.handles.length] := by
  simp only [launch] at h
  split at h
  · cases h
  · split at h <;> cases h <;> rfl

end State

/-- What one thing that happens does to the processes and the log. -/
inductive Touches (s s' : State) : Prop
  /-- No process has been started or has ended. -/
  | spares (htable : ∀ p, (s'.table.get? p).map Handle.outcome? =
      (s.table.get? p).map Handle.outcome?) (hlog : s'.log = s.log)
  | launches (h : Handle) (hh : h.hasEnded = false) (htable : s'.table = s.table.launch h s.now)
    (hlog : s'.log = s.log ++ [.started s.now s.table.handles.length])
  | ends {p : ProcessId} {h h' : Handle} (killed : Bool) (hp : s.table.get? p = some h)
    (hh : h.hasEnded = false) (hh' : h'.hasEnded = true)
    (htable : s'.table = s.table.update p fun _ => h')
    (hlog : s'.log = s.log ++ [.ended s.now p h'.code h'.failed killed])

section

variable {cfg : Setting} {s s' s'' : State} {self : TaskId} {audience : Audience} {r : Course}

/-- What changes neither the table nor the log. -/
lemma Touches.of_eq (ht : s'.table = s.table) (hlog : s'.log = s.log) : Touches s s' :=
  .spares (fun p => by rw [ht]) hlog

lemma Touches.congr (h : Touches s s') (ht : s''.table = s'.table) (hlog : s''.log = s'.log) :
    Touches s s'' := by
  cases h with
  | spares htable hl => exact .spares (fun p => by rw [ht, htable]) (hlog.trans hl)
  | launches h hh htable hl => exact .launches h hh (ht.trans htable) (hlog.trans hl)
  | ends killed hp hh hh' htable hl =>
    exact .ends killed hp hh hh' (ht.trans htable) (hlog.trans hl)

lemma Touches.start {s₀ : State} (h : Touches s s') (ht : s.table = s₀.table)
    (hnow : s.now = s₀.now) (hlog : s.log = s₀.log) : Touches s₀ s' := by
  cases h with
  | spares htable hl => exact .spares (ht ▸ htable) (hl.trans hlog)
  | launches h hh htable hl => exact .launches h hh (ht ▸ hnow ▸ htable) (hlog ▸ hnow ▸ ht ▸ hl)
  | ends killed hp hh hh' htable hl =>
    exact .ends killed (ht ▸ hp) hh hh' (ht ▸ htable) (hlog ▸ hnow ▸ hl)

lemma touches_stop (p : ProcessId) : Touches s (s.stop p) := by
  refine .spares (fun q => ?_) (by simp)
  simp only [State.toCore_stop, ProcessTable.terminate, ProcessTable.get?_update]
  split
  · cases s.table.get? q <;> simp
  · rfl

lemma touches_stopAll : Touches s s.stopAll := by
  refine .spares (fun q => ?_) (by simp)
  simp only [State.toCore_stopAll, ProcessTable.get?_terminateAll]
  split
  · cases s.table.get? q <;> simp
  · rfl

/-- There is news of a process. -/
lemma touches_putHandle {p : ProcessId} {h h' : Handle} (killed : Bool)
    (hp : s.table.get? p = some h) (hf : h.Follows h') : Touches s (s.putHandle p h' killed) := by
  have hbefore : s.table.hasEnded p = h.hasEnded := by rw [ProcessTable.hasEnded, hp]
  by_cases hend : h'.hasEnded = true ∧ h.hasEnded = false
  · exact .ends killed hp hend.2 hend.1 (by simp)
      (s.log_putHandle_of_ends (hbefore.trans hend.2) hend.1 killed)
  · refine .spares (fun q => ?_) ?_
    · simp only [State.toCore_putHandle, ProcessTable.get?_update]
      split
      · subst q
        simp [hp, hf.outcome?_eq hend]
      · rfl
    · have hnot : (h'.hasEnded && !h.hasEnded) = false := by
        rw [← Bool.not_eq_true]
        simpa using hend
      simp [State.putHandle, hbefore, hnot]

lemma touches_launch {i : Instance} {p : Option ProcessId} (h : s.launch cfg i = (s', p)) :
    Touches s s' := by
  cases p with
  | none =>
    have hcore := State.toCore_launch_none h
    refine .of_eq (by rw [hcore]) ?_
    simp only [State.launch] at h
    split at h
    · cases h
      rfl
    · split at h <;> cases h
  | some p =>
    obtain ⟨-, l, -, hcore⟩ := State.toCore_launch_some h
    exact .launches { name := i.displayName, background := i.isBackground } rfl
      (by rw [hcore]) (s.log_launch_some h)

/-- The state that an action leaves. -/
def Verdict.state (s : State) : Verdict → State
  | .goes s' _ => s'
  | .rests => s
  | .over s' => s'

lemma touches_giveUp (b : Break) (h : Touches s s') :
    Touches s ((Course.giveUp s' self audience r b).state s'') :=
  h.congr (by simp [Course.giveUp, Verdict.state])
    (by simp [Course.giveUp, Verdict.state, State.drop, State.note])

lemma touches_enter (name : String) (failed : Bool) (code : Option Int) (why : Failure) :
    Touches s ((Course.enter s self audience r name failed code why).state s'') := by
  unfold Course.enter
  dsimp only
  split
  · exact .of_eq rfl rfl
  · split
    · exact touches_giveUp _ (touches_stopAll.congr rfl rfl)
    · exact .of_eq rfl rfl

lemma touches_course : Touches s ((r.act cfg s self audience).state s) := by
  unfold Course.act
  split
  · simp only [Course.startInstance]
    split
    · exact touches_giveUp _ (touches_launch ‹_›)
    · rename_i hl
      have hlaunch := touches_launch hl
      split
      · exact hlaunch.congr rfl rfl
      · exact hlaunch.congr rfl rfl
  · unfold Course.startStep
    split
    · exact .of_eq rfl rfl
    · split
      · exact .of_eq rfl rfl
      · simp only [Course.startChain]
        split <;> exact .of_eq rfl rfl
      · simp only [Course.missStep]
        split
        · exact (touches_enter ..).start rfl rfl rfl
        · exact .of_eq rfl rfl
  · unfold Course.enterArrival
    split
    · exact touches_enter ..
    · exact touches_giveUp _ (.of_eq rfl rfl)
  · split
    · split
      · exact .of_eq (by simp [Course.complete, Verdict.state])
          (by simp [Course.complete, Verdict.state, State.note, State.drop])
      · exact .of_eq rfl rfl
    · exact .of_eq rfl rfl

lemma log_trigger (paths : List String) :
    (Cycle.trigger cfg s self paths).1.log = s.log := by
  unfold Cycle.trigger
  generalize (Watch.planDispatch paths cfg.rules).entries = es
  generalize ({ paths } : Dispatch) = d
  induction es generalizing s d with
  | nil => rfl
  | cons e es ih =>
    rw [List.foldl_cons, ih]
    rfl

/-- The state that an action of a cycle leaves. -/
def CycleVerdict.state (s : State) : CycleVerdict → State
  | .goes s' _ => s'
  | .rests => s
  | .over s' _ => s'

/-- A cycle leaves the processes to the runs. -/
lemma touches_cycle (k : Cycle) : ((k.act cfg s self).state s).table = s.table ∧
    ((k.act cfg s self).state s).log = s.log := by
  unfold Cycle.act
  split
  · simp only [Cycle.begin]
    split <;> exact ⟨rfl, rfl⟩
  · exact ⟨rfl, rfl⟩
  · exact ⟨table_trigger _, log_trigger _⟩
  · split
    · exact ⟨rfl, rfl⟩
    · split <;> exact ⟨rfl, rfl⟩
  · exact ⟨rfl, rfl⟩

lemma touches_act (t : Task) : Touches s ((s.act cfg self t).state s) := by
  cases t with
  | run r audience => exact touches_course
  | waiter p name owner =>
    simp only [State.act, State.actOfWaiter]
    split
    · exact .of_eq (by simp [Verdict.state]) (by simp [Verdict.state, State.drop])
    · exact .of_eq rfl rfl
  | keeper p =>
    simp only [State.act, State.actOfKeeper]
    split
    · exact .of_eq rfl rfl
    · split
      · have hend : Touches (s.drop self) ((s.drop self).endProcess p false none true) := by
          unfold State.endProcess
          split
          · exact .of_eq rfl rfl
          · exact touches_putHandle true ‹_› (Handle.follows_finish ..)
        exact hend.start rfl rfl rfl
      · exact .of_eq rfl rfl
  | tick label k =>
    have hk := @touches_cycle cfg s self k
    simp only [State.act, State.actOfTick]
    generalize k.act cfg s self = v at hk ⊢
    cases v <;> exact .of_eq hk.1 hk.2
  | loop due k =>
    have hk := @touches_cycle cfg s self k
    simp only [State.act, State.actOfLoop]
    split
    · exact .of_eq rfl rfl
    · generalize k.act cfg s self = v at hk ⊢
      cases v <;> exact .of_eq hk.1 hk.2

lemma touches_discard (t : Task) : Touches s (s.discard self t) := by
  have hcycle (k : Cycle) : (s.discardCycle self k).table = s.table ∧
      (s.discardCycle self k).log = s.log := by
    unfold State.discardCycle
    dsimp only
    split <;> simp [State.note]
  cases t with
  | run r audience => exact .of_eq (by simp [State.discard]) (by simp [State.discard, State.drop])
  | waiter | keeper => exact .of_eq rfl rfl
  | tick label k | loop due k => exact .of_eq (hcycle k).1 (hcycle k).2

/-- **Whatever happens** starts one process, ends one, or does neither, and the log says which. -/
theorem touches_of_happens (h : Happens cfg s s') : Touches s s' := by
  rcases h with h | h
  · cases h with
    | @acts self t h =>
      have hact := @touches_act cfg s self t
      unfold State.advance
      generalize s.act cfg self t = v at hact ⊢
      cases v with
      | goes s' t' => exact hact.congr rfl rfl
      | _ => exact hact
    | dropped => exact touches_discard _
    | news killed hp follows => exact touches_putHandle killed hp follows
    | passes => exact .of_eq rfl rfl
  · cases h with
    | stop p => exact touches_stop p
    | cancel id => exact .of_eq (by simp) (by simp)
    | run | tick | loop | push => exact .of_eq rfl rfl

end

/-! ### What the log tells -/

/-- What the events of a process tell, by how it has ended: nothing if there is no such process. -/
def Renders (p : ProcessId) (es : List Event) : Option (Option (Option Int × Bool)) → Prop
  | none => es = []
  | some none => ∃ t, es = [.started t p]
  | some (some (code, failed)) =>
    ∃ t t' killed, es = [.started t p, .ended t' p code failed killed]

/-- The log tells of every process what its handle does. -/
def Chronicled (s : State) : Prop :=
  ∀ p, Renders p (eventsOf s.log p) ((s.table.get? p).map Handle.outcome?)

variable {cfg : Setting} {s s' : State} {p q : ProcessId} {h : Handle}

lemma outcome?_of_running (hh : h.hasEnded = false) : h.outcome? = none := by
  simp [Handle.outcome?, hh]

lemma outcome?_of_ended (hh : h.hasEnded = true) : h.outcome? = some (h.code, h.failed) := by
  simp [Handle.outcome?, hh]

namespace Chronicled

lemma running (hs : Chronicled s) (hp : s.table.get? p = some h) (hh : h.hasEnded = false) :
    ∃ t, eventsOf s.log p = [.started t p] := by
  have ht := hs p
  rwa [hp, Option.map_some, outcome?_of_running hh] at ht

lemma ended (hs : Chronicled s) (hp : s.table.get? p = some h) (hh : h.hasEnded = true) :
    EndTold p h (eventsOf s.log p) := by
  have ht := hs p
  rwa [hp, Option.map_some, outcome?_of_ended hh] at ht

lemma absent (hs : Chronicled s) (hp : s.table.handles.length ≤ p) : eventsOf s.log p = [] := by
  have ht := hs p
  rwa [ProcessTable.get?, List.getElem?_eq_none hp] at ht

/-- The start of every process is in the log. -/
lemma started (hs : Chronicled s) (hp : p < s.table.handles.length) :
    ∃ t, .started t p ∈ s.log := by
  have hget : s.table.get? p = some s.table.handles[p] := List.getElem?_eq_getElem hp
  have hmem (t : Nat) (h : .started t p ∈ eventsOf s.log p) : ∃ t, .started t p ∈ s.log :=
    ⟨t, (mem_eventsOf.1 h).1⟩
  by_cases hh : s.table.handles[p].hasEnded = true
  · obtain ⟨t, t', killed, ht⟩ := hs.ended hget hh
    exact hmem t (by simp [ht])
  · obtain ⟨t, ht⟩ := hs.running hget (Bool.eq_false_iff.2 hh)
    exact hmem t (by simp [ht])

lemma launch (hs : Chronicled s) (hh : h.hasEnded = false)
    (htable : s'.table = s.table.launch h s.now)
    (hlog : s'.log = s.log ++ [.started s.now s.table.handles.length]) : Chronicled s' := by
  intro p
  rw [hlog, htable, eventsOf_concat, Event.process]
  rcases Nat.lt_trichotomy p s.table.handles.length with hlt | rfl | hgt
  · rw [if_neg (Nat.ne_of_gt hlt), ProcessTable.get?_launch_of_lt _ _ _ hlt]
    exact hs p
  · have hrun : (h.start s.now none).outcome? = none := outcome?_of_running hh
    rw [if_pos rfl, ProcessTable.get?_launch_self, hs.absent (Nat.le_refl _), Option.map_some, hrun]
    exact ⟨s.now, rfl⟩
  · have hnone : (s.table.launch h s.now).get? p = none := by
      rw [ProcessTable.get?, List.getElem?_eq_none]
      rw [ProcessTable.length_launch]
      exact hgt
    rw [if_neg (Nat.ne_of_lt hgt), hnone, hs.absent (Nat.le_of_lt hgt)]
    rfl

lemma finish {h' : Handle} {t : Nat} {killed : Bool} (hs : Chronicled s)
    (hp : s.table.get? p = some h) (hh : h.hasEnded = false) (hh' : h'.hasEnded = true)
    (htable : s'.table = s.table.update p fun _ => h')
    (hlog : s'.log = s.log ++ [.ended t p h'.code h'.failed killed]) : Chronicled s' := by
  intro q
  rw [hlog, htable, eventsOf_concat, Event.process, ProcessTable.get?_update]
  by_cases hq : p = q
  · subst q
    obtain ⟨t₀, ht⟩ := hs.running hp hh
    rw [if_pos rfl, if_pos rfl, hp, ht, Option.map_some, Option.map_some, outcome?_of_ended hh']
    exact ⟨t₀, t, killed, rfl⟩
  · rw [if_neg hq, if_neg hq]
    exact hs q

lemma step (hs : Chronicled s) (ht : Touches s s') : Chronicled s' := by
  cases ht with
  | spares htable hlog =>
    intro p
    rw [hlog, htable]
    exact hs p
  | launches h hh htable hlog => exact hs.launch hh htable hlog
  | ends killed hp hh hh' htable hlog => exact hs.finish hp hh hh' htable hlog

end Chronicled

lemma chronicled_nil : Chronicled {} := fun _ => rfl

theorem Reachable.chronicled (h : Reachable cfg s) : Chronicled s := by
  induction h with
  | refl => exact chronicled_nil
  | tail _ hstep ih => exact ih.step (touches_of_happens hstep)

/-- Nothing is taken from the log, and no process is lost. -/
lemma Touches.grows (h : Touches s s') : s.log <+: s'.log := by
  cases h with
  | spares _ hlog => exact hlog ▸ List.prefix_rfl
  | launches _ _ _ hlog => exact hlog ▸ List.prefix_append ..
  | ends _ _ _ _ _ hlog => exact hlog ▸ List.prefix_append ..

lemma log_of_happening (h : ReflTransGen (Happens cfg) s s') : s.log <+: s'.log := by
  induction h with
  | refl => exact List.prefix_rfl
  | tail _ hstep ih => exact ih.trans (touches_of_happens hstep).grows

/-! ### What can be read off a log -/

/-- The log tells one story of each process, the end as the handle has it once it is final; and
the largest count of a script is reached at some point of the log, and is the largest one. -/
structure Accurate (s : State) : Prop where
  told : WellTold s.log
  final : ∀ p h, s.table.get? p = some h → h.hasEnded = true → EndTold p h (eventsOf s.log p)
  most : ∀ script, IsGreatest (Set.range fun k => (s.upAfter script (s.log.take k)).card)
    (s.maxConcurrent script)

/-- What is started later is told of behind the ends there were. -/
lemma Accurate.afterEnd {log : List Event} (hs : Accurate s) (hlog : s.log <+: log)
    (hp : s.table.get? p = some h) (hh : h.hasEnded = true) (hq : eventsOf s.log q = []) :
    AfterEnd log p q := .of_grown hlog (hs.final p h hp hh) hq

lemma accurate_of_wellTold (ht : WellTold s.log)
    (hf : ∀ p h, s.table.get? p = some h → h.hasEnded = true → EndTold p h (eventsOf s.log p)) :
    Accurate s :=
  ⟨ht, hf, fun _ => isGreatest_concurrency ht⟩

lemma Chronicled.accurate (hs : Chronicled s) : Accurate s := by
  refine accurate_of_wellTold (fun p => ?_) fun p h hp hh => hs.ended hp hh
  cases hp : s.table.get? p with
  | none =>
    rw [hs.absent (List.getElem?_eq_none_iff.1 hp)]
    exact .untold
  | some h =>
    by_cases hh : h.hasEnded = true
    · exact (hs.ended hp hh).story
    · obtain ⟨t, ht⟩ := hs.running hp (Bool.eq_false_iff.2 hh)
      rw [ht]
      exact .started t

end Run

end ChainRunner
