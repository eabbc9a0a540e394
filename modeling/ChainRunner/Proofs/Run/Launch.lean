import ChainRunner.Proofs.Run.Change

/-!
Who starts processes: only a run that comes to a launch, unless the launcher breaks down.
-/

namespace ChainRunner.Run

/-- The run is about to start a process, and the launcher does not break down. -/
def State.Launching (cfg : Setting) (s : State) (u : TaskId) : Prop :=
  ∃ r audience i agenda, s.slot? u = some ⟨.run r audience, false⟩ ∧
    r.agenda = .launch i :: agenda ∧
    cfg.breaksDown i.script ((s.attempts.get? i.script).getD 0) = false

section

variable {cfg : Setting} {s s' s₀ : State} {u : TaskId} {r : Course} {audience : Audience}
  {i : Instance} {agenda : List Errand}

lemma history_of_launch (audience : Audience) (u : TaskId) (ha : r.agenda = .launch i :: agenda)
    (hb : cfg.breaksDown i.script ((s.attempts.get? i.script).getD 0) = false) :
    ∃ name, (s.advance cfg u (.run r audience)).history =
      s.history ++ [.started u r.batch (.process s.table.handles.length i name)] := by
  have hlaunch : (s.launch cfg { i with displayName := (r.names.unique i.displayName).1 }).2 =
      some s.table.handles.length := by
    simp [State.snd_launch, hb]
  refine ⟨(r.names.unique i.displayName).1, ?_⟩
  rw [toCore_advance]
  simp only [State.act, Course.act, ha, Course.startInstance]
  split
  · rename_i hl
    rw [hl] at hlaunch
    cases hlaunch
  · rename_i s₁ q hl
    obtain ⟨rfl, l, -, hcore⟩ := State.toCore_launch_some hl
    split <;> simp [Verdict.core, State.openingOf, hcore]

lemma length_enter (name : String) (failed : Bool) (code : Option Int) (why : Failure) :
    ((Course.enter s u audience r name failed code why).core u s₀).table.handles.length =
      s.table.handles.length := by
  unfold Course.enter
  dsimp only
  split
  · rfl
  · split
    · simp [core_giveUp]
    · rfl

lemma length_startStep {step : Step} :
    ((Course.startStep cfg s u audience r step).core u s₀).table.handles.length =
      s.table.handles.length := by
  unfold Course.startStep
  split
  · rfl
  · split
    · rfl
    · simp only [Course.startChain]
      split <;> simp [Verdict.core]
    · simp only [Course.missStep]
      split
      · rw [length_enter]
        rfl
      · rfl

/-- Only a launch makes the table of processes longer. -/
lemma length_of_run (h : s.slot? u = some ⟨.run r audience, false⟩) :
    s.Launching cfg u ∨
      (s.advance cfg u (.run r audience)).table.handles.length = s.table.handles.length := by
  rw [toCore_advance]
  simp only [State.act]
  unfold Course.act
  split
  · rename_i i agenda ha
    by_cases hb : cfg.breaksDown i.script ((s.attempts.get? i.script).getD 0) = false
    · exact .inl ⟨r, audience, i, agenda, h, ha, hb⟩
    · refine .inr ?_
      have hlaunch : (s.launch cfg { i with displayName := (r.names.unique i.displayName).1 }).2 =
          none := by
        simp [State.snd_launch, hb]
      simp only [Course.startInstance]
      split
      · rename_i hl
        rw [core_giveUp, State.toCore_launch_none hl]
      · rename_i hl
        rw [hl] at hlaunch
        cases hlaunch
  · exact .inr length_startStep
  · refine .inr ?_
    rename_i a arrived ha hr
    cases a with
    | settled name failed code => exact length_enter ..
    | broken why => simp [Course.enterArrival, core_giveUp]
  · refine .inr ?_
    split
    · split
      · simp [Course.complete, Verdict.core]
      · rfl
    · rfl

lemma table_trigger (paths : List String) :
    (Cycle.trigger cfg s u paths).1.table = s.table := by
  unfold Cycle.trigger
  generalize (Watch.planDispatch paths cfg.rules).entries = es
  generalize ({ paths } : Dispatch) = d
  induction es generalizing s d with
  | nil => rfl
  | cons e es ih =>
    rw [List.foldl_cons, ih]
    rfl

lemma table_cycleAct {k k' : Cycle} (h : k.act cfg s u = .goes s' k') : s'.table = s.table := by
  unfold Cycle.act at h
  split at h
  · simp only [Cycle.begin] at h
    split at h <;> cases h
    rfl
  · cases h; rfl
  · cases h; exact table_trigger _
  · split at h
    · cases h; rfl
    · split at h <;> cases h
      rfl
  · cases h

lemma table_cycleAct_over {k : Cycle} {report : Option CycleReport}
    (h : k.act cfg s u = .over s' report) : s'.table = s.table := by
  unfold Cycle.act at h
  split at h
  · simp only [Cycle.begin] at h
    split at h <;> cases h
    rfl
  · cases h
  · cases h
  · split at h
    · cases h
    · split at h <;> cases h
  · cases h; rfl

lemma length_advance {t : Task} (h : s.slot? u = some ⟨t, false⟩) (hl : ¬s.Launching cfg u) :
    (s.advance cfg u t).table.handles.length = s.table.handles.length := by
  cases t with
  | run r audience => exact (length_of_run h).resolve_left hl
  | waiter p name owner =>
    rw [toCore_advance]
    simp only [State.act, State.actOfWaiter]
    split <;> simp [Verdict.core]
  | keeper p =>
    rw [toCore_advance]
    simp only [State.act, State.actOfKeeper, State.endProcess]
    split
    · simp [Verdict.core]
    · split
      · split <;> simp [Verdict.core]
      · rfl
  | tick label k =>
    rw [toCore_advance]
    simp only [State.act, State.actOfTick]
    split
    · simp [Verdict.core, table_cycleAct ‹_›]
    · rfl
    · simp [Verdict.core, table_cycleAct_over ‹_›]
  | loop due k =>
    rw [toCore_advance]
    simp only [State.act, State.actOfLoop]
    split
    · rfl
    · split
      · simp [Verdict.core, table_cycleAct ‹_›]
      · rfl
      · simp [Verdict.core, table_cycleAct_over ‹_›]

lemma length_discard (t : Task) :
    (s.discard u t).table.handles.length = s.table.handles.length := by
  have hcycle (k : Cycle) : (s.discardCycle u k).table = s.table := by
    unfold State.discardCycle
    dsimp only
    split <;> simp
  cases t <;> simp [State.discard, hcycle]

lemma length_asked (h : Asked s s') : s'.table.handles.length = s.table.handles.length := by
  cases h <;> simp

/-- A session starts a process by a launch, and in no other way. -/
theorem launching_of_length (h : Happens cfg s s')
    (hlen : s.table.handles.length < s'.table.handles.length) :
    ∃ v, s.Launching cfg v ∧ ∃ k i name, s'.history =
      s.history ++ [.started v k (.process s.table.handles.length i name)] := by
  rcases h with h | h
  · cases h with
    | @acts v t h =>
      have hl : s.Launching cfg v := by
        by_contra hl
        exact Nat.ne_of_gt hlen (length_advance h hl)
      obtain ⟨r, audience, i, agenda, hs, ha, hb⟩ := id hl
      rw [hs] at h
      cases h
      obtain ⟨name, hH⟩ := history_of_launch audience v ha hb
      exact ⟨v, hl, _, i, name, hH⟩
    | dropped h => exact absurd (length_discard _) (Nat.ne_of_gt hlen)
    | news killed hp follows => simp at hlen
    | passes => exact absurd hlen (Nat.lt_irrefl _)
  · exact absurd (length_asked h) (Nat.ne_of_gt hlen)

end

end ChainRunner.Run
