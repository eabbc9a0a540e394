import ChainRunner.Proofs.Run.Change

/-!
What becomes of the tasks: a number is given to a task once, the task keeps its kind, and once it
is gone nothing takes its place.
-/

namespace ChainRunner.Run

/-- What a task can turn into. -/
inductive Task.Kin : Task → Task → Prop
  | refl (t : Task) : Kin t t
  | run {r r' : Course} {audience : Audience} (chain : r'.chain = r.chain)
    (vars : r'.vars = r.vars) (exits : r'.exitOnError = r.exitOnError) :
    Kin (.run r audience) (.run r' audience)
  | cycles {t t' : Task} (h : t.cycle?.isSome = true) (h' : t'.cycle?.isSome = true) : Kin t t'

namespace Task.Kin

variable {t t' t'' : Task}

lemma cycle_isSome (h : Kin t t') : t'.cycle?.isSome = t.cycle?.isSome := by
  cases h with
  | refl => rfl
  | run => rfl
  | cycles h h' => rw [h, h']

lemma trans (h : Kin t t') (h' : Kin t' t'') : Kin t t'' := by
  cases h with
  | refl => exact h'
  | run c v e =>
    cases h' with
    | refl => exact .run c v e
    | run c' v' e' => exact .run (c'.trans c) (v'.trans v) (e'.trans e)
    | cycles h => cases h
  | cycles h ht =>
    exact .cycles h (by rw [h'.cycle_isSome, ht])

lemma of_run {r : Course} {audience : Audience} (h : Kin (.run r audience) t) :
    ∃ r', t = .run r' audience ∧ r'.chain = r.chain ∧ r'.vars = r.vars ∧
      r'.exitOnError = r.exitOnError := by
  cases h with
  | refl => exact ⟨r, rfl, rfl, rfl, rfl⟩
  | run c v e => exact ⟨_, rfl, c, v, e⟩
  | cycles h => cases h

lemma of_waiter {p : ProcessId} {name : String} {owner : TaskId}
    (h : Kin (.waiter p name owner) t) : t = .waiter p name owner := by
  cases h with
  | refl => rfl
  | cycles h => cases h

lemma to_run {r : Course} {audience : Audience} (h : Kin t (.run r audience)) :
    ∃ r', t = .run r' audience ∧ r'.chain = r.chain ∧ r'.vars = r.vars ∧
      r'.exitOnError = r.exitOnError := by
  cases h with
  | refl => exact ⟨r, rfl, rfl, rfl, rfl⟩
  | run c v e => exact ⟨_, rfl, c.symm, v.symm, e.symm⟩
  | cycles _ h => cases h

lemma receive (w : TaskId) (a : Arrival) (t : Task) : Kin t (t.receive w a) := by
  cases t <;> first | exact .refl _ | exact .run rfl rfl rfl

lemma receiveRun (w : TaskId) (report : Option Report) (t : Task) :
    Kin t (t.receiveRun w report) := by
  cases t <;> first | exact .refl _ | exact .cycles rfl rfl

lemma quiet {m : Manifest} {r r' : Course} (h : r.Quiet m r') (audience : Audience) :
    Kin (.run r audience) (.run r' audience) := by
  cases h <;> exact .run rfl rfl rfl

end Task.Kin

/-- The tasks of one list that are left in another are of the same kind, and those that were
cancelled still are. -/
structure Keeps (ts ts' : List (Option Slot)) : Prop where
  length_le : ts.length ≤ ts'.length
  slot : ∀ {w : TaskId} {slot' : Slot}, w < ts.length → slotAt ts' w = some slot' →
    ∃ slot, slotAt ts w = some slot ∧ slot.task.Kin slot'.task ∧
      (slot.cancelled = true → slot'.cancelled = true)

namespace Keeps

variable {ts ts' ts'' : List (Option Slot)}

lemma kin (h : Keeps ts ts') {w : TaskId} {t' : Task} (hw : w < ts.length)
    (ht : taskAt ts' w = some t') : ∃ t, taskAt ts w = some t ∧ t.Kin t' := by
  obtain ⟨slot', hs', rfl⟩ := Option.map_eq_some_iff.1 ht
  obtain ⟨slot, hs, hk, -⟩ := h.slot hw hs'
  exact ⟨slot.task, by simp [taskAt, hs], hk⟩

lemma gone (h : Keeps ts ts') {w : TaskId} (hw : w < ts.length) (ht : taskAt ts w = none) :
    taskAt ts' w = none := by
  by_contra hsome
  obtain ⟨t', ht'⟩ := Option.ne_none_iff_exists'.1 hsome
  obtain ⟨t, ht'', -⟩ := h.kin hw ht'
  simp [ht] at ht''

/-- A run is gone, or it is a run for the same audience. -/
lemma run_after (h : Keeps ts ts') {t : TaskId} {r : Course} {audience : Audience}
    (ht : taskAt ts t = some (.run r audience)) :
    taskAt ts' t = none ∨ ∃ r', taskAt ts' t = some (.run r' audience) := by
  rcases hn : taskAt ts' t with _ | task'
  · exact .inl rfl
  · obtain ⟨task, hold, hkin⟩ := h.kin (lt_of_taskAt ht) hn
    rw [ht] at hold
    cases hold
    obtain ⟨r', rfl, -⟩ := hkin.of_run
    exact .inr ⟨r', rfl⟩

lemma refl (ts : List (Option Slot)) : Keeps ts ts :=
  ⟨Nat.le_refl _, fun _ h => ⟨_, h, .refl _, id⟩⟩

lemma trans (h : Keeps ts ts') (h' : Keeps ts' ts'') : Keeps ts ts'' where
  length_le := Nat.le_trans h.length_le h'.length_le
  slot hw hs := by
    obtain ⟨slot', hs', hk', hc'⟩ := h'.slot (Nat.lt_of_lt_of_le hw h.length_le) hs
    obtain ⟨slot, hs, hk, hc⟩ := h.slot hw hs'
    exact ⟨slot, hs, hk.trans hk', hc' ∘ hc⟩

lemma append (ts more : List (Option Slot)) : Keeps ts (ts ++ more) where
  length_le := by simp
  slot {w slot'} hw hs := by
    rw [slotAt, List.getElem?_append_left hw] at hs
    exact ⟨slot', hs, .refl _, id⟩

lemma set_none (ts : List (Option Slot)) (a : TaskId) : Keeps ts (ts.set a none) where
  length_le := by simp
  slot {w slot'} _ hs := by
    rw [slotAt_set_none] at hs
    split at hs
    · cases hs
    · exact ⟨slot', hs, .refl _, id⟩

lemma cancel (ts : List (Option Slot)) (ids : List TaskId) : Keeps ts (cancelAt ts ids) where
  length_le := by simp
  slot {w slot'} _ hs := by
    rw [slotAt_cancelAt] at hs
    obtain ⟨slot, hw, rfl⟩ := Option.map_eq_some_iff.1 hs
    exact ⟨slot, hw, .refl _, fun hc => by simp [hc]⟩

lemma map {a : TaskId} {f : Task → Task} (hf : ∀ t, taskAt ts a = some t → t.Kin (f t)) :
    Keeps ts (mapAt ts a f) where
  length_le := by simp
  slot {w slot'} _ hs := by
    rw [slotAt_mapAt] at hs
    split at hs
    · subst a
      obtain ⟨slot, hw, rfl⟩ := Option.map_eq_some_iff.1 hs
      exact ⟨slot, hw, hf _ (by simp [taskAt, hw]), id⟩
    · exact ⟨slot', hs, .refl _, id⟩

/-- One task has become another of its kind. -/
lemma put {a : TaskId} {t t' : Task} (h : taskAt ts a = some t) (hk : t.Kin t') :
    Keeps ts (mapAt ts a fun _ => t') :=
  map fun u hu => by
    rw [h] at hu
    cases hu
    exact hk

lemma report (self : TaskId) (report : Report) (audience : Audience) :
    Keeps ts (State.tellReport self report audience ts) := by
  cases audience with
  | barrier owner name => exact map fun t _ => .receive _ _ t
  | cycle owner => exact map fun t _ => .receiveRun _ _ t
  | caller label => exact .refl ts
  | nobody => exact .refl ts

lemma broken (self : TaskId) (b : Break) (audience : Audience) :
    Keeps ts (State.tellBreak self b audience ts) := by
  cases audience with
  | barrier owner name => exact map fun t _ => .receive _ _ t
  | cycle owner => exact map fun t _ => .receiveRun _ _ t
  | caller label => exact .refl ts
  | nobody => exact .refl ts

/-- A run has become another one while the list grew. -/
lemma grow {a : TaskId} {t t' : Task} (more : List (Option Slot)) (h : taskAt ts a = some t)
    (hk : t.Kin t') : Keeps ts (mapAt (ts ++ more) a fun _ => t') := by
  exact (append ts more).trans (put (taskAt_append h) hk)

lemma closes {self : TaskId} {t : Task} (h : taskAt ts self = some t)
    (ht : t.cycle?.isSome = true) {os : List (String × Outcome)} (hc : Closes ts self ts' os) :
    Keeps ts ts' := by
  cases hc with
  | gone => exact set_none ts self
  | again due => exact put h (.cycles ht rfl)

end Keeps

theorem Change.keeps {cfg : Setting} {c c' : Core} (h : Change cfg c c') :
    Keeps c.tasks c'.tasks := by
  cases h with
  | quiet h q => exact .put (taskAt_of_slotAt h) (.quiet q _)
  | launches name names now h ha hb => exact .grow _ (taskAt_of_slotAt h) (.run rfl rfl rfl)
  | awaits name names now h ha hb =>
    rw [List.append_assoc]
    exact .grow _ (taskAt_of_slotAt h) (.run rfl rfl rfl)
  | nests name names h ha ht hm => exact .grow _ (taskAt_of_slotAt h) (.run rfl rfl rfl)
  | misses names entries h ha ht hm => exact .put (taskAt_of_slotAt h) (.run rfl rfl rfl)
  | completes h ha hr hw hb => exact (Keeps.set_none ..).trans (.report ..)
  | breaks h hb => exact ((Keeps.cancel ..).trans (.set_none ..)).trans (.broken ..)
  | fails why now h hf he => exact ((Keeps.cancel ..).trans (.set_none ..)).trans (.broken ..)
  | settles failed code hw hp he =>
    exact (Keeps.set_none ..).trans (.map fun t _ => .receive _ _ t)
  | leaves h ht => exact .set_none ..
  | news hp follows => exact .refl _
  | locks h ht ht' hl => exact .put (taskAt_of_slotAt h) (.cycles (by simp [ht]) (by simp [ht']))
  | refused h ht hl hc => exact .closes (taskAt_of_slotAt h) (by simp [ht]) hc
  | drains h ht ht' =>
    refine .put (taskAt_of_slotAt h) (.cycles (by simp [ht]) ?_)
    rcases ht' with ht' | ht' <;> simp [ht']
  | triggers chain vars h ht => exact .append ..
  | cycles h ht ht' hk => exact .put (taskAt_of_slotAt h) (.cycles (by simp [ht]) (by simp [ht']))
  | releases h ht hc => exact .closes (taskAt_of_slotAt h) (by simp [ht]) hc
  | droppedRun h => exact (Keeps.cancel ..).trans (.set_none ..)
  | droppedCycle h ht => exact (Keeps.cancel ..).trans (.set_none ..)

theorem Request.keeps {c c' : Core} (h : Request c c') : Keeps c.tasks c'.tasks := by
  cases h with
  | run => exact .append ..
  | cycles ht => exact .append ..
  | push => exact .refl _
  | stop => exact .refl _
  | cancel => exact .cancel ..

end ChainRunner.Run
