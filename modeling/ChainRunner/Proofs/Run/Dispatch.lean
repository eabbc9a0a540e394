import ChainRunner.Proofs.Run.Failure

/-!
The runs that a dispatch cycle triggers.

A cycle opens one run for each chain that its paths trigger, waits for these runs, and enters the
report of each once. What a cycle does is described in one place, `CycleActs`; all that others do
to it is to tell it that a run of it is over, `Told`.
-/

namespace ChainRunner.Run

open Relation

/-- What a task has to do with cycles: it makes them, or it is a run that serves one. -/
inductive Duty
  /-- The label is that of a task that makes a single cycle. -/
  | cycle (label : Option String) (k : Cycle)
  | serves (t : TaskId)

def Task.duty? : Task → Option Duty
  | .tick label k => some (.cycle (some label) k)
  | .loop _ k => some (.cycle none k)
  | .run _ (.cycle t) => some (.serves t)
  | _ => none

/-- The duty of the task at a number. -/
def dutyAt (ts : List (Option Slot)) (id : TaskId) : Option Duty := (taskAt ts id).bind Task.duty?

/-- The cycle learns that one of its runs is over. -/
def Duty.receive (w : TaskId) (a : Option Report) : Duty → Duty
  | .cycle label k => .cycle label (k.receive w a)
  | d => d

section

variable {cfg : Setting} {ts : List (Option Slot)} {a id t w : TaskId} {task task' : Task} {d : Duty}
  {label : Option String} {k : Cycle}

lemma dutyAt_of_taskAt (h : taskAt ts id = some task) : dutyAt ts id = task.duty? := by
  simp [dutyAt, h]

lemma dutyAt_of_gone (h : taskAt ts id = none) : dutyAt ts id = none := by simp [dutyAt, h]

lemma exists_taskAt_of_duty (h : dutyAt ts id = some d) :
    ∃ task, taskAt ts id = some task ∧ task.duty? = some d := Option.bind_eq_some_iff.1 h

lemma lt_of_dutyAt (h : dutyAt ts id = some d) : id < ts.length := by
  obtain ⟨task, ht, -⟩ := exists_taskAt_of_duty h
  exact lt_of_taskAt ht

lemma Task.exists_duty (h : task.cycle? = some k) :
    ∃ label, task.duty? = some (.cycle label k) := by
  cases task <;> cases h
  · exact ⟨_, rfl⟩
  · exact ⟨_, rfl⟩

lemma Task.run_of_duty (h : task.duty? = some (.serves t)) :
    ∃ r, task = .run r (.cycle t) := by
  unfold Task.duty? at h
  split at h <;> cases h
  exact ⟨_, rfl⟩

lemma dutyAt_serves :
    dutyAt ts w = some (.serves t) ↔ ∃ r, taskAt ts w = some (.run r (.cycle t)) := by
  constructor
  · intro h
    obtain ⟨task, ht, hd⟩ := exists_taskAt_of_duty h
    obtain ⟨r, rfl⟩ := Task.run_of_duty hd
    exact ⟨r, ht⟩
  · rintro ⟨r, h⟩
    exact dutyAt_of_taskAt h

lemma dutyAt_mapAt {f : Task → Task}
    (hf : ∀ task, taskAt ts a = some task → (f task).duty? = task.duty?) :
    dutyAt (mapAt ts a f) id = dutyAt ts id := by
  unfold dutyAt
  rw [taskAt_mapAt]
  split
  · subst id
    cases h : taskAt ts a with
    | none => rfl
    | some task => exact hf task h
  · rfl

lemma dutyAt_put (h : taskAt ts a = some task) :
    dutyAt (mapAt ts a fun _ => task') id = if a = id then task'.duty? else dutyAt ts id := by
  unfold dutyAt
  rw [taskAt_mapAt]
  split
  · subst id
    simp [h]
  · rfl

@[simp] lemma dutyAt_set_none :
    dutyAt (ts.set a none) id = if a = id then none else dutyAt ts id := by
  unfold dutyAt
  rw [taskAt_set_none]
  split <;> rfl

@[simp] lemma dutyAt_cancelAt (ids : List TaskId) :
    dutyAt (cancelAt ts ids) id = dutyAt ts id := by simp [dutyAt]

lemma dutyAt_append {more : List (Option Slot)}
    (hmore : ∀ slot, some slot ∈ more → slot.task.duty? = none) :
    dutyAt (ts ++ more) id = dutyAt ts id := by
  rcases Nat.lt_or_ge id ts.length with hlt | hge
  · rw [dutyAt, dutyAt, taskAt, taskAt, slotAt, slotAt, List.getElem?_append_left hlt]
  · have hold : dutyAt ts id = none :=
      Option.eq_none_iff_forall_ne_some.2 fun _ h => Nat.not_lt.2 hge (lt_of_dutyAt h)
    rw [hold]
    refine Option.eq_none_iff_forall_ne_some.2 fun d h => ?_
    obtain ⟨task, ht, hd⟩ := exists_taskAt_of_duty h
    obtain ⟨slot, hs, rfl⟩ := Option.map_eq_some_iff.1 ht
    rw [hmore slot (slot_of_append hge hs)] at hd
    cases hd

lemma dutyAt_gone (h : dutyAt ts a = none) : dutyAt (ts.set a none) id = dutyAt ts id := by
  rw [dutyAt_set_none]
  split
  · subst id
    exact h.symm
  · rfl

lemma dutyAt_grow {more : List (Option Slot)} (h : taskAt ts a = some task)
    (ht : task'.duty? = task.duty?)
    (hmore : ∀ slot, some slot ∈ more → slot.task.duty? = none) :
    dutyAt (mapAt (ts ++ more) a fun _ => task') id = dutyAt ts id := by
  rw [dutyAt_mapAt fun u hu => ?_, dutyAt_append hmore]
  rw [taskAt_append h] at hu
  cases hu
  exact ht

lemma duty?_receive (w : TaskId) (b : Arrival) (task : Task) :
    (task.receive w b).duty? = task.duty? := by
  cases task with
  | run r audience => cases audience <;> rfl
  | _ => rfl

lemma duty?_receiveRun (w : TaskId) (r : Option Report) (task : Task) :
    (task.receiveRun w r).duty? = task.duty?.map (Duty.receive w r) := by
  cases task with
  | run r audience => cases audience <;> rfl
  | _ => rfl

lemma duty?_run (r r' : Course) (audience : Audience) :
    (Task.run r audience).duty? = (Task.run r' audience).duty? := by
  cases audience <;> rfl

end

/-! ### What others do to a cycle -/

/-- Nothing, or they tell it that a run of it is over. -/
inductive Told (c c' : Core) : Prop
  | same (h : ∀ u, dutyAt c'.tasks u = dutyAt c.tasks u)
  | told {t w : TaskId} {r : Course} (a : Option Report)
    (hw : taskAt c.tasks w = some (.run r (.cycle t)))
    (h : ∀ u, dutyAt c'.tasks u =
      if u = w then none
      else if u = t then (dutyAt c.tasks u).map (Duty.receive w a) else dutyAt c.tasks u)
    (ha : (∃ report, a = some report ∧ .completed w report ∈ c'.history) ∨
      ∃ b, .brokeOff w b ∈ c'.history)

/-- What is done by tasks that make no cycles. -/
structure Aside (c c' : Core) : Prop where
  told : Told c c'
  answers : ∀ {label : String} {r : Option CycleReport},
    (label, .cycle r) ∈ c'.outcomes → (label, .cycle r) ∈ c.outcomes
  drains : ∀ {t : TaskId} {ps : List String},
    .drained t ps ∈ c'.history → .drained t ps ∈ c.history

section

variable {cfg : Setting} {c c' : Core} {self t : TaskId} {r : Course} {audience : Audience}
  {b : Bool} {ts : List (Option Slot)}

lemma Told.served {a : Option Report} (hs : taskAt c.tasks self = some (.run r (.cycle t)))
    (hts : ∀ u, dutyAt ts u = if self = u then none else dutyAt c.tasks u)
    (htasks : c'.tasks = mapAt ts t (Task.receiveRun self a))
    (ha : (∃ report, a = some report ∧ .completed self report ∈ c'.history) ∨
      ∃ b, .brokeOff self b ∈ c'.history) : Told c c' := by
  refine .told a hs (fun u => ?_) ha
  have hmap : dutyAt c'.tasks u =
      if t = u then (dutyAt ts u).map (Duty.receive self a) else dutyAt ts u := by
    rw [htasks, dutyAt, dutyAt, taskAt_mapAt]
    split
    · cases taskAt ts u <;> simp [duty?_receiveRun]
    · rfl
  rw [hmap, hts]
  by_cases hself : u = self
  · simp [hself]
  · simp [hself, Ne.symm hself, eq_comm]

lemma Told.unserved (hs : taskAt c.tasks self = some (.run r audience))
    (hd : (Task.run r audience).duty? = none)
    (hts : ∀ u, dutyAt ts u = if self = u then none else dutyAt c.tasks u)
    (htasks : ∀ u, dutyAt c'.tasks u = dutyAt ts u) : Told c c' := by
  refine .same fun u => ?_
  rw [htasks, hts]
  split
  · subst u
    rw [dutyAt_of_taskAt hs, hd]
  · rfl

/-- A run breaks off: if it is one of a cycle, the cycle learns of it. -/
lemma Told.breakOff {b : Break} (hs : taskAt c.tasks self = some (.run r audience))
    (htasks : c'.tasks =
      State.tellBreak self b audience ((cancelAt c.tasks r.waiting).set self none))
    (hb : .brokeOff self b ∈ c'.history) : Told c c' := by
  have hgone (u : TaskId) : dutyAt ((cancelAt c.tasks r.waiting).set self none) u =
      if self = u then none else dutyAt c.tasks u := by simp
  cases audience with
  | cycle t => exact .served hs hgone htasks (.inr ⟨b, hb⟩)
  | barrier owner name =>
    refine .unserved hs rfl hgone fun u => ?_
    rw [htasks]
    exact dutyAt_mapAt fun _ _ => duty?_receive ..
  | caller label | nobody => exact .unserved hs rfl hgone fun u => congrArg (dutyAt · u) htasks

/-- What a change leaves alone that a task makes that makes cycles. -/
def LeavesOthers (c c' : Core) : Prop :=
  ∀ u task, taskAt c.tasks u = some task → task.cycle? = none → taskAt c'.tasks u = some task

lemma taskAt_put_ne {t' task task₁ : Task} {u : TaskId} (hs : taskAt ts self = some task₁)
    (hne : task₁.cycle?.isSome = true) (ht : taskAt ts u = some task) (hn : task.cycle? = none) :
    taskAt (mapAt ts self fun _ => t') u = some task := by
  rw [taskAt_mapAt, if_neg]
  · exact ht
  · rintro rfl
    cases hs.symm.trans ht
    simp [hn] at hne

lemma taskAt_set_none_ne {task task₁ : Task} {u : TaskId} (hs : taskAt ts self = some task₁)
    (hne : task₁.cycle?.isSome = true) (ht : taskAt ts u = some task) (hn : task.cycle? = none) :
    taskAt (ts.set self none) u = some task := by
  rw [taskAt_set_none, if_neg]
  · exact ht
  · rintro rfl
    cases hs.symm.trans ht
    simp [hn] at hne

lemma LeavesOthers.closes {ts' : List (Option Slot)} {os : List (String × Outcome)} {task : Task}
    (hs : taskAt c.tasks self = some task) (hne : task.cycle?.isSome = true)
    (hc : Closes c.tasks self ts' os) (htasks : c'.tasks = ts') : LeavesOthers c c' := by
  intro u task' ht hn
  rw [htasks]
  cases hc with
  | gone => exact taskAt_set_none_ne hs hne ht hn
  | again => exact taskAt_put_ne hs hne ht hn

/-- A change is made by a task that makes cycles, and leaves others alone, or it is made aside. -/
theorem Change.aside (hc : Change cfg c c') (h : Tended c) : Aside c c' ∨ LeavesOthers c c' := by
  have hput {self : TaskId} {r r' : Course} {audience : Audience}
      (hs : slotAt c.tasks self = some ⟨.run r audience, false⟩) (u : TaskId) :
      dutyAt (mapAt c.tasks self fun _ => .run r' audience) u = dutyAt c.tasks u :=
    dutyAt_mapAt fun task ht => by
      cases (taskAt_of_slotAt hs).symm.trans ht
      exact duty?_run ..
  -- nothing of this is about a queue
  have hdrain {ds : List Deed} (hds : ∀ t ps, Deed.drained t ps ∉ ds) {t : TaskId}
      {ps : List String} (hin : .drained t ps ∈ c.history ++ ds) : .drained t ps ∈ c.history :=
    (List.mem_append.1 hin).resolve_right (hds t ps)
  cases hc with
  | quiet hs q => exact .inl ⟨.same (hput hs), id, id⟩
  | launches name names now hs ha hb =>
    exact .inl ⟨.same fun u => dutyAt_grow (taskAt_of_slotAt hs) (duty?_run ..)
      (forall_keeperSlots rfl), id, hdrain (by simp)⟩
  | awaits name names now hs ha hb =>
    refine .inl ⟨.same fun u => ?_, id, hdrain (by simp)⟩
    dsimp only
    rw [List.append_assoc]
    exact dutyAt_grow (taskAt_of_slotAt hs) (duty?_run ..) (forall_waiterSlots rfl rfl)
  | nests name names hs ha ht hm =>
    refine .inl ⟨.same fun u => ?_, id, hdrain (by simp)⟩
    refine dutyAt_grow (taskAt_of_slotAt hs) (duty?_run ..) (forall_slot_singleton ?_)
    unfold audienceOf
    split <;> rfl
  | misses names entries hs ha ht hm => exact .inl ⟨.same (hput hs), id, hdrain (by simp)⟩
  | @completes self r audience hs ha hr hw hb =>
    have hself := taskAt_of_slotAt hs
    have hts (u : TaskId) : dutyAt (c.tasks.set self none) u =
        if self = u then none else dutyAt c.tasks u := dutyAt_set_none
    refine .inl ⟨?_, fun hin => ?_, hdrain (by simp)⟩
    · cases audience with
      | cycle t => exact .served hself hts rfl (.inl ⟨_, rfl, by simp⟩)
      | barrier owner name =>
        exact .unserved hself rfl hts fun u => dutyAt_mapAt fun _ _ => duty?_receive ..
      | caller label | nobody => exact .unserved hself rfl hts fun u => rfl
    · refine (List.mem_append.1 hin).resolve_right fun hin => ?_
      cases audience <;> simp [State.answerReport] at hin
  | @breaks self r audience b hs hb =>
    refine .inl ⟨.breakOff (taskAt_of_slotAt hs) rfl (by simp), fun hin => ?_, hdrain (by simp)⟩
    refine (List.mem_append.1 hin).resolve_right fun hin => ?_
    cases b <;> cases audience <;> simp [State.answerBreak] at hin
  | @fails self r audience ds why now hs hf he =>
    refine .inl ⟨.breakOff (taskAt_of_slotAt hs) rfl (by simp), fun hin => ?_,
      hdrain fun t ps hin => ?_⟩
    · refine (List.mem_append.1 hin).resolve_right fun hin => ?_
      cases audience <;> simp [State.answerBreak] at hin
    · simpa using hf.mem_deeds hin
  | settles failed code hw hp he =>
    refine .inl ⟨.same fun u => ?_, id, id⟩
    rw [dutyAt_mapAt fun _ _ => duty?_receive ..]
    exact dutyAt_gone (dutyAt_of_taskAt (taskAt_of_slotAt hw))
  | leaves hs ht =>
    refine .inl ⟨.same fun u => dutyAt_gone ((dutyAt_of_taskAt (taskAt_of_slotAt hs)).trans ?_),
      id, id⟩
    rcases ht with ⟨-, p, name, owner, rfl⟩ | ⟨p, rfl⟩ <;> rfl
  | news hp follows =>
    exact .inl ⟨.same fun u => rfl, id, fun hin => mem_of_mem_ite_concat (by simp) hin⟩
  | locks hs ht ht' =>
    exact .inr fun u task hu hn => taskAt_put_ne (taskAt_of_slotAt hs) (by simp [ht]) hu hn
  | drains hs ht ht' =>
    exact .inr fun u task hu hn => taskAt_put_ne (taskAt_of_slotAt hs) (by simp [ht]) hu hn
  | cycles hs ht ht' hk =>
    exact .inr fun u task hu hn => taskAt_put_ne (taskAt_of_slotAt hs) (by simp [ht]) hu hn
  | triggers chain vars hs ht => exact .inr fun u task hu hn => taskAt_append hu
  | refused hs ht hl hcl => exact .inr (.closes (taskAt_of_slotAt hs) (by simp [ht]) hcl rfl)
  | releases hs ht hcl => exact .inr (.closes (taskAt_of_slotAt hs) (by simp [ht]) hcl rfl)
  | droppedRun hs =>
    obtain ⟨o, name, rfl, -⟩ := h.cancelled_run hs
    refine .inl ⟨.unserved (taskAt_of_slotAt hs) rfl (fun u => ?_) fun u => rfl, id, id⟩
    rw [dutyAt_set_none, dutyAt_cancelAt]
  | @droppedCycle self t k hs ht =>
    have hself : taskAt (cancelAt c.tasks k.waiting) self = some t := by
      rw [taskAt_cancelAt]
      exact taskAt_of_slotAt hs
    refine .inr fun u task hu hn => taskAt_set_none_ne hself (by simp [ht]) ?_ hn
    rw [taskAt_cancelAt]
    exact hu

end

/-! ### What a cycle does -/

/-- What the history says of the runs that are opened at the numbers from `n` on. -/
def openings (n : TaskId) (es : List (String × Variables)) : List Deed :=
  (es.zipIdx n).map fun e => .opened e.2 e.1.1 e.1.2 false

def triggeredSlots (self : TaskId) (es : List (String × Variables)) : List (Option Slot) :=
  es.map fun e => some ⟨.run (.start e.1 e.2 false) (.cycle self), false⟩

/-- A task goes on with its cycle. -/
inductive Task.Proceeds (k k' : Cycle) : Task → Task → Prop
  | tick (label : String) : Proceeds k k' (.tick label k) (.tick label k')
  | loop (due due' : Nat) : Proceeds k k' (.loop due k) (.loop due' k')

/-- The cycle of a task is over, with its result. -/
inductive Task.Returns (ts : List (Option Slot)) (self : TaskId) (k : Cycle)
    (result : Option CycleReport) : Task → List (Option Slot) → List (String × Outcome) → Prop
  | tick (label : String) :
    Returns ts self k result (.tick label k) (ts.set self none) [(label, .cycle result)]
  | loop (due due' : Nat) :
    Returns ts self k result (.loop due k) (mapAt ts self fun _ => .loop due' .idle) []

/-- The cycle has runs to wait for and none to enter. -/
def Cycle.Waits (k : Cycle) : Prop := ∃ d, k = .running d ∧ d.arrived = [] ∧ d.waiting ≠ []

/-- What an action of the task `self` that makes cycles comes to. -/
inductive CycleActs (cfg : Setting) (self : TaskId) (task : Task) (c : Core) : Core → Prop
  | rests (h : (∃ k, task.cycle? = some k ∧ k.Waits) ∨ ∃ due, task = .loop due .idle) :
    CycleActs cfg self task c c
  | locks {task' : Task} (h : task.Proceeds .idle .locked task') :
    CycleActs cfg self task c
      { c with
        tasks := mapAt c.tasks self fun _ => task'
        pending := { c.pending with locked := true }
        history := c.history ++ [.locked self] }
  | drains {k' : Cycle} {task' : Task} (h : task.Proceeds .locked k' task')
    (hk : k' = if c.pending.toList = [] then .finished none else .loaded c.pending.toList) :
    CycleActs cfg self task c
      { c with
        tasks := mapAt c.tasks self fun _ => task'
        pending := { c.pending with paths := .empty }
        history := c.history ++ [.drained self c.pending.toList] }
  | triggers {paths : List String} {es : List (String × Variables)} {task' : Task}
    (hes : es = (Watch.planDispatch paths cfg.rules).entries)
    (h : task.Proceeds (.loaded paths)
      (.running { paths, waiting := List.range' c.tasks.length es.length }) task') :
    CycleActs cfg self task c
      { c with
        tasks := mapAt (c.tasks ++ triggeredSlots self es) self fun _ => task'
        history := c.history ++ openings c.tasks.length es }
  | enters {d : Dispatch} {task' : Task} (ha : d.arrived ≠ [])
    (h : task.Proceeds (.running d)
      (.running { d with arrived := [], runs := d.runs ++ d.arrived.filterMap id }) task') :
    CycleActs cfg self task c
      { c with
        tasks := mapAt c.tasks self fun _ => task'
        failure := c.failure || d.arrived.any Option.isNone }
  | finishes {d : Dispatch} {task' : Task} (ha : d.arrived = []) (hw : d.waiting = [])
    (h : task.Proceeds (.running d) (.finished (some ⟨d.paths, d.runs⟩)) task') :
    CycleActs cfg self task c { c with tasks := mapAt c.tasks self fun _ => task' }
  | refused {ts : List (Option Slot)} {os : List (String × Outcome)}
    (h : task.Returns c.tasks self .idle none ts os) :
    CycleActs cfg self task c
      { c with
        tasks := ts
        history := c.history ++ [.returned self]
        outcomes := c.outcomes ++ os }
  | releases {result : Option CycleReport} {ts : List (Option Slot)} {os : List (String × Outcome)}
    (h : task.Returns c.tasks self (.finished result) result ts os) :
    CycleActs cfg self task c
      { c with
        tasks := ts
        pending := { c.pending with locked := false }
        history := c.history ++ [.unlocked self, .returned self]
        outcomes := c.outcomes ++ os }

section

variable {cfg : Setting} {s s' : State} {self : TaskId} {task task' : Task} {k k' : Cycle}
  {paths : List String}

lemma duty?_proceeds (h : task.Proceeds k k' task') :
    ∃ label, task.duty? = some (.cycle label k) ∧ task'.duty? = some (.cycle label k') := by
  cases h with
  | tick label => exact ⟨some label, rfl, rfl⟩
  | loop due due' => exact ⟨none, rfl, rfl⟩

lemma forall₂_openings {es : List (String × Variables)} {n : TaskId} {H : List Deed}
    (hH : openings n es ⊆ H) :
    List.Forall₂ (fun e w => .opened w e.1 e.2 false ∈ H) es (List.range' n es.length) := by
  induction es generalizing n with
  | nil => exact .nil
  | cons e es ih =>
    rw [openings, List.zipIdx_cons, List.map_cons, List.cons_subset] at hH
    exact .cons hH.1 (ih hH.2)

lemma dutyAt_triggered {ts : List (Option Slot)} {es : List (String × Variables)} {u : TaskId} :
    dutyAt (ts ++ triggeredSlots self es) u =
      if ts.length ≤ u ∧ u < ts.length + es.length then some (.serves self) else dutyAt ts u := by
  unfold dutyAt taskAt slotAt triggeredSlots
  rcases Nat.lt_or_ge u ts.length with hlt | hge
  · rw [List.getElem?_append_left hlt, if_neg fun h => Nat.not_lt.2 h.1 hlt]
  · rw [List.getElem?_append_right hge, List.getElem?_map]
    split
    · rename_i h
      rw [List.getElem?_eq_getElem (Nat.sub_lt_left_of_lt_add hge h.2)]
      rfl
    · rename_i h
      have hout : es.length ≤ u - ts.length :=
        Nat.le_sub_of_add_le' (Nat.not_lt.1 fun hlt => h ⟨hge, hlt⟩)
      rw [List.getElem?_eq_none hout, List.getElem?_eq_none hge]
      rfl

lemma trigger_eq (cfg : Setting) (s : State) (self : TaskId) (paths : List String)
    {es : List (String × Variables)} (hes : es = (Watch.planDispatch paths cfg.rules).entries) :
    (Cycle.trigger cfg s self paths).1.toCore =
      { s.toCore with
        tasks := s.tasks ++ triggeredSlots self es
        history := s.history ++ openings s.tasks.length es } ∧
    (Cycle.trigger cfg s self paths).2 =
      { paths, waiting := List.range' s.tasks.length es.length } := by
  unfold Cycle.trigger
  rw [← hes]
  suffices h : ∀ (s : State) (d : Dispatch), ((es.foldl
      (fun (st : State × Dispatch) e =>
        let r := st.1.spawn (.run (.start e.1 e.2 false) (.cycle self))
        (r.1, { st.2 with waiting := st.2.waiting ++ [r.2] })) (s, d)).1.toCore =
      { s.toCore with
        tasks := s.tasks ++ triggeredSlots self es
        history := s.history ++ openings s.tasks.length es }) ∧
      ((es.foldl
      (fun (st : State × Dispatch) e =>
        let r := st.1.spawn (.run (.start e.1 e.2 false) (.cycle self))
        (r.1, { st.2 with waiting := st.2.waiting ++ [r.2] })) (s, d)).2 =
      { d with waiting := d.waiting ++ List.range' s.tasks.length es.length }) by
    simpa using h s { paths }
  clear hes
  induction es with
  | nil => simp [triggeredSlots, openings]
  | cons e es ih =>
    intro s d
    simp only [List.foldl_cons]
    obtain ⟨hcore, hd⟩ := ih (s.spawn (.run (.start e.1 e.2 false) (.cycle self))).1
      { d with waiting := d.waiting ++ [(s.spawn (.run (.start e.1 e.2 false) (.cycle self))).2] }
    refine ⟨hcore.trans ?_, hd.trans ?_⟩
    · simp [triggeredSlots, openings, State.openingOf, List.zipIdx_cons, Course.start]
    · simp [List.range'_succ]

/-- How a task that makes cycles goes on with one. -/
lemma acts_of_goes (hp : task.Proceeds k k' task') (hact : k.act cfg s self = .goes s' k') :
    CycleActs cfg self task s.toCore
      { s'.toCore with tasks := mapAt s'.tasks self fun _ => task' } := by
  cases k with
  | idle =>
    simp only [Cycle.act, Cycle.begin] at hact
    split at hact <;> cases hact
    exact .locks hp
  | locked =>
    simp only [Cycle.act, Cycle.load] at hact
    cases hact
    refine .drains hp ?_
    simp [Watch.Pending.drain]
  | loaded paths =>
    simp only [Cycle.act] at hact
    cases hact
    obtain ⟨hcore, hd⟩ := trigger_eq cfg s self paths rfl
    rw [hd] at hp
    have hstep : CycleActs cfg self task s.toCore _ := .triggers rfl hp
    rw [hcore]
    exact hstep
  | running d =>
    simp only [Cycle.act] at hact
    split at hact
    · rename_i ha
      cases hact
      exact .enters (by simpa using ha) hp
    · rename_i ha
      split at hact <;> cases hact
      rename_i hw
      exact .finishes (by simpa using ha) (by simpa using hw) hp
  | finished r => cases hact

lemma acts_of_over {result : Option CycleReport} {ts : List (Option Slot)}
    {os : List (String × Outcome)} (hr : task.Returns s.tasks self k result ts os)
    (hact : k.act cfg s self = .over s' result) :
    CycleActs cfg self task s.toCore
      { s'.toCore with tasks := ts, outcomes := s'.outcomes ++ os } := by
  cases k with
  | idle =>
    simp only [Cycle.act, Cycle.begin] at hact
    split at hact <;> cases hact
    exact .refused hr
  | locked => cases hact
  | loaded paths => cases hact
  | running d =>
    simp only [Cycle.act] at hact
    split at hact
    · cases hact
    · split at hact <;> cases hact
  | finished r =>
    simp only [Cycle.act, Cycle.release] at hact
    cases hact
    have hstep : CycleActs cfg self task s.toCore _ := .releases hr
    simpa [Watch.Pending.unlock] using hstep

lemma waits_of_rests (hact : k.act cfg s self = .rests) : k.Waits := by
  cases k with
  | idle =>
    simp only [Cycle.act, Cycle.begin] at hact
    split at hact <;> cases hact
  | locked | loaded | finished => cases hact
  | running d =>
    simp only [Cycle.act] at hact
    split at hact
    · cases hact
    · rename_i ha
      split at hact
      · cases hact
      · rename_i hw
        exact ⟨d, rfl, by simpa using ha, by simpa using hw⟩

/-- Whatever a task does that makes cycles, it is one of these. -/
theorem acts_of_cycle (cfg : Setting) (s : State) (self : TaskId) (h : task.cycle? = some k) :
    CycleActs cfg self task s.toCore (s.advance cfg self task).toCore := by
  cases task with
  | tick label k₀ =>
    cases h
    simp only [State.advance, State.act, State.actOfTick]
    rcases hact : k.act cfg s self with ⟨s', k'⟩ | _ | ⟨s', r⟩
    · exact acts_of_goes (.tick label) hact
    · exact .rests (.inl ⟨k, rfl, waits_of_rests hact⟩)
    · have hstep := acts_of_over (.tick label) hact
      rw [← tasks_cycleAct_over hact] at hstep
      exact hstep
  | loop due k₀ =>
    cases h
    simp only [State.advance, State.act, State.actOfLoop]
    split
    · rename_i heq
      split at heq
      · cases heq
      · rcases hact : k.act cfg s self with ⟨s', k'⟩ | _ | ⟨s', r⟩ <;> rw [hact] at heq <;> cases heq
        · exact acts_of_goes (.loop due _) hact
        · have hstep := acts_of_over (.loop due (if k.holdsLock then due else
            nextDue cfg s.clock due)) hact
          rw [← tasks_cycleAct_over hact, List.append_nil] at hstep
          exact hstep
    · rename_i heq
      split at heq
      · rename_i hrests
        have hidle : k = .idle := by cases k <;> first | rfl | simp [Cycle.holdsLock] at hrests
        exact .rests (.inr ⟨due, hidle ▸ rfl⟩)
      · rcases hact : k.act cfg s self with ⟨s', k'⟩ | _ | ⟨s', r⟩ <;> rw [hact] at heq <;> cases heq
        exact .rests (.inl ⟨k, rfl, waits_of_rests hact⟩)
    · rename_i heq
      split at heq
      · cases heq
      · cases hact : k.act cfg s self <;> rw [hact] at heq <;> cases heq
  | _ => cases h

end

end ChainRunner.Run
