import ChainRunner.Proofs.Run.Foreground

/-!
What happens in the background of a run leaves the foreground as it was.
-/

namespace ChainRunner.Run

/-- The tasks `F` and the processes `P` are as they were, and so is all that they see. -/
structure Aloof (F : List TaskId) (P : List ProcessId) (root : TaskId) (s s' : State) : Prop where
  tasks_le : s.tasks.length ≤ s'.tasks.length
  processes_le : s.table.handles.length ≤ s'.table.handles.length
  slots : ∀ t ∈ F, slotAt s'.tasks t = slotAt s.tasks t
  handles : ∀ p ∈ P, s'.table.get? p = s.table.get? p
  launches : ∀ p ∈ P, s'.launches[p]? = s.launches[p]?
  stops : ∀ p ∈ P, (s'.stoppedAt? p).isSome = (s.stoppedAt? p).isSome
  live : s'.table.live.filter (· ∈ P) = s.table.live.filter (· ∈ P)
  ready : s'.ready.filter (· ∈ F) = s.ready.filter (· ∈ F)
  queued : (∀ t ∈ s.ready, t < s.tasks.length) → ∀ t ∈ s'.ready, t < s'.tasks.length
  outcomes : s'.outcomes = s.outcomes
  front : Front.of root s'.history = Front.of root s.history

/-- Only the background has changed. -/
structure Spared (F : List TaskId) (P : List ProcessId) (root : TaskId) (s s' : State) : Prop where
  side : Side F P root s'.toCore
  aloof : Aloof F P root s s'

/-! ### What happens in the background -/

section

variable {F : List TaskId} {P : List ProcessId} {root id w : TaskId} {p : ProcessId}
  {s s' s'' : State} {task : Task} {f : Task → Task} {d : Deed}

lemma Aloof.refl (s : State) : Aloof F P root s s :=
  ⟨Nat.le_refl _, Nat.le_refl _, fun _ _ => rfl, fun _ _ => rfl, fun _ _ => rfl, fun _ _ => rfl,
    rfl, rfl, id, rfl, rfl⟩

lemma Aloof.trans (h : Aloof F P root s s') (h' : Aloof F P root s' s'') :
    Aloof F P root s s'' where
  tasks_le := Nat.le_trans h.tasks_le h'.tasks_le
  processes_le := Nat.le_trans h.processes_le h'.processes_le
  slots t ht := (h'.slots t ht).trans (h.slots t ht)
  handles p hp := (h'.handles p hp).trans (h.handles p hp)
  launches p hp := (h'.launches p hp).trans (h.launches p hp)
  stops p hp := (h'.stops p hp).trans (h.stops p hp)
  live := h'.live.trans h.live
  ready := h'.ready.trans h.ready
  queued := h'.queued ∘ h.queued
  outcomes := h'.outcomes.trans h.outcomes
  front := h'.front.trans h.front

/-- Where only the queue of the tasks has changed. -/
lemma Aloof.of_core (hcore : s'.toCore = s.toCore)
    (hready : s'.ready.filter (· ∈ F) = s.ready.filter (· ∈ F))
    (hqueued : ∀ t ∈ s'.ready, t ∈ s.ready ∨ t < s.tasks.length) : Aloof F P root s s' := by
  have hstop (p : ProcessId) : s'.stoppedAt? p = s.stoppedAt? p := congrArg (·.stops.lookup p) hcore
  exact ⟨Nat.le_of_eq (by rw [hcore]), Nat.le_of_eq (by rw [hcore]), fun _ _ => by rw [hcore],
    fun _ _ => by rw [hcore], fun _ _ => by rw [hcore], fun p _ => by rw [hstop], by rw [hcore],
    hready, fun h t ht => by rw [hcore]; exact (hqueued t ht).elim (h t) id, by rw [hcore],
    by rw [hcore]⟩

lemma filter_ready_enqueue (hid : id ∉ F) :
    (s.enqueue id).ready.filter (· ∈ F) = s.ready.filter (· ∈ F) := by
  unfold State.enqueue
  split
  · rfl
  · simp [List.filter_append, hid]

lemma filter_ready_wake (hid : id ∉ F) :
    (s.wake id).ready.filter (· ∈ F) = s.ready.filter (· ∈ F) := by
  unfold State.wake
  split
  · exact filter_ready_enqueue hid
  · rfl

lemma mem_ready_wake {t : TaskId} (h : t ∈ (s.wake id).ready) :
    t ∈ s.ready ∨ t < s.tasks.length := by
  unfold State.wake at h
  split at h
  · rename_i hs
    unfold State.enqueue at h
    split at h
    · exact .inl h
    · refine (List.mem_append.1 h).imp_right fun hin => ?_
      rw [List.mem_singleton.1 hin]
      obtain ⟨slot, hslot⟩ := Option.isSome_iff_exists.1 hs
      exact lt_of_slotAt hslot
  · exact .inl h

lemma length_stops {ps : List ProcessId} :
    (ps.foldl State.stop s).table.handles.length = s.table.handles.length := by
  induction ps generalizing s with
  | nil => rfl
  | cons p ps ih => simp [ih]

namespace Spared

lemma refl (h : Side F P root s.toCore) : Spared F P root s s := ⟨h, .refl s⟩

lemma trans (h : Spared F P root s s') (h' : Spared F P root s' s'') : Spared F P root s s'' :=
  ⟨h'.side, h.aloof.trans h'.aloof⟩

lemma wake (h : Side F P root s.toCore) (hid : id ∉ F) : Spared F P root s (s.wake id) := by
  refine ⟨?_, .of_core (State.toCore_wake s id) (filter_ready_wake hid) fun _ => mem_ready_wake⟩
  rw [State.toCore_wake]
  exact h

lemma note (h : Side F P root s.toCore)
    (hd : (Front.of root s.history).after d = Front.of root s.history) :
    Spared F P root s (s.note d) :=
  ⟨h.note (Front.of_concat.trans hd),
    { (Aloof.refl s : Aloof F P root s s) with front := Front.of_concat.trans hd }⟩

lemma map (h : Side F P root s.toCore) (hid : id ∉ F)
    (hb : ∀ task, taskAt s.tasks id = some task →
      Behind F s.tasks.length P s.table.handles.length task →
        Behind F s.tasks.length P s.table.handles.length (f task))
    (hf : ∀ task, taskAt s.tasks id = some task → ∀ r audience, f task = .run r audience →
      ∃ r' audience', task = .run r' audience') : Spared F P root s (s.mapTask id f) := by
  refine ⟨h.map (fun _ => hb) hf,
    { (Aloof.refl s : Aloof F P root s s) with
      tasks_le := Nat.le_of_eq (length_mapAt f).symm
      queued := fun hq t ht => Nat.lt_of_lt_of_eq (hq t ht) (length_mapAt f).symm
      slots := fun t ht => ?_ }⟩
  have hne : id ≠ t := fun heq => hid (heq ▸ ht)
  rw [State.toCore_mapTask, slotAt_mapAt, if_neg hne]

/-- A task in the background becomes another one. -/
lemma put {task' : Task} (h : Side F P root s.toCore) (hid : id ∉ F)
    (ht : taskAt s.tasks id = some task)
    (hb : Behind F s.tasks.length P s.table.handles.length task')
    (hf : ∀ r audience, task' = .run r audience → ∃ r' audience', task = .run r' audience') :
    Spared F P root s (s.setTask id task') := by
  refine map h hid (fun _ _ _ => hb) fun task₁ ht₁ => ?_
  cases ht.symm.trans ht₁
  exact hf

lemma arrive (h : Side F P root s.toCore) (hid : id ∉ F) (w : TaskId) (a : Arrival) :
    Spared F P root s (s.arrive id w a) := by
  have hmap : Spared F P root s (s.mapTask id (Task.receive w a)) := by
    refine map h hid (fun task _ hb => hb.receive w a) fun task _ r audience heq => ?_
    cases task <;> cases heq
    exact ⟨_, _, rfl⟩
  exact hmap.trans (wake hmap.side hid)

lemma drop (h : Side F P root s.toCore) (hid : id ∉ F) : Spared F P root s (s.drop id) := by
  refine ⟨h.gone id,
    { (Aloof.refl s : Aloof F P root s s) with
      tasks_le := Nat.le_of_eq List.length_set.symm
      queued := fun hq t ht => Nat.lt_of_lt_of_eq (hq t ht) List.length_set.symm
      slots := fun t ht => ?_ }⟩
  have hne : id ≠ t := fun heq => hid (heq ▸ ht)
  rw [State.toCore_drop, slotAt_set_none, if_neg hne]

lemma cancelAll (h : Side F P root s.toCore) {ids : List TaskId} (hids : ∀ w ∈ ids, w ∉ F) :
    Spared F P root s (s.cancelAll ids) := by
  induction ids generalizing s with
  | nil => exact refl h
  | cons w ids ih =>
    have hw : w ∉ F := hids w List.mem_cons_self
    have hmark : Spared F P root s { s with tasks := cancelAt s.tasks [w] } := by
      refine ⟨h.cancel [w], { (Aloof.refl s : Aloof F P root s s) with
        tasks_le := Nat.le_of_eq (length_cancelAt _).symm
        queued := fun hq t ht => Nat.lt_of_lt_of_eq (hq t ht) (length_cancelAt _).symm
        slots := fun t ht => ?_ }⟩
      have hne : t ≠ w := fun heq => hw (heq ▸ ht)
      rw [slotAt_cancelAt]
      rcases slotAt s.tasks t with _ | slot <;> simp [hne]
    have hone : Spared F P root s (s.cancel w) := hmark.trans (wake hmark.side hw)
    exact hone.trans (ih hone.side fun v hv => hids v (List.mem_cons_of_mem _ hv))

/-- One more task in the background. -/
lemma spawn (h : Side F P root s.toCore)
    (hb : Behind F (s.tasks.length + 1) P s.table.handles.length task) :
    Spared F P root s (s.spawn task).1 := by
  have hof : Front.of root (s.history ++ State.openingOf s.tasks.length task) =
      Front.of root s.history := by
    cases task <;> first | exact congrArg _ (List.append_nil _) | exact Front.of_concat
  refine ⟨h.grow _ _ (.inl rfl) (fun _ => hb) (fun t => ?_) (by rw [hof]),
    { (Aloof.refl s : Aloof F P root s s) with
      tasks_le := by simp
      slots := fun t ht => ?_
      ready := ?_
      queued := fun hq t ht => ?_
      front := hof }⟩
  · rw [hof]
    refine (or_iff_left fun hn => ?_).symm
    exact h.fresh (hn.1 ▸ hn.2.1)
  · rw [State.toCore_spawn, slotAt_concat, if_neg (Nat.ne_of_lt (h.tasks t ht))]
  · simp [State.spawn, List.filter_append, h.fresh]
  · have hlen : (s.spawn task).1.tasks.length = s.tasks.length + 1 := List.length_append
    rw [hlen]
    rcases List.mem_append.1 ht with ht | ht
    · exact Nat.lt_succ_of_lt (hq t ht)
    · exact List.mem_singleton.1 ht ▸ Nat.lt_succ_self _

lemma setWaiter (h : Side F P root s.toCore) (hp : p ∉ P) (hw : Outer F s.tasks.length w) :
    Spared F P root s (s.setWaiter p w) := by
  refine ⟨h.relaunch (by simp) fun q l hq hl => ?_,
    { Aloof.refl s with launches := fun q hq => ?_ }⟩
  · rw [List.getElem?_modify] at hl
    split at hl
    · subst q
      obtain ⟨l₀, hl₀, rfl⟩ := Option.map_eq_some_iff.1 hl
      refine .inr ⟨fun v hv => ?_, (h.wakes p l₀ hp hl₀).2⟩
      cases hv
      exact hw
    · exact .inl (by simpa using hl)
  · have hne : p ≠ q := fun heq => hp (heq ▸ hq)
    rw [State.toCore_setWaiter]
    simp [hne]

lemma setKeeper {k : TaskId} (h : Side F P root s.toCore) (hp : p ∉ P)
    (hk : Outer F s.tasks.length k) : Spared F P root s (s.setKeeper p k) := by
  refine ⟨h.relaunch (by simp) fun q l hq hl => ?_,
    { (Aloof.refl s : Aloof F P root s s) with launches := fun q hq => ?_ }⟩
  · rw [List.getElem?_modify] at hl
    split at hl
    · subst q
      obtain ⟨l₀, hl₀, rfl⟩ := Option.map_eq_some_iff.1 hl
      refine .inr ⟨(h.wakes p l₀ hp hl₀).1, fun v hv => ?_⟩
      cases hv
      exact hk
    · exact .inl (by simpa using hl)
  · have hne : p ≠ q := fun heq => hp (heq ▸ hq)
    simp [State.setKeeper, hne]

/-- A process starts in the background. -/
lemma enrol {i : Instance} (h : Side F P root s.toCore)
    (hd : (Front.of root s.history).after d = Front.of root s.history) :
    Spared F P root s (s.enrol i d) := by
  have hof : Front.of root (s.history ++ [d]) = Front.of root s.history :=
    Front.of_concat.trans hd
  refine ⟨h.enrol (.inl rfl) (by rw [hof]) (by rw [hof]; exact h.front),
    { (Aloof.refl s : Aloof F P root s s) with
      processes_le := Nat.le_trans (Nat.le_succ _) (Nat.le_of_eq (s.length_enrol i d).symm)
      handles := fun q hq => ProcessTable.get?_launch_of_lt _ _ _ (h.processes q hq)
      launches := fun q hq => ?_
      live := ?_
      front := hof }⟩
  · exact List.getElem?_append_left (h.launched ▸ h.processes q hq)
  · have hn : s.table.handles.length ∉ s.table.tracked := fun hin =>
      Nat.lt_irrefl _ (h.tracked _ hin)
    have hlive := s.table.live_launch { name := i.displayName, background := i.isBackground } s.now
      rfl hn
    simp [State.enrol, hlive, List.filter_append, h.fresh_process]


lemma keep (cfg : Setting) (h : Side F P root s.toCore) (hp : Outer P s.table.handles.length p) :
    Spared F P root s (s.keep cfg p) := by
  unfold State.keep
  split
  · have hspawn : Spared F P root s (s.spawn (.keeper p)).1 := spawn h (.keeper hp)
    exact hspawn.trans (setKeeper hspawn.side hp.out ⟨by simp, h.fresh⟩)
  · exact refl h

/-- A process is started in the background, and gets its keeper. -/
lemma launch {i : Instance} (cfg : Setting) (h : Side F P root s.toCore)
    (hd : (Front.of root s.history).after d = Front.of root s.history) :
    Spared F P root s ((s.enrol i d).keep cfg s.table.handles.length) := by
  have henrol : Spared F P root s (s.enrol i d) := enrol h hd
  refine henrol.trans (keep cfg henrol.side ⟨?_, h.fresh_process⟩)
  exact Nat.lt_of_lt_of_eq (Nat.lt_succ_self _) (s.length_enrol i d).symm

/-- The table of the processes has changed, but neither their number nor those of `P`. -/
lemma table {t : ProcessTable} {stops : List (ProcessId × Nat)} (h : Side F P root s.toCore)
    (hlen : t.handles.length = s.table.handles.length) (htr : t.tracked = s.table.tracked)
    (hget : ∀ q ∈ P, t.get? q = s.table.get? q)
    (hasked : ∀ e ∈ stops, e.1 < s.table.handles.length)
    (hstops : ∀ q ∈ P, (stops.lookup q).isSome = (s.stoppedAt? q).isSome) :
    Spared F P root s { s with table := t, stops } := by
  refine ⟨{ h.table hlen htr with asked := hlen ▸ hasked },
    { (Aloof.refl s : Aloof F P root s s) with
      processes_le := Nat.le_of_eq hlen.symm
      handles := hget
      stops := hstops
      live := ?_ }⟩
  simp only [ProcessTable.live, List.filter_filter, htr]
  refine List.filter_congr fun q _ => ?_
  by_cases hq : q ∈ P
  · simp only [ProcessTable.hasEnded, hget q hq]
  · simp [hq]

lemma stop (h : Side F P root s.toCore) (hp : Outer P s.table.handles.length p) :
    Spared F P root s (s.stop p) := by
  have hne (q : ProcessId) (hq : q ∈ P) : p ≠ q := fun heq => hp.out (heq ▸ hq)
  have htable : Spared F P root s { s with
      table := s.table.terminate (fun _ => true) p, stops := s.stops ++ [(p, s.now)] } := by
    refine table h (by simp) rfl (fun q hq => ?_) (fun e he => ?_) fun q hq => ?_
    · rw [ProcessTable.terminate, ProcessTable.get?_update, if_neg (hne q hq)]
    · rcases List.mem_append.1 he with he | he
      · exact h.asked e he
      · exact List.mem_singleton.1 he ▸ hp.lt
    · have hqp : (q == p) = false := by simpa using Ne.symm (hne q hq)
      simp [State.stoppedAt?, List.lookup_append, List.lookup_cons, hqp]
  unfold State.stop
  dsimp only
  split
  · rename_i k hk
    obtain ⟨l, hl, hlk⟩ := Option.bind_eq_some_iff.1 hk
    exact htable.trans (wake htable.side ((h.wakes p l hp.out hl).2 k hlk).out)
  · exact htable

lemma stops (h : Side F P root s.toCore)
    (ps : List ProcessId) (hps : ∀ p ∈ ps, Outer P s.table.handles.length p) :
    Spared F P root s (ps.foldl State.stop s) := by
  induction ps generalizing s with
  | nil => exact .refl h
  | cons p ps ih =>
    have hstop : Spared F P root s (s.stop p) := .stop h (hps p List.mem_cons_self)
    refine hstop.trans (ih hstop.side fun q hq => ?_)
    simpa using hps q (List.mem_cons_of_mem _ hq)

/-- There is news of a process in the background. -/
lemma putHandle {hd : Handle} {killed : Bool} (h : Side F P root s.toCore) (hp : p ∉ P) :
    Spared F P root s (s.putHandle p hd killed) := by
  have htable : Spared F P root s { s with table := s.table.update p fun _ => hd } := by
    refine table h (by simp) rfl (fun q hq => ?_) h.asked fun _ _ => rfl
    have hne : p ≠ q := fun heq => hp (heq ▸ hq)
    rw [ProcessTable.get?_update, if_neg hne]
  have hended := note htable.side (d := .ended p) rfl
  have hlog (log : List Event) : Spared F P root s
      ({ s with table := s.table.update p fun _ => hd, log }.note (.ended p)) :=
    ⟨hended.side, { (htable.trans hended).aloof with }⟩
  unfold State.putHandle
  dsimp only
  split
  · split
    · rename_i w hw
      obtain ⟨l, hl, hlw⟩ := Option.bind_eq_some_iff.1 hw
      have hl' := hlog (s.log ++ [.ended s.now p hd.code hd.failed killed])
      exact hl'.trans (wake hl'.side ((h.wakes p l hp hl).1 w hlw).out)
    · exact hlog _
  · exact htable

lemma endProcess {stderr killed : Bool} {code : Option Int} (h : Side F P root s.toCore)
    (hp : p ∉ P) : Spared F P root s (s.endProcess p stderr code killed) := by
  unfold State.endProcess
  split
  · exact refl h
  · exact putHandle h hp

end Spared

end

/-! ### Runs in the background -/

/-- What a run in the background finds when it acts. -/
structure Offstage (F : List TaskId) (P : List ProcessId) (root : TaskId) (s : State)
    (id : TaskId) (r : Course) (audience : Audience) : Prop where
  side : Side F P root s.toCore
  out : Outer F s.tasks.length id
  unseen : id ∉ (Front.of root s.history).runs
  exits : r.exitOnError = false
  waiting : ∀ w ∈ r.waiting, Outer F s.tasks.length w
  told : audience = .nobody ∨
    ∃ owner name, audience = .barrier owner name ∧ Outer F s.tasks.length owner

/-- Whatever the task does, only the background changes. A task that goes on is a run. -/
inductive Verdict.Spares (F : List TaskId) (P : List ProcessId) (root : TaskId) (s : State)
    (self : TaskId) : Verdict → Prop
  | goesOn {s' : State} {r : Course} {audience : Audience} (spared : Spared F P root s s')
    (offstage : Offstage F P root s' self r audience) : Spares F P root s self
      (.goes s' (.run r audience))
  | rests : Spares F P root s self .rests
  | ends {s' : State} (spared : Spared F P root s s') : Spares F P root s self (.over s')

section

variable {cfg : Setting} {F : List TaskId} {P : List ProcessId} {root self : TaskId}
  {s s' : State} {r r' : Course} {audience : Audience} {v : Verdict} {i : Instance}

lemma Front.after_started {f : Front} {k : Nat} {x : Member} (h : self ∉ f.runs) :
    f.after (.started self k x) = f := by
  cases x with
  | process p i name => exact if_neg fun hn => h hn.1
  | chain t target mode name => exact if_neg fun hn => h hn.1
  | missing target mode => rfl

lemma Front.after_background (f : Front) (t : TaskId) (k : Nat) (p : ProcessId) (name : String)
    (h : i.isBackground = true) : f.after (.started t k (.process p i name)) = f :=
  if_neg fun hn => by simp [h] at hn

lemma Verdict.Spares.after (h : Spared F P root s s') (hv : v.Spares F P root s' self) :
    v.Spares F P root s self := by
  cases hv with
  | goesOn hs ho => exact .goesOn (h.trans hs) ho
  | rests => exact .rests
  | ends hs => exact .ends (h.trans hs)

namespace Offstage

lemma spared (h : Offstage F P root s self r audience) (hs : Spared F P root s s') :
    Offstage F P root s' self r audience where
  side := hs.side
  out := h.out.mono hs.aloof.tasks_le fun _ _ => id
  unseen := hs.aloof.front ▸ h.unseen
  exits := h.exits
  waiting w hw := (h.waiting w hw).mono hs.aloof.tasks_le fun _ _ => id
  told := h.told.imp_right fun ⟨owner, name, heq, ho⟩ =>
    ⟨owner, name, heq, ho.mono hs.aloof.tasks_le fun _ _ => id⟩

lemma course (h : Offstage F P root s self r audience) (he : r'.exitOnError = r.exitOnError)
    (hw : ∀ w ∈ r'.waiting, w ∈ r.waiting ∨ Outer F s.tasks.length w) :
    Offstage F P root s self r' audience :=
  { h with
    exits := he.trans h.exits
    waiting := fun w hin => (hw w hin).elim (h.waiting w) id }

lemma behind (h : Offstage F P root s self r audience) :
    Behind F s.tasks.length P s.table.handles.length (.run r audience) :=
  .run h.exits h.waiting h.told

lemma noteStarted (h : Offstage F P root s self r audience) (k : Nat) (x : Member) :
    Spared F P root s (s.note (.started self k x)) :=
  .note h.side (Front.after_started h.unseen)

end Offstage

/-! ### The actions of a run -/

lemma Spared.conclude (h : Side F P root s.toCore) (report : Report)
    (told : audience = .nobody ∨
      ∃ owner name, audience = .barrier owner name ∧ Outer F s.tasks.length owner) :
    Spared F P root s (s.conclude self report audience) := by
  rcases told with rfl | ⟨owner, name, rfl, ho⟩
  · exact ⟨{ h with }, { (Aloof.refl s : Aloof F P root s s) with }⟩
  · exact .arrive h ho.out ..

lemma Spared.breakOff (h : Side F P root s.toCore) (b : Break)
    (told : audience = .nobody ∨
      ∃ owner name, audience = .barrier owner name ∧ Outer F s.tasks.length owner) :
    Spared F P root s (s.breakOff self b audience) := by
  rcases told with rfl | ⟨owner, name, rfl, ho⟩
  · exact ⟨{ h with }, { (Aloof.refl s : Aloof F P root s s) with }⟩
  · exact .arrive h ho.out ..

namespace Offstage

lemma giveUp (h : Offstage F P root s self r audience) (b : Break) :
    (Course.giveUp s self audience r b).Spares F P root s self := by
  have hnote : Spared F P root s (s.note (.brokeOff self b)) := .note h.side rfl
  have hcancel := hnote.trans (.cancelAll hnote.side fun w hw => (h.waiting w hw).out)
  have hdrop := hcancel.trans (.drop hcancel.side h.out.out)
  exact .ends (hdrop.trans (.breakOff hdrop.side b (h.spared hdrop).told))

lemma complete (h : Offstage F P root s self r audience) :
    (Course.complete s self audience r).Spares F P root s self := by
  have hdrop : Spared F P root s (s.drop self) := .drop h.side h.out.out
  have hnote := hdrop.trans (.note (d := .completed self (reportOf r s.table)) hdrop.side rfl)
  exact .ends (hnote.trans (.conclude hnote.side _ (h.spared hnote).told))

lemma enter (h : Offstage F P root s self r audience) (name : String) (failed : Bool)
    (code : Option Int) (why : Failure) :
    (Course.enter s self audience r name failed code why).Spares F P root s self := by
  simp only [Course.enter, h.exits]
  split
  · exact .goesOn (.refl h.side) (h.course h.exits.symm fun w hw => .inl hw)
  · have hflags : Spared F P root s { s with failure := true, warned := true } :=
      ⟨{ h.side with }, { (Aloof.refl s : Aloof F P root s s) with }⟩
    exact .goesOn hflags ((h.spared hflags).course h.exits.symm fun w hw => .inl hw)

lemma enterArrival (h : Offstage F P root s self r audience) (a : Arrival) :
    (Course.enterArrival s self audience r a).Spares F P root s self := by
  cases a with
  | settled name failed code => exact h.enter ..
  | broken why => exact h.giveUp _

lemma startChain (h : Offstage F P root s self r audience) (target expr : String) (mode : Mode) :
    (Course.startChain s self audience r target expr mode).Spares F P root s self := by
  unfold Course.startChain
  dsimp only
  generalize r.names.unique target = u
  obtain ⟨name, names⟩ := u
  have hspawned (a : Audience) (told : a = .nobody ∨
      ∃ owner name, a = .barrier owner name ∧ Outer F (s.tasks.length + 1) owner) :
      Spared F P root s ((s.spawn (.run (r.nested expr mode) a)).1.note
        (.started self r.batch (.chain s.tasks.length target mode name))) := by
    have hspawn : Spared F P root s (s.spawn (.run (r.nested expr mode) a)).1 :=
      .spawn h.side (.run (by simp [Course.nested, Course.start, h.exits])
        (by simp [Course.nested, Course.start]) told)
    exact hspawn.trans ((h.spared hspawn).noteStarted ..)
  split
  · have hspawn := hspawned .nobody (.inl rfl)
    exact .goesOn hspawn ((h.spared hspawn).course rfl fun w hw => .inl hw)
  · have hspawn := hspawned (.barrier self name)
      (.inr ⟨self, name, rfl, h.out.mono (Nat.le_succ _) fun _ _ => id⟩)
    refine .goesOn hspawn ((h.spared hspawn).course rfl fun w hw => ?_)
    refine (List.mem_append.1 hw).imp_right fun hw => ?_
    rw [List.mem_singleton.1 hw]
    exact ⟨by simp [State.note], h.side.fresh⟩

lemma missStep (h : Offstage F P root s self r audience) (target : String) (mode : Mode) :
    (Course.missStep s self audience r target mode).Spares F P root s self := by
  unfold Course.missStep
  dsimp only
  have hflag : Spared F P root s { s with complained := true } :=
    ⟨{ h.side with }, { (Aloof.refl s : Aloof F P root s s) with }⟩
  have hnote := hflag.trans ((h.spared hflag).noteStarted r.batch (.missing target mode))
  have hafter := h.spared hnote
  split
  · refine .after hnote (enter ?_ ..)
    exact hafter.course rfl fun w hw => .inl hw
  · exact .goesOn hnote (hafter.course rfl fun w hw => .inl hw)

lemma startInstance (hcfg : cfg.Sound) (h : Offstage F P root s self r audience) (i : Instance) :
    (Course.startInstance cfg s self audience r i).Spares F P root s self := by
  unfold Course.startInstance
  dsimp only
  generalize r.names.unique i.displayName = u
  obtain ⟨name, names⟩ := u
  obtain ⟨s₁, hlaunch, hnote⟩ := State.launch_eq hcfg s { i with displayName := name }
    (.started self r.batch (.process s.table.handles.length i name)) h.side.launched
  rw [hlaunch]
  dsimp only
  rw [hnote]
  have hstart := Spared.launch (i := { i with displayName := name }) cfg h.side
    (Front.after_started (x := .process s.table.handles.length i name) (k := r.batch) h.unseen)
  have hp : s.table.handles.length < (((s.enrol { i with displayName := name }
      (.started self r.batch (.process s.table.handles.length i name))).keep cfg
        s.table.handles.length).table.handles.length) := by simp [State.length_enrol]
  generalize (s.enrol { i with displayName := name } _).keep cfg _ = s₂ at hstart hp
  have hafter := h.spared hstart
  split
  · exact .goesOn hstart (hafter.course rfl fun w hw => .inl hw)
  · have hspawn : Spared F P root s₂ (s₂.spawn (.waiter s.table.handles.length name self)).1 :=
      .spawn hafter.side (.waiter ⟨hp, h.side.fresh_process⟩
        (hafter.out.mono (Nat.le_succ _) fun _ _ => id))
    have hw : Outer F (s₂.spawn (.waiter s.table.handles.length name self)).1.tasks.length
        s₂.tasks.length := ⟨by simp, hafter.side.fresh⟩
    have hset := hspawn.trans (.setWaiter hspawn.side h.side.fresh_process hw)
    refine .goesOn (hstart.trans hset) ((hafter.spared hset).course rfl fun w hin => ?_)
    refine (List.mem_append.1 hin).imp_right fun hin => ?_
    rw [List.mem_singleton.1 hin]
    simpa using hw

lemma startStep (h : Offstage F P root s self r audience) (step : Step) :
    (Course.startStep cfg s self audience r step).Spares F P root s self := by
  unfold Course.startStep
  split
  · exact .goesOn (.refl h.side) h
  · split
    · exact .goesOn (.refl h.side) (h.course rfl fun w hw => .inl hw)
    · exact h.startChain ..
    · exact h.missStep ..

lemma act (hcfg : cfg.Sound) (h : Offstage F P root s self r audience) :
    (r.act cfg s self audience).Spares F P root s self := by
  unfold Course.act
  split
  · refine startInstance hcfg ?_ _
    exact h.course rfl fun w hw => .inl hw
  · refine startStep ?_ _
    exact h.course rfl fun w hw => .inl hw
  · refine enterArrival ?_ _
    exact h.course rfl fun w hw => .inl hw
  · split
    · split
      · exact h.complete
      · exact .goesOn (.refl h.side) (h.course rfl fun w hw => .inl hw)
    · exact .rests

end Offstage

/-! ### The turn of a task -/

variable {task : Task}

lemma Side.offstage (h : Side F P root s.toCore) (hid : self ∉ F)
    (ht : taskAt s.tasks self = some (.run r audience))
    (hb : Behind F s.tasks.length P s.table.handles.length (.run r audience)) :
    Offstage F P root s self r audience := by
  cases hb with
  | run exits waiting told =>
    have hunseen : self ∉ (Front.of root s.history).runs := fun hin => hid ((h.runs _ _ _ ht).1 hin)
    exact ⟨h, ⟨lt_of_taskAt ht, hid⟩, hunseen, exits, waiting, told⟩

/-- Whatever a task in the background does next, it leaves the foreground alone. -/
lemma Side.act (hcfg : cfg.Sound) (h : Side F P root s.toCore) (hid : self ∉ F)
    (ht : taskAt s.tasks self = some task)
    (hb : Behind F s.tasks.length P s.table.handles.length task) :
    (s.act cfg self task).Spares F P root s self := by
  cases hb with
  | run exits waiting told => exact (h.offstage hid ht (.run exits waiting told)).act hcfg
  | waiter hp told =>
    unfold State.act State.actOfWaiter
    dsimp only
    split
    · have hdrop : Spared F P root s (s.drop self) := .drop h hid
      exact .ends (hdrop.trans (.arrive hdrop.side told.out ..))
    · exact .rests
  | keeper hp =>
    unfold State.act State.actOfKeeper
    dsimp only
    have hdrop : Spared F P root s (s.drop self) := .drop h hid
    split
    · exact .ends hdrop
    · split
      · exact .ends (hdrop.trans (.endProcess hdrop.side hp.out))
      · exact .rests

lemma run_of_goes (h : s.act cfg self task = .goes s' (.run r audience)) :
    ∃ r' audience', task = .run r' audience' := by
  cases task with
  | run r' audience' => exact ⟨r', audience', rfl⟩
  | waiter | keeper | tick | loop =>
    simp only [State.act, State.actOfWaiter, State.actOfKeeper, State.actOfTick,
      State.actOfLoop] at h
    repeat' split at h
    all_goals cases h

lemma taskAt_of_goes {task' : Task} (h : s.act cfg self task = .goes s' task')
    (ht : taskAt s.tasks self = some task) : taskAt s'.tasks self = some task := by
  obtain ⟨slot, hs, rfl⟩ := Option.map_eq_some_iff.1 ht
  exact taskAt_of_slotAt (slotAt_of_grown (tasks_of_goes h) hs)

lemma taskAt_setTask (h : taskAt s.tasks self = some task) (task' : Task) :
    taskAt (s.setTask self task').tasks self = some task' := by
  rw [State.toCore_setTask, taskAt_mapAt, if_pos rfl, h]
  rfl

lemma Side.goOn (hcfg : cfg.Sound) (h : Side F P root s.toCore) (hid : self ∉ F)
    (ht : taskAt s.tasks self = some task)
    (hb : Behind F s.tasks.length P s.table.handles.length task) :
    Spared F P root s (State.goOn cfg self s task) := by
  have hact := h.act hcfg hid ht hb
  fun_induction State.goOn cfg self s task with
  | case1 s task s' task' heq ih =>
    rw [heq] at hact
    cases hact with
    | @goesOn s' r audience spared offstage =>
      have ht' := taskAt_of_goes heq ht
      have hput : Spared F P root s' (s'.setTask self (.run r audience)) :=
        .put spared.side hid ht' offstage.behind fun _ _ _ => run_of_goes heq
      have hself := taskAt_setTask ht' (.run r audience)
      have hoffstage := offstage.spared hput
      exact (spared.trans hput).trans
        (ih hput.side hself hoffstage.behind (hput.side.act hcfg hid hself hoffstage.behind))
  | case2 s task heq => exact .refl h
  | case3 s task s' heq =>
    rw [heq] at hact
    cases hact with
    | ends spared => exact spared

lemma Side.discard (h : Side F P root s.toCore) (hid : self ∉ F)
    (hb : Behind F s.tasks.length P s.table.handles.length task) :
    Spared F P root s (s.discard self task) := by
  cases hb with
  | run exits waiting told =>
    have hcancel : Spared F P root s (s.cancelAll _) := .cancelAll h fun w hw => (waiting w hw).out
    exact hcancel.trans (.drop hcancel.side hid)
  | waiter hp told => exact .drop h hid
  | keeper hp => exact .drop h hid

/-- The turn of a task in the background. -/
theorem Side.turn (hcfg : cfg.Sound) (h : Side F P root s.toCore) (hid : self ∉ F) :
    Spared F P root s (s.turn cfg self) := by
  unfold State.turn
  split
  · exact .refl h
  · rename_i task hs
    exact h.discard hid (h.behind self _ hid hs)
  · rename_i task hs
    exact h.goOn hcfg hid (taskAt_of_slotAt hs) (h.behind self _ hid hs)

/-- The first task in the queue is in the background and has its turn. -/
theorem Side.step {ready : List TaskId} (hcfg : cfg.Sound) (h : Side F P root s.toCore)
    (hready : s.ready = self :: ready) (hid : self ∉ F) :
    Spared F P root s (({ s with ready } : State).turn cfg self) := by
  have hpop : Spared F P root s { s with ready } :=
    ⟨h, .of_core rfl (by simp [hready, hid]) fun t ht => .inl (hready ▸ List.mem_cons_of_mem _ ht)⟩
  exact hpop.trans (hpop.side.turn hcfg hid)

end

end ChainRunner.Run
