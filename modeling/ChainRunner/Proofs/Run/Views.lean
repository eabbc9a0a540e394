import ChainRunner.Proofs.Process.Table
import ChainRunner.Run.Machine
import Mathlib.Tactic.Common

/-!
What the operations on a session do to its core: the tasks that stand at their numbers, the
handles of the processes, and the history. The rest of a session is bookkeeping.
-/

namespace ChainRunner.Run

/-! ### Task lists -/

def slotAt (ts : List (Option Slot)) (id : TaskId) : Option Slot := (ts[id]?).join

/-- The task with a number, whether it is cancelled or not. -/
def taskAt (ts : List (Option Slot)) (id : TaskId) : Option Task := (slotAt ts id).map Slot.task

@[simp] lemma Core.slot?_eq (c : Core) (id : TaskId) : c.slot? id = slotAt c.tasks id := rfl

/-- The task list with another task at a number. -/
def mapAt (ts : List (Option Slot)) (id : TaskId) (f : Task → Task) : List (Option Slot) :=
  ts.modify id (Option.map fun slot => { slot with task := f slot.task })

/-- The task list with some tasks cancelled. -/
def cancelAt (ts : List (Option Slot)) (ids : List TaskId) : List (Option Slot) :=
  ids.foldl
    (fun ts id => ts.modify id (Option.map fun slot => { slot with cancelled := true })) ts

section

variable {ts : List (Option Slot)} {id a : TaskId}

lemma lt_of_slotAt {slot : Slot} (h : slotAt ts id = some slot) : id < ts.length := by
  by_contra hc
  simp [slotAt, List.getElem?_eq_none (Nat.le_of_not_lt hc)] at h

lemma lt_of_taskAt {t : Task} (h : taskAt ts id = some t) : id < ts.length := by
  obtain ⟨slot, hs, -⟩ := Option.map_eq_some_iff.1 h
  exact lt_of_slotAt hs

lemma taskAt_of_slotAt {t : Task} {b : Bool} (h : slotAt ts id = some ⟨t, b⟩) :
    taskAt ts id = some t := by simp [taskAt, h]

lemma taskAt_append {more : List (Option Slot)} {t : Task} (h : taskAt ts id = some t) :
    taskAt (ts ++ more) id = some t := by
  rw [taskAt, slotAt, List.getElem?_append_left (lt_of_taskAt h)]
  exact h

@[simp] lemma slotAt_set_none :
    slotAt (ts.set a none) id = if a = id then none else slotAt ts id := by
  by_cases h : a = id <;> simp [slotAt, List.getElem?_set, h]
  split <;> rfl

@[simp] lemma taskAt_set_none :
    taskAt (ts.set a none) id = if a = id then none else taskAt ts id := by
  unfold taskAt
  rw [slotAt_set_none]
  split <;> rfl

@[simp] lemma slotAt_concat (slot : Slot) :
    slotAt (ts ++ [some slot]) id = if id = ts.length then some slot else slotAt ts id := by
  unfold slotAt
  rcases Nat.lt_trichotomy id ts.length with h | rfl | h
  · rw [List.getElem?_append_left h, if_neg (Nat.ne_of_lt h)]
  · simp
  · rw [List.getElem?_eq_none (by simp; omega), List.getElem?_eq_none (Nat.le_of_lt h),
      if_neg (Nat.ne_of_gt h)]

@[simp] lemma taskAt_concat (slot : Slot) :
    taskAt (ts ++ [some slot]) id = if id = ts.length then some slot.task else taskAt ts id := by
  unfold taskAt
  rw [slotAt_concat]
  split <;> rfl

@[simp] lemma length_mapAt (f : Task → Task) : (mapAt ts a f).length = ts.length := by simp [mapAt]

@[simp] lemma slotAt_mapAt (f : Task → Task) : slotAt (mapAt ts a f) id =
    if a = id then (slotAt ts id).map fun slot => { slot with task := f slot.task }
    else slotAt ts id := by
  unfold slotAt mapAt
  rw [List.getElem?_modify]
  rcases ts[id]? with _ | _ | slot <;> split <;> rfl

@[simp] lemma taskAt_mapAt (f : Task → Task) :
    taskAt (mapAt ts a f) id = if a = id then (taskAt ts id).map f else taskAt ts id := by
  unfold taskAt
  rw [slotAt_mapAt]
  split
  · rcases slotAt ts id with _ | slot <;> rfl
  · rfl

lemma slotAt_mapAt_concat (h : a < ts.length) (slot : Slot) (f : Task → Task) :
    slotAt (mapAt (ts ++ [some slot]) a f) ts.length = some slot := by
  rw [slotAt_mapAt, if_neg (Nat.ne_of_lt h), slotAt_concat, if_pos rfl]

@[simp] lemma length_cancelAt (ids : List TaskId) : (cancelAt ts ids).length = ts.length := by
  unfold cancelAt
  induction ids generalizing ts with
  | nil => rfl
  | cons i ids ih => rw [List.foldl_cons, ih, List.length_modify]

@[simp] lemma slotAt_cancelAt (ids : List TaskId) : slotAt (cancelAt ts ids) id =
    (slotAt ts id).map fun slot => { slot with cancelled := slot.cancelled || id ∈ ids } := by
  unfold cancelAt
  induction ids generalizing ts with
  | nil => cases h : slotAt ts id <;> simp [h]
  | cons i ids ih =>
    rw [List.foldl_cons, ih]
    unfold slotAt
    rw [List.getElem?_modify]
    by_cases h : i = id
    · subst h
      rcases ts[i]? with _ | _ | slot <;> simp
    · rcases ts[id]? with _ | _ | slot <;> simp [h, Ne.symm h]

@[simp] lemma taskAt_cancelAt (ids : List TaskId) : taskAt (cancelAt ts ids) id = taskAt ts id := by
  unfold taskAt
  rw [slotAt_cancelAt]
  rcases slotAt ts id with _ | slot <;> rfl

end

lemma ite_concat {α : Type} (b : Bool) (H : List α) (d : α) :
    (if b then H ++ [d] else H) = H ++ if b then [d] else [] := by
  cases b <;> simp

lemma mem_of_mem_ite_concat {α : Type} {b : Bool} {H : List α} {d e : α} (hne : e ≠ d)
    (h : e ∈ if b then H ++ [d] else H) : e ∈ H := by
  rw [ite_concat] at h
  exact (List.mem_append.1 h).resolve_right (by simp [hne])

/-- Where an element stands in a list that has grown at its end. -/
lemma concat_eq_append_cons {α : Type} {H pre post : List α} {d e : α}
    (h : H ++ [d] = pre ++ e :: post) :
    (H = pre ∧ d = e) ∨ ∃ post', post = post' ++ [d] ∧ H = pre ++ e :: post' := by
  rcases List.eq_nil_or_concat post with rfl | ⟨post', d', rfl⟩
  · obtain ⟨rfl, hlast⟩ := List.append_inj' h rfl
    exact .inl ⟨rfl, (List.cons.inj hlast).1⟩
  · rw [List.concat_eq_append, ← List.cons_append, ← List.append_assoc] at h
    obtain ⟨rfl, hlast⟩ := List.append_inj' h rfl
    exact .inr ⟨post', by rw [List.concat_eq_append, hlast], rfl⟩

/-- An element that is not among the new ones stands where it stood. -/
lemma eq_append_cons_of_not_mem {α : Type} {H new pre post : List α} {e : α}
    (h : H ++ new = pre ++ e :: post) (he : e ∉ new) : ∃ post', H = pre ++ e :: post' := by
  rcases List.append_eq_append_iff.1 h with ⟨as, -, hnew⟩ | ⟨bs, rfl, hbs⟩
  · exact absurd (by simp [hnew]) he
  · cases bs with
    | nil => exact absurd (by rw [List.nil_append] at hbs; simp [← hbs]) he
    | cons b bs =>
      cases (List.cons.inj hbs).1
      exact ⟨bs, rfl⟩

/-- The record of a process that was started for an instance, under a display name. -/
structure Launch.Shows (l : Launch) (i : Instance) (name : String) : Prop where
  script : l.script = i.script
  name : l.name = name
  command : l.command = i.command
  background : l.background = i.isBackground

/-! ### Operations on a session -/

namespace State

variable (s : State)

@[simp] lemma toCore_note (d : Deed) :
    (s.note d).toCore = { s.toCore with history := s.history ++ [d] } := rfl

@[simp] lemma toCore_outcome (l : String) (o : Outcome) :
    (s.outcome l o).toCore = { s.toCore with outcomes := s.outcomes ++ [(l, o)] } := rfl

@[simp] lemma toCore_setWaiter (p : ProcessId) (w : TaskId) :
    (s.setWaiter p w).toCore =
      { s.toCore with launches := s.launches.modify p fun l => { l with waiter := some w } } := rfl

@[simp] lemma toCore_wake (id : TaskId) : (s.wake id).toCore = s.toCore := by
  unfold wake enqueue
  split
  · split <;> rfl
  · rfl

@[simp] lemma toCore_mapTask (id : TaskId) (f : Task → Task) :
    (s.mapTask id f).toCore = { s.toCore with tasks := mapAt s.tasks id f } := rfl

@[simp] lemma toCore_setTask (id : TaskId) (t : Task) :
    (s.setTask id t).toCore = { s.toCore with tasks := mapAt s.tasks id fun _ => t } := rfl

@[simp] lemma toCore_drop (id : TaskId) :
    (s.drop id).toCore = { s.toCore with tasks := s.tasks.set id none } := rfl

@[simp] lemma toCore_spawn (t : Task) : (s.spawn t).1.toCore =
    { s.toCore with
      tasks := s.tasks ++ [some ⟨t, false⟩]
      history := s.history ++ openingOf s.tasks.length t } := rfl

@[simp] lemma snd_spawn (t : Task) : (s.spawn t).2 = s.tasks.length := rfl

@[simp] lemma toCore_cancel (id : TaskId) :
    (s.cancel id).toCore = { s.toCore with tasks := cancelAt s.tasks [id] } := by
  simp [cancel, cancelAt]

@[simp] lemma toCore_cancelAll (ids : List TaskId) :
    (s.cancelAll ids).toCore = { s.toCore with tasks := cancelAt s.tasks ids } := by
  unfold cancelAll
  induction ids generalizing s with
  | nil => rfl
  | cons i ids ih =>
    rw [List.foldl_cons, ih, toCore_cancel]
    rfl

@[simp] lemma toCore_arrive (owner member : TaskId) (a : Arrival) :
    (s.arrive owner member a).toCore =
      { s.toCore with tasks := mapAt s.tasks owner (Task.receive member a) } := by
  simp [arrive]

@[simp] lemma toCore_arriveCycle (owner member : TaskId) (r : Option Report) :
    (s.arriveCycle owner member r).toCore =
      { s.toCore with tasks := mapAt s.tasks owner (Task.receiveRun member r) } := by
  simp [arriveCycle]

/-- What the audience of a run that came to its end learns. -/
def tellReport (self : TaskId) (report : Report) :
    Audience → List (Option Slot) → List (Option Slot)
  | .barrier owner name, ts =>
    mapAt ts owner (Task.receive self (.settled name report.failed none))
  | .cycle owner, ts => mapAt ts owner (Task.receiveRun self (some report))
  | _, ts => ts

/-- What the audience of a run that broke off learns. -/
def tellBreak (self : TaskId) (b : Break) : Audience → List (Option Slot) → List (Option Slot)
  | .barrier owner _, ts => mapAt ts owner (Task.receive self (.broken b.why))
  | .cycle owner, ts => mapAt ts owner (Task.receiveRun self none)
  | _, ts => ts

@[simp] lemma length_tellReport (ts : List (Option Slot)) (self : TaskId) (report : Report)
    (audience : Audience) : (tellReport self report audience ts).length = ts.length := by
  cases audience <;> simp [tellReport]

@[simp] lemma length_tellBreak (ts : List (Option Slot)) (self : TaskId) (b : Break)
    (audience : Audience) : (tellBreak self b audience ts).length = ts.length := by
  cases audience <;> simp [tellBreak]

/-- What the caller of a run that came to its end learns. -/
def answerReport (report : Report) : Audience → List (String × Outcome)
  | .caller label => [(label, .run (.ok report))]
  | _ => []

/-- What the caller of a run that broke off learns. -/
def answerBreak : Break → Audience → List (String × Outcome)
  | .failure why, .caller label => [(label, .run (.error why))]
  | _, _ => []

@[simp] lemma toCore_conclude (self : TaskId) (report : Report) (audience : Audience) :
    (s.conclude self report audience).toCore =
      { s.toCore with
        tasks := tellReport self report audience s.tasks
        outcomes := s.outcomes ++ answerReport report audience } := by
  cases audience <;> simp [conclude, tellReport, answerReport]

@[simp] lemma toCore_breakOff (self : TaskId) (b : Break) (audience : Audience) :
    (s.breakOff self b audience).toCore =
      { s.toCore with
        tasks := tellBreak self b audience s.tasks
        outcomes := s.outcomes ++ answerBreak b audience } := by
  cases b <;> cases audience <;> simp [breakOff, tellBreak, answerBreak, Break.why]

@[simp] lemma toCore_push (path : String) : (s.push path).toCore =
    { s.toCore with
      pending := s.pending.push path
      history := s.history ++ [.pushed path] } := rfl

/-! ### Processes -/

variable {s} {s' : State} {cfg : Setting} {i : Instance} {p : ProcessId}

lemma launch_eq_none (h : s.launch cfg i = (s', none)) :
    ∃ n, cfg.breaksDown i.script n = true := by
  simp only [launch] at h
  split at h
  · exact ⟨_, ‹_›⟩
  · split at h <;> cases h

lemma snd_launch (cfg : Setting) (i : Instance) (s : State) : (s.launch cfg i).2 =
    if cfg.breaksDown i.script ((s.attempts.get? i.script).getD 0) then none
    else some s.table.handles.length := by
  unfold launch
  dsimp only
  split <;> rfl

lemma toCore_launch_none (h : s.launch cfg i = (s', none)) : s'.toCore = s.toCore := by
  simp only [launch] at h
  split at h
  · cases h; rfl
  · split at h <;> cases h

/-- A launch takes the next number; where processes have keepers it spawns one. -/
lemma toCore_launch_some (h : s.launch cfg i = (s', some p)) :
    p = s.table.handles.length ∧ ∃ l : Launch, l.Shows i i.displayName ∧
      s'.toCore = { s.toCore with
        table := s.table.launch { name := i.displayName, background := i.isBackground } s.now
        launches := s.launches ++ [l]
        tasks := s.tasks ++ if cfg.keepers then [some ⟨.keeper p, false⟩] else [] } := by
  simp only [launch] at h
  split at h
  · cases h
  · split at h <;> cases h
    · rename_i hk
      exact ⟨rfl,
        ⟨_, _, _, i.isBackground, (s.attempts.get? i.script).getD 0, none, some s.tasks.length⟩,
        ⟨rfl, rfl, rfl, rfl⟩, by simp [hk, spawn, openingOf]⟩
    · rename_i hk
      exact ⟨rfl, ⟨_, _, _, i.isBackground, (s.attempts.get? i.script).getD 0, none, none⟩,
        ⟨rfl, rfl, rfl, rfl⟩, by simp [hk]⟩

variable (s p)

@[simp] lemma toCore_stop : (s.stop p).toCore =
    { s.toCore with
      table := s.table.terminate (fun _ => true) p
      stops := s.stops ++ [(p, s.now)] } := by
  unfold stop
  dsimp only
  split <;> simp

@[simp] lemma now_wake (id : TaskId) : (s.wake id).now = s.now := by
  unfold wake enqueue
  split
  · split <;> rfl
  · rfl

@[simp] lemma now_stop : (s.stop p).now = s.now := by
  unfold stop
  dsimp only
  split <;> simp

@[simp] lemma toCore_stopAll : s.stopAll.toCore =
    { s.toCore with
      table := s.table.terminateAll fun _ => true
      stops := s.stops ++ s.table.live.map fun p => (p, s.now) } := by
  unfold stopAll ProcessTable.terminateAll
  generalize s.table.live = ids
  induction ids generalizing s with
  | nil => simp
  | cons i ids ih => simp [ih]

@[simp] lemma toCore_putHandle (h : Handle) (killed : Bool) : (s.putHandle p h killed).toCore =
    { s.toCore with
      table := s.table.update p fun _ => h
      history := if h.hasEnded && !s.table.hasEnded p then s.history ++ [.ended p]
        else s.history } := by
  unfold putHandle
  dsimp only
  split
  · split <;> simp
  · rfl

end State

end ChainRunner.Run
