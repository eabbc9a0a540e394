import ChainRunner.Proofs.Process.Seen
import ChainRunner.Proofs.Run.Background
import ChainRunner.Proofs.Run.Pairing

/-!
Two sessions whose foregrounds are alike.

The same run has another number in each of them, and so has the same process. Pairs of numbers
tell what stands for the same.
-/

namespace ChainRunner.Run

/-! ### Alike tasks -/

inductive Audience.Alike (T : Pairing) : Audience → Audience → Prop
  | caller (label : String) : Alike T (.caller label) (.caller label)
  | barrier {owner owner' : TaskId} (name : String) (h : (owner, owner') ∈ T) :
    Alike T (.barrier owner name) (.barrier owner' name)

/-- The tasks differ in their numbers, and in what they have started in the background. -/
inductive Task.Alike (T Q : Pairing) : Task → Task → Prop
  | run {r : Course} {ws : List TaskId} {bs : List ProcessId} {audience audience' : Audience}
    (waiting : T.Lists r.waiting ws) (told : audience.Alike T audience') :
    Alike T Q (.run r audience) (.run { r with waiting := ws, background := bs } audience')
  | waiter {p p' : ProcessId} {owner owner' : TaskId} (name : String) (hp : (p, p') ∈ Q)
    (told : (owner, owner') ∈ T) : Alike T Q (.waiter p name owner) (.waiter p' name owner')
  | keeper {p p' : ProcessId} (hp : (p, p') ∈ Q) : Alike T Q (.keeper p) (.keeper p')

structure Slot.Alike (T Q : Pairing) (slot slot' : Slot) : Prop where
  task : slot.task.Alike T Q slot'.task
  cancelled : slot.cancelled = slot'.cancelled

/-- Whoever is woken for the processes stands for the same. -/
structure Launch.Alike (T : Pairing) (l l' : Launch) : Prop where
  waiter : Option.Rel (fun t t' => (t, t') ∈ T) l.waiter l'.waiter
  keeper : Option.Rel (fun t t' => (t, t') ∈ T) l.keeper l'.keeper

/-- The report without the instances in the background. -/
def Report.foreground (r : Report) : Report :=
  { r with entries := r.entries.filter fun e => !e.background }

def Outcome.foreground : Outcome → Outcome
  | .run (.ok report) => .run (.ok report.foreground)
  | o => o

namespace State

/-- The tasks of `F` that stand in the queue and are not gone. -/
def readyIn (s : State) (F : List TaskId) : List TaskId :=
  s.ready.filter fun t => t ∈ F ∧ (slotAt s.tasks t).isSome

def answers (s : State) : List (String × Outcome) :=
  s.outcomes.map fun o => (o.1, o.2.foreground)

end State

/-- The foregrounds of two sessions are alike. The pairs of `T` are their tasks of the foreground,
and those of `Q` its processes. -/
structure Alike (T Q : Pairing) (root : TaskId) (s s' : State) : Prop where
  side : Side T.left Q.left root s.toCore
  side' : Side T.right Q.right root s'.toCore
  queued : ∀ t ∈ s.ready, t < s.tasks.length
  queued' : ∀ t ∈ s'.ready, t < s'.tasks.length
  tasks : T.Matching
  processes : Q.Matching
  slots : ∀ {t t' : TaskId}, (t, t') ∈ T →
    Option.Rel (Slot.Alike T Q) (slotAt s.tasks t) (slotAt s'.tasks t')
  handles : ∀ {p p' : ProcessId}, (p, p') ∈ Q →
    (s.table.get? p).map Handle.seen = (s'.table.get? p').map Handle.seen
  wakes : ∀ {p p' : ProcessId}, (p, p') ∈ Q →
    Option.Rel (Launch.Alike T) (s.launch? p) (s'.launch? p')
  stops : ∀ {p p' : ProcessId}, (p, p') ∈ Q →
    (s.stoppedAt? p).isSome = (s'.stoppedAt? p').isSome
  live : Q.Lists (s.table.live.filter (· ∈ Q.left)) (s'.table.live.filter (· ∈ Q.right))
  ready : T.Lists (s.readyIn T.left) (s'.readyIn T.right)
  outcomes : s.answers = s'.answers
  launches : (Front.of root s.history).launches.map Prod.snd =
    (Front.of root s'.history).launches.map Prod.snd

section

variable {T T' Q Q' : Pairing} {root a a' w w' : TaskId} {p p' : ProcessId} {s s' s₁ s₁' : State}
  {task task' : Task} {f f' : Task → Task} {d d' : Deed}

lemma Audience.Alike.mono {audience audience' : Audience} (h : audience.Alike T audience')
    (hT : T ⊆ T') : audience.Alike T' audience' := by
  cases h with
  | caller label => exact .caller label
  | barrier name h => exact .barrier name (hT h)

lemma Task.Alike.mono (h : task.Alike T Q task') (hT : T ⊆ T') (hQ : Q ⊆ Q') :
    task.Alike T' Q' task' := by
  cases h with
  | run waiting told => exact .run (waiting.mono hT) (told.mono hT)
  | waiter name hp told => exact .waiter name (hQ hp) (hT told)
  | keeper hp => exact .keeper (hQ hp)

lemma rel_imp {α β : Type} {R R' : α → β → Prop} {o : Option α} {o' : Option β}
    (h : Option.Rel R o o') (hR : ∀ {x y}, R x y → R' x y) : Option.Rel R' o o' := by
  cases h with
  | some h => exact .some (hR h)
  | none => exact .none

lemma Launch.Alike.mono {l l' : Launch} (h : l.Alike T l') (hT : T ⊆ T') : l.Alike T' l' :=
  ⟨rel_imp h.waiter fun hin => hT hin, rel_imp h.keeper fun hin => hT hin⟩

lemma Slot.Alike.mono {slot slot' : Slot} (h : slot.Alike T Q slot') (hT : T ⊆ T') (hQ : Q ⊆ Q') :
    slot.Alike T' Q' slot' := ⟨h.task.mono hT hQ, h.cancelled⟩

lemma Audience.Alike.symm {audience audience' : Audience} (h : audience.Alike T audience') :
    audience'.Alike T.swap audience := by
  cases h with
  | caller label => exact .caller label
  | barrier name h => exact .barrier name (Pairing.mem_swap.2 h)

lemma Task.Alike.symm (h : task.Alike T Q task') : task'.Alike T.swap Q.swap task := by
  cases h with
  | @run r ws bs _ _ waiting told =>
    exact .run (r := { r with waiting := ws, background := bs }) waiting.swap told.symm
  | waiter name hp told =>
    exact .waiter name (Pairing.mem_swap.2 hp) (Pairing.mem_swap.2 told)
  | keeper hp => exact .keeper (Pairing.mem_swap.2 hp)

lemma rel_symm {α β : Type} {R : α → β → Prop} {R' : β → α → Prop} {o : Option α} {o' : Option β}
    (h : Option.Rel R o o') (hR : ∀ {x y}, R x y → R' y x) : Option.Rel R' o' o := by
  cases h with
  | some h => exact .some (hR h)
  | none => exact .none

lemma Launch.Alike.symm {l l' : Launch} (h : l.Alike T l') : l'.Alike T.swap l :=
  ⟨rel_symm h.waiter Pairing.mem_swap.2, rel_symm h.keeper Pairing.mem_swap.2⟩

lemma Slot.Alike.symm {slot slot' : Slot} (h : slot.Alike T Q slot') :
    slot'.Alike T.swap Q.swap slot := ⟨h.task.symm, h.cancelled.symm⟩

/-- Two tasks that are alike learn of the end of the same task. -/
lemma Task.Alike.receive (h : task.Alike T Q task') (hT : T.Matching) (hw : (w, w') ∈ T)
    (b : Arrival) : (task.receive w b).Alike T Q (task'.receive w' b) := by
  cases h with
  | run waiting told => exact .run (waiting.erase hT hw) told
  | waiter name hp told => exact .waiter name hp told
  | keeper hp => exact .keeper hp

lemma Aloof.readyIn {F : List TaskId} {P : List ProcessId} (h : Aloof F P root s s₁) :
    s₁.readyIn F = s.readyIn F := by
  have hsplit (s : State) : s.readyIn F =
      (s.ready.filter (· ∈ F)).filter fun t => (slotAt s.tasks t).isSome := by
    rw [State.readyIn, List.filter_filter]
    exact List.filter_congr fun t _ => by simp [Bool.and_comm]
  rw [hsplit, hsplit, h.ready]
  refine List.filter_congr fun t ht => ?_
  rw [h.slots t (by simpa using (List.mem_filter.1 ht).2)]

lemma readyIn_congr {F : List TaskId} (hr : s₁.ready = s.ready)
    (hs : ∀ t, (slotAt s₁.tasks t).isSome = (slotAt s.tasks t).isSome) :
    s₁.readyIn F = s.readyIn F := by
  simp only [State.readyIn, hr, hs]

lemma readyIn_drop {F : List TaskId} : (s.drop a).readyIn F = (s.readyIn F).filter (· ≠ a) := by
  rw [State.readyIn, State.readyIn, List.filter_filter]
  refine List.filter_congr fun t _ => ?_
  rw [State.toCore_drop, slotAt_set_none]
  by_cases heq : a = t
  · simp [heq]
  · simp [heq, Ne.symm heq]

lemma readyIn_mapTask {F : List TaskId} : (s.mapTask a f).readyIn F = s.readyIn F := by
  refine readyIn_congr rfl fun t => ?_
  rw [State.toCore_mapTask, slotAt_mapAt]
  split <;> simp

lemma readyIn_cancelAt {F ids : List TaskId} :
    ({ s with tasks := cancelAt s.tasks ids } : State).readyIn F = s.readyIn F :=
  readyIn_congr rfl fun t => by simp

lemma readyIn_concat {F : List TaskId} (ha : a ∈ F) (hs : (slotAt s.tasks a).isSome = true) :
    ({ s with ready := s.ready ++ [a] } : State).readyIn F = s.readyIn F ++ [a] := by
  simp [State.readyIn, List.filter_append, ha, hs]

lemma mem_readyIn {F : List TaskId} : a ∈ s.readyIn F ↔
    a ∈ s.ready ∧ a ∈ F ∧ (slotAt s.tasks a).isSome = true := by
  simp [State.readyIn]

lemma queued_concat {ts : List (Option Slot)} {ids : List TaskId} (h : ∀ t ∈ ids, t < ts.length)
    (slot : Option Slot) : ∀ t ∈ ids ++ [ts.length], t < (ts ++ [slot]).length := by
  intro t ht
  rw [List.length_append, List.length_singleton]
  rcases List.mem_append.1 ht with ht | ht
  · exact Nat.lt_succ_of_lt (h t ht)
  · exact List.mem_singleton.1 ht ▸ Nat.lt_succ_self _

lemma readyIn_grow {F : List TaskId} {slot : Slot} {H : List Deed}
    (h : ∀ t ∈ s.ready, t < s.tasks.length) :
    ({ s with
        tasks := s.tasks ++ [some slot], ready := s.ready ++ [s.tasks.length]
        history := H } : State).readyIn (F ++ [s.tasks.length]) =
      s.readyIn F ++ [s.tasks.length] := by
  unfold State.readyIn
  rw [List.filter_append]
  congr 1
  · refine List.filter_congr fun t ht => ?_
    have hne := Nat.ne_of_lt (h t ht)
    simp [hne]
  · simp

/-- Nobody has asked a process to stop that has not started. -/
lemma Side.stoppedAt?_fresh {F : List TaskId} {P : List ProcessId} (h : Side F P root s.toCore) :
    s.stoppedAt? s.table.handles.length = none := by
  refine List.lookup_eq_none_iff.2 fun e he => ?_
  simpa using Nat.ne_of_gt (h.asked e he)

lemma Side.live_enrol {F : List TaskId} {P : List ProcessId} {i : Instance}
    (h : Side F P root s.toCore) :
    (s.enrol i d).table.live.filter (· ∈ P ++ [s.table.handles.length]) =
      s.table.live.filter (· ∈ P) ++ [s.table.handles.length] := by
  have hn : s.table.handles.length ∉ s.table.tracked := fun hin =>
    Nat.lt_irrefl _ (h.tracked _ hin)
  have hlive : (s.enrol i d).table.live = s.table.live ++ [s.table.handles.length] :=
    s.table.live_launch _ _ rfl hn
  rw [hlive, List.filter_append]
  congr 1
  · refine List.filter_congr fun q hq => ?_
    have hne : q ≠ s.table.handles.length :=
      fun heq => hn (heq ▸ ((s.table.mem_live q).1 hq).1)
    simp [hne]
  · simp

namespace Alike

/-- What happens in the background of either session. -/
lemma spared (h : Alike T Q root s s') (hl : Spared T.left Q.left root s s₁)
    (hr : Spared T.right Q.right root s' s₁') : Alike T Q root s₁ s₁' where
  side := hl.side
  side' := hr.side
  queued := hl.aloof.queued h.queued
  queued' := hr.aloof.queued h.queued'
  tasks := h.tasks
  processes := h.processes
  slots ht := by
    rw [hl.aloof.slots _ (Pairing.mem_left ht), hr.aloof.slots _ (Pairing.mem_right ht)]
    exact h.slots ht
  handles hp := by
    rw [hl.aloof.handles _ (Pairing.mem_left hp), hr.aloof.handles _ (Pairing.mem_right hp)]
    exact h.handles hp
  wakes hp := by
    rw [State.launch?, State.launch?, hl.aloof.launches _ (Pairing.mem_left hp),
      hr.aloof.launches _ (Pairing.mem_right hp)]
    exact h.wakes hp
  stops hp := by
    rw [hl.aloof.stops _ (Pairing.mem_left hp), hr.aloof.stops _ (Pairing.mem_right hp)]
    exact h.stops hp
  live := by
    rw [hl.aloof.live, hr.aloof.live]
    exact h.live
  ready := by
    rw [hl.aloof.readyIn, hr.aloof.readyIn]
    exact h.ready
  outcomes := by
    rw [State.answers, State.answers, hl.aloof.outcomes, hr.aloof.outcomes]
    exact h.outcomes
  launches := by
    rw [hl.aloof.front, hr.aloof.front]
    exact h.launches

/-- What one session is to the other, that one is to it. -/
lemma symm (h : Alike T Q root s s') : Alike T.swap Q.swap root s' s where
  side := by
    rw [Pairing.left_swap, Pairing.left_swap]
    exact h.side'
  side' := by
    rw [Pairing.right_swap, Pairing.right_swap]
    exact h.side
  queued := h.queued'
  queued' := h.queued
  tasks := h.tasks.swap
  processes := h.processes.swap
  slots ht := rel_symm (h.slots (Pairing.mem_swap.1 ht)) fun hslot => hslot.symm
  handles hp := (h.handles (Pairing.mem_swap.1 hp)).symm
  wakes hp := rel_symm (h.wakes (Pairing.mem_swap.1 hp)) fun hl => hl.symm
  stops hp := (h.stops (Pairing.mem_swap.1 hp)).symm
  live := by
    rw [Pairing.left_swap, Pairing.right_swap]
    exact h.live.swap
  ready := by
    rw [Pairing.left_swap, Pairing.right_swap]
    exact h.ready.swap
  outcomes := h.outcomes.symm
  launches := h.launches.symm

lemma isSome_slot (h : Alike T Q root s s') (ha : (a, a') ∈ T) :
    (slotAt s.tasks a).isSome = (slotAt s'.tasks a').isSome := by
  have hslot := h.slots ha
  generalize slotAt s.tasks a = o, slotAt s'.tasks a' = o' at hslot
  cases hslot <;> rfl

/-! ### What is done to both -/

/-- Both tasks become others that are alike. -/
lemma mapTask (h : Alike T Q root s s') (ha : (a, a') ∈ T)
    (hf : ∀ {t t' : Task}, t.Alike T Q t' → (f t).Alike T Q (f' t'))
    (hrun : ∀ t, taskAt s.tasks a = some t → ∀ r audience, f t = .run r audience →
      ∃ r' audience', t = .run r' audience')
    (hrun' : ∀ t, taskAt s'.tasks a' = some t → ∀ r audience, f' t = .run r audience →
      ∃ r' audience', t = .run r' audience') :
    Alike T Q root (s.mapTask a f) (s'.mapTask a' f') :=
  { h with
    side := h.side.map (absurd (Pairing.mem_left ha)) hrun
    side' := h.side'.map (absurd (Pairing.mem_right ha)) hrun'
    queued := fun t ht => Nat.lt_of_lt_of_eq (h.queued t ht) (length_mapAt f).symm
    queued' := fun t ht => Nat.lt_of_lt_of_eq (h.queued' t ht) (length_mapAt f').symm
    slots := fun {t t'} ht => by
      have hslot := h.slots ht
      rw [State.toCore_mapTask, State.toCore_mapTask, slotAt_mapAt, slotAt_mapAt]
      by_cases heq : a = t
      · rw [if_pos heq, if_pos ((h.tasks.iff ha ht).1 heq)]
        generalize slotAt s.tasks t = o, slotAt s'.tasks t' = o' at hslot
        cases hslot with
        | none => exact .none
        | some hslot => exact .some ⟨hf hslot.task, hslot.cancelled⟩
      · rw [if_neg heq, if_neg fun hn => heq ((h.tasks.iff ha ht).2 hn)]
        exact hslot
    ready := by
      rw [readyIn_mapTask, readyIn_mapTask]
      exact h.ready }

lemma setRun (h : Alike T Q root s s') (ha : (a, a') ∈ T) (htask : task.Alike T Q task')
    (ht : ∃ r audience, taskAt s.tasks a = some (.run r audience))
    (ht' : ∃ r audience, taskAt s'.tasks a' = some (.run r audience)) :
    Alike T Q root (s.setTask a task) (s'.setTask a' task') := by
  obtain ⟨r, audience, ht⟩ := ht
  obtain ⟨r', audience', ht'⟩ := ht'
  refine h.mapTask ha (fun _ => htask) (fun t hin _ _ _ => ?_) fun t hin _ _ _ => ?_
  · cases ht.symm.trans hin
    exact ⟨_, _, rfl⟩
  · cases ht'.symm.trans hin
    exact ⟨_, _, rfl⟩

lemma wake (h : Alike T Q root s s') (ha : (a, a') ∈ T) :
    Alike T Q root (s.wake a) (s'.wake a') := by
  have hsome := h.isSome_slot ha
  unfold State.wake State.enqueue
  simp only [Core.slot?_eq, ← hsome]
  by_cases hs : (slotAt s.tasks a).isSome = true
  · have hs' : (slotAt s'.tasks a').isSome = true := hsome ▸ hs
    have hl := Pairing.mem_left ha
    have hr := Pairing.mem_right ha
    have hin : a ∈ s.ready ↔ a' ∈ s'.ready := by
      have hlist := h.ready.mem_iff h.tasks ha
      simpa [mem_readyIn, hs, hs', hl, hr] using hlist
    by_cases hq : a ∈ s.ready
    · simpa only [hs, if_true, if_pos hq, if_pos (hin.1 hq)] using h
    · simp only [hs, if_true, if_neg hq, if_neg fun hn => hq (hin.2 hn)]
      refine { h with
        queued := fun t ht => ?_
        queued' := fun t ht => ?_
        ready := ?_ }
      · rcases List.mem_append.1 ht with ht | ht
        · exact h.queued t ht
        · exact List.mem_singleton.1 ht ▸ h.side.tasks a hl
      · rcases List.mem_append.1 ht with ht | ht
        · exact h.queued' t ht
        · exact List.mem_singleton.1 ht ▸ h.side'.tasks a' hr
      · rw [readyIn_concat hl hs, readyIn_concat hr hs']
        exact h.ready.concat ha
  · simp only [Bool.not_eq_true] at hs
    simpa only [hs, Bool.false_eq_true, if_false] using h

lemma arrive (h : Alike T Q root s s') (ha : (a, a') ∈ T) (hw : (w, w') ∈ T) (b : Arrival) :
    Alike T Q root (s.arrive a w b) (s'.arrive a' w' b) := by
  have hrun (w : TaskId) (t : Task) (r : Course) (audience : Audience)
      (heq : t.receive w b = .run r audience) : ∃ r' audience', t = .run r' audience' := by
    cases t <;> cases heq
    exact ⟨_, _, rfl⟩
  exact (h.mapTask ha (fun ht => ht.receive h.tasks hw b) (fun t _ => hrun w t)
    fun t _ => hrun w' t).wake ha

lemma drop (h : Alike T Q root s s') (ha : (a, a') ∈ T) :
    Alike T Q root (s.drop a) (s'.drop a') :=
  { h with
    side := h.side.gone a
    side' := h.side'.gone a'
    queued := fun t ht => Nat.lt_of_lt_of_eq (h.queued t ht) List.length_set.symm
    queued' := fun t ht => Nat.lt_of_lt_of_eq (h.queued' t ht) List.length_set.symm
    slots := fun {t t'} ht => by
      rw [State.toCore_drop, State.toCore_drop, slotAt_set_none, slotAt_set_none]
      by_cases heq : a = t
      · rw [if_pos heq, if_pos ((h.tasks.iff ha ht).1 heq)]
        exact .none
      · rw [if_neg heq, if_neg fun hn => heq ((h.tasks.iff ha ht).2 hn)]
        exact h.slots ht
    ready := by
      rw [readyIn_drop, readyIn_drop]
      exact h.ready.filter fun ht => decide_eq_decide.2 (not_congr (h.tasks.iff ht ha)) }

lemma cancel (h : Alike T Q root s s') (ha : (a, a') ∈ T) :
    Alike T Q root (s.cancel a) (s'.cancel a') := by
  have hmark : Alike T Q root { s with tasks := cancelAt s.tasks [a] }
      { s' with tasks := cancelAt s'.tasks [a'] } :=
    { h with
      side := h.side.cancel [a]
      side' := h.side'.cancel [a']
      queued := fun t ht => Nat.lt_of_lt_of_eq (h.queued t ht) (length_cancelAt _).symm
      queued' := fun t ht => Nat.lt_of_lt_of_eq (h.queued' t ht) (length_cancelAt _).symm
      slots := fun {t t'} ht => by
        have hslot := h.slots ht
        rw [slotAt_cancelAt, slotAt_cancelAt]
        generalize slotAt s.tasks t = o, slotAt s'.tasks t' = o' at hslot
        cases hslot with
        | none => exact .none
        | some hslot =>
          refine .some ⟨hslot.task, ?_⟩
          simp [hslot.cancelled, h.tasks.iff ht ha]
      ready := by
        rw [readyIn_cancelAt, readyIn_cancelAt]
        exact h.ready }
  exact hmark.wake ha

lemma cancelAll {ws ws' : List TaskId} (h : Alike T Q root s s') (hws : T.Lists ws ws') :
    Alike T Q root (s.cancelAll ws) (s'.cancelAll ws') := by
  induction hws generalizing s s' with
  | nil => exact h
  | cons ha _ ih => exact ih (h.cancel ha)

/-- Neither deed shows in the foreground. -/
lemma note (h : Alike T Q root s s') (d d' : Deed)
    (hd : ∀ f : Front, f.after d = f) (hd' : ∀ f : Front, f.after d' = f) :
    Alike T Q root (s.note d) (s'.note d') :=
  h.spared (.note h.side (hd _)) (.note h.side' (hd' _))

lemma outcome {label : String} {o o' : Outcome} (h : Alike T Q root s s')
    (ho : o.foreground = o'.foreground) :
    Alike T Q root (s.outcome label o) (s'.outcome label o') :=
  { h with
    side := { h.side with }
    side' := { h.side' with }
    outcomes := by
      have hold := h.outcomes
      simp only [State.answers, State.toCore_outcome, List.map_append] at hold ⊢
      rw [hold, List.map_singleton, List.map_singleton, ho] }

/-! ### What is new in both -/

/-- One more task in the foreground of either session. -/
lemma grow {H H' : List Deed} (h : Alike T Q root s s')
    (ht : task.Alike (T ++ [(s.tasks.length, s'.tasks.length)]) Q task')
    (hruns : ∀ v, v ∈ (Front.of root H).runs ↔ v ∈ (Front.of root s.history).runs ∨
      v = s.tasks.length ∧ ∃ r audience, task = .run r audience)
    (hruns' : ∀ v, v ∈ (Front.of root H').runs ↔ v ∈ (Front.of root s'.history).runs ∨
      v = s'.tasks.length ∧ ∃ r audience, task' = .run r audience)
    (hl : (Front.of root H).launches = (Front.of root s.history).launches)
    (hl' : (Front.of root H').launches = (Front.of root s'.history).launches) :
    Alike (T ++ [(s.tasks.length, s'.tasks.length)]) Q root
      { s with
        tasks := s.tasks ++ [some ⟨task, false⟩], ready := s.ready ++ [s.tasks.length]
        history := H }
      { s' with
        tasks := s'.tasks ++ [some ⟨task', false⟩], ready := s'.ready ++ [s'.tasks.length]
        history := H' } := by
  have hT : T ⊆ T ++ [(s.tasks.length, s'.tasks.length)] := List.subset_append_left ..
  -- on either side by itself the new task comes to the foreground
  have hside := h.side.grow ⟨task, false⟩ H (.inr rfl)
    (fun hn => absurd (List.mem_append_right _ (List.mem_singleton_self _)) hn)
    (fun v => (hruns v).trans (or_congr_right ⟨fun ⟨heq, hr⟩ => ⟨heq, by simp [heq], hr⟩,
      fun ⟨heq, _, hr⟩ => ⟨heq, hr⟩⟩)) (congrArg (List.map Prod.fst) hl)
  have hside' := h.side'.grow ⟨task', false⟩ H' (.inr rfl)
    (fun hn => absurd (List.mem_append_right _ (List.mem_singleton_self _)) hn)
    (fun v => (hruns' v).trans (or_congr_right ⟨fun ⟨heq, hr⟩ => ⟨heq, by simp [heq], hr⟩,
      fun ⟨heq, _, hr⟩ => ⟨heq, hr⟩⟩)) (congrArg (List.map Prod.fst) hl')
  exact { h with
    side := by rw [Pairing.left_concat]; exact hside
    side' := by rw [Pairing.right_concat]; exact hside'
    queued := queued_concat h.queued _
    queued' := queued_concat h.queued' _
    tasks := h.tasks.concat h.side.tasks h.side'.tasks
    slots := fun {t t'} hin => by
      rw [slotAt_concat, slotAt_concat]
      rcases List.mem_append.1 hin with hold | hnew
      · rw [if_neg (Nat.ne_of_lt (h.side.tasks _ (Pairing.mem_left hold))),
          if_neg (Nat.ne_of_lt (h.side'.tasks _ (Pairing.mem_right hold)))]
        exact rel_imp (h.slots hold) fun hslot => hslot.mono hT (List.Subset.refl _)
      · cases List.mem_singleton.1 hnew
        rw [if_pos rfl, if_pos rfl]
        exact .some ⟨ht, rfl⟩
    wakes := fun hp => rel_imp (h.wakes hp) fun hl => hl.mono hT
    ready := by
      rw [Pairing.left_concat, Pairing.right_concat, readyIn_grow h.queued, readyIn_grow h.queued']
      exact (h.ready.mono hT).concat (by simp)
    launches := by rw [hl, hl']; exact h.launches }

/-- One more task that is not a run. -/
lemma spawn (h : Alike T Q root s s') (ht : task.Alike T Q task')
    (hnot : ∀ r audience, task ≠ .run r audience) :
    Alike (T ++ [(s.tasks.length, s'.tasks.length)]) Q root (s.spawn task).1
      (s'.spawn task').1 := by
  have hnot' : ∀ r audience, task' ≠ .run r audience := by
    rintro r audience rfl
    cases ht
    exact hnot _ _ rfl
  have hopen (n : Nat) (t : Task) (ht : ∀ r audience, t ≠ .run r audience) :
      State.openingOf n t = [] := by
    cases t <;> first | rfl | exact absurd rfl (ht _ _)
  have hH := List.append_nil s.history
  have hH' := List.append_nil s'.history
  unfold State.spawn
  rw [hopen _ _ hnot, hopen _ _ hnot', hH, hH']
  exact h.grow (ht.mono (List.subset_append_left ..) (List.Subset.refl _))
    (fun v => (or_iff_left fun ⟨_, r, audience, heq⟩ => hnot r audience heq).symm)
    (fun v => (or_iff_left fun ⟨_, r, audience, heq⟩ => hnot' r audience heq).symm) rfl rfl

/-- A run of the foreground starts another one to wait for it. -/
lemma spawnRun {r r' : Course} {audience audience' : Audience} {k : Nat} {target name : String}
    {mode : Mode} (h : Alike T Q root s s')
    (hr : a ∈ (Front.of root s.history).runs)
    (hr' : a' ∈ (Front.of root s'.history).runs) (hm : mode ≠ .background)
    (ht : (Task.run r audience).Alike (T ++ [(s.tasks.length, s'.tasks.length)]) Q
      (.run r' audience')) :
    Alike (T ++ [(s.tasks.length, s'.tasks.length)]) Q root
      ((s.spawn (.run r audience)).1.note (.started a k (.chain s.tasks.length target mode name)))
      ((s'.spawn (.run r' audience')).1.note
        (.started a' k (.chain s'.tasks.length target mode name))) := by
  have hof (s : State) (n a : TaskId) (r : Course) (audience : Audience)
      (hr : a ∈ (Front.of root s.history).runs) :
      Front.of root ((s.spawn (.run r audience)).1.history ++
        [.started a k (.chain n target mode name)]) =
      { Front.of root s.history with runs := (Front.of root s.history).runs ++ [n] } := by
    rw [Front.of_concat, State.toCore_spawn, State.openingOf, Front.of_concat]
    exact if_pos ⟨hr, hm⟩
  refine h.grow ht (fun v => ?_) (fun v => ?_) ?_ ?_
  · rw [hof _ _ _ _ _ hr]
    simp
  · rw [hof _ _ _ _ _ hr']
    simp
  · rw [hof _ _ _ _ _ hr]
  · rw [hof _ _ _ _ _ hr']

/-- A run of the foreground starts a process to wait for it. -/
lemma enrol (h : Alike T Q root s s') (i i₀ : Instance) (k : Nat) (name : String)
    (hr : a ∈ (Front.of root s.history).runs)
    (hr' : a' ∈ (Front.of root s'.history).runs) (hi : i₀.isBackground = false) :
    Alike T (Q ++ [(s.table.handles.length, s'.table.handles.length)]) root
      (s.enrol i (.started a k (.process s.table.handles.length i₀ name)))
      (s'.enrol i (.started a' k (.process s'.table.handles.length i₀ name))) := by
  have hQ : Q ⊆ Q ++ [(s.table.handles.length, s'.table.handles.length)] :=
    List.subset_append_left ..
  have hof (s : State) (a : TaskId) (hr : a ∈ (Front.of root s.history).runs) :
      Front.of root (s.history ++
        [.started a k (.process s.table.handles.length i₀ name)]) =
      { Front.of root s.history with
        launches := (Front.of root s.history).launches ++
          [(s.table.handles.length, i₀, name)] } := by
    rw [Front.of_concat]
    exact if_pos ⟨hr, hi⟩
  -- on either side by itself the new process comes to the foreground
  have hside := h.side.enrol (i := i) (.inr rfl) (by rw [hof s a hr]) (by
    rw [hof s a hr, ← h.side.front]
    simp [Front.processes])
  have hside' := h.side'.enrol (i := i) (.inr rfl) (by rw [hof s' a' hr']) (by
    rw [hof s' a' hr', ← h.side'.front]
    simp [Front.processes])
  refine { h with
    side := by rw [Pairing.left_concat]; exact hside
    side' := by rw [Pairing.right_concat]; exact hside'
    processes := h.processes.concat h.side.processes h.side'.processes
    slots := fun ht => rel_imp (h.slots ht) fun hslot => hslot.mono (List.Subset.refl _) hQ
    handles := fun {p p'} hp => ?_
    wakes := fun {p p'} hp => ?_
    stops := fun {p p'} hp => ?_
    live := ?_
    launches := ?_ }
  · rcases List.mem_append.1 hp with hold | hnew
    · have hl := s.table.get?_launch_of_lt { name := i.displayName, background := i.isBackground }
        s.now (h.side.processes _ (Pairing.mem_left hold))
      have hr := s'.table.get?_launch_of_lt { name := i.displayName, background := i.isBackground }
        s'.now (h.side'.processes _ (Pairing.mem_right hold))
      simp only [State.enrol, hl, hr]
      exact h.handles hold
    · cases List.mem_singleton.1 hnew
      simp only [State.enrol, ProcessTable.get?_launch_self]
      rfl
  · rcases List.mem_append.1 hp with hold | hnew
    · have hl := h.side.launched ▸ h.side.processes _ (Pairing.mem_left hold)
      have hr := h.side'.launched ▸ h.side'.processes _ (Pairing.mem_right hold)
      simp only [State.launch?, State.enrol, List.getElem?_append_left hl,
        List.getElem?_append_left hr]
      exact h.wakes hold
    · cases List.mem_singleton.1 hnew
      simp only [State.launch?, State.enrol, ← h.side.launched, ← h.side'.launched,
        List.getElem?_concat_length]
      exact .some ⟨.none, .none⟩
  · rcases List.mem_append.1 hp with hold | hnew
    · exact h.stops hold
    · cases List.mem_singleton.1 hnew
      exact congrArg Option.isSome (h.side.stoppedAt?_fresh.trans h.side'.stoppedAt?_fresh.symm)
  · rw [Pairing.left_concat, Pairing.right_concat, h.side.live_enrol, h.side'.live_enrol]
    exact (h.live.mono hQ).concat (by simp)
  · rw [State.enrol, State.enrol, hof s a hr, hof s' a' hr']
    simp [h.launches]

end Alike

end

end ChainRunner.Run
