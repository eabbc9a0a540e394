import ChainRunner.Proofs.Run.History

/-!
Where a run comes from that is in progress: what it was before the last change.
-/

namespace ChainRunner.Run

section

variable {ts : List (Option Slot)} {owner w self t : TaskId} {a : Arrival} {r' : Course}
  {audience audience' : Audience}

/-- The run `r` after it has learned that the member `w` is over. -/
def Course.told (r : Course) (w : TaskId) (a : Arrival) : Course :=
  { r with waiting := r.waiting.erase w, arrived := r.arrived ++ [a] }

lemma run_of_receive
    (ht : taskAt (mapAt ts owner (Task.receive w a)) t = some (.run r' audience)) :
    taskAt ts t = some (.run r' audience) ∨
      t = owner ∧ ∃ r, taskAt ts t = some (.run r audience) ∧ r' = r.told w a := by
  rw [taskAt_mapAt] at ht
  split at ht
  · obtain ⟨task, htask, heq⟩ := Option.map_eq_some_iff.1 ht
    cases task <;> cases heq
    exact .inr ⟨Eq.symm ‹_›, _, htask, rfl⟩
  · exact .inl ht

lemma run_of_receiveRun {report : Option Report}
    (ht : taskAt (mapAt ts owner (Task.receiveRun w report)) t = some (.run r' audience)) :
    taskAt ts t = some (.run r' audience) := by
  rw [taskAt_mapAt] at ht
  split at ht
  · obtain ⟨task, htask, heq⟩ := Option.map_eq_some_iff.1 ht
    cases task <;> cases heq
    exact htask
  · exact ht

lemma run_of_tellReport {report : Report}
    (ht : taskAt (State.tellReport self report audience ts) t = some (.run r' audience')) :
    taskAt ts t = some (.run r' audience') ∨
      ∃ r name, audience = .barrier t name ∧ taskAt ts t = some (.run r audience') ∧
        r' = r.told self (.settled name report.failed none) := by
  cases audience with
  | barrier owner name =>
    exact (run_of_receive ht).imp_right fun ⟨h, r, hr, heq⟩ => ⟨r, name, by rw [h], hr, heq⟩
  | cycle owner => exact .inl (run_of_receiveRun ht)
  | caller label => exact .inl ht
  | nobody => exact .inl ht

lemma run_of_tellBreak {b : Break}
    (ht : taskAt (State.tellBreak self b audience ts) t = some (.run r' audience')) :
    taskAt ts t = some (.run r' audience') ∨
      ∃ r name, audience = .barrier t name ∧ taskAt ts t = some (.run r audience') ∧
        r' = r.told self (.broken b.why) := by
  cases audience with
  | barrier owner name =>
    exact (run_of_receive ht).imp_right fun ⟨h, r, hr, heq⟩ => ⟨r, name, by rw [h], hr, heq⟩
  | cycle owner => exact .inl (run_of_receiveRun ht)
  | caller label => exact .inl ht
  | nobody => exact .inl ht

lemma taskAt_mapAt_eq_none {f : Task → Task} (h : taskAt ts t = none) :
    taskAt (mapAt ts owner f) t = none := by
  rw [taskAt_mapAt, h]
  split <;> rfl

lemma taskAt_tellReport_eq_none {report : Report} (h : taskAt ts t = none) :
    taskAt (State.tellReport self report audience ts) t = none := by
  cases audience <;> first | exact h | exact taskAt_mapAt_eq_none h

lemma taskAt_tellBreak_eq_none {b : Break} (h : taskAt ts t = none) :
    taskAt (State.tellBreak self b audience ts) t = none := by
  cases audience <;> first | exact h | exact taskAt_mapAt_eq_none h

lemma taskAt_of_set_none {task : Task} (ht : taskAt (ts.set self none) t = some task) :
    t ≠ self ∧ taskAt ts t = some task := by
  rw [taskAt_set_none] at ht
  split at ht
  · cases ht
  · rename_i hne
    exact ⟨Ne.symm hne, ht⟩

/-- The other tasks stay when one is gone and the members that it waited for are cancelled. -/
lemma taskAt_of_dropped {ids : List TaskId} {task : Task}
    (ht : taskAt ((cancelAt ts ids).set self none) t = some task) :
    t ≠ self ∧ taskAt ts t = some task := by
  obtain ⟨hne, h⟩ := taskAt_of_set_none ht
  rw [taskAt_cancelAt] at h
  exact ⟨hne, h⟩

/-- What a run was before the run `self` completed. -/
lemma run_of_completes {report : Report}
    (ht : taskAt (State.tellReport self report audience (ts.set self none)) t =
      some (.run r' audience')) :
    taskAt ts t = some (.run r' audience') ∨
      ∃ r name, audience = .barrier t name ∧ taskAt ts t = some (.run r audience') ∧
        r' = r.told self (.settled name report.failed none) := by
  rcases run_of_tellReport ht with h | ⟨r, name, haudience, h, heq⟩
  · exact .inl (taskAt_of_set_none h).2
  · exact .inr ⟨r, name, haudience, (taskAt_of_set_none h).2, heq⟩

/-- What a run was before the run `self` broke off. -/
lemma run_of_breaks {b : Break} {ids : List TaskId}
    (ht : taskAt (State.tellBreak self b audience ((cancelAt ts ids).set self none)) t =
      some (.run r' audience')) :
    t ≠ self ∧ (taskAt ts t = some (.run r' audience') ∨
      ∃ r name, audience = .barrier t name ∧ taskAt ts t = some (.run r audience') ∧
        r' = r.told self (.broken b.why)) := by
  rcases run_of_tellBreak ht with h | ⟨r, name, haudience, h, heq⟩ <;>
    obtain ⟨hne, h⟩ := taskAt_of_dropped h
  · exact ⟨hne, .inl h⟩
  · exact ⟨hne, .inr ⟨r, name, haudience, h, heq⟩⟩

/-- What a run was before the waiter `w` told its owner of an end. -/
lemma run_of_settles
    (ht : taskAt (mapAt (ts.set w none) owner (Task.receive w a)) t = some (.run r' audience)) :
    taskAt ts t = some (.run r' audience) ∨
      t = owner ∧ ∃ r, taskAt ts t = some (.run r audience) ∧ r' = r.told w a := by
  rcases run_of_receive ht with h | ⟨howner, r, h, heq⟩
  · exact .inl (taskAt_of_set_none h).2
  · exact .inr ⟨howner, r, (taskAt_of_set_none h).2, heq⟩

/-- A slot with a new number is one of those that were added. -/
lemma slot_of_append {more : List (Option Slot)} {slot : Slot} (hle : ts.length ≤ t)
    (ht : slotAt (ts ++ more) t = some slot) : some slot ∈ more := by
  unfold slotAt at ht
  rw [List.getElem?_append_right hle] at ht
  exact List.mem_of_getElem? (Option.join_eq_some_iff.1 ht)

lemma slot_of_grow {more : List (Option Slot)} {f : Task → Task} {slot : Slot}
    (hself : self < ts.length) (hle : ts.length ≤ t)
    (ht : slotAt (mapAt (ts ++ more) self f) t = some slot) : some slot ∈ more := by
  rw [slotAt_mapAt, if_neg (Nat.ne_of_lt (Nat.lt_of_lt_of_le hself hle))] at ht
  exact slot_of_append hle ht

lemma mem_of_grow {more : List (Option Slot)} {f : Task → Task} {task : Task}
    (hself : self < ts.length) (hle : ts.length ≤ t)
    (ht : taskAt (mapAt (ts ++ more) self f) t = some task) :
    ∃ slot, some slot ∈ more ∧ slot.task = task := by
  obtain ⟨slot, hslot, rfl⟩ := Option.map_eq_some_iff.1 ht
  exact ⟨slot, slot_of_grow hself hle hslot, rfl⟩

lemma run_of_append {more : List (Option Slot)} {r : Course}
    (hmore : ∀ slot, some slot ∈ more → ∀ r a, slot.task ≠ .run r a)
    (ht : taskAt (ts ++ more) t = some (.run r audience)) :
    taskAt ts t = some (.run r audience) := by
  unfold taskAt slotAt at ht ⊢
  rcases Nat.lt_or_ge t ts.length with hlt | hge
  · rwa [List.getElem?_append_left hlt] at ht
  · rw [List.getElem?_append_right hge] at ht
    obtain ⟨slot, hslot, heq⟩ := Option.map_eq_some_iff.1 ht
    have hget : more[t - ts.length]? = some (some slot) := Option.join_eq_some_iff.1 hslot
    exact absurd heq (hmore slot (List.mem_of_getElem? hget) r audience)

/-- What a run was before a run was opened. -/
lemma run_of_spawn {r₀ r : Course} {audience₀ : Audience} {b : Bool}
    (ht : taskAt (ts ++ [some ⟨.run r₀ audience₀, b⟩]) t = some (.run r audience)) :
    t = ts.length ∧ r = r₀ ∧ audience = audience₀ ∨ taskAt ts t = some (.run r audience) := by
  rw [taskAt_concat] at ht
  split at ht
  · cases ht
    exact .inl ⟨‹_›, rfl, rfl⟩
  · exact .inr ht

/-- What a run was before a task was added that makes cycles. -/
lemma run_of_spawnCycle {task : Task} {r : Course} {b : Bool} (hk : task.cycle?.isSome = true)
    (ht : taskAt (ts ++ [some ⟨task, b⟩]) t = some (.run r audience)) :
    taskAt ts t = some (.run r audience) := by
  refine run_of_append (fun slot hslot r a heq => ?_) ht
  cases List.mem_singleton.1 hslot
  cases heq
  cases hk

lemma not_run_of_keeperSlots {cfg : Setting} {p : ProcessId} {slot : Slot}
    (h : some slot ∈ keeperSlots cfg p) (r : Course) (a : Audience) : slot.task ≠ .run r a :=
  forall_keeperSlots (P := fun slot => slot.task ≠ .run r a) nofun slot h

lemma not_run_of_waiterSlots {cfg : Setting} {p : ProcessId} {name : String} {slot : Slot}
    (h : some slot ∈ keeperSlots cfg p ++ [some ⟨.waiter p name self, false⟩]) (r : Course)
    (a : Audience) : slot.task ≠ .run r a :=
  forall_waiterSlots (P := fun slot => slot.task ≠ .run r a) nofun (by simp) slot h

lemma run_of_put {task task' : Task} {r : Course} (h : taskAt ts self = some task)
    (ht' : task'.cycle?.isSome = true)
    (hr : taskAt (mapAt ts self fun _ => task') t = some (.run r audience)) :
    taskAt ts t = some (.run r audience) := by
  rw [taskAt_mapAt] at hr
  split at hr
  · subst t
    rw [h] at hr
    cases hr
    cases ht'
  · exact hr

lemma run_of_closes {ts' : List (Option Slot)} {task : Task} {r : Course}
    {os : List (String × Outcome)} (h : taskAt ts self = some task) (hc : Closes ts self ts' os)
    (hr : taskAt ts' t = some (.run r audience)) : taskAt ts t = some (.run r audience) := by
  cases hc with
  | gone => exact (taskAt_of_set_none hr).2
  | again due => exact run_of_put h rfl hr

/-- A run has become another one while tasks were added. -/
lemma taskAt_grow {more : List (Option Slot)} {r₁ r₂ : Course}
    (ht : taskAt (mapAt (ts ++ more) self fun _ => .run r₁ audience) t = some (.run r₂ audience')) :
    t = self ∧ r₂ = r₁ ∧ audience' = audience ∨
      t ≠ self ∧ taskAt (ts ++ more) t = some (.run r₂ audience') := by
  rw [taskAt_mapAt] at ht
  split at ht
  · subst t
    obtain ⟨task, -, heq⟩ := Option.map_eq_some_iff.1 ht
    cases heq
    exact .inl ⟨rfl, rfl, rfl⟩
  · exact .inr ⟨Ne.symm ‹_›, ht⟩

/-- A run has become another one while tasks were added that are no runs. -/
lemma run_of_grow {more : List (Option Slot)} {r₁ r₂ : Course}
    (hmore : ∀ slot, some slot ∈ more → ∀ r a, slot.task ≠ .run r a)
    (ht : taskAt (mapAt (ts ++ more) self fun _ => .run r₁ audience) t = some (.run r₂ audience')) :
    t = self ∧ r₂ = r₁ ∧ audience' = audience ∨ taskAt ts t = some (.run r₂ audience') :=
  (taskAt_grow ht).imp_right fun h => run_of_append hmore h.2

end

/-- Nothing is left of the run. -/
def Course.IsDone (r : Course) : Prop :=
  r.agenda = [] ∧ r.arrived = [] ∧ r.waiting = [] ∧ r.rest = []

lemma Course.Broken.not_isDone {cfg : Setting} {r : Course} {b : Break} (h : r.Broken cfg b) :
    ¬r.IsDone := by
  rintro ⟨ha, hr, -⟩
  cases h with
  | member _ hr' => simp [hr] at hr'
  | crash ha' => simp [ha] at ha'

lemma Course.Fatal.not_isDone {m : Manifest} {self : TaskId} {r : Course} {ds : List Deed}
    {why : Failure} (h : r.Fatal m self ds why) : ¬r.IsDone := by
  rintro ⟨ha, hr, -⟩
  cases h with
  | member _ hr' => simp [hr] at hr'
  | missing ha' => simp [ha] at ha'

/-- The task `v`, which is over now, has this to tell the run `t`. -/
inductive Tells (c : Core) (t v : TaskId) : Arrival → Prop
  | waiter {p : ProcessId} {name : String} {h : Handle} {failed : Bool} {code : Option Int}
    (hs : slotAt c.tasks v = some ⟨.waiter p name t, false⟩) (hp : c.table.get? p = some h)
    (ho : h.outcome? = some (code, failed)) : Tells c t v (.settled name failed code)
  | completed {r : Course} {name : String}
    (hs : slotAt c.tasks v = some ⟨.run r (.barrier t name), false⟩) (hd : r.IsDone) :
    Tells c t v (.settled name r.failed none)
  | broken {r : Course} {name : String} {why : Failure}
    (hs : slotAt c.tasks v = some ⟨.run r (.barrier t name), false⟩) (hu : ¬r.IsDone) :
    Tells c t v (.broken why)

/-- Once the run `r` has started what was planned, it has these tasks to wait for. -/
inductive Bears (m : Manifest) (c c' : Core) (t : TaskId) (r : Course) :
    Planned → List TaskId → Prop
  | aside {i : Instance} (hb : i.isBackground = true) : Bears m c c' t r (.launch i) []
  | process {i : Instance} {w : TaskId} {p : ProcessId} {name : String} {h : Handle}
    (hw : c.tasks.length ≤ w) (hs : slotAt c'.tasks w = some ⟨.waiter p name t, false⟩)
    (hp : c'.table.get? p = some h) (hf : h.failed = false) : Bears m c c' t r (.launch i) [w]
  | chain {target expr display : String} {mode : Mode} (hm : m.resolve target = .chain expr)
    (hs : slotAt c'.tasks c.tasks.length =
      some ⟨.run (r.nested expr mode) (audienceOf t display mode), false⟩) :
    Bears m c c' t r (.chain target mode) (if mode = .background then [] else [c.tasks.length])
  | missing {target : String} {mode : Mode} (hgo : mode = .sequential → r.exitOnError = false) :
    Bears m c c' t r (.unknown target mode) []

/-- What a run keeps while it starts its members. -/
structure Course.Alike (r r' : Course) : Prop where
  vars : r'.vars = r.vars
  exits : r'.exitOnError = r.exitOnError
  rest : r'.rest = r.rest
  arrived : r'.arrived = r.arrived
  failed : r.failed = false → r.exitOnError = true → r'.failed = false
  stays : r.failed = true → r'.failed = true

/-- What the run `r'` at the number `t` was before a change from `c` to `c'`. -/
inductive Origin (m : Manifest) (c c' : Core) (t : TaskId) (r' : Course) (audience : Audience) :
    Prop
  | same (h : taskAt c.tasks t = some (.run r' audience))
  | takes {r : Course} {e : Errand} {x : Planned} {ws : List TaskId}
    (h : taskAt c.tasks t = some (.run r audience)) (ha : r.agenda = e :: r'.agenda)
    (hx : agendaPlan m r.vars [e] = [x]) (hb : Bears m c c' t r x ws)
    (hw : r'.waiting = r.waiting ++ ws) (like : r.Alike r')
    (hf : r'.failed = true → r.failed = true ∨ c'.failure = true ∧
      ∃ k target, .started t k (.missing target .sequential) ∈ c'.history)
  | quiet {r : Course} (h : taskAt c.tasks t = some (.run r audience)) (q : r.Quiet m r')
    (hf : r.entersFailure = true → c'.failure = true)
  | told {r : Course} {v : TaskId} {b : Arrival} (h : taskAt c.tasks t = some (.run r audience))
    (hr : r' = r.told v b) (hv : Tells c t v b) (gone : taskAt c'.tasks v = none)
    (broke : ∀ why, b = .broken why → ∃ x : Break, .brokeOff v x ∈ c'.history ∧ x.why = why)
  | fresh {chain : String} {vars : Variables} {e : Bool} (h : t = c.tasks.length)
    (hr : r' = .start chain vars e)

variable {cfg : Setting} {c c' : Core} {t : TaskId} {r : Course} {audience : Audience}

theorem Change.origin (hc : Change cfg c c') (ht : taskAt c'.tasks t = some (.run r audience)) :
    Origin cfg.manifest c c' t r audience := by
  cases hc with
  | @quiet self r₀ r' a hs q =>
    have hs := taskAt_of_slotAt hs
    rw [← List.append_nil c.tasks] at ht
    rcases run_of_grow (by simp) ht with ⟨rfl, rfl, rfl⟩ | hold
    · exact .quiet hs q fun hf => by simp [hf]
    · exact .same hold
  | launches name names now hs ha hb =>
    rcases run_of_grow (fun _ => not_run_of_keeperSlots) ht with ⟨rfl, rfl, rfl⟩ | hold
    · exact .takes (taskAt_of_slotAt hs) ha rfl (.aside hb) (List.append_nil _).symm
        ⟨rfl, rfl, rfl, rfl, fun h _ => h, id⟩ .inl
    · exact .same hold
  | awaits name names now hs ha hb =>
    -- of the tasks that are added only the waiter is waited for
    have hlt := lt_of_slotAt hs
    dsimp only at ht
    rw [List.append_assoc] at ht
    rcases run_of_grow (fun _ => not_run_of_waiterSlots) ht with ⟨rfl, rfl, rfl⟩ | hold
    · have hle : c.tasks.length ≤ (c.tasks ++ keeperSlots cfg c.table.handles.length).length := by
        simp
      refine .takes (taskAt_of_slotAt hs) ha rfl ?_ rfl ⟨rfl, rfl, rfl, rfl, fun h _ => h, id⟩ .inl
      exact .process hle
        (slotAt_mapAt_concat (Nat.lt_of_lt_of_le hlt hle) _ fun _ => .run _ audience)
        (c.table.get?_launch_self _ _) rfl
    · exact .same hold
  | nests name names hs ha ht' hm =>
    have hlt := lt_of_slotAt hs
    rcases taskAt_grow ht with ⟨rfl, rfl, rfl⟩ | ⟨-, hgrown⟩
    · refine .takes (taskAt_of_slotAt hs) ha ((List.append_nil _).trans (planStep_chain ht' hm)) ?_
        rfl ⟨rfl, rfl, rfl, rfl, fun h _ => h, id⟩ .inl
      exact .chain hm (slotAt_mapAt_concat hlt _ fun _ => .run _ audience)
    · rcases run_of_spawn hgrown with ⟨hlen, rfl, -⟩ | hold
      · exact .fresh hlen rfl
      · exact .same hold
  | misses names entries hs ha ht' hm hgo =>
    -- only a step that is waited for makes the run a failed one
    rw [← List.append_nil c.tasks] at ht
    rcases run_of_grow (by simp) ht with ⟨rfl, rfl, rfl⟩ | hold
    · refine .takes (taskAt_of_slotAt hs) ha ((List.append_nil _).trans (planStep_unknown ht' hm))
        (.missing hgo) (List.append_nil _).symm
        ⟨rfl, rfl, rfl, rfl, fun h he => ?_, fun h => by simp [h]⟩ fun h => ?_
      · simp only [h, Bool.false_or, decide_eq_false_iff_not]
        intro hseq
        simp [hgo hseq] at he
      · refine (Bool.or_eq_true_iff.1 h).imp_right fun hseq => ⟨by simp [hseq], ?_⟩
        rw [← of_decide_eq_true hseq]
        exact ⟨_, _, List.mem_append_right _ (List.mem_singleton_self _)⟩
    · exact .same hold
  | completes hs ha hr hw hb =>
    rcases run_of_completes ht with hold | ⟨r₀, name, rfl, hold, hr'⟩
    · exact .same hold
    · exact .told hold hr' (.completed hs ⟨ha, hr, hw, hb⟩) (taskAt_mapAt_eq_none (by simp))
        (by simp)
  | @breaks self r audience b hs hb =>
    rcases (run_of_breaks ht).2 with hold | ⟨r₀, name, rfl, hold, hr'⟩
    · exact .same hold
    · refine .told hold hr' (.broken hs hb.not_isDone) (taskAt_mapAt_eq_none (by simp))
        fun why heq => ⟨b, by simp, ?_⟩
      exact Arrival.broken.inj heq
  | fails why now hs hf he =>
    rcases (run_of_breaks ht).2 with hold | ⟨r₀, name, rfl, hold, hr'⟩
    · exact .same hold
    · refine .told hold hr' (.broken hs hf.not_isDone) (taskAt_mapAt_eq_none (by simp))
        fun why' heq => ⟨.failure why, by simp, ?_⟩
      exact Arrival.broken.inj heq
  | settles failed code hw hp ho =>
    rcases run_of_settles ht with hold | ⟨rfl, r₀, hold, hr'⟩
    · exact .same hold
    · exact .told hold hr' (.waiter hw hp ho) (taskAt_mapAt_eq_none (by simp)) (by simp)
  | leaves hs ht' => exact .same (taskAt_of_set_none ht).2
  | news hp follows => exact .same ht
  | locks hs ht₀ ht' hl => exact .same (run_of_put (taskAt_of_slotAt hs) (by simp [ht']) ht)
  | refused hs ht₀ hl hcl => exact .same (run_of_closes (taskAt_of_slotAt hs) hcl ht)
  | drains hs ht₀ ht' =>
    exact .same (run_of_put (taskAt_of_slotAt hs) (by rcases ht' with ht' | ht' <;> simp [ht']) ht)
  | triggers chain vars hs ht₀ =>
    rcases run_of_spawn ht with ⟨hlen, rfl, -⟩ | hold
    · exact .fresh hlen rfl
    · exact .same hold
  | cycles hs ht₀ ht' hk => exact .same (run_of_put (taskAt_of_slotAt hs) (by simp [ht']) ht)
  | releases hs ht₀ hcl => exact .same (run_of_closes (taskAt_of_slotAt hs) hcl ht)
  | droppedRun hs | droppedCycle hs ht₀ => exact .same (taskAt_of_dropped ht).2

theorem Request.origin {m : Manifest} (hc : Request c c')
    (ht : taskAt c'.tasks t = some (.run r audience)) : Origin m c c' t r audience := by
  cases hc with
  | run =>
    rcases run_of_spawn ht with ⟨hlen, rfl, -⟩ | hold
    · exact .fresh hlen rfl
    · exact .same hold
  | cycles ht' => exact .same (run_of_spawnCycle (Option.isSome_of_eq_some ht') ht)
  | push | stop => exact .same ht
  | cancel => exact .same (by simpa using ht)

/-- What a run has heard it had heard before, or a member has told it. -/
lemma Origin.arrived {m : Manifest} {r' : Course} (h : Origin m c c' t r' audience) {a : Arrival}
    (ha : a ∈ r'.arrived) : ∃ r, taskAt c.tasks t = some (.run r audience) ∧
      r'.exitOnError = r.exitOnError ∧
        (a ∈ r.arrived ∨ ∃ v, Tells c t v a ∧ taskAt c'.tasks v = none) := by
  cases h with
  | same hr => exact ⟨r', hr, rfl, .inl ha⟩
  | takes hr _ _ _ _ like => exact ⟨_, hr, like.exits, .inl (like.arrived ▸ ha)⟩
  | quiet hr q =>
    cases q with
    | enter entries _ harrived =>
      exact ⟨_, hr, rfl, .inl (harrived ▸ List.mem_cons_of_mem _ ha)⟩
    | skip | expand | begins => exact ⟨_, hr, rfl, .inl ha⟩
  | told hr heq hv gone =>
    subst heq
    refine ⟨_, hr, rfl, (List.mem_append.1 ha).imp_right fun hin => ?_⟩
    cases List.mem_singleton.1 hin
    exact ⟨_, hv, gone⟩
  | fresh _ heq =>
    subst heq
    cases ha

/-- A run still waits for a member, or the member has told it of its end. -/
lemma Origin.waits {m : Manifest} {r' : Course} {w : TaskId} (h : Origin m c c' t r' audience)
    (ht : taskAt c.tasks t = some (.run r audience)) (hw : w ∈ r.waiting) :
    w ∈ r'.waiting ∨ ∃ a, r' = r.told w a ∧ Tells c t w a ∧ taskAt c'.tasks w = none := by
  cases h with
  | same hr =>
    cases ht.symm.trans hr
    exact .inl hw
  | takes hr _ _ _ heq =>
    cases ht.symm.trans hr
    exact .inl (heq ▸ List.mem_append_left _ hw)
  | quiet hr q =>
    cases ht.symm.trans hr
    exact .inl (by cases q <;> exact hw)
  | @told _ v a hr heq hv gone =>
    cases ht.symm.trans hr
    subst heq
    by_cases hwv : w = v
    · subst hwv
      exact .inr ⟨a, rfl, hv, gone⟩
    · exact .inl ((List.mem_erase_of_ne hwv).2 hw)
  | fresh hlen => exact absurd (lt_of_taskAt ht) (hlen ▸ Nat.lt_irrefl _)

/-! ### The history grows -/

/-- A member that is started now has the next number. -/
def Core.IsNext (c : Core) : Member → Prop
  | .process p .. => p = c.table.handles.length
  | .chain t .. => t = c.tasks.length
  | .missing .. => True

/-- The run `t` has come to the planned member. -/
def Core.Meets (m : Manifest) (c : Core) (t : TaskId) (x : Planned) : Prop :=
  ∃ r audience rest, slotAt c.tasks t = some ⟨.run r audience, false⟩ ∧
    agendaPlan m r.vars r.agenda = x :: rest

lemma Core.Meets.step {m : Manifest} {step : Step} {agenda : List Errand} {x : Planned}
    (hs : slotAt c.tasks t = some ⟨.run r audience, false⟩) (ha : r.agenda = .step step :: agenda)
    (hx : planStep m r.vars step = [x]) : c.Meets m t x :=
  ⟨r, audience, agendaPlan m r.vars agenda, hs, by rw [ha, agendaPlan_step, hx]; rfl⟩

/-- The deeds are those of the runs as they are: a run starts what comes first on its agenda, and
reports what it knows when nothing is left of it. -/
structure Adds (m : Manifest) (c : Core) (ds : List Deed) : Prop where
  starts : ∀ {t : TaskId} {k : Nat} {x : Member}, .started t k x ∈ ds →
    c.Meets m t x.planned ∧ c.IsNext x
  completes : ∀ {t : TaskId} {report : Report}, .completed t report ∈ ds →
    ∃ r audience, slotAt c.tasks t = some ⟨.run r audience, false⟩ ∧ r.IsDone ∧
      report = reportOf r c.table
  apart : Apart ds

lemma Adds.nil {m : Manifest} : Adds m c [] :=
  ⟨fun h => absurd h List.not_mem_nil, fun h => absurd h List.not_mem_nil, .nil⟩

lemma apart_of_none {ds : List Deed} (h : ∀ d ∈ ds, d.number? = none) : Apart ds := by
  induction ds with
  | nil => exact .nil
  | cons d ds ih =>
    refine List.pairwise_cons.2 ⟨fun d' _ n hn => ?_, ih fun d' hd' =>
      h d' (List.mem_cons_of_mem _ hd')⟩
    rw [h d List.mem_cons_self] at hn
    cases hn

/-- One deed among others that start nothing. -/
lemma apart_start {ds ds' : List Deed} (d : Deed)
    (hd : ∀ t k x, Deed.started t k x ∉ ds ++ ds') : Apart (ds ++ d :: ds') := by
  have hnone {d' : Deed} (hd' : d' ∈ ds ++ ds') : d'.number? = none := by
    cases d' <;> first | rfl | exact absurd hd' (hd _ _ _)
  have hleft {d' : Deed} (hd' : d' ∈ ds) : d'.number? = none := hnone (List.mem_append_left _ hd')
  have hright {d' : Deed} (hd' : d' ∈ ds') : d'.number? = none :=
    hnone (List.mem_append_right _ hd')
  refine List.pairwise_append.2 ⟨apart_of_none fun _ => hleft, List.pairwise_cons.2
    ⟨fun d' hd' => by simp [hright hd'], apart_of_none fun _ => hright⟩, ?_⟩
  exact fun d' hd' => by simp [hleft hd']

lemma Adds.start {m : Manifest} (ds ds' : List Deed) {k : Nat} {x : Member}
    (hs : c.Meets m t x.planned) (hx : c.IsNext x)
    (hds : ∀ t report, Deed.completed t report ∉ ds ++ ds')
    (hd : ∀ t k x, Deed.started t k x ∉ ds ++ ds') :
    Adds m c (ds ++ .started t k x :: ds') where
  starts h := by
    have hin := hd
    simp only [List.mem_append, List.mem_cons, not_or] at h hin
    rcases h with h | h | h
    · exact absurd h (hin _ _ _).1
    · cases h
      exact ⟨hs, hx⟩
    · exact absurd h (hin _ _ _).2
  completes h := by
    have hin := hds
    simp only [List.mem_append, List.mem_cons, reduceCtorEq, false_or, not_or] at h hin
    rcases h with h | h
    · exact absurd h (hin _ _).1
    · exact absurd h (hin _ _).2
  apart := apart_start _ hd

/-- Deeds that are no starts and complete nothing. -/
lemma Adds.other {m : Manifest} {ds : List Deed} (hs : ∀ t k x, Deed.started t k x ∉ ds)
    (hc : ∀ t report, Deed.completed t report ∉ ds) : Adds m c ds where
  starts h := absurd h (hs _ _ _)
  completes h := absurd h (hc _ _)
  apart := apart_of_none fun d hd => by cases d <;> first | rfl | exact absurd hd (hs _ _ _)

theorem Change.adds (hc : Change cfg c c') :
    ∃ ds, c'.history = c.history ++ ds ∧ Adds cfg.manifest c ds := by
  cases hc with
  | launches name names now hs ha hb | awaits name names now hs ha hb =>
    exact ⟨_, rfl, .start [] [] ⟨_, _, _, hs, by rw [ha]; rfl⟩ rfl (by simp) (by simp)⟩
  | nests name names hs ha ht hm =>
    exact ⟨_, rfl, .start [_] [] (.step hs ha (planStep_chain ht hm)) rfl (by simp) (by simp)⟩
  | misses names entries hs ha ht hm =>
    exact ⟨_, rfl, .start [] [] (.step hs ha (planStep_unknown ht hm)) trivial (by simp) (by simp)⟩
  | fails why now hs hf he =>
    refine ⟨_, rfl, ?_⟩
    cases hf with
    | member ha hr => exact .other (by simp) (by simp)
    | missing ha ht hm =>
      exact .start [] _ (.step hs ha (planStep_unknown ht hm)) trivial (by simp) (by simp)
  | completes hs ha hr hw hb =>
    refine ⟨_, rfl, ⟨by simp, fun h => ?_, List.pairwise_singleton ..⟩⟩
    cases List.mem_singleton.1 h
    exact ⟨_, _, hs, ⟨ha, hr, hw, hb⟩, rfl⟩
  | news hp follows | droppedCycle hs ht =>
    exact ⟨_, ite_concat .., .other (by simp) (by simp)⟩
  | quiet | settles | leaves | cycles | droppedRun => exact ⟨[], (List.append_nil _).symm, .nil⟩
  | breaks | locks | refused | drains | triggers | releases =>
    exact ⟨_, rfl, .other (by simp) (by simp)⟩

theorem Request.adds {m : Manifest} (hc : Request c c') :
    ∃ ds, c'.history = c.history ++ ds ∧ Adds m c ds := by
  cases hc with
  | run | push => exact ⟨_, rfl, .other (by simp) (by simp)⟩
  | cycles | stop | cancel => exact ⟨[], (List.append_nil _).symm, .nil⟩

/-- What a change and a request have in common. -/
structure Moves (m : Manifest) (c c' : Core) : Prop where
  keeps : Keeps c.tasks c'.tasks
  origin : ∀ {t : TaskId} {r : Course} {audience : Audience},
    taskAt c'.tasks t = some (.run r audience) → Origin m c c' t r audience
  adds : ∃ ds, c'.history = c.history ++ ds ∧ Adds m c ds
  length_le : c.table.handles.length ≤ c'.table.handles.length
  follows : c.table.Follows c'.table
  stops : c.stops ⊆ c'.stops

lemma Moves.grows {m : Manifest} (hc : Moves m c c') : c.history <+: c'.history := by
  obtain ⟨ds, hH, -⟩ := hc.adds
  exact ⟨ds, hH.symm⟩

/-- Whatever a run starts came first on its agenda. -/
lemma Moves.starts {m : Manifest} (hc : Moves m c c') {k : Nat} {x : Member}
    (hx : .started t k x ∈ c'.history) :
    .started t k x ∈ c.history ∨ c.Meets m t x.planned ∧ c.IsNext x := by
  obtain ⟨ds, hH, hds⟩ := hc.adds
  rw [hH] at hx
  exact (List.mem_append.1 hx).imp_right hds.starts

theorem Change.moves (hc : Change cfg c c') : Moves cfg.manifest c c' where
  keeps := hc.keeps
  origin := hc.origin
  adds := hc.adds
  length_le := by
    cases hc <;> simp
    all_goals rw [ProcessTable.length_launch]; exact Nat.le_succ _
  follows := by
    cases hc with
    | launches | awaits => exact .launch _ _
    | fails => exact .terminateAll _
    | news hp follows =>
      refine .update fun h hh => ?_
      rw [hp] at hh
      cases hh
      exact follows
    | _ => exact .refl _
  stops := by cases hc <;> simp

theorem Request.moves {m : Manifest} (hc : Request c c') : Moves m c c' where
  keeps := hc.keeps
  origin := hc.origin
  adds := hc.adds
  length_le := by cases hc <;> simp
  follows := by
    cases hc with
    | stop p now => exact .terminate p _
    | _ => exact .refl _
  stops := by cases hc <;> simp

/-- Where `P` is stable, so is what no move breaks. -/
lemma Stable.and_moves {P Q : Core → Prop} (hP : Stable cfg P)
    (hQ : ∀ {c c'}, P c → Q c → Moves cfg.manifest c c' → Q c') :
    Stable cfg fun c => P c ∧ Q c where
  change h hc := ⟨hP.change h.1 hc, hQ h.1 h.2 hc.moves⟩
  request h hc := ⟨hP.request h.1 hc, hQ h.1 h.2 hc.moves⟩

end ChainRunner.Run
