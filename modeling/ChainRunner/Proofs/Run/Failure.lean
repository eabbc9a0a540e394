import ChainRunner.Proofs.Run.Endings

/-!
Which failures count.

Whatever run it is, a step of it that is not in the background counts if it fails or names nothing.
Of a chain that was started in the background this holds as well: its own steps are not in the
background of it, and the flag is one for all runs.
-/

namespace ChainRunner.Run

open Relation

/-- The member counts, and it has failed: it is a process that is not in the background and has
ended badly, or a step that names nothing and is not in the background either. -/
def Member.Failed (t : ProcessTable) : Member → Prop
  | .process p i _ => i.isBackground = false ∧ t.EndedWith p true
  | .chain .. => False
  | .missing _ mode => mode = .sequential

/-- Some member that counts has failed. -/
def Core.Fails (c : Core) : Prop := ∃ t k x, .started t k x ∈ c.history ∧ x.Failed c.table

/-! ### What sets the flag -/

/-- A cycle of the task has lost a run. -/
def Task.HasLost (task : Task) : Prop := ∃ k, task.cycle? = some k ∧ k.lostRun = true

/-- Why the flag may have been set between the cores `c` and `c'`. -/
inductive Raises (c c' : Core) : Prop
  | enters {t : TaskId} {r : Course} {audience : Audience}
    (ht : taskAt c.tasks t = some (.run r audience)) (hf : r.entersFailure = true) : Raises c c'
  | misses {t : TaskId} {k : Nat} {target : String}
    (hx : .started t k (.missing target .sequential) ∈ c'.history) : Raises c c'
  | loses {t : TaskId} {task : Task} (ht : taskAt c.tasks t = some task) (hl : task.HasLost) :
    Raises c c'

/-- What has become of a member that the run `t` has started between the cores `c` and `c'`. -/
inductive Follows (c' : Core) (t : TaskId) : Member → Prop
  | aside {p : ProcessId} {i : Instance} {name : String} (hb : i.isBackground = true) :
    Follows c' t (.process p i name)
  | awaited {p : ProcessId} {i : Instance} {name : String} {w : TaskId}
    (he : Expects c'.tasks t w) (hw : taskAt c'.tasks w = some (.waiter p name t)) :
    Follows c' t (.process p i name)
  | nested {u : TaskId} {target name : String} {mode : Mode}
    (he : mode ≠ .background → Expects c'.tasks t u) : Follows c' t (.chain u target mode name)
  | missed {target : String} {mode : Mode} (hf : mode = .sequential → c'.failure = true)
    (hr : mode = .sequential → ∀ r audience, taskAt c'.tasks t = some (.run r audience) →
      r.failed = true) : Follows c' t (.missing target mode)

/-- What a step does about the flag. -/
structure Reckons (cfg : Setting) (c c' : Core) : Prop extends Steps cfg c c' where
  stays : c.failure = true → c'.failure = true
  raises : c'.failure = true → c.failure = true ∨ Raises c c'
  founds : ∀ {t : TaskId} {k : Nat} {x : Member}, .started t k x ∈ c'.history →
    .started t k x ∈ c.history ∨ Follows c' t x
  loses : ∀ {t : TaskId} {task : Task}, taskAt c'.tasks t = some task → task.HasLost →
    (∃ task, taskAt c.tasks t = some task ∧ task.HasLost) ∨
      ∃ v r, taskAt c.tasks v = some (.run r (.cycle t)) ∧ taskAt c'.tasks v = none ∧ ¬r.IsDone

section

variable {cfg : Setting} {c c' : Core} {t : TaskId} {k : Nat} {x : Member}

lemma Change.stays (hc : Change cfg c c') (h : c.failure = true) : c'.failure = true := by
  cases hc <;> simp [h]

lemma Change.raises (hc : Change cfg c c') (h : c'.failure = true) :
    c.failure = true ∨ Raises c c' := by
  cases hc with
  | quiet hs q => exact (Bool.or_eq_true_iff.1 h).imp_right (.enters (taskAt_of_slotAt hs))
  | @misses self r audience step agenda target names entries hs ha ht hm =>
    refine (Bool.or_eq_true_iff.1 h).imp_right fun hseq => ?_
    have hx : .started self r.batch (.missing target .sequential) ∈
        c.history ++ [.started self r.batch (.missing target step.mode)] := by
      simp [of_decide_eq_true hseq]
    exact .misses hx
  | @fails self r audience ds why now hs hf he =>
    right
    cases hf with
    | member ha hr => exact .enters (taskAt_of_slotAt hs) (by simp [Course.entersFailure, ha, hr])
    | @missing step agenda target ha ht hm hseq =>
      have hx : .started self r.batch (.missing target .sequential) ∈ c.history ++
          ([.started self r.batch (.missing target step.mode)] ++
            [.stopped self, .brokeOff self
              (.failure (.unknownScript (r.names.unique target).1))]) := by simp [hseq]
      exact .misses hx
  | cycles hs ht ht' hk =>
    exact (Bool.or_eq_true_iff.1 h).imp_right fun hl =>
      .loses (taskAt_of_slotAt hs) ⟨_, ht, hl⟩
  | _ => exact .inl h

lemma Change.founds (hc : Change cfg c c') (hx : .started t k x ∈ c'.history) :
    .started t k x ∈ c.history ∨ Follows c' t x := by
  cases hc with
  | launches name names now hs ha hb =>
    refine (List.mem_append.1 hx).imp_right fun hin => ?_
    cases List.mem_singleton.1 hin
    exact .aside hb
  | @awaits self r audience i agenda name names now hs ha hb =>
    have hlt : self < (c.tasks ++ keeperSlots cfg c.table.handles.length).length :=
      Nat.lt_of_lt_of_le (lt_of_slotAt hs) (by simp)
    refine (List.mem_append.1 hx).imp_right fun hin => ?_
    cases List.mem_singleton.1 hin
    refine .awaited ?_ (taskAt_of_slotAt (slotAt_mapAt_concat hlt _ fun _ => .run _ audience))
    rw [List.append_assoc]
    exact .put _ (taskAt_of_slotAt hs) (List.mem_append_right _ (List.mem_singleton_self _))
  | nests names name hs ha ht hm =>
    refine (List.mem_append.1 hx).imp_right fun hin => ?_
    rcases List.mem_cons.1 hin with hin | hin
    · cases hin
    · cases List.mem_singleton.1 hin
      exact .nested fun hb => .put _ (taskAt_of_slotAt hs) (by simp [hb])
  | misses names entries hs ha ht hm =>
    refine (List.mem_append.1 hx).imp_right fun hin => ?_
    cases List.mem_singleton.1 hin
    refine .missed (fun hseq => by simp [hseq]) fun hseq r audience hr => ?_
    rw [taskAt_mapAt, if_pos rfl] at hr
    obtain ⟨task, -, heq⟩ := Option.map_eq_some_iff.1 hr
    cases heq
    simp [hseq]
  | fails why now hs hf he =>
    -- what was missing is counted as the run breaks off, and the run is gone
    refine (List.mem_append.1 hx).imp_right fun hin => ?_
    obtain ⟨target, mode, heq⟩ | heq | heq := hf.mem_deeds hin <;> cases heq
    refine .missed (fun _ => rfl) fun _ r audience hr => ?_
    rw [taskAt_tellBreak_eq_none (by simp)] at hr
    cases hr
  | news hp follows | droppedCycle hs ht =>
    exact .inl (mem_of_mem_ite_concat (by simp) hx)
  | quiet | settles | leaves | cycles | droppedRun => exact .inl hx
  | completes | breaks | locks | refused | drains | triggers | releases =>
    exact .inl ((List.mem_append.1 hx).resolve_right (by simp))

variable {ts more : List (Option Slot)} {self a : TaskId} {task : Task} {r : Course}
  {audience : Audience}

lemma Task.HasLost.of_receive {v : TaskId} {b : Arrival} (h : (task.receive v b).HasLost) :
    task.HasLost := by
  cases task <;> exact h

lemma Task.HasLost.of_report {v : TaskId} {report : Report}
    (h : (task.receiveRun v (some report)).HasLost) : task.HasLost := by
  obtain ⟨k, hk, hl⟩ := h
  cases task with
  | tick label k₀ | loop due k₀ =>
    cases hk
    refine ⟨k₀, rfl, ?_⟩
    cases k₀ with
    | running d => simpa [Cycle.receive, Cycle.lostRun] using hl
    | _ => exact hl
  | _ => cases hk

lemma lost_of_mapAt {f : Task → Task} (hf : ∀ task, (f task).HasLost → task.HasLost)
    (ht : taskAt (mapAt ts a f) t = some task) (hl : task.HasLost) :
    ∃ task, taskAt ts t = some task ∧ task.HasLost := by
  rw [taskAt_mapAt] at ht
  split at ht
  · obtain ⟨task₀, h₀, rfl⟩ := Option.map_eq_some_iff.1 ht
    exact ⟨task₀, h₀, hf task₀ hl⟩
  · exact ⟨task, ht, hl⟩

lemma lost_of_append (hmore : ∀ slot, some slot ∈ more → ¬slot.task.HasLost)
    (ht : taskAt (ts ++ more) t = some task) (hl : task.HasLost) :
    ∃ task, taskAt ts t = some task ∧ task.HasLost := by
  obtain ⟨slot, hs, rfl⟩ := Option.map_eq_some_iff.1 ht
  rcases Nat.lt_or_ge t ts.length with hlt | hge
  · rw [slotAt, List.getElem?_append_left hlt] at hs
    exact ⟨slot.task, by rw [taskAt, slotAt, hs]; rfl, hl⟩
  · exact absurd hl (hmore slot (slot_of_append hge hs))

lemma Task.not_hasLost_of_none (h : task.cycle? = none) : ¬task.HasLost := by
  rintro ⟨k, hk, -⟩
  rw [h] at hk
  cases hk

/-- A cycle whose run has broken off has lost it. -/
lemma lost_of_tellBreak {b : Break}
    (ht : taskAt (State.tellBreak self b audience ts) t = some task) (hl : task.HasLost) :
    (∃ task, taskAt ts t = some task ∧ task.HasLost) ∨ audience = .cycle t := by
  cases audience with
  | barrier owner name => exact .inl (lost_of_mapAt (fun _ => .of_receive) ht hl)
  | cycle owner =>
    by_cases h : owner = t
    · exact .inr (congrArg _ h)
    · simp only [State.tellBreak, taskAt_mapAt, if_neg h] at ht
      exact .inl ⟨task, ht, hl⟩
  | caller label | nobody => exact .inl ⟨task, ht, hl⟩

lemma Change.loses (hc : Change cfg c c') (ht : taskAt c'.tasks t = some task)
    (hl : task.HasLost) : (∃ task, taskAt c.tasks t = some task ∧ task.HasLost) ∨
      ∃ v r, taskAt c.tasks v = some (.run r (.cycle t)) ∧ taskAt c'.tasks v = none ∧
        ¬r.IsDone := by
  -- a task that has become another one has not lost a run with that
  have hput {t' : Task} (ht' : ¬t'.HasLost) : ∀ task : Task, t'.HasLost → task.HasLost :=
    fun _ h => absurd h ht'
  have hrun {r : Course} {audience : Audience} : ¬(Task.run r audience).HasLost :=
    Task.not_hasLost_of_none rfl
  have hkeeper {p : ProcessId} : ¬(Task.keeper p).HasLost := Task.not_hasLost_of_none rfl
  have hgone {ts : List (Option Slot)} {a : TaskId} {task : Task}
      (h : taskAt (ts.set a none) t = some task) : taskAt ts t = some task :=
    (taskAt_of_set_none h).2
  have hcycle {t' : Task} {k : Cycle} (hk : t'.cycle? = some k) (hn : k.lostRun = false) :
      ¬t'.HasLost := by
    rintro ⟨k', hk', hl'⟩
    rw [hk] at hk'
    cases hk'
    rw [hn] at hl'
    cases hl'
  cases hc with dsimp only at ht
  | quiet | misses => exact .inl (lost_of_mapAt (hput hrun) ht hl)
  | launches =>
    obtain ⟨task', ht', hl'⟩ := lost_of_mapAt (hput hrun) ht hl
    exact .inl (lost_of_append (forall_keeperSlots hkeeper) ht' hl')
  | awaits =>
    obtain ⟨task', ht', hl'⟩ := lost_of_mapAt (hput hrun) ht hl
    rw [List.append_assoc] at ht'
    exact .inl (lost_of_append
      (forall_waiterSlots hkeeper (Task.not_hasLost_of_none rfl)) ht' hl')
  | nests =>
    obtain ⟨task', ht', hl'⟩ := lost_of_mapAt (hput hrun) ht hl
    exact .inl (lost_of_append (forall_slot_singleton hrun) ht' hl')
  | @completes self r audience hs ha hr hw hb =>
    left
    cases audience with
    | barrier owner name =>
      obtain ⟨task', ht', hl'⟩ := lost_of_mapAt (fun _ => .of_receive) ht hl
      exact ⟨task', hgone ht', hl'⟩
    | cycle owner =>
      obtain ⟨task', ht', hl'⟩ := lost_of_mapAt (fun _ => .of_report) ht hl
      exact ⟨task', hgone ht', hl'⟩
    | caller label | nobody => exact ⟨task, hgone ht, hl⟩
  | @breaks self r audience b hs hb =>
    rcases lost_of_tellBreak ht hl with ⟨task', ht', hl'⟩ | rfl
    · exact .inl ⟨task', (taskAt_of_dropped ht').2, hl'⟩
    · exact .inr ⟨self, r, taskAt_of_slotAt hs, taskAt_mapAt_eq_none (by simp), hb.not_isDone⟩
  | @fails self r audience ds why now hs hf he =>
    rcases lost_of_tellBreak ht hl with ⟨task', ht', hl'⟩ | rfl
    · exact .inl ⟨task', (taskAt_of_dropped ht').2, hl'⟩
    · exact .inr ⟨self, r, taskAt_of_slotAt hs, taskAt_mapAt_eq_none (by simp), hf.not_isDone⟩
  | settles =>
    obtain ⟨task', ht', hl'⟩ := lost_of_mapAt (fun _ => .of_receive) ht hl
    exact .inl ⟨task', hgone ht', hl'⟩
  | leaves => exact .inl ⟨task, hgone ht, hl⟩
  | news => exact .inl ⟨task, ht, hl⟩
  | locks hs ht₀ ht' => exact .inl (lost_of_mapAt (hput (hcycle ht' rfl)) ht hl)
  | drains hs ht₀ ht' =>
    refine .inl (lost_of_mapAt (hput ?_) ht hl)
    rcases ht' with ht' | ht' <;> exact hcycle ht' rfl
  | cycles hs ht₀ ht' hk hlost => exact .inl (lost_of_mapAt (hput (hcycle ht' hlost)) ht hl)
  | triggers =>
    exact .inl (lost_of_append (forall_slot_singleton hrun) ht hl)
  | refused hs ht₀ hl₀ hcl | releases hs ht₀ hcl =>
    cases hcl with
    | gone => exact .inl ⟨task, hgone ht, hl⟩
    | again due => exact .inl (lost_of_mapAt (hput (hcycle rfl rfl)) ht hl)
  | droppedRun | droppedCycle => exact .inl ⟨task, (taskAt_of_dropped ht).2, hl⟩

theorem Change.reckons (hc : Change cfg c c') : Reckons cfg c c' :=
  { hc.steps with
    stays := hc.stays, raises := hc.raises, founds := hc.founds, loses := hc.loses }

theorem Request.reckons (hc : Request c c') (hpre : c.tasks <+: c'.tasks) : Reckons cfg c c' where
  toSteps := hc.steps hpre
  stays h := by cases hc <;> exact h
  raises h := by cases hc <;> exact .inl h
  founds hx := by
    left
    cases hc with
    | run | push => exact (List.mem_append.1 hx).resolve_right (by simp)
    | cycles | stop | cancel => exact hx
  loses {t task} ht hl := by
    left
    cases hc with
    | run =>
      exact lost_of_append (forall_slot_singleton (Task.not_hasLost_of_none rfl)) ht hl
    | cycles hidle =>
      refine lost_of_append (forall_slot_singleton ?_) ht hl
      rintro ⟨k, hk, hlost⟩
      rw [hidle] at hk
      cases hk
      cases hlost
    | push | stop => exact ⟨task, ht, hl⟩
    | cancel => exact ⟨task, by simpa using ht, hl⟩

end

/-! ### What the flag says -/

/-- What has come of the process `p` that the run `t` waits for, unless the flag is set: it has
ended well, or the run is there to learn that it has not. -/
inductive Heeds (c : Core) (t : TaskId) (p : ProcessId) : Prop
  | counted (h : c.failure = true) : Heeds c t p
  | well (h : c.table.EndedWith p false) : Heeds c t p
  | awaits {w : TaskId} {name : String} (he : Expects c.tasks t w)
    (hw : taskAt c.tasks w = some (.waiter p name t)) : Heeds c t p
  | knows {r : Course} {audience : Audience} {name : String} {code : Option Int}
    (ht : taskAt c.tasks t = some (.run r audience))
    (hr : .settled name true code ∈ r.arrived) : Heeds c t p

/-- The flag is set if a member that counts has failed, and only then. -/
structure Tallied (c : Core) : Prop where
  found : ∀ {t : TaskId} {task : Task}, taskAt c.tasks t = some task → ¬task.HasLost
  settled : ∀ {t : TaskId} {r : Course} {audience : Audience} {name : String} {code : Option Int},
    taskAt c.tasks t = some (.run r audience) → .settled name true code ∈ r.arrived → c.Fails
  broken : ∀ {t : TaskId} {r : Course} {audience : Audience} {why : Failure},
    taskAt c.tasks t = some (.run r audience) → .broken why ∈ r.arrived → c.failure = true
  failed : ∀ {t : TaskId} {r : Course} {audience : Audience},
    taskAt c.tasks t = some (.run r audience) → r.failed = true → c.failure = true
  cancelled : ∀ {w : TaskId} {slot : Slot}, slotAt c.tasks w = some slot →
    slot.cancelled = true → c.failure = true
  missing : ∀ {t : TaskId} {k : Nat} {target : String},
    .started t k (.missing target .sequential) ∈ c.history → c.failure = true
  heeded : ∀ {t : TaskId} {k : Nat} {p : ProcessId} {i : Instance} {name : String},
    .started t k (.process p i name) ∈ c.history → i.isBackground = false → Heeds c t p
  blamed : c.failure = true → c.Fails

section

variable {cfg : Setting} {m : Manifest} {c c' : Core} {t w : TaskId} {p : ProcessId} {r : Course}
  {audience : Audience} {name : String} {code : Option Int}

lemma Core.Fails.moves (h : c.Fails) (hc : Moves m c c') : c'.Fails := by
  obtain ⟨t, k, x, hx, hf⟩ := h
  refine ⟨t, k, x, hc.grows.subset hx, ?_⟩
  cases x with
  | process => exact ⟨hf.1, hf.2.follows hc.follows⟩
  | chain | missing => exact hf

lemma endedWith_of_outcome? {t : ProcessTable} {h : Handle} {failed : Bool}
    (hp : t.get? p = some h) (ho : h.outcome? = some (code, failed)) : t.EndedWith p failed := by
  have he := Handle.hasEnded_of_outcome? ho
  simp only [Handle.outcome?, he, if_true, Option.some.injEq, Prod.mk.injEq] at ho
  exact ⟨h, hp, he, ho.2⟩

namespace Tallied

/-- A run that is gone has come to its end, or the flag says why it has not. -/
lemma gone (h : Tallied c) (hcfg : cfg.Sound) (hc : Reckons cfg c c')
    (ht : taskAt c.tasks t = some (.run r audience)) (hn : taskAt c'.tasks t = none) :
    r.IsDone ∨ c'.failure = true := by
  obtain ⟨⟨_, b⟩, hs, rfl⟩ := Option.map_eq_some_iff.1 ht
  cases b with
  | true => exact .inr (hc.stays (h.cancelled hs rfl))
  | false =>
    cases hc.ends hs (taskAt_eq_none_iff.1 hn) with
    | completes hd => exact .inl hd
    | breaks hb =>
      cases hb with
      | member ha hr => exact .inr (hc.stays (h.broken ht (hr ▸ List.mem_cons_self)))
      | crash ha hb => simp [hcfg _ _] at hb
    | fails he hf => exact .inr hf

lemma fails_of_settled (h : Tallied c) (hk : Kept m c)
    (hv : Tells c t w (.settled name true code)) : c.Fails := by
  generalize hb : Arrival.settled name true code = b at hv
  cases hv with
  | waiter hs hp ho =>
    cases hb
    obtain ⟨k, i, hx, hi⟩ := hk.attributed.waiter (taskAt_of_slotAt hs)
    exact ⟨t, k, _, hx, hi, endedWith_of_outcome? hp ho⟩
  | completed hs hd =>
    simp only [Arrival.settled.injEq] at hb
    exact h.blamed (h.failed (taskAt_of_slotAt hs) hb.2.1.symm)
  | broken => cases hb

lemma failure_of_broken (h : Tallied c) (hcfg : cfg.Sound) (hc : Reckons cfg c c') {why : Failure}
    (hv : Tells c t w (.broken why)) (gone : taskAt c'.tasks w = none) : c'.failure = true := by
  cases hv with
  | broken hs hu => exact (h.gone hcfg hc (taskAt_of_slotAt hs) gone).resolve_left hu

/-- What the run was told stands, or the flag is set when it enters it. -/
lemma heeds_of_run (h : Tallied c) (hcfg : cfg.Sound) (hc : Reckons cfg c c')
    (ht : taskAt c.tasks t = some (.run r audience))
    (hr : .settled name true code ∈ r.arrived) : Heeds c' t p := by
  rcases hc.keeps.run_after ht with hn | ⟨r', hr'⟩
  · refine .counted ((h.gone hcfg hc ht hn).resolve_left fun hd => ?_)
    simp [hd.2.1] at hr
  · cases hc.origin hr' with
    | same ht₁ =>
      cases ht.symm.trans ht₁
      exact .knows hr' hr
    | takes ht₁ ha hx hb hw like =>
      cases ht.symm.trans ht₁
      exact .knows hr' (like.arrived ▸ hr)
    | quiet ht₁ q hf =>
      cases ht.symm.trans ht₁
      cases q with
      | enter entries ha harrived =>
        rw [harrived] at hr
        rcases List.mem_cons.1 hr with heq | hin
        · cases heq
          exact .counted (hf (by simp [Course.entersFailure, ha, harrived]))
        · exact .knows hr' hin
      | skip | expand | begins => exact .knows hr' hr
    | told ht₁ heq =>
      cases ht.symm.trans ht₁
      subst heq
      exact .knows hr' (List.mem_append_left _ hr)
    | fresh hlen => exact absurd (lt_of_taskAt ht) (hlen ▸ Nat.lt_irrefl _)

/-- As long as the process has not ended, the run waits for it, and then it learns how. -/
lemma heeds_of_waiter (h : Tallied c) (hcfg : cfg.Sound) (hc : Reckons cfg c c') (hk : Kept m c)
    (he : Expects c.tasks t w) (hw : taskAt c.tasks w = some (.waiter p name t)) :
    Heeds c' t p := by
  obtain ⟨r, audience, ht, hin⟩ := he
  rcases hc.keeps.run_after ht with hn | ⟨r', hr'⟩
  · refine .counted ((h.gone hcfg hc ht hn).resolve_left fun hd => ?_)
    simp [hd.2.2.1] at hin
  · have hstill (hin' : w ∈ r'.waiting) : Heeds c' t p := by
      obtain ⟨task, hs, -⟩ := hk.tended.stays hc.toSteps ht hin hr' hin'
      have hw' : taskAt c'.tasks w = some task := taskAt_of_slotAt hs
      obtain ⟨task₀, hw₀, hkin⟩ := hc.keeps.kin (lt_of_taskAt hw) hw'
      rw [hw] at hw₀
      cases hw₀
      obtain rfl := hkin.of_waiter
      exact .awaits ⟨r', audience, hr', hin'⟩ hw'
    rcases (hc.origin hr').waits ht hin with hin' | ⟨a, rfl, hv, -⟩
    · exact hstill hin'
    · cases hv with
      | @waiter p' name' hd failed code hs hp ho =>
        cases (taskAt_of_slotAt hs).symm.trans hw
        cases failed with
        | false => exact .well ((endedWith_of_outcome? hp ho).follows hc.follows)
        | true => exact .knows hr' (List.mem_append_right _ (List.mem_singleton_self _))
      | completed hs | broken hs => cases (taskAt_of_slotAt hs).symm.trans hw

lemma not_lost (h : Tallied c) (hcfg : cfg.Sound) (hc : Reckons cfg c c') (hk : Kept m c)
    (hl : Lenient c) {task : Task} (ht : taskAt c'.tasks t = some task) : ¬task.HasLost := by
  intro hlost
  rcases hc.loses ht hlost with ⟨task, ht', hlost'⟩ | ⟨v, r, hv, hn, hu⟩
  · exact h.found ht' hlost'
  · exact hu (hl.ends hcfg hc.toSteps hv (hk.attributed.triggered hv) hn).1

lemma step (h : Tallied c) (hcfg : cfg.Sound) (hk : Kept m c) (hl : Lenient c)
    (hc : Reckons cfg c c') : Tallied c' where
  found ht := h.not_lost hcfg hc hk hl ht
  settled hr' hin := by
    -- a failure that a run hears of now is one that its member had before
    obtain ⟨r, hr, -, hold | ⟨v, hv, -⟩⟩ := (hc.origin hr').arrived hin
    · exact (h.settled hr hold).moves hc.toMoves
    · exact (h.fails_of_settled hk hv).moves hc.toMoves
  broken hr' hin := by
    obtain ⟨r, hr, -, hold | ⟨v, hv, gone⟩⟩ := (hc.origin hr').arrived hin
    · exact hc.stays (h.broken hr hold)
    · exact h.failure_of_broken hcfg hc hv gone
  failed {t r' audience} hr' hfailed := by
    cases hc.origin hr' with
    | same hr => exact hc.stays (h.failed hr hfailed)
    | takes hr ha hx hb hw like hf => exact (hf hfailed).elim (hc.stays ∘ h.failed hr) And.left
    | quiet hr q hf =>
      cases q with
      | enter entries ha harrived =>
        rcases Bool.or_eq_true_iff.1 hfailed with hold | hnew
        · exact hc.stays (h.failed hr hold)
        · exact hf (by simp [Course.entersFailure, ha, harrived, hnew])
      | skip | expand | begins => exact hc.stays (h.failed hr hfailed)
    | told hr heq =>
      subst heq
      exact hc.stays (h.failed hr hfailed)
    | fresh _ heq =>
      subst heq
      cases hfailed
  cancelled {w slot'} hs' hb := by
    -- what a run drops as it breaks off is dropped with the flag set
    by_cases hlt : w < c.tasks.length
    · obtain ⟨slot, hs, -⟩ := hc.keeps.slot hlt hs'
      by_cases hb₀ : slot.cancelled = true
      · exact hc.stays (h.cancelled hs hb₀)
      · cases hc.cancels hs (by simpa using hb₀) hs' hb with
        | run hv hw gone =>
          refine (h.gone hcfg hc hv gone).resolve_left fun hd => ?_
          simp [hd.2.2.1] at hw
        | cycle hv => exact hc.stays (h.cancelled hv rfl)
    · obtain ⟨hf, -⟩ := hc.arises (Nat.not_lt.1 hlt) hs'
      rw [hf] at hb
      cases hb
  missing hx := by
    rcases hc.founds hx with hold | hnew
    · exact hc.stays (h.missing hold)
    · cases hnew with
      | missed hf => exact hf rfl
  heeded hx hb := by
    rcases hc.founds hx with hold | hnew
    · cases h.heeded hold hb with
      | counted hf => exact .counted (hc.stays hf)
      | well he => exact .well (he.follows hc.follows)
      | awaits he hw => exact h.heeds_of_waiter hcfg hc hk he hw
      | knows ht hr => exact h.heeds_of_run hcfg hc ht hr
    · cases hnew with
      | aside hb' => simp [hb] at hb'
      | awaited he hw => exact .awaits he hw
  blamed hf := by
    rcases hc.raises hf with hold | hraised
    · exact (h.blamed hold).moves hc.toMoves
    · cases hraised with
      | @enters t r audience ht hf =>
        unfold Course.entersFailure at hf
        split at hf
        · rename_i heq
          subst hf
          exact (h.settled ht (heq ▸ List.mem_cons_self)).moves hc.toMoves
        · cases hf
      | misses hx => exact ⟨_, _, _, hx, rfl⟩
      | loses ht hlost => exact absurd hlost (h.found ht)

end Tallied

lemma tallied_nil : Tallied {} := by
  refine ⟨?_, ?_, ?_, ?_, ?_, ?_, ?_, ?_⟩ <;> simp [taskAt, slotAt]

lemma tallied_steady (hcfg : cfg.Sound) :
    Steady cfg fun c => (Kept cfg.manifest c ∧ Lenient c) ∧ Tallied c where
  change h hc :=
    ⟨(lenient_steady hcfg).change h.1 hc, h.2.step hcfg h.1.1 h.1.2 hc.reckons⟩
  request h hc hpre :=
    ⟨(lenient_steady hcfg).request h.1 hc hpre, h.2.step hcfg h.1.1 h.1.2 (hc.reckons hpre)⟩

theorem Calm.tallied {s : State} (hcfg : cfg.Sound) (h : Calm cfg s) : Tallied s.toCore :=
  ((tallied_steady hcfg).calm ⟨⟨kept_nil _, lenient_nil⟩, tallied_nil⟩ h).2

/-! ### The flag is one for all runs -/

lemma failure_of_happens {s s' : State} (h : ReflTransGen (Happens cfg) s s')
    (hf : s.failure = true) : s'.failure = true := by
  have hstable : Stable cfg fun c => c.failure = true :=
    ⟨fun h hc => hc.stays h, fun h hc => by cases hc <;> exact h⟩
  exact hstable.happens hf h

/-- **Which failures count.** As long as nobody drops a task from outside and the launcher does not
break down, the flag is set only if a member has failed that is not in the background itself,
whichever run has started it: a run that was started in the background counts its failures like any
other. Such a failure sets the flag at once if the step names nothing, and before its run is over
otherwise. Once the flag is set it stays set. -/
theorem counted_failures {s : State} (hcfg : cfg.Sound) (hs : Calm cfg s) :
    (s.failure = true → s.toCore.Fails) ∧
    (∀ t k x, .started t k x ∈ s.history → x.Failed s.table →
      ((∃ target mode, x = .missing target mode) ∨ taskAt s.tasks t = none) →
        s.failure = true) ∧
    ((∀ t chain vars e, .opened t chain vars e ∈ s.history → taskAt s.tasks t = none) →
      (s.failure = true ↔ s.toCore.Fails)) ∧
    ∀ s', ReflTransGen (Happens cfg) s s' → s.failure = true → s'.failure = true := by
  have h := hs.tallied hcfg
  have hcounts (t : TaskId) (k : Nat) (x : Member) (hx : .started t k x ∈ s.history)
      (hf : x.Failed s.table)
      (hover : (∃ target mode, x = .missing target mode) ∨ taskAt s.tasks t = none) :
      s.failure = true := by
    cases x with
    | process p i name =>
      obtain ⟨hb, hbad, hp, -, hbad'⟩ := hf
      have hn : taskAt s.tasks t = none := hover.resolve_left (by simp)
      cases h.heeded hx hb with
      | counted hf => exact hf
      | well he =>
        obtain ⟨hwell, hp', -, hwell'⟩ := he
        cases hp.symm.trans hp'
        simp [hbad'] at hwell'
      | awaits he =>
        obtain ⟨r, audience, ht, -⟩ := he
        simp [hn] at ht
      | knows ht => simp [hn] at ht
    | chain => exact hf.elim
    | missing target mode =>
      obtain rfl := hf
      exact h.missing hx
  refine ⟨h.blamed, hcounts, fun hover => ⟨h.blamed, ?_⟩, fun s' => failure_of_happens⟩
  rintro ⟨t, k, x, hx, hf⟩
  obtain ⟨chain, vars, e, ho⟩ := hs.kept.orderly.ordered.opened hx
  exact hcounts t k x hx hf (.inr (hover t chain vars e ho))

end

/-- The run of `+bg`, where `a` fails, once it is over and `bg` as well. -/
def State.beneath : State :=
  let s : State := (({} : State).spawn (.run (.start "+bg" .empty false) (.caller "r"))).1
  let s := (s.actAll .paused [0, 0, 0, 1, 1, 1]).endProcess 0 false (some 1) false
  let s := (s.actAll .paused [2, 1, 1, 1, 1]).endProcess 1 false (some 0) false
  s.actAll .paused [3, 1, 1]

lemma calm_beneath : Calm .paused .beneath := by
  have h := calm_run .paused "+bg" .empty false "r"
  have h := (h.evolves (evolves_actAll [0, 0, 0, 1, 1, 1])).evolves
    (evolves_endProcess 0 false (some 1) false)
  have h := (h.evolves (evolves_actAll [2, 1, 1, 1, 1])).evolves
    (evolves_endProcess 1 false (some 0) false)
  exact h.evolves (evolves_actAll [3, 1, 1])

/-- The flag is set although nothing has failed that is not beneath a background chain. -/
theorem counted_failures_beneath :
    State.beneath.failure = true ∧
      (∀ t k x, .started t k x ∈ State.beneath.history → x.Failed State.beneath.table → t = 1) ∧
      .started 0 1 (.chain 1 "bg" .background "bg") ∈ State.beneath.history := by
  have hH : State.beneath.history =
      [.opened 0 "+bg" .empty false, .opened 1 "a - b" .empty false,
        .started 0 1 (.chain 1 "bg" .background "bg"), .completed 0 ⟨"+bg", false, []⟩,
        .started 1 1 (.process 0 ⟨"a", "a", "true", .sequential⟩ "a"), .ended 0,
        .started 1 2 (.process 1 ⟨"b", "b", "true", .sequential⟩ "b"), .ended 1,
        .completed 1 ⟨"a - b", true, [⟨"a", false, true, true, some 1⟩,
          ⟨"b", false, true, false, some 0⟩]⟩] := rfl
  have htasks : State.beneath.tasks = [none, none, none, none] := rfl
  have hgone (t : TaskId) : taskAt State.beneath.tasks t = none := by
    rw [htasks]
    rcases t with _ | _ | _ | _ | t <;> rfl
  have hfails : State.beneath.toCore.Fails :=
    ⟨1, 1, .process 0 ⟨"a", "a", "true", .sequential⟩ "a", by simp [hH], rfl, _, rfl, rfl, rfl⟩
  obtain ⟨-, -, hsettled, -⟩ := counted_failures (fun _ _ => rfl) calm_beneath
  refine ⟨(hsettled fun t _ _ _ _ => hgone t).2 hfails, fun t k x hx hf => ?_, by simp [hH]⟩
  simp only [hH, List.mem_cons, Deed.started.injEq, reduceCtorEq, false_or, or_false,
    List.not_mem_nil] at hx
  rcases hx with ⟨rfl, rfl, rfl⟩ | ⟨rfl, -⟩ | ⟨rfl, -⟩
  · exact hf.elim
  · rfl
  · rfl

end ChainRunner.Run
