import ChainRunner.Proofs.Run.Barrier

/-!
A session that makes no dispatch cycles and was asked for one run comes to rest: once that run and
the chains it has started in the background have completed, all its runs have, and nothing is
started any more.
-/

namespace ChainRunner.Run

open Relation

/-- The run has started all that was planned, and what it started has settled. -/
structure Fulfilled (m : Manifest) (H : List Deed) (t : TaskId) (chain : String)
    (vars : Variables) : Prop where
  finished : Finished m H t chain vars
  settled : ∀ {k : Nat} {x : Member}, .started t k x ∈ H → Settled m H vars x

/-- Nothing is left to do and nothing to wait for. -/
structure Exhausted (m : Manifest) (H : List Deed) : Prop where
  processes : ∀ {r : TaskId} {k : Nat} {p : ProcessId} {i : Instance} {name : String},
    .started r k (.process p i name) ∈ H → .ended p ∈ H
  chains : ∀ {r t : TaskId} {k : Nat} {target name : String} {mode : Mode},
    .started r k (.chain t target mode name) ∈ H →
      ∃ expr vars, m.resolve target = .chain expr ∧ Fulfilled m H t expr vars

/-! ### Completed runs -/

section

variable {m : Manifest} {c c' : Core} {ds : List Deed} {t : TaskId}

lemma Fulfilled.append {H : List Deed} {chain : String} {vars : Variables} (hr : Respects H ds)
    (h : Fulfilled m H t chain vars) : Fulfilled m (H ++ ds) t chain vars where
  finished := h.finished.append hr
  settled hx := by
    obtain ⟨report, hc⟩ := h.finished.completed
    exact (h.settled ((List.mem_append.1 hx).resolve_right (hr hc))).append hr

/-- Every run that has completed has fulfilled its plan. -/
def Concluded (m : Manifest) (c : Core) : Prop :=
  ∀ t report, .completed t report ∈ c.history → ∃ chain vars, Fulfilled m c.history t chain vars

lemma Concluded.fulfilled (h : Concluded m c) (ho : Orderly m c) {e : String} {vars : Variables}
    {flag : Bool} {report : Report} (hopen : .opened t e vars flag ∈ c.history)
    (hx : .completed t report ∈ c.history) : Fulfilled m c.history t e vars := by
  obtain ⟨chain, vars', hf⟩ := h t report hx
  obtain ⟨flag', hopen'⟩ := hf.finished.opened
  obtain ⟨rfl, rfl, -⟩ := ho.opened_unique hopen hopen'
  exact hf

lemma Concluded.move (h : Concluded m c) (ho : Orderly m c) (hc : Moves m c c') :
    Concluded m c' := by
  intro t report hin
  obtain ⟨ds, hH, hds⟩ := hc.adds
  have hr : Respects c.history ds := ho.respects fun hx => by
    obtain ⟨⟨r, audience, rest, hs, -⟩, -⟩ := hds.starts hx
    exact ⟨_, taskAt_of_slotAt hs⟩
  rw [hH] at hin ⊢
  rcases List.mem_append.1 hin with hold | hnew
  · obtain ⟨chain, vars, hf⟩ := h t report hold
    exact ⟨chain, vars, hf.append hr⟩
  · obtain ⟨r, audience, hs, ⟨ha, hr', hw, hb⟩, -⟩ := hds.completes hnew
    have htrack := ho.runs (taskAt_of_slotAt hs)
    obtain ⟨hplan, hmembers⟩ := htrack.done ha hr' hw hb
    have hstart {k : Nat} {x : Member} : Deed.started t k x ∉ ds := fun hx => by
      obtain ⟨⟨r₁, audience₁, rest, hs₁, hplan⟩, -⟩ := hds.starts hx
      rw [hs] at hs₁
      cases hs₁
      simp [ha] at hplan
    refine ⟨r.chain, r.vars, ⟨⟨_, List.mem_append_left _ htrack.opened⟩, ⟨report, hin⟩, ?_⟩, ?_⟩
    · intro j ps hps
      rw [membersOf_append, membersOf_eq_nil fun x => hstart, List.append_nil]
      exact hplan hps
    · intro k x hx
      exact (hmembers k x ((List.mem_append.1 hx).resolve_right hstart)).append hr

end

lemma concluded_stable (cfg : Setting) : Stable cfg fun c =>
    (Orderly cfg.manifest c ∧ Accounted c) ∧ Concluded cfg.manifest c :=
  (orderly_stable cfg).and_moves fun ho h hc => h.move ho.1 hc

theorem Reachable.concluded {cfg : Setting} {s : State} (h : Reachable cfg s) :
    Concluded cfg.manifest s.toCore :=
  ((concluded_stable cfg).reachable
    ⟨⟨orderly_nil _, accounted_nil⟩, fun _ _ h => absurd h List.not_mem_nil⟩ h).2

/-! ### One run and no cycles -/

/-- The session makes no cycles and was asked for the run `0` only. -/
structure Lone (c : Core) : Prop where
  cycle : ∀ {t : TaskId} {task : Task}, taskAt c.tasks t = some task → task.cycle? = none
  caller : ∀ {t : TaskId} {r : Course} {label : String},
    taskAt c.tasks t = some (.run r (.caller label)) → t = 0
  opened : ∀ {t : TaskId} {chain : String} {vars : Variables} {e : Bool},
    .opened t chain vars e ∈ c.history →
      t = 0 ∨ ∃ r k target mode name, r < t ∧ .started r k (.chain t target mode name) ∈ c.history
  answered : ∀ {label : String} {report : Report},
    (label, .run (.ok report)) ∈ c.outcomes → .completed 0 report ∈ c.history

section

variable {cfg : Setting} {c c' : Core} {ds : List Deed} {os : List (String × Outcome)}

/-- Whatever leaves the tasks what they are, adds none that make cycles or have a caller, and
answers with breaks only, leaves the session alone. -/
lemma Lone.frame (h : Lone c) (hk : Keeps c.tasks c'.tasks)
    (hnew : ∀ t task, c.tasks.length ≤ t → taskAt c'.tasks t = some task →
      task.cycle? = none ∧ ∀ r label, task ≠ .run r (.caller label))
    (hH : c'.history = c.history ++ ds)
    (hds : ∀ t chain vars e, .opened t chain vars e ∈ ds →
      ∃ r k target mode name, r < t ∧ .started r k (.chain t target mode name) ∈ ds)
    (hout : c'.outcomes = c.outcomes ++ os)
    (hos : ∀ label report, (label, .run (.ok report)) ∈ os → .completed 0 report ∈ ds) :
    Lone c' where
  cycle {t task} ht := by
    by_cases hlt : t < c.tasks.length
    · obtain ⟨task', ht', hkin⟩ := hk.kin hlt ht
      have hnone := hkin.cycle_isSome
      rw [h.cycle ht'] at hnone
      exact Option.not_isSome_iff_eq_none.1 (by simp [hnone])
    · exact (hnew t task (Nat.not_lt.1 hlt) ht).1
  caller {t r label} ht := by
    by_cases hlt : t < c.tasks.length
    · obtain ⟨task', ht', hkin⟩ := hk.kin hlt ht
      obtain ⟨r', rfl, -⟩ := hkin.to_run
      exact h.caller ht'
    · exact absurd rfl ((hnew t _ (Nat.not_lt.1 hlt) ht).2 r label)
  opened {t chain vars e} ho := by
    rw [hH] at ho ⊢
    rcases List.mem_append.1 ho with ho | ho
    · exact (h.opened ho).imp_right fun ⟨r, k, target, mode, name, hlt, hx⟩ =>
        ⟨r, k, target, mode, name, hlt, List.mem_append_left _ hx⟩
    · obtain ⟨r, k, target, mode, name, hlt, hx⟩ := hds t chain vars e ho
      exact .inr ⟨r, k, target, mode, name, hlt, List.mem_append_right _ hx⟩
  answered {label report} hin := by
    rw [hout] at hin
    rw [hH]
    rcases List.mem_append.1 hin with hin | hin
    · exact List.mem_append_left _ (h.answered hin)
    · exact List.mem_append_right _ (hos label report hin)

lemma not_mem_answerBreak {b : Break} {audience : Audience} {label : String} {report : Report} :
    (label, .run (.ok report)) ∉ State.answerBreak b audience := by
  unfold State.answerBreak
  split <;> simp

lemma Lone.change (h : Lone c) (hc : Change cfg c c') : Lone c' := by
  have hold (hlen : c'.tasks.length = c.tasks.length) (t : TaskId) (task : Task)
      (hle : c.tasks.length ≤ t) (ht : taskAt c'.tasks t = some task) :
      task.cycle? = none ∧ ∀ r label, task ≠ .run r (.caller label) :=
    absurd (lt_of_taskAt ht) (Nat.not_lt.2 (hlen ▸ hle))
  have hk := hc.keeps
  cases hc with
  | quiet hs q | settles failed code hw hp he | leaves hs ht' | droppedRun hs =>
    exact h.frame hk (hold (by simp)) (List.append_nil _).symm (by simp) (List.append_nil _).symm
      (by simp)
  | launches name names now hs ha hb =>
    refine h.frame hk (fun t task hle ht => ?_) rfl (by simp) (List.append_nil _).symm (by simp)
    dsimp only at ht
    obtain ⟨slot, hslot, rfl⟩ := mem_of_grow (lt_of_slotAt hs) hle ht
    exact ⟨forall_keeperSlots (P := fun slot => slot.task.cycle? = none) rfl slot hslot,
      fun r label => not_run_of_keeperSlots hslot r _⟩
  | awaits name names now hs ha hb =>
    refine h.frame hk (fun t task hle ht => ?_) rfl (by simp) (List.append_nil _).symm (by simp)
    dsimp only at ht
    rw [List.append_assoc] at ht
    obtain ⟨slot, hslot, rfl⟩ := mem_of_grow (lt_of_slotAt hs) hle ht
    exact ⟨forall_waiterSlots (P := fun slot => slot.task.cycle? = none) rfl rfl slot hslot,
      fun r label => not_run_of_waiterSlots hslot r _⟩
  | @nests self r audience step agenda target expr name names hs ha ht hm =>
    have hself := lt_of_slotAt hs
    refine h.frame hk (fun t task hle ht => ?_) rfl (fun t chain vars e ho => ?_)
      (List.append_nil _).symm (by simp)
    · dsimp only at ht
      obtain ⟨slot, hslot, rfl⟩ := mem_of_grow hself hle ht
      cases List.mem_singleton.1 hslot
      refine ⟨rfl, fun r' label heq => ?_⟩
      unfold audienceOf at heq
      split at heq <;> cases heq
    · simp only [List.mem_cons, reduceCtorEq, List.not_mem_nil, or_false] at ho
      cases ho
      exact ⟨self, r.batch, target, step.mode, name, hself, by simp⟩
  | misses names entries hs ha ht hm =>
    exact h.frame hk (hold (by simp)) rfl (by simp) (List.append_nil _).symm (by simp)
  | completes hs ha hr hw hb =>
    refine h.frame hk (hold (by simp)) rfl (by simp) rfl fun label report hin => ?_
    unfold State.answerReport at hin
    split at hin
    · cases List.mem_singleton.1 hin
      exact List.mem_singleton.2 (by rw [h.caller (taskAt_of_slotAt hs)])
    · cases hin
  | breaks hs hb =>
    exact h.frame hk (hold (by simp)) rfl (by simp) rfl fun label report hin =>
      absurd hin not_mem_answerBreak
  | fails why now hs hf he =>
    refine h.frame hk (hold (by simp)) rfl (fun t chain vars e hin => ?_) rfl
      fun label report hin => absurd hin not_mem_answerBreak
    simpa using hf.mem_deeds hin
  | news hp follows =>
    exact h.frame hk (hold rfl) (ite_concat ..) (by simp) (List.append_nil _).symm (by simp)
  -- there is no task that makes cycles
  | locks hs ht | refused hs ht | drains hs ht | triggers chain vars hs ht | cycles hs ht
    | releases hs ht | droppedCycle hs ht =>
    simp [h.cycle (taskAt_of_slotAt hs)] at ht

lemma Lone.evolving {s s' : State} (h : Lone s.toCore) (hs : ReflTransGen (Evolves cfg) s s') :
    Lone s'.toCore := by
  have hc := changes_of_evolving hs
  generalize s'.toCore = c' at hc ⊢
  induction hc with
  | refl => exact h
  | tail _ hc ih => exact ih.change hc

lemma lone_start (chain : String) (vars : Variables) (e : Bool) (label : String) :
    Lone ((({} : State).spawn (.run (.start chain vars e) (.caller label))).1).toCore where
  cycle {t task} ht := by
    simp only [State.toCore_spawn, List.nil_append] at ht
    obtain ⟨slot, hslot, rfl⟩ := Option.map_eq_some_iff.1 ht
    cases List.mem_singleton.1 (List.mem_of_getElem? (Option.join_eq_some_iff.1 hslot))
    rfl
  caller {t r label'} ht := Nat.lt_one_iff.1 (lt_of_taskAt ht)
  opened {t chain' vars' e'} ho := by
    cases List.mem_singleton.1 ho
    exact .inl rfl
  answered hin := absurd hin List.not_mem_nil

lemma history_of_evolving {s s' : State} (hs : ReflTransGen (Evolves cfg) s s') :
    s.history <+: s'.history := by
  have hc := changes_of_evolving hs
  generalize s'.toCore = c' at hc ⊢
  induction hc with
  | refl => exact List.prefix_rfl
  | tail _ hc ih => exact ih.trans hc.moves.grows

end

/-! ### At rest -/

/-- No runs are left, and nothing that could begin one. -/
def Core.AtRest (c : Core) : Prop :=
  ∀ t task, taskAt c.tasks t = some task → task.cycle? = none ∧ ∀ r audience, task ≠ .run r audience

section

variable {cfg : Setting} {m : Manifest} {c c' : Core}

lemma Core.AtRest.keep (h : c.AtRest) (hk : Keeps c.tasks c'.tasks)
    (hlen : c'.tasks.length = c.tasks.length) : c'.AtRest := by
  intro t task ht
  obtain ⟨task', ht', hkin⟩ := hk.kin (hlen ▸ lt_of_taskAt ht) ht
  obtain ⟨hcycle, hrun⟩ := h t task' ht'
  refine ⟨?_, fun r audience heq => ?_⟩
  · have hnone := hkin.cycle_isSome
    rw [hcycle] at hnone
    exact Option.not_isSome_iff_eq_none.1 (by simp [hnone])
  · subst heq
    obtain ⟨r', rfl, -⟩ := hkin.to_run
    exact hrun r' audience rfl

/-- All that can still happen is that processes end. -/
lemma Core.AtRest.change (h : c.AtRest) (hc : Change cfg c c') :
    c'.AtRest ∧ ∃ ds, c'.history = c.history ++ ds ∧ ∀ d ∈ ds, ∃ p, d = .ended p := by
  have hk := hc.keeps
  cases hc with
  | quiet hs | launches _ _ _ hs | awaits _ _ _ hs | nests _ _ hs | misses _ _ hs | completes hs
    | breaks hs | fails _ _ hs | droppedRun hs =>
    exact absurd rfl ((h _ _ (taskAt_of_slotAt hs)).2 _ _)
  | locks hs ht | refused hs ht | drains hs ht | triggers _ _ hs ht | cycles hs ht
    | releases hs ht | droppedCycle hs ht =>
    simp [(h _ _ (taskAt_of_slotAt hs)).1] at ht
  | settles | leaves => exact ⟨h.keep hk (by simp), [], (List.append_nil _).symm, by simp⟩
  | news hp follows =>
    refine ⟨h, _, ite_concat .., fun d hd => ?_⟩
    split at hd
    · exact ⟨_, List.mem_singleton.1 hd⟩
    · cases hd

lemma Core.AtRest.changes (h : c.AtRest) (hc : ReflTransGen (Change cfg) c c') :
    c'.AtRest ∧ ∃ ds, c'.history = c.history ++ ds ∧ ∀ d ∈ ds, ∃ p, d = .ended p := by
  induction hc with
  | refl => exact ⟨h, [], (List.append_nil _).symm, by simp⟩
  | tail _ hc ih =>
    obtain ⟨h, ds, hH, hds⟩ := ih
    obtain ⟨h', ds', hH', hds'⟩ := h.change hc
    refine ⟨h', ds ++ ds', by rw [hH', hH, List.append_assoc], fun d hd => ?_⟩
    exact (List.mem_append.1 hd).elim (hds d) (hds' d)

/-- What was started when all runs were over had been started before. -/
lemma Core.AtRest.started (h : c.AtRest) (hc : ReflTransGen (Change cfg) c c') {t : TaskId}
    {k : Nat} {x : Member} (hx : .started t k x ∈ c'.history) : .started t k x ∈ c.history := by
  obtain ⟨-, ds, hH, hds⟩ := h.changes hc
  rw [hH] at hx
  refine (List.mem_append.1 hx).resolve_right fun hin => ?_
  obtain ⟨p, hp⟩ := hds _ hin
  cases hp

/-- The run `0` and the chains in the background have completed. -/
structure Answered (H : List Deed) : Prop where
  root : ∃ report, Deed.completed 0 report ∈ H
  background : ∀ {r t : TaskId} {k : Nat} {target name : String},
    .started r k (.chain t target .background name) ∈ H → ∃ report, Deed.completed t report ∈ H

/-- With them, all runs have. -/
lemma Answered.completed (ha : Answered c.history) (h : Lone c) (ho : Orderly m c)
    (hd : Concluded m c) {t : TaskId} {chain : String} {vars : Variables} {e : Bool}
    (hin : .opened t chain vars e ∈ c.history) : ∃ report, Deed.completed t report ∈ c.history := by
  induction t using Nat.strongRecOn generalizing chain vars e with
  | _ t ih =>
    rcases h.opened hin with rfl | ⟨r, k, target, mode, name, hlt, hx⟩
    · exact ha.root
    · by_cases hb : mode = .background
      · subst hb
        exact ha.background hx
      · obtain ⟨chain', vars', e', hr⟩ := ho.ordered.opened hx
        obtain ⟨report, hc⟩ := ih r hlt hr
        obtain ⟨chain'', vars'', hf⟩ := hd r report hc
        cases hf.settled hx with
        | background => exact absurd rfl hb
        | chain names finished members => exact finished.completed

lemma Answered.atRest (ha : Answered c.history) (h : Lone c) (ho : Orderly m c)
    (hd : Concluded m c) : c.AtRest := by
  refine fun t task ht => ⟨h.cycle ht, fun r audience heq => ?_⟩
  subst heq
  obtain ⟨report, hc⟩ := ha.completed h ho hd (ho.runs ht).opened
  rw [(ho.completed hc).2] at ht
  cases ht

/-- Then nothing is left but the processes. -/
lemma Answered.exhausted (ha : Answered c.history) (h : Lone c) (ho : Orderly m c)
    (hp : Accounted c) (hd : Concluded m c)
    (hended : ∀ p, p < c.table.handles.length → c.table.hasEnded p = true) :
    Exhausted m c.history where
  processes {r k p i name} hx := by
    have hlt := hp.started.2 ⟨r, k, i, name, hx⟩
    exact hp.ended.2 ⟨hlt, hended p hlt⟩
  chains {r t k target name mode} hx := by
    obtain ⟨expr, chain, vars, e, hm, -, hin⟩ := ho.nested hx
    obtain ⟨report, hc⟩ := ha.completed h ho hd hin
    exact ⟨expr, vars, hm, hd.fulfilled ho hin hc⟩

end

/-! ### Processes may end before anything else happens -/

section

variable {cfg : Setting} {s : State}

lemma hasEnded_endProcess (p q : ProcessId) (code : Option Int) (killed : Bool) :
    (s.endProcess p false code killed).table.hasEnded q = true ↔
      q = p ∨ s.table.hasEnded q = true := by
  simp only [State.endProcess, Bool.false_eq_true, if_false]
  split
  · rename_i hnone
    refine ⟨.inr, ?_⟩
    rintro (rfl | h)
    · simp [ProcessTable.hasEnded, hnone]
    · exact h
  · rename_i h hp
    rw [State.toCore_putHandle]
    by_cases hq : p = q
    · subst q
      rw [ProcessTable.hasEnded_update_of_lt _ (List.getElem?_eq_some_iff.1 hp).1]
      simp
    · rw [ProcessTable.hasEnded_update_of_ne _ hq]
      exact (or_iff_right (Ne.symm hq)).symm

/-- The processes `ps` end while no task acts. -/
lemma exists_ended (ps : List ProcessId) : ∃ s', ReflTransGen (Evolves cfg) s s' ∧
    (∀ p ∈ ps, s'.table.hasEnded p = true) ∧
    ∀ t report, .completed t report ∈ s'.history → Deed.completed t report ∈ s.history := by
  induction ps with
  | nil => exact ⟨s, .refl, by simp, fun _ _ => id⟩
  | cons p ps ih =>
    obtain ⟨s', hs', hended, hsame⟩ := ih
    refine ⟨s'.endProcess p false (some 0) false, hs'.trans (evolves_endProcess ..), ?_, ?_⟩
    · intro q hq
      rw [hasEnded_endProcess]
      exact (List.mem_cons.1 hq).imp_right (hended q)
    · intro t report hin
      refine hsame t report ?_
      simp only [State.endProcess, Bool.false_eq_true, if_false] at hin
      split at hin
      · exact hin
      · rw [State.toCore_putHandle] at hin
        dsimp only at hin
        split at hin <;> simpa using hin

end

end ChainRunner.Run
