import ChainRunner.Proofs.Run.Endings
import Mathlib.Data.Prod.Lex

/-!
Executions in which every task gets its turn.

Whatever happens brings a run nearer to its end, or leaves it as it is. So a run whose members all
get to their ends gets to its own.
-/

namespace ChainRunner.Run

open Relation

/-! ### What a run has ahead of it -/

namespace Course

/-- What a run has ahead of it: batches, steps of the current batch, and the rest of that. -/
def ahead (r : Course) : Nat ×ₗ Nat ×ₗ Nat :=
  toLex (r.rest.length, toLex (r.agenda.countP Errand.isStep,
    3 * r.agenda.length + 2 * r.waiting.length + r.arrived.length))

variable {r r' : Course}

lemma ahead_lt_of_rest (h : r'.rest.length < r.rest.length) : r'.ahead < r.ahead :=
  Prod.Lex.toLex_lt_toLex.2 (.inl h)

lemma ahead_lt_of_steps (hrest : r'.rest = r.rest)
    (h : r'.agenda.countP Errand.isStep < r.agenda.countP Errand.isStep) : r'.ahead < r.ahead :=
  Prod.Lex.toLex_lt_toLex.2 (.inr ⟨by rw [hrest], Prod.Lex.toLex_lt_toLex.2 (.inl h)⟩)

lemma ahead_lt_of_errands (hrest : r'.rest = r.rest)
    (hsteps : r'.agenda.countP Errand.isStep = r.agenda.countP Errand.isStep)
    (h : 3 * r'.agenda.length + 2 * r'.waiting.length + r'.arrived.length <
      3 * r.agenda.length + 2 * r.waiting.length + r.arrived.length) : r'.ahead < r.ahead :=
  Prod.Lex.toLex_lt_toLex.2
    (.inr ⟨by rw [hrest], Prod.Lex.toLex_lt_toLex.2 (.inr ⟨hsteps, h⟩)⟩)

lemma Quiet.ahead_lt {m : Manifest} (q : r.Quiet m r') : r'.ahead < r.ahead := by
  cases q with
  | skip ha ht => exact ahead_lt_of_steps rfl (by simp [ha, List.countP_cons, Errand.isStep])
  | expand ha ht hm =>
    refine ahead_lt_of_steps rfl ?_
    have hnone (is : List Instance) : (is.map Errand.launch).countP Errand.isStep = 0 :=
      List.countP_eq_zero.2 (by simp [Errand.isStep])
    simp [ha, hnone, List.countP_cons, Errand.isStep]
  | enter entries ha hr => exact ahead_lt_of_errands rfl rfl (by simp [hr])
  | begins ha hr hw hb => exact ahead_lt_of_rest (by simp [hb])

end Course

section

variable {cfg : Setting} {m : Manifest} {c c' : Core} {t : TaskId} {r r' : Course}
  {audience : Audience}

lemma Bears.length_le {x : Planned} {ws : List TaskId} (h : Bears m c c' t r x ws) :
    ws.length ≤ 1 := by
  cases h with
  | aside | missing => exact Nat.zero_le _
  | process => exact Nat.le_refl _
  | chain => split <;> simp

lemma Origin.ahead_lt (ho : Origin m c c' t r' audience) (h : Tended c)
    (ht : taskAt c.tasks t = some (.run r audience)) : r' = r ∨ r'.ahead < r.ahead := by
  have hsame {r₁ : Course} (hr₁ : taskAt c.tasks t = some (.run r₁ audience)) : r₁ = r := by
    rw [ht] at hr₁
    cases hr₁
    rfl
  cases ho with
  | same hr => exact .inl (hsame hr)
  | @takes _ e x ws hr ha hx hb hw like =>
    obtain rfl := hsame hr
    right
    cases e with
    | step s =>
      exact Course.ahead_lt_of_steps like.rest (by simp [ha, List.countP_cons, Errand.isStep])
    | launch i =>
      have hle := hb.length_le
      refine Course.ahead_lt_of_errands like.rest (by simp [ha, Errand.isStep]) ?_
      rw [hw, like.arrived, ha, List.length_append, List.length_cons]
      omega
  | quiet hr q =>
    obtain rfl := hsame hr
    exact .inr q.ahead_lt
  | told hr heq hv =>
    obtain rfl := hsame hr
    subst heq
    obtain ⟨r₁, audience₁, hr₁, hw⟩ := h.expects hv
    rw [ht] at hr₁
    cases hr₁
    have hlen := List.length_erase_of_mem hw
    have hpos := List.length_pos_of_mem hw
    refine .inr (Course.ahead_lt_of_errands rfl rfl ?_)
    simp only [Course.told, hlen, List.length_append, List.length_singleton]
    omega
  | fresh hlen => exact absurd (lt_of_taskAt ht) (hlen ▸ Nat.lt_irrefl _)

/-- After some steps a run is gone, or it is as it was, or it has less ahead of it. -/
lemma ahead_of_steps (h : Tended c) (ht : taskAt c.tasks t = some (.run r audience))
    (hc : ReflTransGen (Steps cfg) c c') :
    taskAt c'.tasks t = none ∨
      ∃ r', taskAt c'.tasks t = some (.run r' audience) ∧ (r' = r ∨ r'.ahead < r.ahead) := by
  suffices hboth : Tended c' ∧ t < c'.tasks.length ∧ (taskAt c'.tasks t = none ∨
      ∃ r', taskAt c'.tasks t = some (.run r' audience) ∧ (r' = r ∨ r'.ahead < r.ahead)) from
    hboth.2.2
  induction hc with
  | refl => exact ⟨h, lt_of_taskAt ht, .inr ⟨r, ht, .inl rfl⟩⟩
  | tail _ hc ih =>
    obtain ⟨htended, hlt, hrun⟩ := ih
    refine ⟨htended.step hc, Nat.lt_of_lt_of_le hlt hc.keeps.length_le, ?_⟩
    rcases hrun with hn | ⟨r₁, hr₁, hle⟩
    · exact .inl (hc.keeps.gone hlt hn)
    · refine (hc.keeps.run_after hr₁).imp_right fun ⟨r₂, hr₂⟩ => ⟨r₂, hr₂, ?_⟩
      rcases (hc.origin hr₂).ahead_lt htended hr₁ with rfl | hlt'
      · exact hle
      · rcases hle with rfl | hle
        · exact .inr hlt'
        · exact .inr (hlt'.trans hle)

end

/-! ### Turns -/

section

variable {cfg : Setting} {s s' : State} {self : TaskId} {audience : Audience} {r : Course}

lemma gone_of_discard (s : State) (self : TaskId) (t : Task) :
    taskAt (s.discard self t).tasks self = none := by
  cases t <;> simp [State.discard]

namespace Course

lemma gone_of_giveUp {b : Break} (h : giveUp s self audience r b = .over s') :
    taskAt s'.tasks self = none := by
  cases h
  simp [taskAt_tellBreak_eq_none]

lemma gone_of_enter {name : String} {failed : Bool} {code : Option Int} {why : Failure}
    (h : enter s self audience r name failed code why = .over s') :
    taskAt s'.tasks self = none := by
  simp only [enter] at h
  split at h
  · cases h
  · split at h
    · exact gone_of_giveUp h
    · cases h

lemma gone_of_startInstance {i : Instance}
    (h : startInstance cfg s self audience r i = .over s') : taskAt s'.tasks self = none := by
  simp only [startInstance] at h
  split at h
  · exact gone_of_giveUp h
  · split at h <;> cases h

lemma gone_of_startStep {step : Step} (h : startStep cfg s self audience r step = .over s') :
    taskAt s'.tasks self = none := by
  simp only [startStep] at h
  split at h
  · cases h
  · split at h
    · cases h
    · simp only [startChain] at h
      split at h <;> cases h
    · simp only [missStep] at h
      split at h
      · exact gone_of_enter h
      · cases h

/-- A run that is over is gone. -/
lemma gone_of_act (h : r.act cfg s self audience = .over s') : taskAt s'.tasks self = none := by
  unfold act at h
  split at h
  · exact gone_of_startInstance h
  · exact gone_of_startStep h
  · unfold enterArrival at h
    split at h
    · exact gone_of_enter h
    · exact gone_of_giveUp h
  · split at h
    · split at h <;> cases h
      simp [taskAt_tellReport_eq_none]
    · cases h

/-- A run rests only while it waits for a member. -/
lemma waiting_of_rests (h : r.act cfg s self audience = .rests) : r.waiting ≠ [] := by
  unfold act at h
  split at h
  · simp only [startInstance, giveUp] at h
    split at h
    · cases h
    · split at h <;> cases h
  · simp only [startStep, startChain, missStep, enter, giveUp] at h
    (repeat' split at h) <;> cases h
  · simp only [enterArrival, enter, giveUp] at h
    (repeat' split at h) <;> cases h
  · split at h
    · split at h <;> cases h
    · rename_i hw
      exact fun hnil => hw (by simp [hnil])

end Course

/-- A run that acts is not what it was. -/
lemma ne_of_advance (h : s.act cfg self (.run r audience) ≠ .rests) :
    taskAt (s.advance cfg self (.run r audience)).tasks self ≠ some (.run r audience) := by
  unfold State.advance
  split
  · rename_i s' t hact
    obtain ⟨r', rfl, hlt⟩ := Course.work_act hact
    rw [State.toCore_setTask, taskAt_mapAt, if_pos rfl]
    intro heq
    obtain ⟨-, -, heq⟩ := Option.map_eq_some_iff.1 heq
    cases heq
    exact (Prod.lex Nat.lt_wfRel (Prod.lex Nat.lt_wfRel Nat.lt_wfRel)).wf.asymmetric _ _ hlt hlt
  · exact absurd ‹_› h
  · rename_i s' hact
    rw [Course.gone_of_act hact]
    exact Option.some_ne_none _ ∘ Eq.symm

/-- A waiter whose process has ended is over once it acts. -/
lemma gone_of_ended (cfg : Setting) {p : ProcessId} {name : String} {owner : TaskId}
    (hp : p < s.table.handles.length) (he : s.table.hasEnded p = true) :
    s.act cfg self (.waiter p name owner) ≠ .rests ∧
      taskAt (s.advance cfg self (.waiter p name owner)).tasks self = none := by
  obtain ⟨h, hh⟩ : ∃ h, s.table.get? p = some h := ⟨_, List.getElem?_eq_getElem hp⟩
  have ho : h.outcome? = some (h.code, h.failed) := by
    simpa [ProcessTable.hasEnded, hh, Handle.outcome?] using he
  have hact : s.act cfg self (.waiter p name owner) =
      .over ((s.drop self).arrive owner self (.settled name h.failed h.code)) := by
    simp [State.act, State.actOfWaiter, hh, ho]
  refine ⟨by simp [hact], ?_⟩
  simp only [State.advance, hact, State.toCore_arrive, State.toCore_drop]
  exact taskAt_mapAt_eq_none (by simp)

end

/-- From one session to the next the task has had its turn: it is gone, it was dropped, it rests,
or it has acted. -/
def Turn (cfg : Setting) (s s' : State) (id : TaskId) : Prop :=
  match s.slot? id with
  | none => True
  | some ⟨t, true⟩ => s' = s.discard id t
  | some ⟨t, false⟩ => s.act cfg id t = .rests ∨ s' = s.advance cfg id t

/-- An execution in which nobody drops a task from outside, and every task gets its turn again and
again. -/
structure Fair (cfg : Setting) (σ : Nat → State) : Prop where
  calm : Calm cfg (σ 0)
  step : ∀ n, Undisturbed cfg (σ n) (σ (n + 1))
  turns : ∀ id n, ∃ k, n ≤ k ∧ Turn cfg (σ k) (σ (k + 1)) id

section

variable {cfg : Setting} {s s' : State}

lemma steps_of_undisturbed (h : ReflTransGen (Undisturbed cfg) s s') :
    ReflTransGen (Steps cfg) s.toCore s'.toCore := by
  refine ReflTransGen.lift' State.toCore (fun s s' h => ?_) _ _ h
  rcases h with h | ⟨h, hpre⟩
  · exact ReflTransGen.mono (fun _ _ => Change.steps) _ _ (changes_of_evolves h)
  · exact .single ((request_of_asked h).steps hpre)

lemma grows_of_steps {c c' : Core} (h : ReflTransGen (Steps cfg) c c') :
    c.history <+: c'.history := by
  induction h with
  | refl => exact List.prefix_rfl
  | tail _ hc ih => exact ih.trans hc.grows

lemma keeps_of_steps {c c' : Core} (h : ReflTransGen (Steps cfg) c c') :
    Keeps c.tasks c'.tasks := by
  induction h with
  | refl => exact .refl _
  | tail _ hc ih => exact ih.trans hc.keeps

end

namespace Fair

variable {cfg : Setting} {σ : Nat → State} {n k : Nat} {t w : TaskId}

lemma reaches (h : Fair cfg σ) (hk : n ≤ k) : ReflTransGen (Undisturbed cfg) (σ n) (σ k) := by
  induction hk with
  | refl => exact .refl
  | step _ ih => exact ih.tail (h.step _)

lemma calm_at (h : Fair cfg σ) (n : Nat) : Calm cfg (σ n) := h.calm.trans (h.reaches n.zero_le)

lemma grows (h : Fair cfg σ) (hk : n ≤ k) : (σ n).history <+: (σ k).history :=
  grows_of_steps (steps_of_undisturbed (h.reaches hk))

lemma keeps (h : Fair cfg σ) (hk : n ≤ k) : Keeps (σ n).tasks (σ k).tasks :=
  keeps_of_steps (steps_of_undisturbed (h.reaches hk))

/-- A waiter goes once its process has ended. -/
lemma waiter_gone (h : Fair cfg σ) {p : ProcessId} {name : String} {owner : TaskId}
    (hw : taskAt (σ n).tasks w = some (.waiter p name owner))
    (he : ∃ k, .ended p ∈ (σ k).history) : ∃ k, n ≤ k ∧ taskAt (σ k).tasks w = none := by
  obtain ⟨j, hj⟩ := he
  obtain ⟨k, hk, hturn⟩ := h.turns w (max n j)
  have hnk : n ≤ k := Nat.le_trans (Nat.le_max_left n j) hk
  rcases hn : slotAt (σ k).tasks w with _ | ⟨task, b⟩
  · exact ⟨k, hnk, taskAt_eq_none_iff.2 hn⟩
  · refine ⟨k + 1, Nat.le_succ_of_le hnk, ?_⟩
    obtain ⟨task', ht', hkin⟩ := (h.keeps hnk).kin (lt_of_taskAt hw) (taskAt_of_slotAt hn)
    rw [hw] at ht'
    cases ht'
    obtain rfl := hkin.of_waiter
    simp only [Turn, Core.slot?_eq, hn] at hturn
    cases b with
    | true =>
      rw [hturn]
      exact gone_of_discard ..
    | false =>
      have hended := (h.calm_at k).reachable.accounted.ended.1
        ((h.grows (Nat.le_trans (Nat.le_max_right n j) hk)).subset hj)
      obtain ⟨hacts, hgone⟩ := gone_of_ended cfg hended.1 hended.2
      rw [hturn.resolve_left hacts]
      exact hgone

/-- A run goes once every member that it waits for has gone. -/
lemma run_gone (h : Fair cfg σ)
    (hm : ∀ w k, n ≤ k → Expects (σ k).tasks t w → ∃ k', k ≤ k' ∧ taskAt (σ k').tasks w = none)
    {r : Course} {audience : Audience} (ht : taskAt (σ n).tasks t = some (.run r audience)) :
    ∃ k, n ≤ k ∧ taskAt (σ k).tasks t = none := by
  induction hr : r.ahead using WellFoundedLT.induction generalizing n r with
  | _ a ih =>
  subst hr
  by_cases hstays : ∀ k, n ≤ k → taskAt (σ k).tasks t = some (.run r audience)
  · exfalso
    obtain ⟨k, hk, hturn⟩ := h.turns t n
    obtain ⟨⟨_, b⟩, hs, rfl⟩ := Option.map_eq_some_iff.1 (hstays k hk)
    have hnext := hstays (k + 1) (Nat.le_succ_of_le hk)
    simp only [Turn, Core.slot?_eq, hs] at hturn
    cases b with
    | true =>
      rw [hturn, gone_of_discard] at hnext
      cases hnext
    | false =>
      by_cases hrests : (σ k).act cfg t (.run r audience) = .rests
      · obtain ⟨w, hw⟩ := List.exists_mem_of_ne_nil _ (Course.waiting_of_rests hrests)
        obtain ⟨k', hk', hgone⟩ := hm w k hk ⟨r, audience, hstays k hk, hw⟩
        obtain ⟨task, hs', -⟩ :=
          (h.calm_at k').tended.member (hstays k' (Nat.le_trans hk hk')) hw
        rw [taskAt_of_slotAt hs'] at hgone
        cases hgone
      · rw [hturn.resolve_left hrests] at hnext
        exact ne_of_advance hrests hnext
  · push Not at hstays
    obtain ⟨k, hk, hne⟩ := hstays
    rcases ahead_of_steps (h.calm_at n).tended ht (steps_of_undisturbed (h.reaches hk)) with
      hgone | ⟨r', hr', heq | hlt⟩
    · exact ⟨k, hk, hgone⟩
    · exact absurd (heq ▸ hr') hne
    · obtain ⟨k', hk', hgone⟩ := ih r'.ahead hlt (fun w j hj => hm w j (Nat.le_trans hk hj)) hr' rfl
      exact ⟨k', Nat.le_trans hk hk', hgone⟩

end Fair

end ChainRunner.Run
