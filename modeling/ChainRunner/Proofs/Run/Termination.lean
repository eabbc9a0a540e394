import ChainRunner.Proofs.Run.Nesting
import ChainRunner.Proofs.Run.Progress

/-!
A run comes to its end with all the chains below it.

A checked manifest bounds how deep the chains of a run are nested and how many processes are
started for it. So if all these end and every task gets its turn, nothing of the run is left in
the end.
-/

namespace ChainRunner.Run

open Relation

/-- Nothing is left of the family of the run. -/
def Core.Spent (c : Core) (t : TaskId) : Prop :=
  t < c.tasks.length ∧ ∀ u, Family c.history t u → taskAt c.tasks u = none

section

variable {cfg : Setting} {m : Manifest} {c c' : Core} {t u : TaskId} {k : Nat} {x : Member}

lemma Core.Spent.move (h : c.Spent t) (ho : Orderly m c) (hc : Moves m c c') : c'.Spent t := by
  refine ⟨Nat.lt_of_lt_of_le h.1 hc.keeps.length_le, fun u hu => ?_⟩
  rcases hu.move ho hc with hu | ⟨-, r, hr, ⟨r₁, audience, hs, -⟩, -⟩
  · exact hc.keeps.gone (ho.lt_of_family h.1 hu) (h.2 u hu)
  · have hn := h.2 r hr
    rw [taskAt_of_slotAt hs] at hn
    cases hn

/-- A run that is gone starts nothing. -/
lemma started_of_gone (hlt : t < c.tasks.length) (hn : taskAt c.tasks t = none)
    (hc : ReflTransGen (Steps cfg) c c') (hx : .started t k x ∈ c'.history) :
    .started t k x ∈ c.history := by
  induction hc with
  | refl => exact hx
  | tail hsteps hc ih =>
    refine (hc.starts hx).elim ih fun ⟨hmeets, _⟩ => ?_
    obtain ⟨r, audience, hs, -⟩ := hmeets.busy
    have hgone := (keeps_of_steps hsteps).gone hlt hn
    rw [taskAt_of_slotAt hs] at hgone
    cases hgone

end

namespace Fair

variable {cfg : Setting} {σ : Nat → State} {n k : Nat} {t : TaskId} {e : String} {vars : Variables}
  {flag : Bool}

lemma spent (h : Fair cfg σ) (hs : (σ n).Spent t) (hk : n ≤ k) : (σ k).Spent t := by
  have hstable : Stable cfg fun c => (Orderly cfg.manifest c ∧ Accounted c) ∧ c.Spent t :=
    (orderly_stable cfg).and_moves fun ho hs hc => hs.move ho.1 hc
  have hreach := (h.calm_at n).reachable
  exact (hstable.steady.undisturbed ⟨⟨hreach.orderly, hreach.accounted⟩, hs⟩ (h.reaches hk)).2

/-- Several families are spent together once each of them is at some time. -/
lemma all_spent (h : Fair cfg σ) {P : TaskId → Prop} (hP : ∀ u, P u → ∃ k, n ≤ k ∧ (σ k).Spent u)
    (N : Nat) : ∃ k, n ≤ k ∧ ∀ u, u < N → P u → (σ k).Spent u := by
  induction N with
  | zero => exact ⟨n, Nat.le_refl n, fun _ hu => absurd hu (Nat.not_lt_zero _)⟩
  | succ N ih =>
    obtain ⟨i, hi, hrest⟩ := ih
    by_cases hN : P N
    · obtain ⟨j, hj, hspent⟩ := hP N hN
      refine ⟨max i j, Nat.le_trans hi (Nat.le_max_left i j), fun u hu hPu => ?_⟩
      rcases Nat.lt_succ_iff_lt_or_eq.1 hu with hu | rfl
      · exact h.spent (hrest u hu hPu) (Nat.le_max_left i j)
      · exact h.spent hspent (Nat.le_max_right i j)
    · refine ⟨i, hi, fun u hu hPu => hrest u ?_ hPu⟩
      exact (Nat.lt_succ_iff_lt_or_eq.1 hu).resolve_right fun heq => hN (heq ▸ hPu)

/-- A run whose processes all end is spent in the end. -/
theorem exists_spent (h : Fair cfg σ) (hopen : .opened t e vars flag ∈ (σ n).history)
    (hend : ∀ k p, OnBehalf (σ k).history t p → ∃ k', .ended p ∈ (σ k').history) :
    ∃ k, n ≤ k ∧ (σ k).Spent t := by
  induction e using cfg.manifest.wellFounded_nests.induction generalizing t n flag with
  | _ e ih =>
  have hlt : t < (σ n).tasks.length := (h.calm_at n).reachable.orderly.opened_lt hopen
  have hopen' {k : Nat} (hk : n ≤ k) := (h.grows hk).subset hopen
  -- what a chain that the run has started comes to is less high
  have hnested {k j : Nat} (hk : n ≤ k) {u : TaskId} {target name : String} {mode : Mode}
      (hx : .started t j (.chain u target mode name) ∈ (σ k).history) :
      ∃ k', k ≤ k' ∧ (σ k').Spent u := by
    obtain ⟨e', -, hnests, hu⟩ := (h.calm_at k).reachable.orderly.nests hx (hopen' hk)
    refine ih e' hnests hu fun i p hp => hend (max k i) p ?_
    have hx' := (h.grows (Nat.le_max_left k i)).subset hx
    exact (hp.mono (h.grows (Nat.le_max_right k i))).of_family (.nested .root hx')
  obtain ⟨k₀, hk₀, hgone⟩ : ∃ k, n ≤ k ∧ taskAt (σ k).tasks t = none := by
    rcases ht : taskAt (σ n).tasks t with _ | task
    · exact ⟨n, Nat.le_refl n, ht⟩
    · obtain ⟨r, audience, rfl, -⟩ := (h.calm_at n).reachable.orderly.course hopen ht
      refine h.run_gone (fun w k hk hw => ?_) ht
      obtain ⟨r', audience', ht', hw⟩ := hw
      cases (h.calm_at k).kept.tends ht' hw with
      | process hs hx =>
        exact h.waiter_gone (taskAt_of_slotAt hs) (hend k _ ⟨t, _, _, _, .root, hx⟩)
      | chain hs hx =>
        obtain ⟨k', hk', hspent⟩ := hnested hk hx
        exact ⟨k', hk', hspent.2 w .root⟩
  -- the run starts no more chains; those that it has started are spent at some time
  let N := (σ k₀).tasks.length
  obtain ⟨k, hk, hspent⟩ := h.all_spent (n := k₀) (P := fun u => ∃ j target mode name,
    .started t j (.chain u target mode name) ∈ (σ k₀).history)
    (fun u ⟨j, target, mode, name, hx⟩ => hnested hk₀ hx) N
  have hlt₀ : t < N := Nat.lt_of_lt_of_le hlt (h.keeps hk₀).length_le
  refine ⟨k, Nat.le_trans hk₀ hk, Nat.lt_of_lt_of_le hlt₀ (h.keeps hk).length_le, fun v hv => ?_⟩
  rcases hv.cases_head with rfl | ⟨u, j, target, mode, name, hx, hv⟩
  · exact (h.keeps hk).gone hlt₀ hgone
  · have hold := started_of_gone hlt₀ hgone (steps_of_undisturbed (h.reaches hk)) hx
    obtain ⟨e', -, -, hu⟩ := (h.calm_at k₀).reachable.orderly.nests hold (hopen' hk₀)
    have hltu : u < N := (h.calm_at k₀).reachable.orderly.opened_lt hu
    exact (hspent u hltu ⟨j, target, mode, name, hold⟩).2 v hv

end Fair

/-- **Nested runs come to their end.** What the chains of a checked manifest name is well founded.
So whatever has happened, a chain that was started below a run is nested in the expression of the
run that has started it, no chain is nested deeper below a run than there are chains, and no more
processes are started for a run than the plan of its expression has instances once all chains in
it are unfolded. If all these processes end and every task gets its turn, then from some time on
the run is over with all the chains below it. -/
theorem nested_runs_end (cfg : Setting) :
    (WellFounded fun e' e => cfg.manifest.Nests e e') ∧
    (∀ s, Reachable cfg s → ∀ t e vars flag, .opened t e vars flag ∈ s.history →
      (∀ k u target mode name, .started t k (.chain u target mode name) ∈ s.history →
        ∃ e' flag', .opened u e' vars flag' ∈ s.history ∧ cfg.manifest.Nests e e') ∧
      (∀ d u, Below s.history t d u → d ≤ cfg.manifest.chains.keys.length) ∧
      ∀ ps : List ProcessId, ps.Nodup → (∀ p ∈ ps, OnBehalf s.history t p) →
        ps.length ≤ (unfold cfg.manifest vars e).length) ∧
    ∀ σ, Fair cfg σ → ∀ n t e vars flag, .opened t e vars flag ∈ (σ n).history →
      (∀ k p, OnBehalf (σ k).history t p → ∃ k', .ended p ∈ (σ k').history) →
      ∃ k, ∀ j, k ≤ j → ∀ u, Family (σ j).history t u → Over (σ j).history u := by
  refine ⟨cfg.manifest.wellFounded_nests, fun s hs t e vars flag hopen => ⟨?_, ?_, ?_⟩, ?_⟩
  · intro k u target mode name hx
    obtain ⟨e', -, hnests, hu⟩ := hs.orderly.nests hx hopen
    exact ⟨e', _, hu, hnests⟩
  · intro d u hu
    obtain ⟨e', flag', -, hle⟩ := hu.height hs.orderly hopen
    exact Nat.le_trans (Nat.le_trans (Nat.le_add_left ..) hle) (cfg.manifest.height_le e)
  · exact fun ps hps hp =>
      length_le_of_onBehalf hs.orderly hs.concluded hs.numbered hopen hps hp
  · intro σ h n t e vars flag hopen hend
    obtain ⟨k, hk, hspent⟩ := h.exists_spent hopen hend
    refine ⟨k, fun j hj u hu => ?_⟩
    have hcalm := h.calm_at j
    obtain ⟨d, hd⟩ := exists_below hu
    obtain ⟨e', flag', hopen', -⟩ :=
      hd.height hcalm.reachable.orderly ((h.grows (Nat.le_trans hk hj)).subset hopen)
    exact hcalm.ended u e' vars flag' hopen' ((h.spent hspent hj).2 u hu)

/-! ### One execution -/

/-- The session after the first `k` of some events: a task acts, or a process ends well. -/
def State.play (cfg : Setting) (s : State) (es : List (TaskId ⊕ ProcessId)) (k : Nat) : State :=
  (es.take k).foldl
    (fun s e => e.elim (s.actAt cfg) fun p => s.endProcess p false (some 0) false) s

lemma evolves_play (cfg : Setting) (s : State) (es : List (TaskId ⊕ ProcessId)) (k : Nat) :
    Evolves cfg (s.play cfg es k) (s.play cfg es (k + 1)) := by
  unfold State.play
  rw [List.take_add_one, List.foldl_append]
  rcases es[k]? with _ | id | p
  · exact .refl _
  · exact .actAt id
  · exact .endProcess ..

/-- The run of `bg`, until it is over with the chain that it names. -/
def State.nested : Nat → State :=
  (({} : State).spawn (.run (.start "bg" .empty true) (.caller "r"))).1.play .paused
    [.inl 0, .inl 0, .inl 1, .inl 1, .inl 1, .inr 0, .inl 2, .inl 1, .inl 1, .inl 1, .inl 1, .inr 1,
      .inl 3, .inl 1, .inl 1, .inl 0, .inl 0]

lemma nested_eq {k : Nat} (hk : 17 ≤ k) : State.nested k = State.nested 17 := by
  unfold State.nested State.play
  rw [List.take_of_length_le hk]
  rfl

lemma fair_nested : Fair .paused State.nested where
  calm := calm_run .paused "bg" .empty true "r"
  step k := .inl (evolves_play ..)
  turns id n := by
    refine ⟨max n 17, Nat.le_max_left n 17, ?_⟩
    -- all the tasks are gone
    have htasks : (State.nested 17).tasks = [none, none, none, none] := rfl
    have hslot : (State.nested 17).slot? id = none := by
      rw [Core.slot?, htasks]
      rcases id with _ | _ | _ | _ | id <;> rfl
    rw [nested_eq (Nat.le_max_right n 17), Turn, hslot]
    trivial

lemma opened_nested : .opened 0 "bg" .empty true ∈ (State.nested 0).history := List.mem_cons_self

lemma ended_nested {k : Nat} {p : ProcessId} (hp : OnBehalf (State.nested k).history 0 p) :
    ∃ k', .ended p ∈ (State.nested k').history := by
  have hH : (State.nested 17).history =
      [.opened 0 "bg" .empty true, .opened 1 "a - b" .empty true,
        .started 0 1 (.chain 1 "bg" .sequential "bg"),
        .started 1 1 (.process 0 ⟨"a", "a", "true", .sequential⟩ "a"), .ended 0,
        .started 1 2 (.process 1 ⟨"b", "b", "true", .sequential⟩ "b"), .ended 1,
        .completed 1 ⟨"a - b", false, [⟨"a", false, true, false, some 0⟩,
          ⟨"b", false, true, false, some 0⟩]⟩,
        .completed 0 ⟨"bg", false, [⟨"bg", false, true, false, none⟩]⟩] := rfl
  obtain ⟨r, j, i, name, -, hx⟩ := hp
  have hlater := (fair_nested.grows (Nat.le_max_left k 17)).subset hx
  rw [nested_eq (Nat.le_max_right k 17), hH] at hlater
  refine ⟨17, ?_⟩
  rw [hH]
  simp only [List.mem_cons, Deed.started.injEq, Member.process.injEq, reduceCtorEq, and_false,
    false_or, or_false, List.not_mem_nil] at hlater
  rcases hlater with ⟨-, -, rfl, -⟩ | ⟨-, -, rfl, -⟩ <;> simp

theorem nested_runs_end_paused :
    (∀ d u, Below (State.nested 17).history 0 d u → d ≤ 1) ∧
      ∃ k, ∀ j, k ≤ j → ∀ u, Family (State.nested j).history 0 u →
        Over (State.nested j).history u := by
  obtain ⟨-, hbounds, hends⟩ := nested_runs_end .paused
  refine ⟨?_, hends State.nested fair_nested 0 0 "bg" .empty true opened_nested
    fun k p hp => ended_nested hp⟩
  exact (hbounds _ (fair_nested.calm_at 17).reachable 0 "bg" .empty true
    ((fair_nested.grows (Nat.zero_le 17)).subset opened_nested)).2.1

end ChainRunner.Run
