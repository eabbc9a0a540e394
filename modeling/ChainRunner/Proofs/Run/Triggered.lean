import ChainRunner.Proofs.Run.Aggregate
import ChainRunner.Proofs.Run.Dispatch
import Mathlib.Data.List.Perm.Basic

/-!
Each run that a cycle triggers gives one report.

The runs that a cycle has opened are those it waits for and those whose reports it has. So a cycle
that comes to its end has one report for each chain that its paths trigger.
-/

namespace ChainRunner.Run

open Relation

/-! ### Runs and their reports -/

/-- The runs were opened for what the paths trigger, one for each chain. -/
structure Opens (cfg : Setting) (H : List Deed) (paths : List String) (ws : List TaskId) :
    Prop where
  opened : List.Forall₂ (fun e w => .opened w e.1 e.2 false ∈ H)
    (Watch.planDispatch paths cfg.rules).entries ws
  nodup : ws.Nodup

/-- Of the runs that the paths trigger, some are waited for, and the others gave the reports. -/
inductive Dispatched (cfg : Setting) (H : List Deed) (paths : List String) (waiting : List TaskId)
    (reports : List Report) : Prop
  | intro {ws gone : List TaskId} (opens : Opens cfg H paths ws) (perm : ws.Perm (waiting ++ gone))
    (reported : List.Forall₂ (fun w report => .completed w report ∈ H) gone reports)

section

variable {cfg : Setting} {m : Manifest} {c : Core} {H H' : List Deed} {paths : List String}
  {waiting ws : List TaskId} {reports : List Report} {w : TaskId} {report : Report}

lemma Opens.mono (h : Opens cfg H paths ws) (hH : H ⊆ H') : Opens cfg H' paths ws :=
  ⟨h.opened.imp fun _ _ ho => hH ho, h.nodup⟩

namespace Dispatched

lemma mono (h : Dispatched cfg H paths waiting reports) (hH : H ⊆ H') :
    Dispatched cfg H' paths waiting reports := by
  obtain ⟨opens, perm, reported⟩ := h
  exact ⟨opens.mono hH, perm, reported.imp fun _ _ hx => hH hx⟩

lemma nodup_waiting (h : Dispatched cfg H paths waiting reports) : waiting.Nodup := by
  obtain ⟨opens, perm, -⟩ := h
  exact (List.nodup_append.1 (perm.nodup_iff.1 opens.nodup)).1

/-- One of the runs gives its report. -/
lemma enters (h : Dispatched cfg H paths waiting reports) (hw : w ∈ waiting)
    (hx : .completed w report ∈ H) :
    Dispatched cfg H paths (waiting.erase w) (reports ++ [report]) := by
  obtain @⟨ws, gone, opens, perm, reported⟩ := h
  refine ⟨opens, ?_, List.rel_append reported (.cons hx .nil)⟩
  calc ws.Perm (waiting ++ gone) := perm
    _ |>.Perm (w :: waiting.erase w ++ gone) := (List.perm_cons_erase hw).append_right gone
    _ |>.Perm (waiting.erase w ++ (gone ++ [w])) := by
      rw [← List.append_assoc]
      exact (List.perm_append_singleton w _).symm

/-- **One report for each chain.** -/
theorem chains (h : Dispatched cfg H paths [] reports)
    (hone : ∀ {t chain chain' vars vars' e e'}, .opened t chain vars e ∈ H →
      .opened t chain' vars' e' ∈ H → chain = chain')
    (htitle : ∀ {t report}, .completed t report ∈ H →
      ∃ vars e, .opened t report.chain vars e ∈ H) :
    (reports.map Report.chain).Perm (Watch.planDispatch paths cfg.rules).keys := by
  obtain @⟨ws, gone, opens, perm, reported⟩ := h
  obtain ⟨es, hes, hperm⟩ := List.perm_comp_forall₂ perm.symm opens.opened.flip
  have hmap : reports.map Report.chain = es.map Prod.fst := by
    clear hperm perm
    rw [List.nil_append] at hes
    induction reported generalizing es with
    | nil =>
      cases hes
      rfl
    | cons hx _ ih =>
      cases hes with
      | cons ho hes =>
        obtain ⟨vars, e, ho'⟩ := htitle hx
        rw [List.map_cons, List.map_cons, ih _ hes, hone ho' ho]
  rw [hmap]
  exact hperm.map Prod.fst

end Dispatched

end

/-! ### What a cycle has taken, and whom it waits for -/

namespace Cycle

/-- The paths that the cycle has taken. -/
def paths? : Cycle → Option (List String)
  | .loaded ps => some ps
  | .running d => some d.paths
  | .finished (some r) => some r.paths
  | .finished none => some []
  | .idle => none
  | .locked => none

/-- The cycle has the reports of the runs that it does not wait for. -/
def Accounts (cfg : Setting) (H : List Deed) : Cycle → Prop
  | .running d => Dispatched cfg H d.paths d.waiting (d.runs ++ d.arrived.filterMap id)
  | .finished (some r) => Dispatched cfg H r.paths [] r.runs
  | _ => True

/-- The cycle of the task `t` agrees with the history, and waits for the runs that serve it. -/
structure Tracks (cfg : Setting) (H : List Deed) (t : TaskId) (serves : TaskId → Prop)
    (k : Cycle) : Prop where
  taken : ∀ {ps : List String}, k.paths? = some ps → .drained t ps ∈ H
  accounts : k.Accounts cfg H
  waiting : ∀ w, serves w ↔ w ∈ k.waiting

variable {cfg : Setting} {H H' : List Deed} {t w : TaskId} {P Q : TaskId → Prop} {k : Cycle}

lemma Accounts.mono (h : k.Accounts cfg H) (hH : H ⊆ H') : k.Accounts cfg H' := by
  rcases k with _ | _ | _ | d | _ | r <;> first | exact Dispatched.mono h hH | trivial

lemma Tracks.mono (h : k.Tracks cfg H t P) (hH : H ⊆ H') (hP : ∀ w, Q w ↔ P w) :
    k.Tracks cfg H' t Q where
  taken hps := hH (h.taken hps)
  accounts := h.accounts.mono hH
  waiting w := (hP w).trans (h.waiting w)

@[simp] lemma paths?_receive (w : TaskId) (a : Option Report) (k : Cycle) :
    (k.receive w a).paths? = k.paths? := by cases k <;> rfl

/-- A run that serves the cycle gives its report. -/
lemma Tracks.receive {report : Report} (h : k.Tracks cfg H t P) (hw : P w) (hH : H ⊆ H')
    (hx : .completed w report ∈ H') (hQ : ∀ v, Q v ↔ P v ∧ v ≠ w) :
    (k.receive w (some report)).Tracks cfg H' t Q := by
  have hin : w ∈ k.waiting := (h.waiting w).1 hw
  cases k with
  | running d =>
    have hd : Dispatched cfg H d.paths d.waiting (d.runs ++ d.arrived.filterMap id) := h.accounts
    refine ⟨fun hps => hH (h.taken hps), ?_, fun v => ?_⟩
    · simpa [Cycle.receive, Accounts] using (hd.mono hH).enters hin hx
    · rw [hQ, h.waiting]
      exact (hd.nodup_waiting.mem_erase_iff.trans and_comm).symm
  | _ => cases hin

end Cycle

/-- The runs that serve the cycles of the task `t`. -/
def Core.Serves (c : Core) (t w : TaskId) : Prop := dutyAt c.tasks w = some (.serves t)

/-- Every cycle has the reports of the runs that it has opened, or waits for them. -/
structure Dispatching (cfg : Setting) (c : Core) : Prop where
  tracks : ∀ {t : TaskId} {label : Option String} {k : Cycle},
    dutyAt c.tasks t = some (.cycle label k) → k.Tracks cfg c.history t (c.Serves t)
  serves : ∀ {t w : TaskId}, c.Serves t w → ∃ label k, dutyAt c.tasks t = some (.cycle label k)
  answered : ∀ {label : String} {r : CycleReport}, (label, .cycle (some r)) ∈ c.outcomes →
    Dispatched cfg c.history r.paths [] r.runs

namespace Dispatching

variable {cfg : Setting} {c c' : Core} {self t w : TaskId} {label : Option String} {k k' : Cycle}
  {task : Task}

/-- Whom a run serves is not disturbed by what a cycle becomes. -/
lemma serves_put (hself : dutyAt c.tasks self = some (.cycle label k))
    (hduty : ∀ u, dutyAt c'.tasks u = if u = self then some (.cycle label k') else dutyAt c.tasks u) :
    c'.Serves t w ↔ c.Serves t w := by
  unfold Core.Serves
  rw [hduty]
  split
  · subst w
    simp [hself]
  · exact Iff.rfl

/-- A cycle becomes another one. -/
lemma put (h : Dispatching cfg c) (hself : dutyAt c.tasks self = some (.cycle label k))
    (hduty : ∀ u, dutyAt c'.tasks u = if u = self then some (.cycle label k') else dutyAt c.tasks u)
    (hH : c.history ⊆ c'.history) (hout : c'.outcomes = c.outcomes)
    (hk : k'.Tracks cfg c'.history self (c.Serves self)) : Dispatching cfg c' where
  tracks {t label' k₁} ht := by
    rw [hduty] at ht
    split at ht
    · subst t
      cases ht
      exact hk.mono (List.Subset.refl _) fun w => serves_put hself hduty
    · exact (h.tracks ht).mono hH fun w => serves_put hself hduty
  serves {t w} hw := by
    obtain ⟨label', k₁, ht⟩ := h.serves ((serves_put hself hduty).1 hw)
    rw [hduty]
    split
    · exact ⟨_, _, rfl⟩
    · exact ⟨label', k₁, ht⟩
  answered hin := (h.answered (hout ▸ hin)).mono hH

/-- Once the run `w` has told the task `t₀` that it is over, only `w` serves nobody any more. -/
lemma serves_of_told {t₀ u v : TaskId} {label₀ : Option String} {k₀ : Cycle} {a : Option Report}
    (ht₀ : dutyAt c.tasks t₀ = some (.cycle label₀ k₀))
    (hduty : ∀ u, dutyAt c'.tasks u = if u = w then none
      else if u = t₀ then (dutyAt c.tasks u).map (Duty.receive w a) else dutyAt c.tasks u) :
    c'.Serves u v ↔ c.Serves u v ∧ v ≠ w := by
  unfold Core.Serves
  rw [hduty]
  by_cases hv : v = w
  · simp [hv]
  · by_cases hv' : v = t₀
    · subst v
      simp [hv, ht₀, Duty.receive]
    · simp [hv, hv']

lemma aside (h : Dispatching cfg c) (ha : Aside c c') (hH : c.history ⊆ c'.history)
    (hbreak : ∀ {w t r}, taskAt c.tasks w = some (.run r (.cycle t)) →
      ∀ b, .brokeOff w b ∉ c'.history) : Dispatching cfg c' where
  tracks {t label k'} ht := by
    cases ha.told with
    | same hsame =>
      rw [hsame] at ht
      exact (h.tracks ht).mono hH fun w => by rw [Core.Serves, Core.Serves, hsame]
    | @told t₀ w r a hw hduty hx =>
      obtain ⟨report, rfl, hreport⟩ := hx.resolve_right fun ⟨b, hb⟩ => hbreak hw b hb
      have hserves : c.Serves t₀ w := dutyAt_serves.2 ⟨r, hw⟩
      obtain ⟨label₀, k₀, ht₀⟩ := h.serves hserves
      rw [hduty] at ht
      split at ht
      · cases ht
      · rename_i hne
        split at ht
        · subst t
          rw [ht₀] at ht
          cases ht
          exact (h.tracks ht₀).receive hserves hH hreport fun v => serves_of_told ht₀ hduty
        · rename_i hne'
          refine (h.tracks ht).mono hH fun v =>
            (serves_of_told ht₀ hduty).trans ⟨And.left, fun hv => ⟨hv, ?_⟩⟩
          rintro rfl
          have heq := hv.symm.trans hserves
          cases heq
          exact hne' rfl
  serves {t v} hv := by
    cases ha.told with
    | same hsame =>
      rw [Core.Serves, hsame] at hv
      obtain ⟨label, k, ht⟩ := h.serves hv
      exact ⟨label, k, (hsame t).trans ht⟩
    | @told t₀ w r a hw hduty hx =>
      have hserves : dutyAt c.tasks w = some (.serves t₀) := dutyAt_serves.2 ⟨r, hw⟩
      obtain ⟨label₀, k₀, ht₀⟩ := h.serves hserves
      obtain ⟨label, k, ht⟩ := h.serves ((serves_of_told ht₀ hduty).1 hv).1
      rw [hduty]
      have hne : t ≠ w := by
        rintro rfl
        cases ht.symm.trans hserves
      rw [if_neg hne]
      split
      · rw [ht]
        exact ⟨_, _, rfl⟩
      · exact ⟨label, k, ht⟩
  answered hin := (h.answered (ha.answers hin)).mono hH

/-- A task goes on with its cycle, and opens no runs. -/
lemma proceeds {task' : Task} (h : Dispatching cfg c) (hs : taskAt c.tasks self = some task)
    (hp : task.Proceeds k k' task') (htasks : c'.tasks = mapAt c.tasks self fun _ => task')
    (hH : c.history ⊆ c'.history) (hout : c'.outcomes = c.outcomes)
    (hk : k.Tracks cfg c.history self (c.Serves self) →
      k'.Tracks cfg c'.history self (c.Serves self)) : Dispatching cfg c' := by
  obtain ⟨label, hd, hd'⟩ := duty?_proceeds hp
  have hself : dutyAt c.tasks self = some (.cycle label k) := (dutyAt_of_taskAt hs).trans hd
  refine h.put hself (fun u => ?_) hH hout (hk (h.tracks hself))
  rw [htasks, dutyAt_put hs, hd']
  simp [eq_comm]

/-- The cycle of a task is over. -/
lemma returns {result : Option CycleReport} {ts : List (Option Slot)}
    {os : List (String × Outcome)} (h : Dispatching cfg c) (hs : taskAt c.tasks self = some task)
    (hr : task.Returns c.tasks self k result ts os) (htasks : c'.tasks = ts)
    (hH : c.history ⊆ c'.history) (hout : c'.outcomes = c.outcomes ++ os) (hk : k.waiting = [])
    (hresult : ∀ r, result = some r → k = .finished (some r)) : Dispatching cfg c' := by
  cases hr with
  | tick label =>
    have hself : dutyAt c.tasks self = some (.cycle (some label) k) := dutyAt_of_taskAt hs
    have hduty (u : TaskId) : dutyAt c'.tasks u = if self = u then none else dutyAt c.tasks u := by
      rw [htasks, dutyAt_set_none]
    have hserves (t w : TaskId) : c'.Serves t w ↔ c.Serves t w := by
      unfold Core.Serves
      rw [hduty]
      split
      · subst w
        simp [hself]
      · exact Iff.rfl
    refine ⟨fun {t label' k₁} ht => ?_, fun {t w} hw => ?_, fun {label' r} hin => ?_⟩
    · rw [hduty] at ht
      split at ht
      · cases ht
      · exact (h.tracks ht).mono hH fun w => hserves t w
    · have hold := (hserves t w).1 hw
      obtain ⟨label', k₁, ht⟩ := h.serves hold
      refine ⟨label', k₁, ?_⟩
      rw [hduty, if_neg]
      · exact ht
      · rintro rfl
        have hin := ((h.tracks hself).waiting w).1 hold
        simp [hk] at hin
    · rw [hout] at hin
      rcases List.mem_append.1 hin with hin | hin
      · exact (h.answered hin).mono hH
      · cases List.mem_singleton.1 hin
        obtain rfl := hresult r rfl
        exact Dispatched.mono (h.tracks hself).accounts hH
  | loop due due' =>
    have hself : dutyAt c.tasks self = some (.cycle none k) := dutyAt_of_taskAt hs
    have htracks : Cycle.idle.Tracks cfg c'.history self (c.Serves self) :=
      ⟨fun hps => (by cases hps), trivial, fun w => by
        rw [(h.tracks hself).waiting, hk]
        rfl⟩
    refine h.put hself (fun u => ?_) hH (by rw [hout, List.append_nil]) htracks
    rw [htasks, dutyAt_put hs]
    simp [Task.duty?, eq_comm]

/-- The runs that a cycle opens serve it from then on. -/
lemma triggers {paths : List String} {es : List (String × Variables)} {task' : Task}
    (h : Dispatching cfg c) (hs : taskAt c.tasks self = some task)
    (hes : es = (Watch.planDispatch paths cfg.rules).entries)
    (hp : task.Proceeds (.loaded paths)
      (.running { paths, waiting := List.range' c.tasks.length es.length }) task') :
    Dispatching cfg
      { c with
        tasks := mapAt (c.tasks ++ triggeredSlots self es) self fun _ => task'
        history := c.history ++ openings c.tasks.length es } := by
  obtain ⟨label, hd, hd'⟩ := duty?_proceeds hp
  have hself : dutyAt c.tasks self = some (.cycle label (.loaded paths)) :=
    (dutyAt_of_taskAt hs).trans hd
  have htracks := h.tracks hself
  have hH : c.history ⊆ c.history ++ openings c.tasks.length es := List.subset_append_left ..
  set c' : Core :=
    { c with
      tasks := mapAt (c.tasks ++ triggeredSlots self es) self fun _ => task'
      history := c.history ++ openings c.tasks.length es } with hc'
  have hduty (u : TaskId) : dutyAt c'.tasks u =
      if u = self then
        some (.cycle label (.running { paths, waiting := List.range' c.tasks.length es.length }))
      else if c.tasks.length ≤ u ∧ u < c.tasks.length + es.length then some (.serves self)
      else dutyAt c.tasks u := by
    rw [hc', dutyAt_put (taskAt_append hs), dutyAt_triggered, hd']
    simp only [eq_comm]
  -- the new runs serve this task, and the old ones whom they served
  have hserves (t w : TaskId) : c'.Serves t w ↔
      c.Serves t w ∨ t = self ∧ c.tasks.length ≤ w ∧ w < c.tasks.length + es.length := by
    unfold Core.Serves
    rw [hduty]
    have hlt := lt_of_dutyAt hself
    by_cases hw : w = self
    · subst w
      simp [hself, Nat.not_le.2 hlt]
    · rw [if_neg hw]
      split
      · rename_i hnew
        have hold : dutyAt c.tasks w ≠ some (.serves t) := fun h =>
          Nat.not_lt.2 hnew.1 (lt_of_dutyAt h)
        simp [hold, hnew, eq_comm]
      · rename_i hnew
        simp [hnew]
  refine ⟨fun {t label' k₁} ht => ?_, fun {t w} hw => ?_, fun hin => (h.answered hin).mono hH⟩
  · rw [hduty] at ht
    split at ht
    · subst t
      cases ht
      refine ⟨fun hps => hH (htracks.taken hps), ?_, fun w => ?_⟩
      · have hopens : Opens cfg c'.history paths (List.range' c.tasks.length es.length) :=
          ⟨hes ▸ forall₂_openings (List.subset_append_right ..), List.nodup_range' ..⟩
        exact .intro hopens (by simp) .nil
      · have hnone : ¬c.Serves self w := fun hw => by
          simpa [Cycle.waiting] using (htracks.waiting w).1 hw
        rw [hserves, or_iff_right hnone, Cycle.waiting, List.mem_range'_1]
        simp
    · rename_i hne
      split at ht
      · cases ht
      · exact (h.tracks ht).mono hH fun w => by simp [hserves, hne]
  · rw [hduty]
    rcases (hserves t w).1 hw with hold | ⟨rfl, -⟩
    · obtain ⟨label', k₁, ht⟩ := h.serves hold
      split
      · exact ⟨_, _, rfl⟩
      · rw [if_neg fun hnew => Nat.not_lt.2 hnew.1 (lt_of_dutyAt ht)]
        exact ⟨label', k₁, ht⟩
    · rw [if_pos rfl]
      exact ⟨_, _, rfl⟩

theorem acts (h : Dispatching cfg c) (hs : taskAt c.tasks self = some task)
    (hc : CycleActs cfg self task c c') : Dispatching cfg c' := by
  cases hc with
  | rests => exact h
  | locks hp =>
    refine h.proceeds hs hp rfl (List.subset_append_left ..) rfl fun hk => ?_
    exact ⟨fun hps => (by cases hps), trivial, hk.waiting⟩
  | drains hp hk' =>
    refine h.proceeds hs hp rfl (List.subset_append_left ..) rfl fun hk => ?_
    subst hk'
    split
    · rename_i hnil
      exact ⟨fun hps => (by cases hps; simp [hnil]), trivial, hk.waiting⟩
    · exact ⟨fun hps => (by cases hps; simp), trivial, hk.waiting⟩
  | @triggers paths es task' hes hp => exact h.triggers hs hes hp
  | @enters d task' ha hp =>
    refine h.proceeds hs hp rfl (List.Subset.refl _) rfl fun hk => ?_
    refine ⟨fun hps => hk.taken hps, ?_, hk.waiting⟩
    simpa [Cycle.Accounts] using hk.accounts
  | @finishes d task' ha hw hp =>
    refine h.proceeds hs hp rfl (List.Subset.refl _) rfl fun hk => ?_
    refine ⟨fun hps => hk.taken hps, ?_, fun w => ?_⟩
    · simpa [Cycle.Accounts, ha, hw] using hk.accounts
    · rw [hk.waiting, Cycle.waiting, hw]
      rfl
  | refused hr =>
    exact h.returns hs hr rfl (List.subset_append_left ..) rfl rfl (by simp)
  | releases hr =>
    exact h.returns hs hr rfl (List.subset_append_left ..) rfl rfl fun r hr => by rw [hr]

/-- A task that is to make cycles is new. -/
lemma begins (h : Dispatching cfg c) {task : Task} (ht : task.cycle? = some .idle) :
    Dispatching cfg { c with tasks := c.tasks ++ [some ⟨task, false⟩] } := by
  obtain ⟨label, hd⟩ := Task.exists_duty ht
  have hduty (u : TaskId) : dutyAt (c.tasks ++ [some ⟨task, false⟩]) u =
      if u = c.tasks.length then some (.cycle label .idle) else dutyAt c.tasks u := by
    rw [dutyAt, taskAt_concat]
    split
    · exact hd
    · rfl
  have hserves (t w : TaskId) :
      dutyAt (c.tasks ++ [some ⟨task, false⟩]) w = some (.serves t) ↔ c.Serves t w := by
    unfold Core.Serves
    rw [hduty]
    split
    · subst w
      have hold : dutyAt c.tasks c.tasks.length ≠ some (.serves t) := fun h =>
        Nat.lt_irrefl _ (lt_of_dutyAt h)
      simp [hold]
    · exact Iff.rfl
  refine ⟨fun {t label' k₁} ht => ?_, fun {t w} hw => ?_, fun hin => h.answered hin⟩
  · rw [hduty] at ht
    split at ht
    · subst t
      cases ht
      refine ⟨fun hps => (by cases hps), trivial, fun w => (hserves _ w).trans ?_⟩
      refine iff_of_false (fun hw => ?_) List.not_mem_nil
      obtain ⟨_, _, ht⟩ := h.serves hw
      exact Nat.lt_irrefl _ (lt_of_dutyAt ht)
    · exact (h.tracks ht).mono (List.Subset.refl _) fun w => hserves t w
  · obtain ⟨label', k₁, ht⟩ := h.serves ((hserves t w).1 hw)
    refine ⟨label', k₁, ?_⟩
    rw [hduty, if_neg fun heq => Nat.lt_irrefl _ (heq ▸ lt_of_dutyAt ht)]
    exact ht

end Dispatching

/-! ### One step of a session -/

section

variable {cfg : Setting} {s s' : State} {self : TaskId} {task : Task}

lemma Aside.of_duties {c c' : Core} (ds : List Deed)
    (ht : ∀ u, dutyAt c'.tasks u = dutyAt c.tasks u) (ho : c'.outcomes = c.outcomes)
    (hH : c'.history = c.history ++ ds) (hds : ∀ t ps, Deed.drained t ps ∉ ds) : Aside c c' where
  told := .same ht
  answers h := ho ▸ h
  drains h := (List.mem_append.1 (hH ▸ h)).resolve_right (hds _ _)

lemma Aside.refl (c : Core) : Aside c c :=
  .of_duties [] (fun _ => rfl) rfl (List.append_nil _).symm (by simp)

/-- What the news of a process do is done aside. -/
lemma aside_putHandle {c : Core} (p : ProcessId) (h : Handle) (killed : Bool)
    (hduty : ∀ u, dutyAt s.tasks u = dutyAt c.tasks u) (ho : s.outcomes = c.outcomes)
    (hH : s.history = c.history) : Aside c (s.putHandle p h killed).toCore := by
  rw [State.toCore_putHandle]
  exact .of_duties _ hduty ho ((ite_concat ..).trans (by rw [hH])) (by simp)

/-- Whatever a task does that makes no cycles is done aside. -/
lemma aside_of_advance (hs : Calm cfg s) (h : slotAt s.tasks self = some ⟨task, false⟩)
    (hn : task.cycle? = none) : Aside s.toCore (s.advance cfg self task).toCore := by
  have hself := taskAt_of_slotAt h
  cases task with
  | tick | loop => cases hn
  | run r audience =>
    -- a change that left the others alone would have left this task alone too
    by_cases hrests : s.act cfg self (.run r audience) = .rests
    · simpa [State.advance, hrests] using Aside.refl s.toCore
    · have hchange : Change cfg s.toCore (s.advance cfg self (.run r audience)).toCore := by
        rw [toCore_advance]
        exact (change_course h).resolve_left hrests
      refine (hchange.aside hs.kept.tended).resolve_right fun hleft => ?_
      exact ne_of_advance hrests (hleft self _ hself rfl)
  | waiter p name owner =>
    simp only [State.advance, State.act, State.actOfWaiter]
    split
    · rename_i heq
      split at heq <;> cases heq
    · exact .refl _
    · rename_i heq
      split at heq <;> cases heq
      rw [State.toCore_arrive]
      refine .of_duties [] (fun u => ?_) rfl (List.append_nil _).symm (by simp)
      rw [dutyAt_mapAt fun _ _ => duty?_receive .., State.toCore_drop]
      exact dutyAt_gone (dutyAt_of_taskAt hself)
  | keeper p =>
    have hgone (u : TaskId) : dutyAt (s.drop self).tasks u = dutyAt s.tasks u :=
      dutyAt_gone (dutyAt_of_taskAt hself)
    have hdrop : Aside s.toCore (s.drop self).toCore :=
      .of_duties [] hgone rfl (List.append_nil _).symm (by simp)
    simp only [State.advance, State.act, State.actOfKeeper]
    split
    · rename_i heq
      split at heq
      · cases heq
      · split at heq <;> cases heq
    · exact .refl _
    · rename_i heq
      split at heq
      · cases heq
        exact hdrop
      · split at heq <;> cases heq
        unfold State.endProcess
        split
        · exact hdrop
        · exact aside_putHandle _ _ _ hgone rfl rfl

/-- What happens in a session that is left alone, as far as cycles are concerned. -/
inductive Passes (cfg : Setting) (c c' : Core) : Prop
  | aside (h : Aside c c')
  | acts {self : TaskId} {task : Task} {k : Cycle}
    (hs : slotAt c.tasks self = some ⟨task, false⟩) (hk : task.cycle? = some k)
    (h : CycleActs cfg self task c c')
  | begins (task : Task) (ht : task.cycle? = some .idle)
    (h : c' = { c with tasks := c.tasks ++ [some ⟨task, false⟩] })

theorem Calm.passes (hs : Calm cfg s) (h : Undisturbed cfg s s') :
    Passes cfg s.toCore s'.toCore := by
  rcases h with h | ⟨h, hpre⟩
  · cases h with
    | @acts self task hslot =>
      cases hk : task.cycle? with
      | none => exact .aside (aside_of_advance hs hslot hk)
      | some k => exact .acts hslot hk (acts_of_cycle cfg s self hk)
    | @dropped self task hslot =>
      have hchange : Change cfg s.toCore (s.discard self task).toCore := change_discard hslot
      refine .aside ((hchange.aside hs.kept.tended).resolve_right fun hleft => ?_)
      have hsome := hs.kept.tended.cancelled hslot rfl
      have hn : task.cycle? = none := by
        cases hk : task.cycle? with
        | none => rfl
        | some k =>
          rw [Task.owner?_of_cycle (by simp [hk])] at hsome
          cases hsome
      have hstays := hleft self task (taskAt_of_slotAt hslot) hn
      rw [gone_of_discard] at hstays
      cases hstays
    | news killed hp follows => exact .aside (aside_putHandle _ _ _ (fun _ => rfl) rfl rfl)
    | passes => exact .aside (.refl _)
  · cases h with
    | tick label => exact .begins (.tick label .idle) rfl (by simp [State.openingOf])
    | loop due => exact .begins (.loop due .idle) rfl (by simp [State.openingOf])
    | run chain vars exitOnError label =>
      exact .aside (.of_duties _ (fun u => dutyAt_append (forall_slot_singleton rfl)) rfl rfl (by
        simp [State.openingOf]))
    | push path => exact .aside (.of_duties _ (fun _ => rfl) rfl rfl (by simp))
    | stop p =>
      rw [State.toCore_stop]
      exact .aside (.of_duties [] (fun _ => rfl) rfl (List.append_nil _).symm (by simp))
    | cancel w =>
      rw [State.toCore_cancel]
      exact .aside (.of_duties [] (fun _ => dutyAt_cancelAt _) rfl
        (List.append_nil _).symm (by simp))

/-- A run that serves a cycle does not break off. -/
lemma Calm.notMem_brokeOff (hcfg : cfg.Sound) (hs : Calm cfg s) (hs' : Calm cfg s')
    (hgrows : s.history <+: s'.history) {w t : TaskId} {r : Course} {b : Break}
    (hw : taskAt s.tasks w = some (.run r (.cycle t))) : .brokeOff w b ∉ s'.history := by
  intro hb
  obtain ⟨-, -, chain, vars, hopen⟩ := (hs'.weighed hcfg).1.brokeOff hb
  have hopen' := hgrows.subset (hs.kept.orderly.runs hw).opened
  obtain ⟨-, -, heq⟩ := hs'.kept.orderly.opened_unique hopen hopen'
  rw [hs.kept.attributed.triggered hw] at heq
  cases heq

theorem Calm.dispatching (hcfg : cfg.Sound) (hs : Calm cfg s) : Dispatching cfg s.toCore := by
  induction hs with
  | refl => refine ⟨?_, ?_, ?_⟩ <;> simp [dutyAt, taskAt, slotAt, Core.Serves]
  | @tail s s' hs hstep ih =>
    have hs : Calm cfg s := hs
    have hs' : Calm cfg s' := hs.tail hstep
    have hgrows : s.history <+: s'.history := grows_of_steps (steps_of_undisturbed (.single hstep))
    cases hs.passes hstep with
    | aside ha =>
      exact ih.aside ha hgrows.subset fun hw b => hs.notMem_brokeOff hcfg hs' hgrows hw
    | acts hslot hk h => exact ih.acts (taskAt_of_slotAt hslot) h
    | begins task ht h => exact h ▸ ih.begins ht

end

end ChainRunner.Run
