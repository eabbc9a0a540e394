import ChainRunner.Proofs.Expansion
import ChainRunner.Proofs.Run.Watching
import ChainRunner.Proofs.Watch.Plan

/-!
How changed files reach their commands.

A dispatch cycle takes all that is queued and opens one run for each chain with a rule that matches.
A run brings every file that was matched to every script below it that mentions the file, once for
each choice of the other values.
-/

namespace ChainRunner.Run

open Relation Template

/-- The path is one of those taken, and a rule of the chain matches it. -/
def Setting.Feeds (cfg : Setting) (paths : List String) (chain path : String) : Prop :=
  path ∈ paths ∧ ∃ r ∈ cfg.rules, r.chain = chain ∧ r.isMatch path = true

/-- The members `ys` are what a step that names the script came to: one process for each choice of
values, and for each file one for each choice of the other values. -/
structure Spread (cfg : Setting) (paths : List String) (chain : String) (vars : Variables)
    (script body : String) (mode : Mode) (ys : List Member) : Prop where
  each : List.Forall₂ (fun y asg => ∃ p name,
    y = Member.process p (.chosen script body mode asg) name) ys (combinations (axesIn body) vars)
  distinct : (combinations (axesIn body) vars).Nodup
  files : ∀ f, cfg.Feeds paths chain f →
    (combinations (axesIn body) vars).filter (fun asg => asg.lookup .file = some f) =
      (combinations (otherAxes body) vars).map (· ++ [(.file, f)])

/-- What becomes of the files in the run `w` of a triggered chain and the chains below it. -/
structure Delivered (cfg : Setting) (H : List Deed) (paths : List String) (chain : String)
    (vars : Variables) (w : TaskId) : Prop where
  /-- No instance has another file. -/
  strays : ∀ u k p i name, Family H w u → .started u k (.process p i name) ∈ H →
    ∃ script body mode asg, cfg.manifest.resolve script = .script body ∧
      asg ∈ combinations (axesIn body) vars ∧ i = .chosen script body mode asg ∧
      ∀ f, asg.lookup .file = some f → cfg.Feeds paths chain f
  /-- A run that has come to its end has brought all the files to each of its steps that names a
  script which mentions the file. -/
  reaches : ∀ u report, Family H w u → .completed u report ∈ H →
    ∃ e, .opened u e vars false ∈ H ∧ ∀ j b before step after script body,
      (Chain.batches e)[j]? = some b → b.steps = before ++ step :: after →
      step.target? = some script → cfg.manifest.resolve script = .script body →
      Axis.file.placeholder.toList <:+: body.toList →
        ∃ xs ys zs, membersOf H u (j + 1) = xs ++ (ys ++ zs) ∧
          xs.map Member.planned = before.flatMap (planStep cfg.manifest vars) ∧
          zs.map Member.planned = after.flatMap (planStep cfg.manifest vars) ∧
          Spread cfg paths chain vars script body step.mode ys

/-! ### What a run makes of its variables -/

section

variable {cfg : Setting} {m : Manifest} {c : Core} {s : State} {t u w : TaskId} {e : String}
  {vars : Variables} {paths : List String} {chain script body : String} {mode : Mode}

lemma mem_axesIn : .file ∈ axesIn body ↔ Axis.file.placeholder.toList <:+: body.toList := by
  simp [axesIn, hole_mem_pieces, Axis.mem_all]

/-- An instance that a step comes to is one of a script under some choice of the values. -/
lemma exists_of_launch_mem {step : Step} {i : Instance} (h : .launch i ∈ planStep m vars step) :
    ∃ script body asg, m.resolve script = .script body ∧
      asg ∈ combinations (axesIn body) vars ∧ i = .chosen script body step.mode asg := by
  unfold planStep at h
  split at h
  · cases h
  · rename_i script _
    split at h
    · rename_i body hm
      obtain ⟨i', hi, heq⟩ := List.mem_map.1 h
      cases heq
      rw [Instance.expand_eq] at hi
      obtain ⟨asg, hasg, rfl⟩ := List.mem_map.1 hi
      exact ⟨script, body, asg, hm, hasg, rfl⟩
    · simp at h
    · simp at h

/-- A process is started for a choice of the variables that its run was opened with. -/
lemma Orderly.chosen (ho : Orderly m c) (hopen : .opened u e vars false ∈ c.history) {k : Nat}
    {p : ProcessId} {i : Instance} {name : String}
    (hx : .started u k (.process p i name) ∈ c.history) :
    ∃ script body mode asg, m.resolve script = .script body ∧
      asg ∈ combinations (axesIn body) vars ∧ i = .chosen script body mode asg := by
  obtain ⟨pre, post, hH⟩ := List.append_of_mem hx
  obtain ⟨j, ps, -, hps, hpre⟩ := (ho.ordered.inTurn (ho.openedAs hopen) hH).planned
  have hin : .launch i ∈ ps :=
    hpre.subset (List.mem_append_right _ (List.mem_singleton_self _))
  rw [plan_getElem?] at hps
  obtain ⟨b, -, rfl⟩ := Option.map_eq_some_iff.1 hps
  obtain ⟨step, -, hstep⟩ := List.mem_flatMap.1 hin
  obtain ⟨script, body, asg, hm, hasg, hi⟩ := exists_of_launch_mem hstep
  exact ⟨script, body, step.mode, asg, hm, hasg, hi⟩

lemma process_of_planned {y : Member} {i : Instance} (h : y.planned = .launch i) :
    ∃ p name, y = .process p i name := by
  cases y <;> cases h
  exact ⟨_, _, rfl⟩

/-- The members that were planned for a step that names a script. -/
lemma forall₂_of_planned {ys : List Member} {step : Step} (ht : step.target? = some script)
    (hm : m.resolve script = .script body)
    (h : ys.map Member.planned = planStep m vars step) :
    List.Forall₂ (fun y asg => ∃ p name,
      y = Member.process p (.chosen script body step.mode asg) name) ys
      (combinations (axesIn body) vars) := by
  have hstep : planStep m vars step = (combinations (axesIn body) vars).map
      fun asg => .launch (.chosen script body step.mode asg) := by
    simp [planStep, ht, hm, Instance.expand_eq, Function.comp_def]
  rw [hstep, ← List.forall₂_eq_eq_eq, List.forall₂_map_left_iff, List.forall₂_map_right_iff] at h
  exact h.imp fun _ _ => process_of_planned

/-- The step `step` of a run that has come to its end has become the members planned for it. -/
lemma Fulfilled.split {H : List Deed} (hf : Fulfilled m H u e vars) {j : Nat} {b : Batch}
    {before after : List Step} {step : Step} (hb : (Chain.batches e)[j]? = some b)
    (hsteps : b.steps = before ++ step :: after) :
    ∃ xs ys zs, membersOf H u (j + 1) = xs ++ (ys ++ zs) ∧
      xs.map Member.planned = before.flatMap (planStep m vars) ∧
      zs.map Member.planned = after.flatMap (planStep m vars) ∧
      ys.map Member.planned = planStep m vars step := by
  have hplan : (plan m e vars)[j]? = some (b.steps.flatMap (planStep m vars)) := by
    rw [plan_getElem?, hb]
    rfl
  have hall := hf.finished.members hplan
  rw [hsteps, List.flatMap_append, List.flatMap_cons] at hall
  obtain ⟨xs, rest, hrest, hxs, hall⟩ := List.map_eq_append_iff.1 hall
  obtain ⟨ys, zs, rfl, hys, hzs⟩ := List.map_eq_append_iff.1 hall
  exact ⟨xs, ys, zs, hrest, hxs, hzs, hys⟩

/-- Whatever has happened, the run of a triggered chain delivers the files that its rules match. -/
theorem Calm.delivered (hs : Calm cfg s) {observe : Watch.Observe} {active : Variables}
    {root : String} (hrules : Watch.Rule.ofObserve observe active root = .ok cfg.rules)
    (hopen : .opened w chain (Watch.planned paths cfg.rules chain) false ∈ s.history) :
    Delivered cfg s.history paths chain (Watch.planned paths cfg.rules chain) w := by
  have ho := hs.kept.orderly
  have hfeeds (f : String) : f ∈ (Watch.planned paths cfg.rules chain).file ↔
      cfg.Feeds paths chain f :=
    Watch.mem_file_planned (Watch.Rule.isCompiled_of_ofObserve hrules)
  have hdistinct := Watch.distinct_planned paths cfg.rules chain
  refine ⟨fun u k p i name hu hx => ?_, fun u report hu hx => ?_⟩
  · obtain ⟨e, hopen'⟩ := hu.lenient ho hopen
    obtain ⟨script, body, mode, asg, hm, hasg, hi⟩ := ho.chosen hopen' hx
    exact ⟨script, body, mode, asg, hm, hasg, hi,
      fun f hf => (hfeeds f).1 (mem_of_lookup hasg hf).2⟩
  · obtain ⟨e, hopen'⟩ := hu.lenient ho hopen
    refine ⟨e, hopen', fun j b before step after script body hb hsteps ht hm hfile => ?_⟩
    obtain ⟨e', vars', hf⟩ := hs.kept.concluded u report hx
    obtain ⟨flag, hopen''⟩ := hf.finished.opened
    obtain ⟨rfl, rfl, -⟩ := ho.opened_unique hopen' hopen''
    obtain ⟨xs, ys, zs, hmembers, hxs, hzs, hys⟩ := hf.split hb hsteps
    refine ⟨xs, ys, zs, hmembers, hxs, hzs, forall₂_of_planned ht hm hys,
      nodup_combinations hdistinct, fun f hf => ?_⟩
    exact filter_combinations hdistinct (mem_axesIn.2 hfile) ((hfeeds f).2 hf)

end

/-! ### What a cycle does with the queue -/

section

variable {cfg : Setting} {c c' : Core} {self t w : TaskId} {task task' : Task} {k k' : Cycle}
  {paths : List String} {label : Option String}

lemma Task.Proceeds.cycle? (h : task.Proceeds k k' task') :
    task.cycle? = some k ∧ task'.cycle? = some k' := by
  cases h <;> exact ⟨rfl, rfl⟩

lemma Task.Returns.cycle? {ts ts' : List (Option Slot)} {result : Option CycleReport}
    {os : List (String × Outcome)} (h : task.Returns ts self k result ts' os) :
    task.cycle? = some k := by
  cases h <;> rfl

/-- A cycle that has the lock takes the whole queue. -/
lemma CycleActs.takes (hc : CycleActs cfg self task c c')
    (hs : slotAt c.tasks self = some ⟨task, false⟩) (hk : task.cycle? = some .locked) :
    c'.history = c.history ++ [.drained self c.pending.toList] ∧ c'.pending.toList = [] ∧
      (c.pending.toList ≠ [] → ∃ task', slotAt c'.tasks self = some ⟨task', false⟩ ∧
        task'.cycle? = some (.loaded c.pending.toList)) := by
  cases hc with
  | rests h =>
    rcases h with ⟨k', hk', d, rfl, -⟩ | ⟨due, rfl⟩
    · rw [hk] at hk'
      cases hk'
    · cases hk
  | @drains k' task' hp hk' =>
    refine ⟨rfl, rfl, fun hne => ⟨task', ?_, ?_⟩⟩
    · rw [slotAt_mapAt, if_pos rfl, hs]
      rfl
    · rw [hp.cycle?.2, hk', if_neg hne]
  | locks hp | triggers hes hp | enters ha hp | finishes ha hw hp =>
    rw [hp.cycle?.1] at hk
    cases hk
  | refused hr | releases hr =>
    rw [hr.cycle?] at hk
    cases hk

/-- A cycle that has taken paths opens one run for each chain that they trigger. -/
lemma CycleActs.opens (hc : CycleActs cfg self task c c')
    (hk : task.cycle? = some (.loaded paths)) :
    c'.history = c.history ++
      openings c.tasks.length (Watch.planDispatch paths cfg.rules).entries := by
  cases hc with
  | rests h =>
    rcases h with ⟨k', hk', d, rfl, -⟩ | ⟨due, rfl⟩
    · rw [hk] at hk'
      cases hk'
    · cases hk
  | triggers hes hp =>
    rw [hp.cycle?.1] at hk
    cases hk
    rw [hes]
  | locks hp | drains hp | enters ha hp | finishes ha hw hp =>
    rw [hp.cycle?.1] at hk
    cases hk
  | refused hr | releases hr =>
    rw [hr.cycle?] at hk
    cases hk

lemma mem_openings {n i : Nat} {es : List (String × Variables)} {chain : String}
    {vars : Variables} (h : es[i]? = some (chain, vars)) :
    .opened (n + i) chain vars false ∈ openings n es := by
  have hin : ((chain, vars), n + i) ∈ es.zipIdx n := by
    rw [List.mem_zipIdx_iff_le_and_getElem?_sub]
    simpa using h
  exact List.mem_map.2 ⟨_, hin, rfl⟩

/-- The runs that serve the task `t` are among the runs `lo` to `hi`, and it opens no more of them
before it takes paths again. -/
structure Closed (ts : List (Option Slot)) (t lo hi : TaskId) : Prop where
  served : ∀ w, dutyAt ts w = some (.serves t) → lo ≤ w ∧ w < hi
  unloaded : ∀ label paths, dutyAt ts t ≠ some (.cycle label (.loaded paths))

namespace Closed

variable {ts ts' : List (Option Slot)} {lo hi : TaskId} {o : Option Duty}

lemma put (h : Closed ts t lo hi)
    (hduty : ∀ u, dutyAt ts' u = if self = u then o else dutyAt ts u)
    (ho : ∀ t', o ≠ some (.serves t'))
    (hl : t = self → ∀ label paths, o ≠ some (.cycle label (.loaded paths))) :
    Closed ts' t lo hi where
  served w hw := by
    rw [hduty] at hw
    split at hw
    · exact absurd hw (ho t)
    · exact h.served w hw
  unloaded label paths := by
    rw [hduty]
    split
    · exact hl ‹self = t›.symm label paths
    · exact h.unloaded label paths

lemma told (h : Closed c.tasks t lo hi) (hc : Told c c') : Closed c'.tasks t lo hi := by
  cases hc with
  | same hsame =>
    exact ⟨fun w hw => h.served w (hsame w ▸ hw), fun l ps => hsame t ▸ h.unloaded l ps⟩
  | @told t₀ w₀ r a hv hduty =>
    refine ⟨fun w hw => ?_, fun l ps hl => ?_⟩
    · rw [hduty] at hw
      split at hw
      · cases hw
      · split at hw
        · obtain ⟨d, hd, heq⟩ := Option.map_eq_some_iff.1 hw
          cases d <;> cases heq
          exact h.served w hd
        · exact h.served w hw
    · rw [hduty] at hl
      split at hl
      · cases hl
      · split at hl
        · obtain ⟨d, hd, heq⟩ := Option.map_eq_some_iff.1 hl
          rcases d with ⟨l', k⟩ | t'
          · cases k <;> cases heq
            exact h.unloaded _ _ hd
          · cases heq
        · exact h.unloaded l ps hl

lemma proceeds (h : Closed ts t lo hi) (hs : taskAt ts self = some task)
    (hp : task.Proceeds k k' task') (hl : t = self → ∀ paths, k' ≠ .loaded paths) :
    Closed (mapAt ts self fun _ => task') t lo hi := by
  obtain ⟨label, -, hd⟩ := duty?_proceeds hp
  refine h.put (fun u => dutyAt_put hs) (fun t' heq => ?_) fun ht label' paths heq => ?_
  · rw [hd] at heq
    cases heq
  · rw [hd] at heq
    cases heq
    exact hl ht paths rfl

lemma returns (h : Closed ts t lo hi) (hs : taskAt ts self = some task)
    {result : Option CycleReport} {os : List (String × Outcome)}
    (hr : task.Returns ts self k result ts' os) : Closed ts' t lo hi := by
  cases hr with
  | tick label => exact h.put (fun u => dutyAt_set_none) (by simp) (by simp)
  | loop due due' =>
    exact h.put (fun u => dutyAt_put hs) (by simp [Task.duty?]) (by simp [Task.duty?])

lemma triggered (h : Closed ts t lo hi) (hlt : t < ts.length) (hne : t ≠ self)
    (es : List (String × Variables)) : Closed (ts ++ triggeredSlots self es) t lo hi where
  served w hw := by
    rw [dutyAt_triggered] at hw
    split at hw
    · cases hw
      exact absurd rfl hne
    · exact h.served w hw
  unloaded label paths := by
    rw [dutyAt_triggered, if_neg fun h => Nat.not_lt.2 h.1 hlt]
    exact h.unloaded label paths

lemma acts (h : Closed c.tasks t lo hi) (hs : taskAt c.tasks self = some task)
    (hlt : t < c.tasks.length) (hc : CycleActs cfg self task c c') {ds : List Deed}
    (hH : c'.history = c.history ++ ds) (hds : ∀ ps, .drained t ps ∉ ds) :
    Closed c'.tasks t lo hi := by
  cases hc with
  | rests => exact h
  | locks hp | enters ha hp | finishes ha hw hp => exact h.proceeds hs hp fun _ _ => by simp
  | drains hp =>
    obtain rfl := List.append_cancel_left hH
    refine h.proceeds hs hp fun ht => ?_
    subst ht
    simp at hds
  | triggers hes hp =>
    by_cases hne : t = self
    · subst hne
      obtain ⟨label, hd, -⟩ := duty?_proceeds hp
      exact absurd ((dutyAt_of_taskAt hs).trans hd) (h.unloaded _ _)
    · exact (h.triggered hlt hne _).proceeds (taskAt_append hs) hp fun _ _ => by simp
  | refused hr | releases hr => exact h.returns hs hr

/-- Until it takes paths again, no other runs come to serve the task. -/
lemma undisturbed {s s' : State} (h : Closed s.tasks t lo hi) (hs : Calm cfg s)
    (hlt : t < s.tasks.length) (hsteps : ReflTransGen (Undisturbed cfg) s s') {ds : List Deed}
    (hH : s'.history = s.history ++ ds) (hds : ∀ ps, .drained t ps ∉ ds) :
    Closed s'.tasks t lo hi := by
  induction hsteps generalizing ds with
  | refl => exact h
  | @tail s₁ s₂ hsteps hstep ih =>
    obtain ⟨ds₁, h₁⟩ := grows_of_steps (steps_of_undisturbed hsteps)
    obtain ⟨ds₂, h₂⟩ := grows_of_steps (steps_of_undisturbed (.single hstep))
    have hsplit : ds = ds₁ ++ ds₂ := by
      rw [← h₂, ← h₁, List.append_assoc] at hH
      exact (List.append_cancel_left hH).symm
    have hno (ps : List String) : .drained t ps ∉ ds₁ ∧ .drained t ps ∉ ds₂ := by
      simpa [hsplit] using hds ps
    have hclosed := ih h₁.symm fun ps => (hno ps).1
    have hlt₁ : t < s₁.tasks.length :=
      Nat.lt_of_lt_of_le hlt (keeps_of_steps (steps_of_undisturbed hsteps)).length_le
    cases (hs.trans hsteps).passes hstep with
    | aside ha => exact hclosed.told ha.told
    | acts hslot _ hc =>
      exact hclosed.acts (taskAt_of_slotAt hslot) hlt₁ hc h₂.symm fun ps => (hno ps).2
    | begins task ht heq =>
      obtain ⟨label, hd⟩ := Task.exists_duty ht
      have hduty (u : TaskId) : dutyAt s₂.tasks u =
          if s₁.tasks.length = u then some (.cycle label .idle) else dutyAt s₁.tasks u := by
        rw [heq, dutyAt, taskAt_concat]
        simp only [eq_comm]
        split
        · exact hd
        · rfl
      exact hclosed.put hduty (by simp) (by simp)

end Closed

/-- The runs that a cycle has just opened are those that serve it. -/
lemma Dispatching.closes (h : Dispatching cfg c) (hs : taskAt c.tasks self = some task)
    (hc : CycleActs cfg self task c c') (hk : task.cycle? = some (.loaded paths)) :
    Closed c'.tasks self c.tasks.length
      (c.tasks.length + (Watch.planDispatch paths cfg.rules).entries.length) := by
  obtain ⟨label, hd⟩ := Task.exists_duty hk
  have hself := (dutyAt_of_taskAt hs).trans hd
  cases hc with
  | rests h =>
    rcases h with ⟨k', hk', d, rfl, -⟩ | ⟨due, rfl⟩
    · rw [hk] at hk'
      cases hk'
    · cases hk
  | @triggers paths' es task' hes hp =>
    obtain rfl : paths' = paths := by simpa [hp.cycle?.1] using hk
    obtain ⟨label', -, hd'⟩ := duty?_proceeds hp
    refine ⟨fun w hw => ?_, fun l ps => ?_⟩
    · rw [dutyAt_put (taskAt_append hs), dutyAt_triggered] at hw
      split at hw
      · rw [hd'] at hw
        cases hw
      · split at hw
        · rwa [← hes]
        · exact absurd (((h.tracks hself).waiting w).1 hw) List.not_mem_nil
    · rw [dutyAt_put (taskAt_append hs), if_pos rfl, hd']
      simp
  | locks hp | drains hp | enters ha hp | finishes ha hw hp =>
    rw [hp.cycle?.1] at hk
    cases hk
  | refused hr | releases hr =>
    rw [hr.cycle?] at hk
    cases hk

end

/-! ### From the queue to the commands -/

/-- **Every changed file reaches its commands once.** A cycle that has the lock takes the whole
queue. Then it opens one run for each chain with a rule that matches a path which it has taken, and
no more runs come to serve it until it takes paths again. Each run has the values that its matching
rules bring, and brings the files that they match to every script that mentions the file, in one
instance for each choice of the other values; no instance has another file. If the processes of the
run end and every task gets its turn, it comes to its end with all the chains below it. -/
theorem files_delivered {cfg : Setting} (hcfg : cfg.Sound) {observe : Watch.Observe}
    {active : Variables} {root : String}
    (hrules : Watch.Rule.ofObserve observe active root = .ok cfg.rules) {s s' : State}
    (hs : Calm cfg s) {t : TaskId} {task : Task} (hslot : s.slot? t = some ⟨task, false⟩)
    (hs' : s' = s.advance cfg t task) :
    (task.cycle? = some .locked →
      s'.history = s.history ++ [.drained t s.pending.toList] ∧ s'.pending.toList = [] ∧
        (s.pending.toList ≠ [] → ∃ task', s'.slot? t = some ⟨task', false⟩ ∧
          task'.cycle? = some (.loaded s.pending.toList))) ∧
    ∀ paths plan, task.cycle? = some (.loaded paths) → plan = Watch.planDispatch paths cfg.rules →
      .drained t paths ∈ s.history ∧
        s'.history = s.history ++ openings s.tasks.length plan.entries ∧ plan.keys.Nodup ∧
        (∀ chain, chain ∈ plan.keys ↔ ∃ p, cfg.Feeds paths chain p) ∧
        (∀ s'' ds, ReflTransGen (Undisturbed cfg) s' s'' → s''.history = s'.history ++ ds →
          (∀ ps, .drained t ps ∉ ds) → ∀ w, s''.toCore.Serves t w →
            s.tasks.length ≤ w ∧ w < s.tasks.length + plan.entries.length) ∧
        ∀ i chain vars, plan.entries[i]? = some (chain, vars) →
          (∀ a v, v ∈ vars.values a ↔ ∃ r ∈ cfg.rules, r.chain = chain ∧ r.Brings paths a v) ∧
          (∀ s'', ReflTransGen (Undisturbed cfg) s' s'' →
            .opened (s.tasks.length + i) chain vars false ∈ s''.history ∧
              Delivered cfg s''.history paths chain vars (s.tasks.length + i)) ∧
          ∀ σ n, Fair cfg σ → σ n = s' →
            (∀ k p, OnBehalf (σ k).history (s.tasks.length + i) p →
              ∃ k', .ended p ∈ (σ k').history) →
            ∃ k, n ≤ k ∧ ∀ u, Family (σ k).history (s.tasks.length + i) u →
              ∃ report, .completed u report ∈ (σ k).history := by
  subst hs'
  have hself : slotAt s.tasks t = some ⟨task, false⟩ := hslot
  have hstep : Undisturbed cfg s (s.advance cfg t task) := .inl (.acts hself)
  have hcalm : Calm cfg (s.advance cfg t task) := hs.tail hstep
  refine ⟨fun hk => (acts_of_cycle cfg s t hk).takes hself hk, ?_⟩
  rintro paths plan hk rfl
  have hc := acts_of_cycle cfg s t hk
  have hdispatching := hs.dispatching hcfg
  obtain ⟨label, hd⟩ := Task.exists_duty hk
  have htracks := hdispatching.tracks ((dutyAt_of_taskAt (taskAt_of_slotAt hself)).trans hd)
  refine ⟨htracks.taken rfl, hc.opens hk, NameMap.nodup_keys _, fun chain => ?_,
    fun s'' ds hlater hH hds w hw => ?_,
    fun i chain vars hi => ?_⟩
  · -- the chains of the plan are those with a rule that matches
    refine Watch.mem_keys_planDispatch.trans ⟨?_, ?_⟩
    · rintro ⟨r, hr, rfl, p, hp, hm⟩
      exact ⟨p, hp, r, hr, rfl, hm⟩
    · rintro ⟨p, hp, r, hr, rfl, hm⟩
      exact ⟨r, hr, rfl, p, hp, hm⟩
  · -- nobody else comes to serve the cycle until it takes paths again
    have hclosed := hdispatching.closes (taskAt_of_slotAt hself) hc hk
    have hlt := Nat.lt_of_lt_of_le (lt_of_slotAt hself)
      (keeps_of_steps (steps_of_undisturbed (.single hstep))).length_le
    exact (hclosed.undisturbed hcalm hlt hlater hH hds).served w hw
  · -- each entry of the plan is opened as a run, with the values of its chain
    obtain rfl := Watch.planned_of_mem (List.mem_of_getElem? hi)
    have hopen : .opened (s.tasks.length + i) chain (Watch.planned paths cfg.rules chain) false ∈
        (s.advance cfg t task).history := by
      rw [hc.opens hk]
      exact List.mem_append_right _ (mem_openings hi)
    refine ⟨fun a v => Watch.mem_values_planned, fun s'' hlater => ?_, fun σ n hσ hn hend => ?_⟩
    · have hopen' := (grows_of_steps (steps_of_undisturbed hlater)).subset hopen
      exact ⟨hopen', (hcalm.trans hlater).delivered hrules hopen'⟩
    · have hopen' : .opened (s.tasks.length + i) chain (Watch.planned paths cfg.rules chain) false ∈
          (σ n).history := hn ▸ hopen
      obtain ⟨k, hk, hspent⟩ := hσ.exists_spent hopen' hend
      refine ⟨k, hk, fun u hu => ?_⟩
      obtain ⟨report, -, -, hx, -⟩ := ((hσ.calm_at k).persists hcfg
        ((hσ.grows hk).subset hopen') hu).fulfilled (hspent.2 u hu)
      exact ⟨report, hx⟩

/-- Whatever is changed at `/w/*.c` is listed by the script `cat`. -/
def Setting.listing : Setting where
  manifest := { toDraft := { scripts := NameMap.ofList [("cat", "cat $FILE")] }, checked := rfl }
  rules := [⟨"cat", "/w/*.c", .empty, { tokens := [.literal '/', .literal 'w', .literal '/', .star,
    .literal '.', .literal 'c'] }⟩]

lemma ofObserve_listing :
    Watch.Rule.ofObserve (NameMap.ofList [("cat", ["*.c"])]) .empty "/w" =
      .ok Setting.listing.rules := by
  have hcomputed : (Watch.Rule.ofObserve (NameMap.ofList [("cat", ["*.c"])]) .empty "/w").toOption =
      some Setting.listing.rules := by decide +kernel
  cases h : Watch.Rule.ofObserve (NameMap.ofList [("cat", ["*.c"])]) .empty "/w" with
  | error e =>
    rw [h] at hcomputed
    cases hcomputed
  | ok rules =>
    rw [h] at hcomputed
    rw [Option.some.inj hcomputed]

/-- A cycle that has taken two files, and a third path. -/
def State.listing : State :=
  let s := ((({} : State).push "/w/b.c").push "/w/a.c").push "/w/c.h"
  (s.spawn (.tick "t" .idle)).1.actAll .listing [0, 0]

lemma calm_listing : Calm .listing .listing := by
  have h : Calm .listing (({} : State).push "/w/b.c") :=
    .single (.inr ⟨.push "/w/b.c", List.nil_prefix⟩)
  have h := h.tail (.inr ⟨.push "/w/a.c", List.nil_prefix⟩)
  have h := h.tail (.inr ⟨.push "/w/c.h", List.nil_prefix⟩)
  exact Calm.evolves (h.tail (.inr ⟨.tick "t", List.nil_prefix⟩)) (evolves_actAll [0, 0])

theorem files_delivered_listing :
    let paths := ["/w/a.c", "/w/b.c", "/w/c.h"]
    let vars := { Variables.empty with file := ["/w/a.c", "/w/b.c"] }
    let s := State.listing.actAll .listing [0, 1, 1, 1, 1]
    Delivered .listing s.history paths "cat" vars 1 ∧
      (startsOf s.history 1).map Prod.snd =
        [.process 0 ⟨"cat", "cat::a.c", "cat /w/a.c", .sequential⟩ "cat::a.c",
          .process 1 ⟨"cat", "cat::b.c", "cat /w/b.c", .sequential⟩ "cat::b.c"] := by
  intro paths vars s
  have hslot : State.listing.slot? 0 = some ⟨.tick "t" (.loaded paths), false⟩ := rfl
  have hact : State.listing.actAt .listing 0 =
      State.listing.advance .listing 0 (.tick "t" (.loaded paths)) := by
    rw [State.actAt, hslot]
  obtain ⟨-, hloaded⟩ := files_delivered (fun _ _ => rfl) ofObserve_listing calm_listing hslot rfl
  obtain ⟨-, -, -, -, -, hruns⟩ := hloaded paths _ rfl rfl
  obtain ⟨-, hdelivered, -⟩ := hruns 0 "cat" vars (by decide +kernel)
  refine ⟨(hdelivered s ?_).2, by decide +kernel⟩
  rw [← hact]
  exact ReflTransGen.mono (fun _ _ => Or.inl) _ _ (evolves_actAll [1, 1, 1, 1])

end ChainRunner.Run
