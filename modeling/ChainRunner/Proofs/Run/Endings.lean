import ChainRunner.Proofs.Run.Family
import ChainRunner.Proofs.Run.Members
import ChainRunner.Proofs.Run.Rest

/-!
How runs end as long as nobody drops a task from outside.

A run that is gone has completed, or it was torn down: it broke off, or it was dropped with a run
that waited for it. A run that does not exit on errors is torn down only if the launcher breaks
down.
-/

namespace ChainRunner.Run

/-! ### What the history says of the tasks -/

/-- Whoever has a run to tell of its end was started by it. -/
structure Attributed (c : Core) : Prop where
  waiter : ∀ {w t : TaskId} {p : ProcessId} {name : String},
    taskAt c.tasks w = some (.waiter p name t) →
      ∃ k i, .started t k (.process p i name) ∈ c.history ∧ i.isBackground = false
  nested : ∀ {w t : TaskId} {r : Course} {name : String},
    taskAt c.tasks w = some (.run r (.barrier t name)) →
      ∃ k target mode, .started t k (.chain w target mode name) ∈ c.history ∧ mode ≠ .background
  triggered : ∀ {w t : TaskId} {r : Course},
    taskAt c.tasks w = some (.run r (.cycle t)) → r.exitOnError = false

section

variable {cfg : Setting} {m : Manifest} {c c' : Core} {t w : TaskId} {p : ProcessId} {name : String}
  {r : Course} {audience : Audience}

lemma Task.Kin.to_waiter {task : Task} (h : task.Kin (.waiter p name t)) :
    task = .waiter p name t := by
  cases h with
  | refl => rfl
  | cycles _ h => cases h

lemma Arises.of_waiter (h : Arises m c c' w (.waiter p name t)) :
    ∃ k i, .started t k (.process p i name) ∈ c'.history ∧ i.isBackground = false := by
  cases h with
  | waiter hlt hx hb => exact ⟨_, _, hx, hb⟩
  | cycles ht => cases ht

lemma Arises.of_nested (h : Arises m c c' w (.run r (.barrier t name))) :
    ∃ k target mode, .started t k (.chain w target mode name) ∈ c'.history ∧
      mode ≠ .background := by
  generalize haudience : Audience.barrier t name = audience at h
  cases h with
  | nested hs hm hx =>
    unfold audienceOf at haudience
    split at haudience
    · cases haudience
    · cases haudience
      exact ⟨_, _, _, hx, ‹_›⟩
  | triggered | asked => cases haudience
  | cycles ht => cases ht

lemma Arises.of_triggered (h : Arises m c c' w (.run r (.cycle t))) : r.exitOnError = false := by
  generalize haudience : Audience.cycle t = audience at h
  cases h with
  | nested =>
    unfold audienceOf at haudience
    split at haudience <;> cases haudience
  | triggered => rfl
  | asked => cases haudience
  | cycles ht => cases ht

lemma Steps.arises_task (hc : Steps cfg c c') {task : Task} (hw : c.tasks.length ≤ w)
    (ht : taskAt c'.tasks w = some task) : Arises cfg.manifest c c' w task := by
  obtain ⟨slot, hs, rfl⟩ := Option.map_eq_some_iff.1 ht
  exact (hc.arises hw hs).2

lemma Attributed.step (h : Attributed c) (hc : Steps cfg c c') : Attributed c' where
  waiter {w t p name} ht := by
    rcases Nat.lt_or_ge w c.tasks.length with hw | hw
    · obtain ⟨task, hold, hkin⟩ := hc.keeps.kin hw ht
      obtain rfl := hkin.to_waiter
      obtain ⟨k, i, hx, hb⟩ := h.waiter hold
      exact ⟨k, i, hc.grows.subset hx, hb⟩
    · exact (hc.arises_task hw ht).of_waiter
  nested {w t r name} ht := by
    rcases Nat.lt_or_ge w c.tasks.length with hw | hw
    · obtain ⟨task, hold, hkin⟩ := hc.keeps.kin hw ht
      obtain ⟨r', rfl, -⟩ := hkin.to_run
      obtain ⟨k, target, mode, hx, hb⟩ := h.nested hold
      exact ⟨k, target, mode, hc.grows.subset hx, hb⟩
    · exact (hc.arises_task hw ht).of_nested
  triggered {w t r} ht := by
    rcases Nat.lt_or_ge w c.tasks.length with hw | hw
    · obtain ⟨task, hold, hkin⟩ := hc.keeps.kin hw ht
      obtain ⟨r', rfl, -, -, he⟩ := hkin.to_run
      exact he.symm.trans (h.triggered hold)
    · exact (hc.arises_task hw ht).of_triggered

end

/-! ### Runs that are gone -/

/-- The run broke off, or the run that waited for it was torn down. -/
inductive TornDown (H : List Deed) : TaskId → Prop
  | brokeOff {t : TaskId} {b : Break} (h : .brokeOff t b ∈ H) : TornDown H t
  | dropped {r t : TaskId} {k : Nat} {target name : String} {mode : Mode} (h : TornDown H r)
    (hx : .started r k (.chain t target mode name) ∈ H) (hb : mode ≠ .background) : TornDown H t

/-- The run has completed, or it was torn down. -/
def Over (H : List Deed) (t : TaskId) : Prop :=
  (∃ report, Deed.completed t report ∈ H) ∨ TornDown H t

lemma TornDown.mono {H H' : List Deed} (hH : H <+: H') {t : TaskId} (h : TornDown H t) :
    TornDown H' t := by
  induction h with
  | brokeOff h => exact .brokeOff (hH.subset h)
  | dropped _ hx hb ih => exact .dropped ih (hH.subset hx) hb

lemma Over.mono {H H' : List Deed} (hH : H <+: H') {t : TaskId} (h : Over H t) : Over H' t :=
  h.imp (fun ⟨report, hx⟩ => ⟨report, hH.subset hx⟩) (TornDown.mono hH)

/-- Runs and the tasks they wait for know of each other, and so does the history. -/
structure Kept (m : Manifest) (c : Core) : Prop where
  orderly : Orderly m c
  accounted : Accounted c
  concluded : Concluded m c
  numbered : Numbered c.history
  tended : Tended c
  attributed : Attributed c

theorem kept_steady (cfg : Setting) : Steady cfg (Kept cfg.manifest) where
  change h hc :=
    { orderly := h.orderly.change h.accounted hc
      accounted := h.accounted.change hc
      concluded := h.concluded.move h.orderly hc.moves
      numbered := h.numbered.move h.orderly h.accounted hc.moves
      tended := h.tended.step hc.steps
      attributed := h.attributed.step hc.steps }
  request {c c'} h hc hpre :=
    have hsteps : Steps cfg c c' := hc.steps hpre
    { orderly := h.orderly.request hc
      accounted := h.accounted.request hc
      concluded := h.concluded.move h.orderly hc.moves
      numbered := h.numbered.move h.orderly h.accounted hsteps.toMoves
      tended := h.tended.step hsteps
      attributed := h.attributed.step hsteps }

lemma kept_nil (m : Manifest) : Kept m {} where
  orderly := orderly_nil m
  accounted := accounted_nil
  concluded _ _ h := absurd h List.not_mem_nil
  numbered := ⟨.nil, by simp⟩
  tended := tended_nil
  attributed := by refine ⟨?_, ?_, ?_⟩ <;> simp [taskAt, slotAt]

theorem Calm.kept {cfg : Setting} {s : State} (h : Calm cfg s) : Kept cfg.manifest s.toCore :=
  (kept_steady cfg).calm (kept_nil _) h

section

variable {cfg : Setting} {m : Manifest} {c c' : Core} {t w : TaskId} {r : Course}
  {audience : Audience} {chain : String} {vars : Variables} {e : Bool}

/-- The run `t` waits for the task `w`, which stands for a process or is a run, and has started
either. -/
inductive Tends (c : Core) (t w : TaskId) : Prop
  | process {k : Nat} {p : ProcessId} {i : Instance} {name : String}
    (hs : slotAt c.tasks w = some ⟨.waiter p name t, false⟩)
    (hx : .started t k (.process p i name) ∈ c.history) : Tends c t w
  | chain {k : Nat} {r : Course} {target name : String} {mode : Mode}
    (hs : slotAt c.tasks w = some ⟨.run r (.barrier t name), false⟩)
    (hx : .started t k (.chain w target mode name) ∈ c.history) : Tends c t w

lemma Kept.tends (h : Kept m c) (ht : taskAt c.tasks t = some (.run r audience))
    (hw : w ∈ r.waiting) : Tends c t w := by
  obtain ⟨task, hs, howner, -⟩ := h.tended.member ht hw
  cases task with
  | waiter p name owner =>
    cases howner
    obtain ⟨k, i, hx, -⟩ := h.attributed.waiter (taskAt_of_slotAt hs)
    exact .process hs hx
  | run r' audience' =>
    cases audience' <;> cases howner
    obtain ⟨k, target, mode, hx, -⟩ := h.attributed.nested (taskAt_of_slotAt hs)
    exact .chain hs hx
  | _ => cases howner

/-- A task of a run that was opened is that run. -/
lemma Orderly.course (h : Orderly m c) (ho : .opened t chain vars e ∈ c.history) {task : Task}
    (ht : taskAt c.tasks t = some task) :
    ∃ r audience, task = .run r audience ∧ r.chain = chain ∧ r.vars = vars ∧ r.exitOnError = e := by
  obtain ⟨r, audience, rfl⟩ := h.opened_run ho ht
  exact ⟨r, audience, rfl, h.opened_unique (h.runs ht).opened ho⟩

/-- A run that was cancelled is a member of another one, which is gone. -/
lemma Tended.cancelled_run (h : Tended c)
    (hs : slotAt c.tasks t = some ⟨.run r audience, true⟩) :
    ∃ o name, audience = .barrier o name ∧ taskAt c.tasks o = none := by
  have hsome := h.cancelled hs rfl
  cases audience with
  | barrier o name => exact ⟨o, name, rfl, (h.owned hs rfl).2.2 rfl⟩
  | _ => cases hsome

/-- Every run that is gone is over. -/
def Ended (c : Core) : Prop :=
  ∀ t chain vars e, .opened t chain vars e ∈ c.history → taskAt c.tasks t = none →
    Over c.history t

lemma Ended.step (h : Ended c) (hk : Kept m c) (hc : Steps cfg c c') : Ended c' := by
  intro t chain vars e ho hn
  have hold := (hc.opens ho).resolve_right (by simp [hn])
  rcases ht : taskAt c.tasks t with _ | task
  · exact (h t chain vars e hold ht).mono hc.grows
  · obtain ⟨r, audience, rfl, -⟩ := hk.orderly.course hold ht
    obtain ⟨⟨_, b⟩, hs, rfl⟩ := Option.map_eq_some_iff.1 ht
    cases b with
    | false =>
      cases hc.ends hs (taskAt_eq_none_iff.1 hn) with
      | completes hd hx => exact .inl ⟨_, hx⟩
      | breaks hb hx => exact .inr (.brokeOff hx)
      | fails he hf hx => exact .inr (.brokeOff hx)
    | true =>
      -- the run that waited for it is gone, and has not completed while a member was left
      obtain ⟨o, name, rfl, hnone⟩ := hk.tended.cancelled_run hs
      obtain ⟨k, target, mode, hx, hb⟩ := hk.attributed.nested ht
      obtain ⟨chain', vars', e', ho'⟩ := hk.orderly.ordered.opened hx
      rcases h o chain' vars' e' ho' hnone with ⟨report, hcompleted⟩ | htorn
      · obtain ⟨chain'', vars'', hfulfilled⟩ := hk.concluded o report hcompleted
        cases hfulfilled.settled hx with
        | background => exact absurd rfl hb
        | chain names finished members =>
          obtain ⟨report', hin⟩ := finished.completed
          rw [(hk.orderly.completed hin).2] at ht
          cases ht
      · exact .inr (.dropped (htorn.mono hc.grows) (hc.grows.subset hx) hb)

theorem Calm.ended {s : State} (h : Calm cfg s) : Ended s.toCore := by
  have hsteady : Steady cfg fun c => Kept cfg.manifest c ∧ Ended c :=
    (kept_steady cfg).and_steps fun hk h hc => h.step hk hc
  exact (hsteady.calm ⟨kept_nil _, fun _ _ _ _ h => absurd h List.not_mem_nil⟩ h).2

end

/-! ### Runs that do not exit on errors -/

/-- The launcher never breaks down. -/
def Setting.Sound (cfg : Setting) : Prop := ∀ script n, cfg.breaksDown script n = false

/-- Nothing breaks a run off that does not exit on errors. -/
structure Lenient (c : Core) : Prop where
  spared : ∀ {t : TaskId} {r : Course} {audience : Audience} {b : Bool},
    slotAt c.tasks t = some ⟨.run r audience, b⟩ → r.exitOnError = false → b = false
  unbroken : ∀ {t : TaskId} {r : Course} {audience : Audience},
    taskAt c.tasks t = some (.run r audience) → r.exitOnError = false →
      ∀ why, .broken why ∉ r.arrived
  completed : ∀ {t : TaskId} {chain : String} {vars : Variables},
    .opened t chain vars false ∈ c.history → taskAt c.tasks t = none →
      ∃ report, .completed t report ∈ c.history

section

variable {cfg : Setting} {m : Manifest} {c c' : Core} {t w : TaskId} {r : Course}
  {audience : Audience} {chain : String} {vars : Variables} {e : Bool}

/-- A run that does not exit on errors comes to its end. -/
lemma Lenient.ends (h : Lenient c) (hcfg : cfg.Sound) (hc : Steps cfg c c')
    (ht : taskAt c.tasks t = some (.run r audience)) (he : r.exitOnError = false)
    (hn : taskAt c'.tasks t = none) :
    r.IsDone ∧ ∃ report, .completed t report ∈ c'.history := by
  obtain ⟨⟨_, b⟩, hs, rfl⟩ := Option.map_eq_some_iff.1 ht
  obtain rfl := h.spared hs he
  cases hc.ends hs (taskAt_eq_none_iff.1 hn) with
  | completes hd hx => exact ⟨hd, _, hx⟩
  | breaks hb =>
    cases hb with
    | member ha hr => exact absurd (hr ▸ List.mem_cons_self) (h.unbroken ht he _)
    | crash ha hb => simp [hcfg _ _] at hb
  | fails he' =>
    rw [he] at he'
    cases he'

lemma Lenient.step (h : Lenient c) (hcfg : cfg.Sound) (hk : Kept m c) (hc : Steps cfg c c') :
    Lenient c' where
  spared {t r' audience b} hs' he := by
    by_contra hb
    obtain rfl : b = true := by simpa using hb
    rcases Nat.lt_or_ge t c.tasks.length with hlt | hge
    · obtain ⟨⟨task, b⟩, hs, hkin, -⟩ := hc.keeps.slot hlt hs'
      obtain ⟨r, rfl, -, -, he'⟩ := hkin.to_run
      have he : r.exitOnError = false := he'.trans he
      obtain rfl := h.spared hs he
      -- the run that has lost interest in it does not exit on errors either
      cases hc.cancels hs rfl hs' rfl with
      | @run v r₁ audience₁ hv hw gone =>
        obtain ⟨task, hs₁, -, hsuits⟩ := hk.tended.member hv hw
        rw [hs] at hs₁
        cases hs₁
        have hdone := (h.ends hcfg hc hv (hsuits.symm.trans he) gone).1
        simp [hdone.2.2.1] at hw
      | cycle hv ht =>
        have hsome := hk.tended.cancelled hv rfl
        rw [Task.owner?_of_cycle ht] at hsome
        cases hsome
    · cases (hc.arises hge hs').1
  unbroken {t r' audience} ht he why hin := by
    obtain ⟨r, hr, hexits, hold | ⟨v, hv, gone⟩⟩ := (hc.origin ht).arrived hin
    · exact h.unbroken hr (hexits.symm.trans he) why hold
    · obtain ⟨r₁, audience₁, hr₁, hw⟩ := hk.tended.expects hv
      cases hr.symm.trans hr₁
      cases hv with
      | broken hs hu =>
        obtain ⟨task, hs₁, -, hsuits⟩ := hk.tended.member hr hw
        cases hs.symm.trans hs₁
        exact hu (h.ends hcfg hc (taskAt_of_slotAt hs)
          (hsuits.trans (hexits.symm.trans he)) gone).1
  completed {t chain vars} ho hn := by
    have hold := (hc.opens ho).resolve_right (by simp [hn])
    rcases ht : taskAt c.tasks t with _ | task
    · obtain ⟨report, hx⟩ := h.completed hold ht
      exact ⟨report, hc.grows.subset hx⟩
    · obtain ⟨r, audience, rfl, -, -, he⟩ := hk.orderly.course hold ht
      exact (h.ends hcfg hc ht he hn).2

lemma lenient_steady (hcfg : cfg.Sound) :
    Steady cfg fun c => Kept cfg.manifest c ∧ Lenient c :=
  (kept_steady cfg).and_steps fun hk h hc => h.step hcfg hk hc

lemma lenient_nil : Lenient {} := by refine ⟨?_, ?_, ?_⟩ <;> simp [taskAt, slotAt]

theorem Calm.lenient {s : State} (hcfg : cfg.Sound) (h : Calm cfg s) : Lenient s.toCore :=
  ((lenient_steady hcfg).calm ⟨kept_nil _, lenient_nil⟩ h).2

end

end ChainRunner.Run
