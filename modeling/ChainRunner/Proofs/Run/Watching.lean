import ChainRunner.Proofs.Run.DryRun
import ChainRunner.Proofs.Run.Triggered

/-!
Watching goes on whatever fails.

A run that does not exit on errors returns a report, and neither it nor a chain below it has
anything stopped. So a dispatch cycle gets the reports of all the runs that it has opened.
-/

namespace ChainRunner.Run

open Relation

/-! ### What a caller gets -/

section

variable {cfg : Setting} {c c' : Core} {t : TaskId} {report : Report} {label : String}
  {o : String × Outcome}

lemma Change.outcomes (hc : Change cfg c c') : c.outcomes ⊆ c'.outcomes := by
  cases hc <;> first | exact List.Subset.refl _ | exact List.subset_append_left ..

lemma Request.outcomes (hc : Request c c') : c.outcomes ⊆ c'.outcomes := by
  cases hc <;> exact List.Subset.refl _

lemma outcomes_of_undisturbed {s s' : State} (h : ReflTransGen (Undisturbed cfg) s s')
    (ho : o ∈ s.outcomes) : o ∈ s'.outcomes := by
  have hstable : Stable cfg fun c => o ∈ c.outcomes :=
    ⟨fun ho hc => hc.outcomes ho, fun ho hc => hc.outcomes ho⟩
  exact hstable.happens ho (happens_of_undisturbed h)

/-- A run that comes to its end answers its audience. -/
lemma Change.answers (hc : Change cfg c c') (h : .completed t report ∈ c'.history) :
    .completed t report ∈ c.history ∨ ∃ r audience, taskAt c.tasks t = some (.run r audience) ∧
      c'.outcomes = c.outcomes ++ State.answerReport report audience := by
  cases hc with
  | @completes self r audience hs =>
    refine (List.mem_append.1 h).imp_right fun hin => ?_
    cases List.mem_singleton.1 hin
    exact ⟨r, audience, taskAt_of_slotAt hs, rfl⟩
  | fails why now hs hf he =>
    refine .inl ((List.mem_append.1 h).resolve_right fun hin => ?_)
    simpa using hf.mem_deeds hin
  | news hp follows | droppedCycle hs ht =>
    exact .inl (mem_of_mem_ite_concat (by simp) h)
  | quiet | settles | leaves | cycles | droppedRun => exact .inl h
  | launches | awaits | nests | misses | breaks | locks | refused | drains | triggers
  | releases => exact .inl ((List.mem_append.1 h).resolve_right (by simp))

/-- The run `t` that was asked for under a label is there, or has returned a report. -/
def Core.Answers (c : Core) (t : TaskId) (label : String) : Prop :=
  (∃ r, taskAt c.tasks t = some (.run r (.caller label)) ∧ r.exitOnError = false) ∨
    taskAt c.tasks t = none ∧ t < c.tasks.length ∧
      ∃ report, .completed t report ∈ c.history ∧ (label, .run (.ok report)) ∈ c.outcomes

lemma Core.Answers.step (h : c.Answers t label) (hcfg : cfg.Sound) (hk : Kept cfg.manifest c)
    (hl : Lenient c) (hc : Steps cfg c c') (ho : c.outcomes ⊆ c'.outcomes)
    (hanswers : ∀ report, .completed t report ∈ c'.history → .completed t report ∈ c.history ∨
      ∃ r audience, taskAt c.tasks t = some (.run r audience) ∧
        c'.outcomes = c.outcomes ++ State.answerReport report audience) : c'.Answers t label := by
  rcases h with ⟨r, ht, he⟩ | ⟨hn, hlt, report, hx, hout⟩
  · rcases hc.keeps.run_after ht with hn | ⟨r', hr'⟩
    · obtain ⟨-, report, hx⟩ := hl.ends hcfg hc ht he hn
      refine .inr ⟨hn, Nat.lt_of_lt_of_le (lt_of_taskAt ht) hc.keeps.length_le, report, hx, ?_⟩
      rcases hanswers report hx with hold | ⟨r₁, audience, ht', hout⟩
      · cases ht.symm.trans (hk.orderly.completed hold).2
      · cases ht.symm.trans ht'
        simp [hout, State.answerReport]
    · obtain ⟨task, ht', hkin⟩ := hc.keeps.kin (lt_of_taskAt ht) hr'
      cases ht.symm.trans ht'
      obtain ⟨r₁, heq, -, -, he'⟩ := hkin.of_run
      cases heq
      exact .inl ⟨r', hr', he'.trans he⟩
  · exact .inr ⟨hc.keeps.gone hlt hn, Nat.lt_of_lt_of_le hlt hc.keeps.length_le, report,
      hc.grows.subset hx, ho hout⟩

lemma answers_steady (hcfg : cfg.Sound) (t : TaskId) (label : String) :
    Steady cfg fun c => (Kept cfg.manifest c ∧ Lenient c) ∧ c.Answers t label where
  change h hc :=
    ⟨(lenient_steady hcfg).change h.1 hc,
      h.2.step hcfg h.1.1 h.1.2 hc.steps hc.outcomes fun _ => hc.answers⟩
  request {c c'} h hc hpre := by
    refine ⟨(lenient_steady hcfg).request h.1 hc hpre,
      h.2.step hcfg h.1.1 h.1.2 (hc.steps hpre) hc.outcomes fun report hx => .inl ?_⟩
    cases hc with
    | run | push => exact (List.mem_append.1 hx).resolve_right (by simp)
    | cycles | stop | cancel => exact hx

/-- A run that was asked for and is not to exit on errors returns a report. -/
lemma Calm.answers {s₀ s : State} (hcfg : cfg.Sound) (hs₀ : Calm cfg s₀) {chain : String}
    {vars : Variables}
    (h : ReflTransGen (Undisturbed cfg)
      (s₀.spawn (.run (.start chain vars false) (.caller label))).1 s)
    (hn : taskAt s.tasks s₀.tasks.length = none) :
    ∃ report, (label, .run (.ok report)) ∈ s.outcomes ∧
      .completed s₀.tasks.length report ∈ s.history := by
  have hasked : Undisturbed cfg s₀ (s₀.spawn (.run (.start chain vars false) (.caller label))).1 :=
    .inr ⟨.run chain vars false label, List.prefix_append ..⟩
  have hs₁ := hs₀.tail hasked
  have hbegin : (s₀.spawn (.run (.start chain vars false) (.caller label))).1.toCore.Answers
      s₀.tasks.length label := by
    refine .inl ⟨.start chain vars false, ?_, rfl⟩
    rw [State.toCore_spawn, taskAt_concat, if_pos rfl]
  have hsteady := (answers_steady hcfg s₀.tasks.length label).undisturbed
    ⟨⟨Calm.kept hs₁, Calm.lenient hcfg hs₁⟩, hbegin⟩ h
  rcases hsteady.2 with ⟨r, ht, -⟩ | ⟨-, -, report, hx, hout⟩
  · rw [hn] at ht
    cases ht
  · exact ⟨report, hout, hx⟩

end

/-! ### Runs that do not exit on errors -/

/-- Nothing that fails keeps the run from its plan: it has nothing stopped and does not break off,
and once it is gone it has come to its end with every batch. -/
structure Persists (m : Manifest) (c : Core) (t : TaskId) : Prop where
  unstopped : .stopped t ∉ c.history
  unbroken : ∀ b, .brokeOff t b ∉ c.history
  fulfilled : taskAt c.tasks t = none → ∃ report chain vars,
    .completed t report ∈ c.history ∧ Fulfilled m c.history t chain vars

section

variable {cfg : Setting} {s : State} {t u : TaskId} {chain : String} {vars : Variables}

theorem Calm.persists (hcfg : cfg.Sound) (hs : Calm cfg s)
    (hopen : .opened t chain vars false ∈ s.history) (hu : Family s.history t u) :
    Persists cfg.manifest s.toCore u := by
  obtain ⟨e', hopen'⟩ := hu.lenient hs.kept.orderly hopen
  have hbreak (b : Break) : .brokeOff u b ∉ s.history := fun hb => by
    obtain ⟨-, -, chain', vars', hopen''⟩ := (hs.weighed hcfg).1.brokeOff hb
    obtain ⟨-, -, heq⟩ := hs.kept.orderly.opened_unique hopen' hopen''
    cases heq
  refine ⟨fun hx => ?_, hbreak, fun hn => ?_⟩
  · obtain ⟨b, hb⟩ := (stopped_stable cfg).reachable (by simp) hs.reachable u hx
    exact hbreak b hb
  · obtain ⟨report, hx⟩ := (hs.lenient hcfg).completed hopen' hn
    obtain ⟨chain', vars', hf⟩ := hs.kept.concluded u report hx
    exact ⟨report, chain', vars', hx, hf⟩

end

/-! ### A single cycle -/

/-- The cycle that was asked for under a label as the task `t` is there and has taken what the
history says, or it has returned what it made of that. -/
inductive Core.Makes (c : Core) (t : TaskId) (label : String) : Prop
  | going {k : Cycle} (ht : dutyAt c.tasks t = some (.cycle (some label) k))
    (taken : ∀ ps, .drained t ps ∈ c.history → k.paths? = some ps) : Makes c t label
  | returned {result : Option CycleReport} (ht : taskAt c.tasks t = none)
    (hlt : t < c.tasks.length) (hout : (label, .cycle result) ∈ c.outcomes)
    (taken : ∀ ps, .drained t ps ∈ c.history → (Cycle.finished result).paths? = some ps) :
    Makes c t label

section

variable {cfg : Setting} {c c' : Core} {self t : TaskId} {task task' : Task} {label : String}
  {k k' : Cycle}

lemma tick_of_duty (h : task.duty? = some (.cycle (some label) k)) : task = .tick label k := by
  unfold Task.duty? at h
  split at h <;> cases h
  rfl

/-- Nobody else empties the queue. -/
lemma CycleActs.drained (hc : CycleActs cfg self task c c') (hne : t ≠ self) {ps : List String}
    (h : .drained t ps ∈ c'.history) : .drained t ps ∈ c.history := by
  have hold {ds : List Deed} (hds : Deed.drained t ps ∉ ds)
      (hin : .drained t ps ∈ c.history ++ ds) : .drained t ps ∈ c.history :=
    (List.mem_append.1 hin).resolve_right hds
  cases hc with
  | rests | enters | finishes => exact h
  | locks | refused | releases => exact hold (by simp) h
  | drains => exact hold (by simp [hne]) h
  | triggers => exact hold (by simp [openings]) h

/-- The other tasks keep their duties. -/
lemma CycleActs.others (hc : CycleActs cfg self task c c') (hne : t ≠ self)
    (hlt : t < c.tasks.length) : dutyAt c'.tasks t = dutyAt c.tasks t := by
  have hput {ts : List (Option Slot)} {t' : Task} :
      dutyAt (mapAt ts self fun _ => t') t = dutyAt ts t := by
    rw [dutyAt, taskAt_mapAt, if_neg (Ne.symm hne)]
    rfl
  cases hc with
  | rests => rfl
  | locks | drains | enters | finishes => exact hput
  | triggers => rw [hput, dutyAt_triggered, if_neg fun h => Nat.not_lt.2 h.1 hlt]
  | refused hr | releases hr =>
    cases hr with
    | tick => rw [dutyAt_set_none, if_neg (Ne.symm hne)]
    | loop => exact hput

lemma Core.Makes.acts (h : c.Makes t label) (hs : taskAt c.tasks self = some task)
    (hc : CycleActs cfg self task c c') (hk : Keeps c.tasks c'.tasks)
    (hout : c.outcomes ⊆ c'.outcomes) : c'.Makes t label := by
  cases h with
  | returned ht hlt hreturned taken =>
    have hne : t ≠ self := by
      rintro rfl
      rw [ht] at hs
      cases hs
    exact .returned (hk.gone hlt ht) (Nat.lt_of_lt_of_le hlt hk.length_le) (hout hreturned)
      fun ps hps => taken ps (hc.drained hne hps)
  | @going k ht taken =>
    by_cases hne : t = self
    · subst t
      obtain rfl := tick_of_duty ((dutyAt_of_taskAt hs).symm.trans ht)
      have hlt := lt_of_taskAt hs
      have hput {ts : List (Option Slot)} {k' : Cycle}
          (hts : taskAt ts self = some (.tick label k)) :
          dutyAt (mapAt ts self fun _ => .tick label k') self = some (.cycle (some label) k') := by
        rw [dutyAt_put hts, if_pos rfl]
        rfl
      cases hc with
      | rests => exact .going ht taken
      | locks hp =>
        -- the cycle takes the lock before any paths: it has taken none so far
        cases hp
        refine .going (hput hs) fun ps hps => ?_
        cases taken ps (by simpa using hps)
      | drains hp hk' =>
        cases hp
        refine .going (hput hs) fun ps hps => ?_
        rcases List.mem_append.1 hps with hps | hps
        · cases taken ps hps
        · cases List.mem_singleton.1 hps
          rw [hk']
          split
          · rename_i hnil
            rw [hnil]
            rfl
          · rfl
      | triggers hes hp =>
        cases hp
        refine .going (hput (taskAt_append hs)) fun ps hps => ?_
        exact taken ps ((List.mem_append.1 hps).resolve_right (by simp [openings]))
      | enters ha hp =>
        cases hp
        exact .going (hput hs) taken
      | finishes ha hw hp =>
        cases hp
        exact .going (hput hs) taken
      | refused hr =>
        cases hr
        refine .returned (by simp) (by simpa using hlt)
          (List.mem_append_right _ (List.mem_singleton_self _)) fun ps hps => ?_
        cases taken ps (by simpa using hps)
      | releases hr =>
        cases hr
        refine .returned (by simp) (by simpa using hlt)
          (List.mem_append_right _ (List.mem_singleton_self _)) fun ps hps => ?_
        exact taken ps (by simpa using hps)
    · -- another task acts, and this one keeps what it has taken
      exact .going ((hc.others hne (lt_of_dutyAt ht)).trans ht)
        fun ps hps => taken ps (hc.drained hne hps)

/-- What the cycle is told leaves it what it has taken. -/
lemma Told.cycle (h : Told c c') {o : Option String} (ht : dutyAt c.tasks t = some (.cycle o k)) :
    ∃ k', dutyAt c'.tasks t = some (.cycle o k') ∧
      (k' = k ∨ ∃ w a, c.Serves t w ∧ k' = k.receive w a) := by
  cases h with
  | same hsame => exact ⟨k, (hsame t).trans ht, .inl rfl⟩
  | @told t₀ w r a hw hduty =>
    have hserves : dutyAt c.tasks w = some (.serves t₀) := dutyAt_serves.2 ⟨r, hw⟩
    have hne : t ≠ w := by
      rintro rfl
      cases ht.symm.trans hserves
    have hd := hduty t
    rw [if_neg hne] at hd
    split at hd
    · subst t
      rw [ht] at hd
      exact ⟨_, hd, .inr ⟨w, a, hserves, rfl⟩⟩
    · exact ⟨k, hd.trans ht, .inl rfl⟩

lemma Core.Makes.aside (h : c.Makes t label) (ha : Aside c c') (hk : Keeps c.tasks c'.tasks)
    (hout : c.outcomes ⊆ c'.outcomes) : c'.Makes t label := by
  cases h with
  | returned ht hlt hreturned taken =>
    exact .returned (hk.gone hlt ht) (Nat.lt_of_lt_of_le hlt hk.length_le) (hout hreturned)
      fun ps hps => taken ps (ha.drains hps)
  | going ht taken =>
    obtain ⟨k', ht', heq⟩ := ha.told.cycle ht
    refine .going ht' fun ps hps => ?_
    rcases heq with rfl | ⟨w, a, -, rfl⟩
    · exact taken ps (ha.drains hps)
    · rw [Cycle.paths?_receive]
      exact taken ps (ha.drains hps)

lemma Core.Makes.begins (h : c.Makes t label) (hk : Keeps c.tasks c'.tasks)
    (hH : c'.history = c.history) (hout : c.outcomes ⊆ c'.outcomes)
    (ht' : c.tasks <+: c'.tasks) : c'.Makes t label := by
  cases h with
  | returned ht hlt hreturned taken =>
    exact .returned (hk.gone hlt ht) (Nat.lt_of_lt_of_le hlt hk.length_le) (hout hreturned)
      fun ps hps => taken ps (hH ▸ hps)
  | going ht taken =>
    refine .going ?_ fun ps hps => taken ps (hH ▸ hps)
    obtain ⟨task, htask, hd⟩ := exists_taskAt_of_duty ht
    obtain ⟨more, hmore⟩ := ht'
    rw [← hmore, dutyAt_of_taskAt (taskAt_append htask), hd]

lemma Calm.makes_step {s s' : State} (hs : Calm cfg s) (h : s.toCore.Makes t label)
    (hstep : Undisturbed cfg s s') : s'.toCore.Makes t label := by
  have hk := keeps_of_steps (steps_of_undisturbed (.single hstep))
  have hout : s.outcomes ⊆ s'.outcomes := fun _ => outcomes_of_undisturbed (.single hstep)
  cases hs.passes hstep with
  | aside ha => exact h.aside ha hk hout
  | acts hslot _ hc => exact h.acts (taskAt_of_slotAt hslot) hc hk hout
  | begins task _ heq =>
    refine h.begins hk ?_ hout ?_ <;> rw [heq]
    exact List.prefix_append ..

/-- A queue is emptied by tasks that there are. -/
lemma drained_lt {s : State} (hs : Calm cfg s) {ps : List String}
    (h : .drained t ps ∈ s.history) : t < s.tasks.length := by
  induction hs with
  | refl => cases h
  | @tail s s' hs hstep ih =>
    have hs : Calm cfg s := hs
    have hle := (keeps_of_steps (steps_of_undisturbed (.single hstep))).length_le
    by_contra hout
    have hge : s.tasks.length ≤ t := Nat.le_trans hle (Nat.not_lt.1 hout)
    have hnew : .drained t ps ∉ s.history := fun hold => Nat.not_lt.2 hge (ih hold)
    cases hs.passes hstep with
    | aside ha => exact hnew (ha.drains h)
    | @acts self _ _ hslot _ hc =>
      have hne : t ≠ self := fun heq => Nat.not_lt.2 hge (heq ▸ lt_of_slotAt hslot)
      exact hnew (hc.drained hne h)
    | begins task _ heq =>
      rw [heq] at h
      exact hnew h

/-- A cycle that was asked for returns what it made of the paths that it has taken. -/
lemma Calm.makes {s₀ s : State} (hs₀ : Calm cfg s₀)
    (h : ReflTransGen (Undisturbed cfg) (s₀.spawn (.tick label .idle)).1 s) :
    s.toCore.Makes s₀.tasks.length label := by
  have hasked : Undisturbed cfg s₀ (s₀.spawn (.tick label .idle)).1 :=
    .inr ⟨.tick label, List.prefix_append ..⟩
  have hs₁ : Calm cfg (s₀.spawn (.tick label .idle)).1 := hs₀.tail hasked
  have hbegin : (s₀.spawn (.tick label .idle)).1.toCore.Makes s₀.tasks.length label := by
    have hduty : dutyAt (s₀.tasks ++ [some ⟨.tick label .idle, false⟩]) s₀.tasks.length =
        some (.cycle (some label) .idle) := by
      rw [dutyAt, taskAt_concat, if_pos rfl]
      rfl
    refine .going hduty fun ps hps => ?_
    have hold : .drained s₀.tasks.length ps ∈ s₀.history := by simpa [State.openingOf] using hps
    exact absurd (drained_lt hs₀ hold) (Nat.lt_irrefl _)
  induction h with
  | refl => exact hbegin
  | tail h hstep ih => exact (hs₁.trans h).makes_step ih hstep

end

/-! ### A cycle comes to its end -/

/-- What a cycle has ahead of it. -/
def Cycle.ahead : Cycle → Nat ×ₗ Nat
  | .idle => toLex (5, 0)
  | .locked => toLex (4, 0)
  | .loaded _ => toLex (3, 0)
  | .running d => toLex (2, 2 * d.waiting.length + d.arrived.length)
  | .finished _ => toLex (1, 0)

section

variable {cfg : Setting} {c c' : Core} {self t : TaskId} {task task' : Task} {label : String}
  {k k' : Cycle}

lemma Cycle.ahead_receive {w : TaskId} (hw : w ∈ k.waiting) (a : Option Report) :
    (k.receive w a).ahead < k.ahead := by
  cases k with
  | running d =>
    have hw : w ∈ d.waiting := hw
    have hlen := List.length_erase_of_mem hw
    have hpos := List.length_pos_of_mem hw
    refine Prod.Lex.toLex_lt_toLex.2 (.inr ⟨rfl, ?_⟩)
    simp only [hlen, List.length_append, List.length_singleton]
    omega
  | _ => cases hw

/-- Unless a single cycle has to wait, it is over once it acts, or it has less ahead of it. -/
lemma CycleActs.ahead (hc : CycleActs cfg self (.tick label k) c c')
    (hs : taskAt c.tasks self = some (.tick label k)) :
    (k.Waits ∧ c' = c) ∨ taskAt c'.tasks self = none ∨
      ∃ k', dutyAt c'.tasks self = some (.cycle (some label) k') ∧ k'.ahead < k.ahead := by
  have hput {ts : List (Option Slot)} {k' : Cycle} (hts : taskAt ts self = some (.tick label k)) :
      dutyAt (mapAt ts self fun _ => .tick label k') self = some (.cycle (some label) k') := by
    rw [dutyAt_put hts, if_pos rfl]
    rfl
  -- in a later phase there is less ahead, whatever is left to enter
  have hphase {i j m n : Nat} (h : i < j) : toLex (i, m) < toLex (j, n) :=
    Prod.Lex.toLex_lt_toLex.2 (.inl h)
  cases hc with
  | rests h =>
    rcases h with ⟨k', heq, hw⟩ | ⟨due, heq⟩ <;> cases heq
    exact .inl ⟨hw, rfl⟩
  | locks hp =>
    cases hp
    exact .inr (.inr ⟨_, hput hs, hphase (by decide)⟩)
  | drains hp hk' =>
    cases hp
    refine .inr (.inr ⟨_, hput hs, ?_⟩)
    subst hk'
    split <;> exact hphase (by decide)
  | triggers hes hp =>
    cases hp
    exact .inr (.inr ⟨_, hput (taskAt_append hs), hphase (by decide)⟩)
  | @enters d _ ha hp =>
    cases hp
    refine .inr (.inr ⟨_, hput hs, Prod.Lex.toLex_lt_toLex.2 (.inr ⟨rfl, ?_⟩)⟩)
    have hpos := List.length_pos_iff.2 ha
    simp only [List.length_nil]
    omega
  | finishes ha hw hp =>
    cases hp
    exact .inr (.inr ⟨_, hput hs, hphase (by decide)⟩)
  | refused hr | releases hr =>
    cases hr
    exact .inr (.inl (by simp))

/-- Whatever happens, a single cycle is gone, or it is as it was, or it has less ahead of it. -/
lemma Calm.ahead_step {s s' : State} (hcfg : cfg.Sound) (hs : Calm cfg s)
    (ht : dutyAt s.tasks t = some (.cycle (some label) k)) (hstep : Undisturbed cfg s s') :
    taskAt s'.tasks t = none ∨ ∃ k', dutyAt s'.tasks t = some (.cycle (some label) k') ∧
      (k' = k ∨ k'.ahead < k.ahead) := by
  cases hs.passes hstep with
  | aside ha =>
    obtain ⟨k', ht', heq⟩ := ha.told.cycle ht
    refine .inr ⟨k', ht', heq.imp_right ?_⟩
    rintro ⟨w, a, hw, rfl⟩
    exact Cycle.ahead_receive ((((hs.dispatching hcfg).tracks ht).waiting w).1 hw) a
  | @acts self task _ hslot _ hc =>
    have hself := taskAt_of_slotAt hslot
    by_cases hne : t = self
    · subst t
      obtain rfl := tick_of_duty ((dutyAt_of_taskAt hself).symm.trans ht)
      rcases hc.ahead hself with ⟨-, heq⟩ | hgone | ⟨k', ht', hlt⟩
      · exact .inr ⟨k, heq ▸ ht, .inl rfl⟩
      · exact .inl hgone
      · exact .inr ⟨k', ht', .inr hlt⟩
    · exact .inr ⟨k, (hc.others hne (lt_of_dutyAt ht)).trans ht, .inl rfl⟩
  | begins task _ heq =>
    obtain ⟨task', htask, hd⟩ := exists_taskAt_of_duty ht
    rw [heq]
    exact .inr ⟨k, (dutyAt_of_taskAt (taskAt_append htask)).trans hd, .inl rfl⟩

lemma Calm.ahead_of_undisturbed {s s' : State} (hcfg : cfg.Sound) (hs : Calm cfg s)
    (ht : dutyAt s.tasks t = some (.cycle (some label) k))
    (h : ReflTransGen (Undisturbed cfg) s s') :
    taskAt s'.tasks t = none ∨ ∃ k', dutyAt s'.tasks t = some (.cycle (some label) k') ∧
      (k' = k ∨ k'.ahead < k.ahead) := by
  induction h with
  | refl => exact .inr ⟨k, ht, .inl rfl⟩
  | @tail s₁ s₂ h hstep ih =>
    have hk := keeps_of_steps (steps_of_undisturbed h)
    have hlt : t < s₁.tasks.length := Nat.lt_of_lt_of_le (lt_of_dutyAt ht) hk.length_le
    rcases ih with hgone | ⟨k₁, ht₁, hle⟩
    · exact .inl ((keeps_of_steps (steps_of_undisturbed (.single hstep))).gone hlt hgone)
    · refine ((hs.trans h).ahead_step hcfg ht₁ hstep).imp_right fun ⟨k₂, ht₂, hle'⟩ => ⟨k₂, ht₂, ?_⟩
      rcases hle' with rfl | hlt'
      · exact hle
      · exact .inr (hle.elim (fun heq => heq ▸ hlt') hlt'.trans)

namespace Fair

variable {σ : Nat → State} {n : Nat}

/-- A single cycle goes once every run that it opens has gone. -/
lemma cycle_gone (h : Fair cfg σ) (hcfg : cfg.Sound)
    (hm : ∀ w m, n ≤ m → (σ m).toCore.Serves t w →
      ∃ m', m ≤ m' ∧ taskAt (σ m').tasks w = none)
    (ht : dutyAt (σ n).tasks t = some (.cycle (some label) k)) :
    ∃ m, n ≤ m ∧ taskAt (σ m).tasks t = none := by
  induction ha : k.ahead using WellFoundedLT.induction generalizing n k with
  | _ a ih =>
  subst ha
  by_cases hstays : ∀ m, n ≤ m → dutyAt (σ m).tasks t = some (.cycle (some label) k)
  · obtain ⟨m, hm', hturn⟩ := h.turns t n
    have hnext := hstays (m + 1) (Nat.le_succ_of_le hm')
    obtain ⟨task, htask, hd⟩ := exists_taskAt_of_duty (hstays m hm')
    obtain rfl := tick_of_duty hd
    obtain ⟨⟨_, b⟩, hs, rfl⟩ := Option.map_eq_some_iff.1 htask
    have hcalm := h.calm_at m
    -- nobody drops a cycle
    have hlive : b = false := by
      by_contra hb
      have hsome := hcalm.kept.tended.cancelled hs (by simpa using hb)
      cases hsome
    subst hlive
    have hacts : CycleActs cfg t (.tick label k) (σ m).toCore _ := acts_of_cycle cfg (σ m) t rfl
    have hsame : dutyAt ((σ m).advance cfg t (.tick label k)).tasks t =
        some (.cycle (some label) k) := by
      simp only [Turn, Core.slot?_eq, hs] at hturn
      rcases hturn with hrests | hturn
      · simpa [State.advance, hrests] using hstays m hm'
      · exact hturn ▸ hnext
    rcases hacts.ahead htask with ⟨⟨d, rfl, -, hne⟩, -⟩ | hgone | ⟨k', ht', hlt⟩
    · obtain ⟨w, hw⟩ := List.exists_mem_of_ne_nil _ hne
      have hserves {j : Nat} (hj : n ≤ j) : (σ j).toCore.Serves t w :=
        ((((h.calm_at j).dispatching hcfg).tracks (hstays j hj)).waiting w).2 hw
      obtain ⟨m', hmm', hgone⟩ := hm w m hm' (hserves hm')
      have hthere := hserves (Nat.le_trans hm' hmm')
      rw [Core.Serves, dutyAt_of_gone hgone] at hthere
      cases hthere
    · rw [dutyAt_of_gone hgone] at hsame
      cases hsame
    · rw [ht'] at hsame
      cases hsame
      exact absurd hlt (lt_irrefl _)
  · push Not at hstays
    obtain ⟨m, hm', hne⟩ := hstays
    rcases (h.calm_at n).ahead_of_undisturbed hcfg ht (h.reaches hm') with
      hgone | ⟨k', ht', heq | hlt⟩
    · exact ⟨m, hm', hgone⟩
    · exact absurd (heq ▸ ht') hne
    · obtain ⟨m', hm'', hgone⟩ :=
        ih k'.ahead hlt (fun w j hj => hm w j (Nat.le_trans hm' hj)) ht' rfl
      exact ⟨m', Nat.le_trans hm' hm'', hgone⟩

end Fair

end

/-! ### Watching -/

/-- The cycle that was asked for under a label as the task `t` has returned. If it took any paths,
it returned them with one report for each chain that they trigger. -/
def Core.Dispatches (cfg : Setting) (c : Core) (t : TaskId) (label : String) : Prop :=
  ∃ result, (label, .cycle result) ∈ c.outcomes ∧ ∀ ps, .drained t ps ∈ c.history → ps ≠ [] →
    ∃ r, result = some r ∧ r.paths = ps ∧
      (r.runs.map Report.chain).Perm (Watch.planDispatch ps cfg.rules).keys

section

variable {cfg : Setting} {s s₀ : State} {t : TaskId} {label : String}

/-- A report is one of the chain that the run was opened for. -/
lemma Reachable.titled (hs : Reachable cfg s) {report : Report}
    (hx : .completed t report ∈ s.history) :
    ∃ vars e, .opened t report.chain vars e ∈ s.history := by
  have hstable : Stable cfg fun c => (Orderly cfg.manifest c ∧ Accounted c) ∧
      ∀ t report, .completed t report ∈ c.history →
        ∃ vars e, Deed.opened t report.chain vars e ∈ c.history := by
    refine (orderly_stable cfg).and_moves fun {c c'} ho h hc t report hx => ?_
    obtain ⟨ds, hH, hds⟩ := hc.adds
    rw [hH] at hx ⊢
    rcases List.mem_append.1 hx with hx | hx
    · obtain ⟨vars, e, hopen⟩ := h t report hx
      exact ⟨vars, e, List.mem_append_left _ hopen⟩
    · obtain ⟨r, audience, hr, -, rfl⟩ := hds.completes hx
      exact ⟨r.vars, r.exitOnError,
        List.mem_append_left _ (ho.1.runs (taskAt_of_slotAt hr)).opened⟩
  exact (hstable.reachable ⟨⟨orderly_nil _, accounted_nil⟩, by simp⟩ hs).2 t report hx

/-- The runs of a cycle give one report for each chain. -/
lemma Calm.chains (hs : Calm cfg s) {paths : List String} {reports : List Report}
    (h : Dispatched cfg s.history paths [] reports) :
    (reports.map Report.chain).Perm (Watch.planDispatch paths cfg.rules).keys := by
  refine h.chains (fun ho ho' => ?_) fun hx => hs.reachable.titled hx
  exact (hs.kept.orderly.opened_unique ho ho').1

lemma Calm.dispatches (hcfg : cfg.Sound) (hs₀ : Calm cfg s₀)
    (h : ReflTransGen (Undisturbed cfg) (s₀.spawn (.tick label .idle)).1 s)
    (hn : taskAt s.tasks s₀.tasks.length = none) :
    s.toCore.Dispatches cfg s₀.tasks.length label := by
  have hasked : Undisturbed cfg s₀ (s₀.spawn (.tick label .idle)).1 :=
    .inr ⟨.tick label, List.prefix_append ..⟩
  have hs : Calm cfg s := (hs₀.tail hasked).trans h
  cases hs₀.makes h with
  | going ht =>
    rw [dutyAt_of_gone hn] at ht
    cases ht
  | @returned result _ _ hout taken =>
    refine ⟨result, hout, fun ps hps hne => ?_⟩
    have hpaths := taken ps hps
    cases result with
    | none => exact absurd (Option.some.inj hpaths).symm hne
    | some r =>
      obtain rfl : r.paths = ps := Option.some.inj hpaths
      exact ⟨r, rfl, rfl, hs.chains ((hs.dispatching hcfg).answered hout)⟩

end

/-- **Watching goes on whatever fails.** A run that is not to exit on errors has nothing stopped and
does not break off, and no more does a chain below it; once they are gone they have come to their
ends with every batch. The caller gets a report, and a dispatch cycle that took any paths returns
with one report for each chain that they trigger. If all processes of such a run end and every task
gets its turn, all the family comes to its end, and so does a cycle if this holds of the runs that
serve it. -/
theorem watching_goes_on {cfg : Setting} (hcfg : cfg.Sound) :
    (∀ s, Calm cfg s → ∀ t chain vars, .opened t chain vars false ∈ s.history →
      ∀ u, Family s.history t u → Persists cfg.manifest s.toCore u) ∧
    (∀ s₀ s, Calm cfg s₀ → ∀ chain vars label, ReflTransGen (Undisturbed cfg)
      (s₀.spawn (.run (.start chain vars false) (.caller label))).1 s →
      taskAt s.tasks s₀.tasks.length = none →
        ∃ report, (label, .run (.ok report)) ∈ s.outcomes ∧
          .completed s₀.tasks.length report ∈ s.history) ∧
    (∀ s₀ s, Calm cfg s₀ → ∀ label, ReflTransGen (Undisturbed cfg)
      (s₀.spawn (.tick label .idle)).1 s → taskAt s.tasks s₀.tasks.length = none →
        s.toCore.Dispatches cfg s₀.tasks.length label) ∧
    ∀ σ, Fair cfg σ →
      (∀ n t chain vars, .opened t chain vars false ∈ (σ n).history →
        (∀ k p, OnBehalf (σ k).history t p → ∃ k', .ended p ∈ (σ k').history) →
        ∃ k, ∀ j, k ≤ j → ∀ u, Family (σ j).history t u →
          ∃ report, .completed u report ∈ (σ j).history) ∧
      ∀ n s₀ label, Calm cfg s₀ → σ n = (s₀.spawn (.tick label .idle)).1 →
        (∀ w j k p, (σ j).toCore.Serves s₀.tasks.length w → OnBehalf (σ k).history w p →
          ∃ k', .ended p ∈ (σ k').history) →
        ∃ k, n ≤ k ∧ (σ k).toCore.Dispatches cfg s₀.tasks.length label := by
  refine ⟨fun s hs t chain vars hopen u hu => hs.persists hcfg hopen hu,
    fun s₀ s hs₀ chain vars label h hn => hs₀.answers hcfg h hn,
    fun s₀ s hs₀ label h hn => hs₀.dispatches hcfg h hn, fun σ hσ => ⟨?_, ?_⟩⟩
  · intro n t chain vars hopen hend
    obtain ⟨k, hk, hspent⟩ := hσ.exists_spent hopen hend
    refine ⟨k, fun j hj u hu => ?_⟩
    have hopen' := (hσ.grows (Nat.le_trans hk hj)).subset hopen
    obtain ⟨report, -, -, hx, -⟩ :=
      ((hσ.calm_at j).persists hcfg hopen' hu).fulfilled ((hσ.spent hspent hj).2 u hu)
    exact ⟨report, hx⟩
  · intro n s₀ label hs₀ hn hend
    have hduty : dutyAt (σ n).tasks s₀.tasks.length = some (.cycle (some label) .idle) := by
      rw [hn]
      exact (dutyAt_of_taskAt ((taskAt_concat ..).trans (if_pos rfl)))
    have hruns (w : TaskId) (m : Nat) (hw : (σ m).toCore.Serves s₀.tasks.length w) :
        ∃ k, m ≤ k ∧ taskAt (σ k).tasks w = none := by
      obtain ⟨r, hr⟩ := dutyAt_serves.1 hw
      obtain ⟨k, hk, hspent⟩ := hσ.exists_spent ((hσ.calm_at m).kept.orderly.runs hr).opened
        fun k p hp => hend w m k p hw hp
      exact ⟨k, hk, hspent.2 w .root⟩
    obtain ⟨k, hk, hgone⟩ := hσ.cycle_gone hcfg (fun w m _ => hruns w m) hduty
    exact ⟨k, hk, hs₀.dispatches hcfg (hn ▸ hσ.reaches hk) hgone⟩

/-- Whatever is changed at `/w/a` has the script `a` run. -/
def Setting.watched : Setting :=
  { Setting.paused with
    rules := [⟨"a", "/w/a", .empty, { tokens := "/w/a".toList.map .literal }⟩] }

/-- One cycle of it, where `a` fails. -/
def State.watched : State :=
  let s : State := ((({} : State).push "/w/a").spawn (.tick "t" .idle)).1
  let s := (s.actAll .watched [0, 0, 0, 1, 1, 1]).endProcess 0 true (some 1) false
  s.actAll .watched [2, 1, 1, 0, 0, 0]

theorem watching_goes_on_watched :
    State.watched.failure = true ∧ .drained 0 ["/w/a"] ∈ State.watched.history ∧
      State.watched.toCore.Dispatches .watched 0 "t" := by
  have hs₀ : Calm .watched (({} : State).push "/w/a") :=
    .single (.inr ⟨.push "/w/a", List.nil_prefix⟩)
  have hlater : ReflTransGen (Evolves .watched)
      ((({} : State).push "/w/a").spawn (.tick "t" .idle)).1 .watched :=
    ((evolves_actAll [0, 0, 0, 1, 1, 1]).trans (evolves_endProcess 0 true (some 1) false)).trans
      (evolves_actAll [2, 1, 1, 0, 0, 0])
  obtain ⟨-, -, hcycle, -⟩ := @watching_goes_on .watched fun _ _ => rfl
  have hH : State.watched.history =
      [.pushed "/w/a", .locked 0, .drained 0 ["/w/a"],
        .opened 1 "a" { Variables.empty with file := ["/w/a"] } false,
        .started 1 1 (.process 0 ⟨"a", "a", "true", .sequential⟩ "a"), .ended 0,
        .completed 1 ⟨"a", true, [⟨"a", false, true, true, some 1⟩]⟩, .unlocked 0,
        .returned 0] := rfl
  refine ⟨rfl, by simp [hH], hcycle _ _ hs₀ "t" ?_ rfl⟩
  exact ReflTransGen.mono (fun _ _ => Or.inl) _ _ hlater

end ChainRunner.Run
