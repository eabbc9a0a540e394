import ChainRunner.Proofs.Run.Barrier

/-!
Sessions in which nobody drops a task from outside: which tasks arise in them, and what becomes of
others when a task is cancelled or gone.
-/

namespace ChainRunner.Run

open Relation

/-! ### Sessions that are left alone -/

/-- Whatever happens, nobody drops a task from outside. -/
def Undisturbed (cfg : Setting) (s s' : State) : Prop :=
  Evolves cfg s s' ∨ Asked s s' ∧ s.tasks <+: s'.tasks

def Calm (cfg : Setting) (s : State) : Prop := ReflTransGen (Undisturbed cfg) {} s

section

variable {cfg : Setting} {s s' : State} {P Q : Core → Prop}

lemma Undisturbed.happens (h : Undisturbed cfg s s') : Happens cfg s s' := h.imp_right And.left

lemma happens_of_undisturbed (h : ReflTransGen (Undisturbed cfg) s s') :
    ReflTransGen (Happens cfg) s s' := ReflTransGen.mono (fun _ _ => Undisturbed.happens) _ _ h

theorem Calm.reachable (h : Calm cfg s) : Reachable cfg s := happens_of_undisturbed h

theorem Calm.trans (h : Calm cfg s) (h' : ReflTransGen (Undisturbed cfg) s s') : Calm cfg s' :=
  ReflTransGen.trans h h'

theorem Calm.evolves (h : Calm cfg s) (h' : ReflTransGen (Evolves cfg) s s') : Calm cfg s' :=
  h.trans (ReflTransGen.mono (fun _ _ => Or.inl) _ _ h')

lemma calm_run (cfg : Setting) (chain : String) (vars : Variables) (e : Bool) (label : String) :
    Calm cfg (({} : State).spawn (.run (.start chain vars e) (.caller label))).1 :=
  .single (.inr ⟨.run chain vars e label, List.nil_prefix⟩)

/-- A property of the core that no change breaks, and no request that drops no task. -/
structure Steady (cfg : Setting) (P : Core → Prop) : Prop where
  change : ∀ {c c' : Core}, P c → Change cfg c c' → P c'
  request : ∀ {c c' : Core}, P c → Request c c' → c.tasks <+: c'.tasks → P c'

lemma Stable.steady (hP : Stable cfg P) : Steady cfg P :=
  ⟨hP.change, fun h hc _ => hP.request h hc⟩

lemma Steady.undisturbed (hP : Steady cfg P) (hs : P s.toCore)
    (h : ReflTransGen (Undisturbed cfg) s s') : P s'.toCore := by
  induction h with
  | refl => exact hs
  | @tail s₁ s₂ _ hstep ih =>
    rcases hstep with hstep | ⟨hstep, hpre⟩
    · have hc := changes_of_evolves hstep
      generalize s₂.toCore = c₂ at hc ⊢
      induction hc with
      | refl => exact ih
      | tail _ hc ih => exact hP.change ih hc
    · exact hP.request ih (request_of_asked hstep) hpre

theorem Steady.calm (hP : Steady cfg P) (h0 : P {}) (h : Calm cfg s) : P s.toCore :=
  hP.undisturbed h0 h

end

/-! ### New tasks -/

/-- The run that learns of the end of a task. -/
def Task.owner? : Task → Option TaskId
  | .waiter _ _ owner => some owner
  | .run _ (.barrier owner _) => some owner
  | _ => none

/-- The run `t` has the task `w` to wait for. -/
def Expects (ts : List (Option Slot)) (t w : TaskId) : Prop :=
  ∃ r audience, taskAt ts t = some (.run r audience) ∧ w ∈ r.waiting

/-- What a new task is, and what the history says of it. -/
inductive Arises (m : Manifest) (c c' : Core) (w : TaskId) : Task → Prop
  | keeper (p : ProcessId) : Arises m c c' w (.keeper p)
  | waiter {t : TaskId} {k : Nat} {i : Instance} {p : ProcessId} {name : String}
    (hlt : t < c.tasks.length) (hx : .started t k (.process p i name) ∈ c'.history)
    (hb : i.isBackground = false) (he : Expects c'.tasks t w) : Arises m c c' w (.waiter p name t)
  | nested {t : TaskId} {k : Nat} {r : Course} {audience : Audience} {target expr name : String}
    {mode : Mode} (hs : slotAt c.tasks t = some ⟨.run r audience, false⟩)
    (hm : m.resolve target = .chain expr)
    (hx : .started t k (.chain w target mode name) ∈ c'.history)
    (he : mode ≠ .background → Expects c'.tasks t w) :
    Arises m c c' w (.run (r.nested expr mode) (audienceOf t name mode))
  | triggered {t : TaskId} {chain : String} {vars : Variables} :
    Arises m c c' w (.run (.start chain vars false) (.cycle t))
  | asked {chain : String} {vars : Variables} {e : Bool} {label : String} :
    Arises m c c' w (.run (.start chain vars e) (.caller label))
  | cycles {t : Task} (ht : t.cycle? = some .idle) : Arises m c c' w t

section

variable {cfg : Setting} {m : Manifest} {c c' : Core} {t w : TaskId} {slot slot' : Slot}

lemma Expects.put {ts : List (Option Slot)} {task : Task} {r : Course} {audience : Audience}
    (more : List (Option Slot)) (ht : taskAt ts t = some task) (hw : w ∈ r.waiting) :
    Expects (mapAt (ts ++ more) t fun _ => .run r audience) t w :=
  ⟨r, audience, by rw [taskAt_mapAt, if_pos rfl, taskAt_append ht]; rfl, hw⟩

lemma arises_of_keeperSlots {p : ProcessId} : ∀ slot, some slot ∈ keeperSlots cfg p →
    slot.cancelled = false ∧ Arises m c c' w slot.task :=
  forall_keeperSlots ⟨rfl, .keeper p⟩

theorem Change.arises (hc : Change cfg c c') (hw : c.tasks.length ≤ w)
    (hs : slotAt c'.tasks w = some slot) :
    slot.cancelled = false ∧ Arises cfg.manifest c c' w slot.task := by
  have hold (hlen : c'.tasks.length = c.tasks.length) :
      slot.cancelled = false ∧ Arises cfg.manifest c c' w slot.task :=
    absurd (lt_of_slotAt hs) (Nat.not_lt.2 (hlen ▸ hw))
  cases hc with
  | launches name names now h ha hb =>
    dsimp only at hs
    exact arises_of_keeperSlots _ (slot_of_grow (lt_of_slotAt h) hw hs)
  | @awaits self r audience i agenda name names now h ha hb =>
    have hself := lt_of_slotAt h
    dsimp only at hs
    rw [slotAt_mapAt, if_neg (Nat.ne_of_lt (Nat.lt_of_lt_of_le hself hw)), slotAt_concat] at hs
    split at hs
    · cases hs
      subst w
      refine ⟨rfl, .waiter hself (List.mem_append_right _ List.mem_cons_self) hb ?_⟩
      rw [List.append_assoc]
      exact .put _ (taskAt_of_slotAt h) (List.mem_append_right _ List.mem_cons_self)
    · exact arises_of_keeperSlots _ (slot_of_append hw hs)
  | @nests self r audience step agenda target expr name names h ha ht hm =>
    have hself := lt_of_slotAt h
    dsimp only at hs
    rw [slotAt_mapAt, if_neg (Nat.ne_of_lt (Nat.lt_of_lt_of_le hself hw)), slotAt_concat] at hs
    split at hs
    · cases hs
      subst w
      have hx : Deed.started self r.batch (.chain c.tasks.length target step.mode name) ∈
          c.history ++
            [.opened c.tasks.length expr r.vars (r.exitOnError && step.mode ≠ .background),
              .started self r.batch (.chain c.tasks.length target step.mode name)] := by simp
      exact ⟨rfl, .nested h hm hx fun hb => .put _ (taskAt_of_slotAt h) (by simp [hb])⟩
    · exact absurd (lt_of_slotAt hs) (Nat.not_lt.2 hw)
  | triggers chain vars h ht =>
    dsimp only at hs
    rw [slotAt_concat] at hs
    split at hs
    · cases hs
      exact ⟨rfl, .triggered⟩
    · exact absurd (lt_of_slotAt hs) (Nat.not_lt.2 hw)
  | refused h ht hl hcl | releases h ht hcl =>
    refine hold ?_
    cases hcl <;> simp
  | _ => exact hold (by simp)

theorem Request.arises (hc : Request c c') (hw : c.tasks.length ≤ w)
    (hs : slotAt c'.tasks w = some slot) : slot.cancelled = false ∧ Arises m c c' w slot.task := by
  cases hc with
  | run chain vars e label =>
    cases List.mem_singleton.1 (slot_of_append hw hs)
    exact ⟨rfl, .asked⟩
  | cycles ht =>
    cases List.mem_singleton.1 (slot_of_append hw hs)
    exact ⟨rfl, .cycles ht⟩
  | push | stop => exact absurd (lt_of_slotAt hs) (Nat.not_lt.2 hw)
  | cancel => exact absurd (lt_of_slotAt hs) (Nat.not_lt.2 (by simpa using hw))

end

/-- A run that was opened now has been spawned with it. -/
theorem Change.opens {chain : String} {vars : Variables} {e : Bool} (hc : Change cfg c c')
    (ho : .opened t chain vars e ∈ c'.history) :
    .opened t chain vars e ∈ c.history ∨ ∃ task, taskAt c'.tasks t = some task := by
  cases hc with
  | @nests self r audience step agenda target expr name names h ha ht hm =>
    refine (List.mem_append.1 ho).imp_right fun hin => ?_
    rcases List.mem_cons.1 hin with hin | hin
    · cases hin
      exact ⟨_, taskAt_of_slotAt
        (slotAt_mapAt_concat (lt_of_slotAt h) _ fun _ => .run _ audience)⟩
    · cases List.mem_singleton.1 hin
  | triggers chain vars h ht =>
    refine (List.mem_append.1 ho).imp_right fun hin => ?_
    cases List.mem_singleton.1 hin
    exact ⟨_, by rw [taskAt_concat, if_pos rfl]⟩
  | fails why now h hf he =>
    refine .inl ((List.mem_append.1 ho).resolve_right fun hin => ?_)
    simpa using hf.mem_deeds hin
  | news hp follows | droppedCycle h ht =>
    exact .inl (mem_of_mem_ite_concat (by simp) ho)
  | quiet | settles | leaves | cycles | droppedRun => exact .inl ho
  | launches | awaits | misses | completes | breaks | locks | refused | drains | releases =>
    exact .inl ((List.mem_append.1 ho).resolve_right (by simp))

theorem Request.opens {chain : String} {vars : Variables} {e : Bool} (hc : Request c c')
    (ho : .opened t chain vars e ∈ c'.history) :
    .opened t chain vars e ∈ c.history ∨ ∃ task, taskAt c'.tasks t = some task := by
  cases hc with
  | run chain vars e label =>
    refine (List.mem_append.1 ho).imp_right fun hin => ?_
    cases List.mem_singleton.1 hin
    exact ⟨_, by rw [taskAt_concat, if_pos rfl]⟩
  | push => exact .inl ((List.mem_append.1 ho).resolve_right (by simp))
  | cycles | stop | cancel => exact .inl ho

/-! ### Tasks that are dropped -/

/-- The task `w` was cancelled because nobody waits for it any more. -/
inductive Cancels (c c' : Core) (w : TaskId) : Prop
  | run {v : TaskId} {r : Course} {audience : Audience}
    (hv : taskAt c.tasks v = some (.run r audience)) (hw : w ∈ r.waiting)
    (gone : taskAt c'.tasks v = none) : Cancels c c' w
  | cycle {v : TaskId} {t : Task} (hv : slotAt c.tasks v = some ⟨t, true⟩)
    (ht : t.cycle?.isSome = true) : Cancels c c' w

/-- What becomes of others when the task `w` is gone: its owner learns of it, and what it waits
for is cancelled. -/
structure Leaves (c c' : Core) (w : TaskId) (slot : Slot) : Prop where
  told : slot.cancelled = false → ∀ {t : TaskId}, slot.task.owner? = some t →
    ∀ {r' : Course} {audience : Audience}, taskAt c'.tasks t = some (.run r' audience) →
      ∃ r b, taskAt c.tasks t = some (.run r audience) ∧ r' = r.told w b
  abandons : ∀ {r : Course} {audience : Audience}, slot.task = .run r audience →
    ∀ {u : TaskId}, u ∈ r.waiting → ∀ {slot' : Slot}, slotAt c'.tasks u = some slot' →
      slot'.cancelled = true

/-- How the run `t` was over: it has come to its end, or it broke off. -/
inductive Course.Ends (cfg : Setting) (c' : Core) (t : TaskId) (r : Course) : Prop
  | completes {report : Report} (hd : r.IsDone) (hx : .completed t report ∈ c'.history) :
    Ends cfg c' t r
  | breaks {b : Break} (hb : r.Broken cfg b) (hx : .brokeOff t b ∈ c'.history) : Ends cfg c' t r
  | fails {why : Failure} {ds : List Deed} (he : r.exitOnError = true) (hf : c'.failure = true)
    (hx : .brokeOff t (.failure why) ∈ c'.history) (fatal : r.Fatal cfg.manifest t ds why)
    (hds : ds ⊆ c'.history) : Ends cfg c' t r

section

variable {cfg : Setting} {c c' : Core} {ts : List (Option Slot)} {t u w a self : TaskId}
  {slot slot' : Slot} {f : Task → Task} {r : Course} {audience : Audience}

lemma cancelled_of_mapAt (hs' : slotAt (mapAt ts a f) w = some slot') :
    ∃ slot, slotAt ts w = some slot ∧ slot'.cancelled = slot.cancelled := by
  rw [slotAt_mapAt] at hs'
  split at hs'
  · obtain ⟨slot, hs, rfl⟩ := Option.map_eq_some_iff.1 hs'
    exact ⟨slot, hs, rfl⟩
  · exact ⟨slot', hs', rfl⟩

lemma cancelled_of_tellReport {report : Report}
    (hs' : slotAt (State.tellReport self report audience ts) w = some slot') :
    ∃ slot, slotAt ts w = some slot ∧ slot'.cancelled = slot.cancelled := by
  cases audience <;> first | exact ⟨slot', hs', rfl⟩ | exact cancelled_of_mapAt hs'

lemma cancelled_of_tellBreak {b : Break}
    (hs' : slotAt (State.tellBreak self b audience ts) w = some slot') :
    ∃ slot, slotAt ts w = some slot ∧ slot'.cancelled = slot.cancelled := by
  cases audience <;> first | exact ⟨slot', hs', rfl⟩ | exact cancelled_of_mapAt hs'

lemma slotAt_append {more : List (Option Slot)} (hs : slotAt ts w = some slot) :
    slotAt (ts ++ more) w = some slot := by
  rwa [slotAt, List.getElem?_append_left (lt_of_slotAt hs)]

/-- A slot that is left is as cancelled as it was. -/
lemma cancelled_of_grow {more : List (Option Slot)} (hs : slotAt ts w = some slot)
    (hs' : slotAt (mapAt (ts ++ more) a f) w = some slot') : slot'.cancelled = slot.cancelled := by
  obtain ⟨slot₁, hs₁, hc⟩ := cancelled_of_mapAt hs'
  rw [slotAt_append hs] at hs₁
  cases hs₁
  exact hc

lemma slotAt_of_set_none (hs : slotAt (ts.set self none) w = some slot) :
    slotAt ts w = some slot := by
  rw [slotAt_set_none] at hs
  split at hs
  · cases hs
  · exact hs

/-- A slot is cancelled where a run drops what it waits for. -/
lemma mem_of_cancelAt {ids : List TaskId} (hs : slotAt ts w = some slot)
    (hf : slot.cancelled = false) (hs' : slotAt ((cancelAt ts ids).set self none) w = some slot')
    (ht : slot'.cancelled = true) : w ∈ ids := by
  have hin := slotAt_of_set_none hs'
  rw [slotAt_cancelAt, hs] at hin
  cases hin
  simpa [hf] using ht

lemma cancelled_of_closes {os : List (String × Outcome)} {ts' : List (Option Slot)}
    (hc : Closes ts self ts' os) (hs' : slotAt ts' w = some slot') :
    ∃ slot, slotAt ts w = some slot ∧ slot'.cancelled = slot.cancelled := by
  cases hc with
  | gone => exact ⟨slot', slotAt_of_set_none hs', rfl⟩
  | again => exact cancelled_of_mapAt hs'

theorem Change.cancels (hc : Change cfg c c') (hs : slotAt c.tasks w = some slot)
    (hf : slot.cancelled = false) (hs' : slotAt c'.tasks w = some slot')
    (ht : slot'.cancelled = true) : Cancels c c' w := by
  -- a slot that has stayed as cancelled as it was is not cancelled now
  have hold (h : ∃ slot₁, slotAt c.tasks w = some slot₁ ∧ slot'.cancelled = slot₁.cancelled) :
      Cancels c c' w := by
    obtain ⟨slot₁, hs₁, heq⟩ := h
    rw [hs] at hs₁
    cases hs₁
    rw [heq, hf] at ht
    cases ht
  cases hc with dsimp only at hs'
  | quiet h q => exact hold (cancelled_of_mapAt hs')
  | launches name names now h ha hb =>
    exact hold ⟨slot, hs, cancelled_of_grow hs hs'⟩
  | awaits name names now h ha hb =>
    rw [List.append_assoc] at hs'
    exact hold ⟨slot, hs, cancelled_of_grow hs hs'⟩
  | nests name names h ha ht' hm =>
    exact hold ⟨slot, hs, cancelled_of_grow hs hs'⟩
  | misses names entries h ha ht' hm => exact hold (cancelled_of_mapAt hs')
  | completes h ha hr hw hb =>
    obtain ⟨slot₁, hs₁, heq⟩ := cancelled_of_tellReport hs'
    exact hold ⟨slot₁, slotAt_of_set_none hs₁, heq⟩
  | breaks h hb | fails why now h hf' he =>
    obtain ⟨slot₁, hs₁, heq⟩ := cancelled_of_tellBreak hs'
    exact .run (taskAt_of_slotAt h) (mem_of_cancelAt hs hf hs₁ (heq ▸ ht))
      (taskAt_tellBreak_eq_none (by simp))
  | settles failed code h hp ho =>
    obtain ⟨slot₁, hs₁, heq⟩ := cancelled_of_mapAt hs'
    exact hold ⟨slot₁, slotAt_of_set_none hs₁, heq⟩
  | leaves h ht' => exact hold ⟨slot', slotAt_of_set_none hs', rfl⟩
  | news hp follows => exact hold ⟨slot', hs', rfl⟩
  | locks h ht₁ ht₂ hl => exact hold (cancelled_of_mapAt hs')
  | drains h ht₁ ht₂ => exact hold (cancelled_of_mapAt hs')
  | cycles h ht₁ ht₂ hk => exact hold (cancelled_of_mapAt hs')
  | refused h ht' hl hcl | releases h ht' hcl => exact hold (cancelled_of_closes hcl hs')
  | triggers chain vars h ht' =>
    rw [slotAt_append hs] at hs'
    exact hold ⟨slot, hs, by cases hs'; rfl⟩
  | droppedRun h =>
    exact .run (taskAt_of_slotAt h) (mem_of_cancelAt hs hf hs' ht) (by simp)
  | droppedCycle h ht' => exact .cycle h (by simp [ht'])

/-- What a run drops is cancelled. -/
lemma cancelled_of_mem {ids : List TaskId} (hu : u ∈ ids)
    (hs' : slotAt ((cancelAt ts ids).set self none) u = some slot') : slot'.cancelled = true := by
  have hin := slotAt_of_set_none hs'
  rw [slotAt_cancelAt] at hin
  obtain ⟨slot, -, rfl⟩ := Option.map_eq_some_iff.1 hin
  simp [hu]

lemma told_of_mapAt {b : Arrival} {r' : Course}
    (ht : taskAt (mapAt ts t (Task.receive w b)) t = some (.run r' audience)) :
    ∃ r, taskAt ts t = some (.run r audience) ∧ r' = r.told w b := by
  rw [taskAt_mapAt, if_pos rfl] at ht
  obtain ⟨task, htask, heq⟩ := Option.map_eq_some_iff.1 ht
  cases task <;> cases heq
  exact ⟨_, htask, rfl⟩

lemma slotAt_mapAt_ne_none (hs : slotAt ts w = some slot) : slotAt (mapAt ts a f) w ≠ none := by
  rw [slotAt_mapAt, hs]
  split <;> simp

/-- Only the task that was dropped is gone. -/
lemma eq_of_set_none (hs : slotAt ts w = some slot) (hn : slotAt (ts.set a none) w = none) :
    a = w := by
  by_contra hne
  rw [slotAt_set_none, if_neg hne, hs] at hn
  cases hn

lemma eq_of_cancelAt {ids : List TaskId} (hs : slotAt ts w = some slot)
    (hn : slotAt ((cancelAt ts ids).set a none) w = none) : a = w := by
  have hleft : slotAt (cancelAt ts ids) w =
      some { slot with cancelled := slot.cancelled || w ∈ ids } := by
    rw [slotAt_cancelAt, hs]
    rfl
  exact eq_of_set_none hleft hn

lemma slotAt_eq_none_of_mapAt (hn : slotAt (mapAt ts a f) w = none) : slotAt ts w = none := by
  rw [slotAt_mapAt] at hn
  split at hn
  · exact Option.map_eq_none_iff.1 hn
  · exact hn

lemma slotAt_eq_none_of_tellReport {report : Report}
    (hn : slotAt (State.tellReport self report audience ts) w = none) : slotAt ts w = none := by
  cases audience <;> first | exact hn | exact slotAt_eq_none_of_mapAt hn

lemma slotAt_eq_none_of_tellBreak {b : Break}
    (hn : slotAt (State.tellBreak self b audience ts) w = none) : slotAt ts w = none := by
  cases audience <;> first | exact hn | exact slotAt_eq_none_of_mapAt hn

lemma Task.owner?_of_cycle {task : Task} (h : task.cycle?.isSome = true) : task.owner? = none := by
  cases task <;> first | rfl | cases h

/-- A task that makes cycles has no owner, and is no run. -/
lemma Leaves.of_cycle (hs : slot.task.cycle?.isSome = true) : Leaves c c' w slot where
  told _ _ ho := by
    rw [Task.owner?_of_cycle hs] at ho
    cases ho
  abandons hr := by
    rw [hr] at hs
    cases hs

/-- A run that breaks off tells its owner, and drops what it waits for. -/
lemma Leaves.of_break {b : Break} {cancelled : Bool}
    (ht : c'.tasks = State.tellBreak w b audience ((cancelAt c.tasks r.waiting).set w none)) :
    Leaves c c' w ⟨.run r audience, cancelled⟩ where
  told _ t ho r' audience' hr := by
    rw [ht] at hr
    cases audience <;> cases ho
    obtain ⟨r₁, hr₁, heq⟩ := told_of_mapAt hr
    exact ⟨r₁, _, (taskAt_of_dropped hr₁).2, heq⟩
  abandons hr u hu slot' hs' := by
    cases hr
    rw [ht] at hs'
    obtain ⟨slot₁, hs₁, heq⟩ := cancelled_of_tellBreak hs'
    exact heq.trans (cancelled_of_mem hu hs₁)

theorem Change.departs (hc : Change cfg c c') (hs : slotAt c.tasks w = some slot)
    (hn : slotAt c'.tasks w = none) : Leaves c c' w slot := by
  -- what only changes a task or adds one leaves no gap
  cases hc with dsimp only at hn
  | quiet | misses | locks | drains | cycles => exact absurd hn (slotAt_mapAt_ne_none hs)
  | launches | nests => exact absurd hn (slotAt_mapAt_ne_none (slotAt_append hs))
  | awaits =>
    rw [List.append_assoc] at hn
    exact absurd hn (slotAt_mapAt_ne_none (slotAt_append hs))
  | triggers =>
    rw [slotAt_append hs] at hn
    cases hn
  | news => simp [hs] at hn
  | @completes self r audience h ha hr hw hb =>
    obtain rfl := eq_of_set_none hs (slotAt_eq_none_of_tellReport hn)
    rw [h] at hs
    cases hs
    refine ⟨fun _ t ho r' audience' ht => ?_, fun hr u hu => ?_⟩
    · cases audience <;> cases ho
      obtain ⟨r₁, hr₁, heq⟩ := told_of_mapAt ht
      exact ⟨r₁, _, (taskAt_of_set_none hr₁).2, heq⟩
    · cases hr
      rw [hw] at hu
      cases hu
  | @breaks self r audience b h hb | @fails self r audience ds why now h hf he =>
    obtain rfl := eq_of_cancelAt hs (slotAt_eq_none_of_tellBreak hn)
    rw [h] at hs
    cases hs
    exact .of_break rfl
  | @settles w' p name owner hd failed code h hp ho =>
    obtain rfl := eq_of_set_none hs (slotAt_eq_none_of_mapAt hn)
    rw [h] at hs
    cases hs
    refine ⟨fun _ t ho r' audience' ht => ?_, fun hr => by cases hr⟩
    cases ho
    obtain ⟨r₁, hr₁, heq⟩ := told_of_mapAt ht
    exact ⟨r₁, _, (taskAt_of_set_none hr₁).2, heq⟩
  | @leaves w' t b h ht =>
    obtain rfl := eq_of_set_none hs hn
    rw [h] at hs
    cases hs
    refine ⟨fun hf t' ho => ?_, fun hr => ?_⟩
    · rcases ht with ⟨rfl, -⟩ | ⟨p, rfl⟩
      · cases hf
      · cases ho
    · rcases ht with ⟨-, p, name, owner, rfl⟩ | ⟨p, rfl⟩ <;> cases hr
  | @droppedRun self r audience h =>
    obtain rfl := eq_of_cancelAt hs hn
    rw [h] at hs
    cases hs
    refine ⟨fun hf => (nomatch hf), fun hr u hu slot' hs' => ?_⟩
    cases hr
    exact cancelled_of_mem hu hs'
  | @droppedCycle self t k h ht =>
    obtain rfl := eq_of_cancelAt hs hn
    rw [h] at hs
    cases hs
    exact .of_cycle (by simp [ht])
  | refused h ht hl hcl | releases h ht hcl =>
    cases hcl with
    | gone =>
      obtain rfl := eq_of_set_none hs hn
      rw [h] at hs
      cases hs
      exact .of_cycle (by simp [ht])
    | again => exact absurd hn (slotAt_mapAt_ne_none hs)

end

theorem Change.ends (hc : Change cfg c c') (hs : slotAt c.tasks w = some ⟨.run r audience, false⟩)
    (hn : slotAt c'.tasks w = none) : r.Ends cfg c' w := by
  -- the change is one of the task that is gone
  have hself {v : TaskId} {slot : Slot} (h : slotAt c.tasks v = some slot) (heq : v = w) :
      slot = ⟨.run r audience, false⟩ := by
    rw [heq, hs] at h
    exact (Option.some.inj h).symm
  cases hc with dsimp only at hn
  | quiet | misses | locks | drains | cycles => exact absurd hn (slotAt_mapAt_ne_none hs)
  | launches | nests => exact absurd hn (slotAt_mapAt_ne_none (slotAt_append hs))
  | awaits =>
    rw [List.append_assoc] at hn
    exact absurd hn (slotAt_mapAt_ne_none (slotAt_append hs))
  | triggers =>
    rw [slotAt_append hs] at hn
    cases hn
  | news => simp [hs] at hn
  | completes h ha hr hw hb =>
    obtain rfl := eq_of_set_none hs (slotAt_eq_none_of_tellReport hn)
    cases hself h rfl
    exact .completes ⟨ha, hr, hw, hb⟩ (List.mem_append_right _ (List.mem_singleton_self _))
  | breaks h hb =>
    obtain rfl := eq_of_cancelAt hs (slotAt_eq_none_of_tellBreak hn)
    cases hself h rfl
    exact .breaks hb (List.mem_append_right _ (List.mem_singleton_self _))
  | fails why now h hf he =>
    obtain rfl := eq_of_cancelAt hs (slotAt_eq_none_of_tellBreak hn)
    cases hself h rfl
    exact .fails he rfl (List.mem_append_right _ (List.mem_append_right _
      (List.mem_cons_of_mem _ (List.mem_singleton_self _)))) hf
      fun _ hd => List.mem_append_right _ (List.mem_append_left _ hd)
  | settles failed code h hp ho =>
    -- from here on what is gone is no run, or one that was cancelled before
    obtain rfl := eq_of_set_none hs (slotAt_eq_none_of_mapAt hn)
    cases hself h rfl
  | leaves h ht =>
    obtain rfl := eq_of_set_none hs hn
    cases hself h rfl
    rcases ht with ⟨hb, -⟩ | ⟨p, ht⟩
    · cases hb
    · cases ht
  | droppedRun h =>
    obtain rfl := eq_of_cancelAt hs hn
    cases hself h rfl
  | droppedCycle h ht =>
    obtain rfl := eq_of_cancelAt hs hn
    cases hself h rfl
  | refused h ht hl hcl | releases h ht hcl =>
    cases hcl with
    | gone =>
      obtain rfl := eq_of_set_none hs hn
      cases hself h rfl
      cases ht
    | again => exact absurd hn (slotAt_mapAt_ne_none hs)

/-! ### Steps -/

/-- What a change has in common with a request that drops no task. -/
structure Steps (cfg : Setting) (c c' : Core) : Prop extends Moves cfg.manifest c c' where
  arises : ∀ {w : TaskId} {slot : Slot}, c.tasks.length ≤ w → slotAt c'.tasks w = some slot →
    slot.cancelled = false ∧ Arises cfg.manifest c c' w slot.task
  opens : ∀ {t : TaskId} {chain : String} {vars : Variables} {e : Bool},
    .opened t chain vars e ∈ c'.history →
      .opened t chain vars e ∈ c.history ∨ ∃ task, taskAt c'.tasks t = some task
  cancels : ∀ {w : TaskId} {slot slot' : Slot}, slotAt c.tasks w = some slot →
    slot.cancelled = false → slotAt c'.tasks w = some slot' → slot'.cancelled = true →
      Cancels c c' w
  departs : ∀ {w : TaskId} {slot : Slot}, slotAt c.tasks w = some slot →
    slotAt c'.tasks w = none → Leaves c c' w slot
  ends : ∀ {w : TaskId} {r : Course} {audience : Audience},
    slotAt c.tasks w = some ⟨.run r audience, false⟩ → slotAt c'.tasks w = none → r.Ends cfg c' w

section

variable {cfg : Setting} {c c' : Core}

theorem Change.steps (hc : Change cfg c c') : Steps cfg c c' :=
  { hc.moves with
    arises := hc.arises, opens := hc.opens, cancels := hc.cancels, departs := hc.departs,
    ends := hc.ends }

theorem Request.steps (hc : Request c c') (hpre : c.tasks <+: c'.tasks) : Steps cfg c c' where
  toMoves := hc.moves
  arises := hc.arises
  opens := hc.opens
  cancels hs hf hs' ht := by
    rw [slotAt_of_grown hpre hs] at hs'
    cases hs'
    rw [hf] at ht
    cases ht
  departs hs hn := by
    rw [slotAt_of_grown hpre hs] at hn
    cases hn
  ends hs hn := by
    rw [slotAt_of_grown hpre hs] at hn
    cases hn

lemma Steady.and_steps {P Q : Core → Prop} (hP : Steady cfg P)
    (hQ : ∀ {c c'}, P c → Q c → Steps cfg c c' → Q c') :
    Steady cfg fun c => P c ∧ Q c where
  change h hc := ⟨hP.change h.1 hc, hQ h.1 h.2 hc.steps⟩
  request h hc hpre := ⟨hP.request h.1 hc hpre, hQ h.1 h.2 (hc.steps hpre)⟩

end

end ChainRunner.Run
