import ChainRunner.Proofs.Run.Family
import ChainRunner.Proofs.Run.Launch

/-!
What a fatal failure puts an end to, and what it does not.

A step that fails for good has everything stopped that is up, and its run gives up; the runs that
wait for it follow. What nothing reaches are the other chains of the family that are in progress
then: those in the background, those beside the failed one that have not been dropped yet, and
an enclosing run that has not started all of its batch. Whatever is started afterwards goes back
to one of them.
-/

namespace ChainRunner.Run

open Relation

/-- A run that is neither over nor cancelled. -/
def Core.InProgress (c : Core) (t : TaskId) : Prop :=
  ∃ r audience, slotAt c.tasks t = some ⟨.run r audience, false⟩

/-- A run that can only give up: it has nothing left to start before it learns of a member that
broke off, that will break off, or that is gone without a word. -/
inductive Doomed (ts : List (Option Slot)) : TaskId → Prop
  | broken {t : TaskId} {r : Course} {audience : Audience} {why : Failure}
    (ht : taskAt ts t = some (.run r audience)) (ha : r.agenda = [])
    (hb : .broken why ∈ r.arrived) : Doomed ts t
  | stuck {t w : TaskId} {r : Course} {audience : Audience}
    (ht : taskAt ts t = some (.run r audience)) (ha : r.agenda = []) (hw : w ∈ r.waiting)
    (hlt : w < ts.length) (hgone : taskAt ts w = none) : Doomed ts t
  | waits {t w : TaskId} {r r' : Course} {audience : Audience} {name : String}
    (ht : taskAt ts t = some (.run r audience)) (ha : r.agenda = []) (hw : w ∈ r.waiting)
    (hmember : taskAt ts w = some (.run r' (.barrier t name))) (hd : Doomed ts w) : Doomed ts t

/-- A chain of the family of `root` that goes on after a stop. -/
def Core.Open (c : Core) (root t : TaskId) : Prop :=
  Family c.history root t ∧ c.InProgress t ∧ ¬Doomed c.tasks t

/-! ### Doomed runs -/

section

variable {m : Manifest} {c c' : Core} {t : TaskId}

lemma Doomed.agenda {ts : List (Option Slot)} (h : Doomed ts t) {r : Course} {audience : Audience}
    (ht : taskAt ts t = some (.run r audience)) : r.agenda = [] := by
  cases h with
  | broken ht' ha | stuck ht' ha | waits ht' ha =>
    rw [ht] at ht'
    cases ht'
    exact ha

/-- A doomed run has not come to its end. -/
lemma Doomed.unfinished {ts : List (Option Slot)} (h : Doomed ts t) {r : Course}
    {audience : Audience} (ht : taskAt ts t = some (.run r audience)) :
    r.arrived ≠ [] ∨ r.waiting ≠ [] := by
  cases h with
  | broken ht' ha hb =>
    rw [ht] at ht'
    cases ht'
    exact .inl (List.ne_nil_of_mem hb)
  | stuck ht' ha hw | waits ht' ha hw =>
    rw [ht] at ht'
    cases ht'
    exact .inr (List.ne_nil_of_mem hw)

/-- What a run with an empty agenda is after a move: it has at most learned that a member is
over, or entered one. -/
lemma Origin.idle {r r' : Course} {audience audience' : Audience}
    (ho : Origin m c c' t r' audience') (ht : taskAt c.tasks t = some (.run r audience))
    (ha : r.agenda = [])
    (hu : r.arrived ≠ [] ∨ r.waiting ≠ []) :
    r'.agenda = [] ∧
      ((r'.waiting = r.waiting ∧ ∀ why, .broken why ∈ r.arrived → .broken why ∈ r'.arrived) ∨
        ∃ v b, r' = r.told v b ∧ Tells c t v b) := by
  have hsame {r₁ : Course} {a₁ : Audience} (h : taskAt c.tasks t = some (.run r₁ a₁)) : r₁ = r := by
    rw [ht] at h
    cases h
    rfl
  cases ho with
  | same h =>
    obtain rfl := hsame h
    exact ⟨ha, .inl ⟨rfl, fun _ => id⟩⟩
  | takes h ha' => simp [hsame h, ha] at ha'
  | quiet h q =>
    obtain rfl := hsame h
    cases q with
    | skip ha' | expand ha' => simp [ha] at ha'
    | enter entries ha' hr =>
      refine ⟨ha', .inl ⟨rfl, fun why hb => ?_⟩⟩
      rw [hr] at hb
      simpa using hb
    | begins ha' hr hw hb => simp [hr, hw] at hu
  | told h hr hv =>
    obtain rfl := hsame h
    subst hr
    exact ⟨ha, .inr ⟨_, _, rfl, hv⟩⟩
  | fresh h => exact absurd (lt_of_taskAt ht) (h ▸ Nat.lt_irrefl _)

lemma Tells.present {v : TaskId} {b : Arrival} (h : Tells c t v b) :
    ∃ task, taskAt c.tasks v = some task := by
  cases h with
  | waiter hs | completed hs | broken hs => exact ⟨_, taskAt_of_slotAt hs⟩

/-- A doomed run stays doomed until it is gone. -/
lemma Doomed.move (hc : Moves m c c') (h : Doomed c.tasks t) :
    Doomed c'.tasks t ∨ taskAt c'.tasks t = none := by
  -- by induction on why the run is doomed: a doomed member may be gone now
  induction h with
  | @broken t r audience why ht ha hb =>
    rcases hc.keeps.run_after ht with hn | ⟨r', hn⟩
    · exact .inr hn
    · obtain ⟨ha', ⟨-, hb'⟩ | ⟨v, b, rfl, -⟩⟩ :=
        (hc.origin hn).idle ht ha (.inl (List.ne_nil_of_mem hb))
      · exact .inl (.broken hn ha' (hb' why hb))
      · exact .inl (.broken hn ha' (List.mem_append_left _ hb))
  | @stuck t w r audience ht ha hw hlt hgone =>
    rcases hc.keeps.run_after ht with hn | ⟨r', hn⟩
    · exact .inr hn
    · have hlt' := Nat.lt_of_lt_of_le hlt hc.keeps.length_le
      have hgone' := hc.keeps.gone hlt hgone
      obtain ⟨ha', ⟨hw', -⟩ | ⟨v, b, rfl, hv⟩⟩ :=
        (hc.origin hn).idle ht ha (.inr (List.ne_nil_of_mem hw))
      · exact .inl (.stuck hn ha' (hw' ▸ hw) hlt' hgone')
      · have hvw : w ≠ v := by
          rintro rfl
          obtain ⟨task, htask⟩ := hv.present
          simp [hgone] at htask
        exact .inl (.stuck hn ha' ((List.mem_erase_of_ne hvw).2 hw) hlt' hgone')
  | @waits t w r r₁ audience name ht ha hw hmember hd ih =>
    rcases hc.keeps.run_after ht with hn | ⟨r', hn⟩
    · exact .inr hn
    · have hstill {r₂ : Course} {a₂ : Audience} (hn₂ : taskAt c'.tasks t = some (.run r₂ a₂))
          (ha₂ : r₂.agenda = []) (hw₂ : w ∈ r₂.waiting) : Doomed c'.tasks t := by
        rcases hc.keeps.run_after hmember with hm | ⟨r₃, hm⟩
        · exact .stuck hn₂ ha₂ hw₂
            (Nat.lt_of_lt_of_le (lt_of_taskAt hmember) hc.keeps.length_le) hm
        · exact .waits hn₂ ha₂ hw₂ hm (ih.resolve_right (by simp [hm]))
      obtain ⟨ha', ⟨hw', -⟩ | ⟨v, b, rfl, hv⟩⟩ :=
        (hc.origin hn).idle ht ha (.inr (List.ne_nil_of_mem hw))
      · exact .inl (hstill hn ha' (hw' ▸ hw))
      · -- the doomed member itself is over: being doomed, it can only have broken off
        by_cases hvw : w = v
        · subst v
          cases hv with
          | waiter h => simp [taskAt_of_slotAt h] at hmember
          | completed h hdone =>
            rcases hd.unfinished (taskAt_of_slotAt h) with hu | hu
            · exact absurd hdone.2.1 hu
            · exact absurd hdone.2.2.1 hu
          | broken h =>
            exact .inl (.broken hn ha' (List.mem_append_right _ (List.mem_singleton_self _)))
        · exact .inl (hstill hn ha' ((List.mem_erase_of_ne hvw).2 hw))

end

/-! ### Where later starts come from -/

section

variable {m : Manifest} {c c' : Core} {root t : TaskId}

/-- After the core `c₀`, whatever a family does goes back to a chain that was open then. -/
structure Traced (c₀ : Core) (root : TaskId) (c : Core) : Prop where
  lt : root < c.tasks.length
  grows : c₀.history <+: c.history
  stops : c₀.stops ⊆ c.stops
  tasks : c₀.tasks.length ≤ c.tasks.length
  handles : c₀.table.handles.length ≤ c.table.handles.length
  goesOn : ∀ {t : TaskId}, Family c.history root t → c.InProgress t →
    (∃ u, c₀.Open root u ∧ Family c.history u t) ∨ Doomed c.tasks t
  processes : ∀ {p : ProcessId}, OnBehalf c.history root p →
    OnBehalf c₀.history root p ∨ ∃ u, c₀.Open root u ∧ OnBehalf c.history u p
  family : ∀ {t : TaskId}, Family c.history root t → t < c₀.tasks.length →
    Family c₀.history root t
  started : ∀ {r : TaskId} {k : Nat} {p : ProcessId} {i : Instance} {name : String},
    .started r k (.process p i name) ∈ c.history → p < c₀.table.handles.length →
      .started r k (.process p i name) ∈ c₀.history

lemma Traced.refl (hroot : root < c.tasks.length) : Traced c root c where
  lt := hroot
  grows := List.prefix_rfl
  stops := List.Subset.refl _
  tasks := Nat.le_refl _
  handles := Nat.le_refl _
  goesOn {t} hf ht := by
    by_cases hd : Doomed c.tasks t
    · exact .inr hd
    · exact .inl ⟨t, ⟨hf, ht, hd⟩, .root⟩
  processes := .inl
  family := fun hf _ => hf
  started := fun hx _ => hx

lemma Core.InProgress.before (hk : Keeps c.tasks c'.tasks) (hlt : t < c.tasks.length)
    (h : c'.InProgress t) : c.InProgress t := by
  obtain ⟨r, audience, hs⟩ := h
  obtain ⟨⟨task, b⟩, hold, hkin, hb⟩ := hk.slot hlt hs
  obtain ⟨r', rfl, -⟩ := hkin.to_run
  cases b with
  | false => exact ⟨r', audience, hold⟩
  | true => cases hb rfl

/-- A run of the family that starts something goes back to an open chain. -/
lemma Traced.busy {c₀ : Core} (h : Traced c₀ root c) (hf : Family c.history root t)
    (hbusy : ∃ r audience, slotAt c.tasks t = some ⟨.run r audience, false⟩ ∧ r.agenda ≠ []) :
    ∃ u, c₀.Open root u ∧ Family c.history u t := by
  obtain ⟨r, audience, hs, hne⟩ := hbusy
  refine (h.goesOn hf ⟨r, audience, hs⟩).resolve_right fun hd => hne ?_
  exact hd.agenda (taskAt_of_slotAt hs)

lemma Traced.move {c₀ : Core} (h : Traced c₀ root c) (ho : Orderly m c) (hc : Moves m c c') :
    Traced c₀ root c' where
  lt := Nat.lt_of_lt_of_le h.lt hc.keeps.length_le
  grows := h.grows.trans hc.grows
  stops := fun _ hin => hc.stops (h.stops hin)
  tasks := Nat.le_trans h.tasks hc.keeps.length_le
  handles := Nat.le_trans h.handles hc.length_le
  goesOn {t} hf ht := by
    rcases hf.move ho hc with hf | ⟨rfl, r, hf, hbusy, k, target, mode, name, hx⟩
    · rcases h.goesOn hf (ht.before hc.keeps (ho.lt_of_family h.lt hf)) with ⟨u, hu, hut⟩ | hd
      · exact .inl ⟨u, hu, hut.mono hc.grows⟩
      · refine .inr ((hd.move hc).resolve_right fun hn => ?_)
        obtain ⟨r, audience, hs⟩ := ht
        simp [taskAt_of_slotAt hs] at hn
    · obtain ⟨u, hu, hur⟩ := h.busy hf hbusy
      exact .inl ⟨u, hu, .nested (hur.mono hc.grows) hx⟩
  processes {p} hp := by
    obtain ⟨r, k, i, name, hf, hx⟩ := hp
    rcases hc.starts hx with hold | ⟨hmeets, -⟩
    · have hf := (hf.move ho hc).resolve_right fun ⟨heq, _⟩ =>
        Nat.lt_irrefl _ (heq ▸ ho.lt_of_started hold)
      refine (h.processes ⟨r, k, i, name, hf, hold⟩).imp_right ?_
      rintro ⟨u, hu, r', k', i', name', hf', hx'⟩
      exact ⟨u, hu, r', k', i', name', hf'.mono hc.grows, hc.grows.subset hx'⟩
    · have hbusy := hmeets.busy
      have hlt : r < c.tasks.length := by
        obtain ⟨r₁, audience, hs, -⟩ := hbusy
        exact lt_of_slotAt hs
      have hf := (hf.move ho hc).resolve_right fun ⟨heq, _⟩ => Nat.lt_irrefl _ (heq ▸ hlt)
      obtain ⟨u, hu, hur⟩ := h.busy hf hbusy
      exact .inr ⟨u, hu, r, k, i, name, hur.mono hc.grows, hx⟩
  family {t} hf hlt := by
    rcases hf.move ho hc with hf | ⟨rfl, -⟩
    · exact h.family hf hlt
    · exact absurd hlt (Nat.not_lt_of_le h.tasks)
  started {r k p i name} hx hlt := by
    rcases hc.starts hx with hold | ⟨-, rfl⟩
    · exact h.started hold hlt
    · exact absurd hlt (Nat.not_lt_of_le h.handles)

/-- The processes there were on behalf of a run are those from then on. -/
lemma Traced.onBehalf {c₀ : Core} (h : Traced c₀ root c) (ho : Orderly m c₀) {p : ProcessId}
    (hp : OnBehalf c.history root p) (hlt : p < c₀.table.handles.length) :
    OnBehalf c₀.history root p := by
  obtain ⟨r, k, i, name, hf, hx⟩ := hp
  have hold := h.started hx hlt
  exact ⟨r, k, i, name, h.family hf (ho.lt_of_started hold), hold⟩

/-- A process that has been spoken to stays so. -/
lemma Traced.spokenTo {c₀ : Core} (h : Traced c₀ root c) (ha₀ : Accounted c₀) (ha : Accounted c)
    {p : ProcessId} (hp : c₀.SpokenTo p) (hlt : p < c₀.table.handles.length) : c.SpokenTo p := by
  rcases hp with he | ⟨time, hs⟩
  · exact .inl (ha.ended.1 (h.grows.subset (ha₀.ended.2 ⟨hlt, he⟩))).2
  · exact .inr ⟨time, h.stops hs⟩

lemma traced_stable (cfg : Setting) (c₀ : Core) (root : TaskId) :
    Stable cfg fun c => (Orderly cfg.manifest c ∧ Accounted c) ∧ Traced c₀ root c :=
  (orderly_stable cfg).and_moves fun ho h hc => h.move ho.1 hc

end

/-! ### When a stop is final -/

/-- Whatever happens after the session `s`, no process is started on behalf of the run any more,
and all those that were have ended or been asked to stop. -/
def StopsForGood (cfg : Setting) (s : State) (root : TaskId) : Prop :=
  ∀ s', ReflTransGen (Happens cfg) s s' → ∀ p, OnBehalf s'.history root p →
    OnBehalf s.history root p ∧ s'.SpokenTo p

section

variable {cfg : Setting} {s s' : State} {root : TaskId} {p : ProcessId}

lemma Traced.of_happens (hs : Reachable cfg s) (hroot : root < s.tasks.length)
    (h : ReflTransGen (Happens cfg) s s') : Traced s.toCore root s'.toCore :=
  ((traced_stable cfg s.toCore root).happens ⟨⟨hs.orderly, hs.accounted⟩, .refl hroot⟩ h).2

lemma State.Launching.busy {v : TaskId} (h : s.Launching cfg v) :
    ∃ r audience, slotAt s.tasks v = some ⟨.run r audience, false⟩ ∧ r.agenda ≠ [] := by
  obtain ⟨r, audience, i, agenda, hs, ha, -⟩ := h
  exact ⟨r, audience, hs, by simp [ha]⟩

/-- A process that is started on behalf of a run is launched by a member of its family. -/
lemma launching_of_onBehalf (hs : Reachable cfg s) (hroot : root < s.tasks.length)
    (h : ReflTransGen (Happens cfg) s s') (hp : OnBehalf s'.history root p) :
    OnBehalf s.history root p ∨ ∃ s₁ v, ReflTransGen (Happens cfg) s s₁ ∧
      Family s₁.history root v ∧ s₁.Launching cfg v := by
  induction h with
  | refl => exact .inl hp
  | @tail s₁ s₂ h hstep ih =>
    have hs₁ := hs.happens h
    have ht : Traced s₁.toCore root s₂.toCore :=
      .of_happens hs₁ (Traced.of_happens hs hroot h).lt (.single hstep)
    by_cases hlt : p < s₁.table.handles.length
    · exact ih (ht.onBehalf hs₁.orderly hp hlt)
    · obtain ⟨r, k, i, name, hf, hx⟩ := hp
      have hlt₂ : p < s₂.table.handles.length :=
        (hs₁.happens (.single hstep)).accounted.started.2 ⟨r, k, i, name, hx⟩
      obtain ⟨v, hv, k', i', name', hH⟩ := launching_of_length hstep
        (Nat.lt_of_le_of_lt (Nat.not_lt.1 hlt) hlt₂)
      obtain rfl : r = v := by
        rw [hH, List.mem_append, List.mem_singleton] at hx
        rcases hx with hold | hnew
        · exact absurd (hs₁.accounted.started.2 ⟨r, k, i, name, hold⟩) hlt
        · exact (Deed.started.inj hnew).1
      obtain ⟨r₁, audience, hslot, -⟩ := hv.busy
      exact .inr ⟨s₁, r, h, ht.family hf (lt_of_slotAt hslot), hv⟩

/-- **A fatal stop**: when a step has failed for good, every process that had been started has
ended or been asked to stop. Any process that is started later on behalf of a run goes back to a
chain of its family that is open then, so that the stop is final exactly if none of these comes
to a launch again. -/
theorem fatal_stop (hs : Reachable cfg s) {pre post : List Deed} {f : TaskId}
    (hstop : s.history = pre ++ .stopped f :: post) {chain : String} {vars : Variables} {e : Bool}
    (hroot : .opened root chain vars e ∈ s.history) :
    (∀ p, OnBehalf pre root p → s.SpokenTo p) ∧
    (∀ s', ReflTransGen (Happens cfg) s s' → ∀ p, OnBehalf s'.history root p →
      ¬OnBehalf s.history root p → ∃ u, s.Open root u ∧ OnBehalf s'.history u p) ∧
    (StopsForGood cfg s root ↔ (∀ p, OnBehalf s.history root p → s.SpokenTo p) ∧
      ∀ s', ReflTransGen (Happens cfg) s s' → ∀ u v, s.Open root u → Family s'.history u v →
        ¬s'.Launching cfg v) := by
  have hlt := hs.orderly.opened_lt hroot
  refine ⟨fun p hp => ?_, fun s' h p hp hnew => ?_, fun hfinal => ⟨fun p hp => ?_, ?_⟩, ?_⟩
  · obtain ⟨r, k, i, name, -, hx⟩ := hp
    exact hs.accounted.stopped hstop hx
  · exact ((Traced.of_happens hs hlt h).processes hp).resolve_left hnew
  · exact (hfinal s .refl p hp).2
  · -- a launch would start a process on behalf of the run that was not there before
    intro s' h u v hu hv hlaunch
    obtain ⟨r, audience, i, agenda, hslot, ha, hb⟩ := hlaunch
    have hstep : Happens cfg s' (s'.advance cfg v (.run r audience)) := .inl (.acts hslot)
    obtain ⟨name, hH⟩ := history_of_launch audience v ha hb
    have ht := Traced.of_happens hs hlt h
    have hf : Family s'.history root v := (hu.1.mono ht.grows).trans hv
    have hnew : OnBehalf (s'.advance cfg v (.run r audience)).history root
        s'.table.handles.length := by
      rw [hH]
      exact ⟨v, r.batch, i, name, hf.mono (List.prefix_append ..), by simp⟩
    obtain ⟨⟨r', k', i', name', -, hold⟩, -⟩ := hfinal _ (h.tail hstep) _ hnew
    exact Nat.lt_irrefl _
      ((hs.happens h).accounted.started.2 ⟨r', k', i', name', ht.grows.subset hold⟩)
  · -- without launches the processes stay those there are, and these have been spoken to
    rintro ⟨hspoken, hnone⟩ s' h p hp
    have hold : OnBehalf s.history root p := by
      refine (launching_of_onBehalf hs hlt h hp).resolve_right ?_
      rintro ⟨s₁, v, h₁, hf, hv⟩
      obtain ⟨u, hu, huv⟩ := (Traced.of_happens hs hlt h₁).busy hf hv.busy
      exact hnone s₁ h₁ u v hu huv hv
    obtain ⟨r, k, i, name, -, hx⟩ := id hold
    exact ⟨hold, (Traced.of_happens hs hlt h).spokenTo hs.accounted (hs.happens h).accounted
      (hspoken p hold) (hs.accounted.started.2 ⟨r, k, i, name, hx⟩)⟩

end

/-- The run of `+bg f` after `f` has failed. -/
def State.failed : State :=
  let s : State := (({} : State).spawn (.run (.start "+bg f" .empty true) (.caller "r"))).1
  ((s.actAll .paused [0, 0, 0, 0, 1, 1, 1]).endProcess 0 true (some 1) false).actAll .paused [2, 0]

/-- The process of `a` has ended in turn, and `bg` has gone on. -/
def State.resumed : State :=
  (State.failed.endProcess 1 false none true).actAll .paused [3, 1, 1, 1, 1]

lemma reachable_failed : Reachable .paused .failed :=
  (((Reachable.asked .refl (.run "+bg f" .empty true "r")).evolves (evolves_actAll _)).evolves
    (evolves_endProcess ..)).evolves (evolves_actAll _)

theorem fatal_stop_resumed :
    (∃ u, State.failed.Open 0 u ∧ OnBehalf State.resumed.history u 2) ∧
      ¬StopsForGood .paused .failed 0 := by
  have hs : State.failed.history =
      [.opened 0 "+bg f" .empty true, .opened 1 "a - b" .empty false,
        .started 0 1 (.chain 1 "bg" .background "bg"),
        .started 0 1 (.process 0 ⟨"f", "f", "false", .sequential⟩ "f"),
        .started 1 1 (.process 1 ⟨"a", "a", "true", .sequential⟩ "a"), .ended 0] ++
      .stopped 0 :: [.brokeOff 0 (.failure (.stepFailed "f" (some 1)))] := rfl
  have hs' : State.resumed.history = State.failed.history ++
      [.ended 1, .started 1 2 (.process 2 ⟨"b", "b", "true", .sequential⟩ "b")] := rfl
  have hlater : ReflTransGen (Happens .paused) .failed .resumed :=
    happens_of_evolves ((evolves_endProcess ..).trans (evolves_actAll _))
  have hnew : ¬OnBehalf State.failed.history 0 2 := by simp [OnBehalf, hs]
  have hbg : .started 0 1 (.chain 1 "bg" .background "bg") ∈ State.resumed.history := by
    simp [hs', hs]
  have hp : OnBehalf State.resumed.history 0 2 :=
    ⟨1, 2, ⟨"b", "b", "true", .sequential⟩, "b", .nested .root hbg, by simp [hs']⟩
  have hroot : .opened 0 "+bg f" .empty true ∈ State.failed.history := by simp [hs]
  obtain ⟨-, hopen, -⟩ := fatal_stop reachable_failed hs hroot
  exact ⟨hopen _ hlater 2 hp hnew, fun h => hnew (h _ hlater 2 hp).1⟩

end ChainRunner.Run
