import ChainRunner.Proofs.Run.Calm

/-!
The members that a run waits for are its own: it has started each of them itself, waits for each
of them once, and learns of each when it is over.

As long as nobody drops a task from outside, a member is dropped only with the run that waits for
it.
-/

namespace ChainRunner.Run

/-- A run among the members exits on errors if the run that waits for it does. -/
def Task.Suits (e : Bool) : Task → Prop
  | .run r _ => r.exitOnError = e
  | _ => True

/-- Runs and the tasks they wait for know of each other. -/
structure Tended (c : Core) : Prop where
  nodup : ∀ {t : TaskId} {r : Course} {audience : Audience},
    taskAt c.tasks t = some (.run r audience) → r.waiting.Nodup
  member : ∀ {t w : TaskId} {r : Course} {audience : Audience},
    taskAt c.tasks t = some (.run r audience) → w ∈ r.waiting →
      ∃ task, slotAt c.tasks w = some ⟨task, false⟩ ∧ task.owner? = some t ∧
        task.Suits r.exitOnError
  owned : ∀ {t w : TaskId} {slot : Slot}, slotAt c.tasks w = some slot →
    slot.task.owner? = some t → t < w ∧ (slot.cancelled = false → Expects c.tasks t w) ∧
      (slot.cancelled = true → taskAt c.tasks t = none)
  cancelled : ∀ {w : TaskId} {slot : Slot}, slotAt c.tasks w = some slot →
    slot.cancelled = true → slot.task.owner?.isSome = true

section

variable {cfg : Setting} {m : Manifest} {c c' : Core} {t w : TaskId} {r r' : Course}
  {audience : Audience}

lemma Task.Kin.owner?_eq {task task' : Task} (h : task.Kin task') :
    task'.owner? = task.owner? := by
  cases h with
  | refl => rfl
  | @run r r' audience => cases audience <;> rfl
  | cycles h h' =>
    cases task <;> cases h <;> cases task' <;> cases h' <;> rfl

lemma Task.Kin.suits {task task' : Task} {e : Bool} (h : task.Kin task') (hs : task.Suits e) :
    task'.Suits e := by
  cases h with
  | refl => exact hs
  | run _ _ exits => exact exits.trans hs
  | cycles h h' => cases task' <;> trivial

lemma Bears.le {x : Planned} {ws : List TaskId} (h : Bears m c c' t r x ws) (hw : w ∈ ws) :
    c.tasks.length ≤ w := by
  cases h with
  | aside | missing => cases hw
  | process hle => rwa [List.mem_singleton.1 hw]
  | chain hm hs =>
    split at hw
    · cases hw
    · exact Nat.le_of_eq (List.mem_singleton.1 hw).symm

lemma Bears.nodup {x : Planned} {ws : List TaskId} (h : Bears m c c' t r x ws) : ws.Nodup := by
  cases h with
  | aside | missing => exact .nil
  | process => exact List.pairwise_singleton ..
  | chain =>
    split
    · exact .nil
    · exact List.pairwise_singleton ..

/-- What was born stands at its number. -/
lemma Bears.slot {x : Planned} {ws : List TaskId} (h : Bears m c c' t r x ws) (hw : w ∈ ws) :
    ∃ task, slotAt c'.tasks w = some ⟨task, false⟩ ∧ task.owner? = some t ∧
      task.Suits r.exitOnError := by
  cases h with
  | aside | missing => cases hw
  | process hle hs =>
    rw [List.mem_singleton.1 hw]
    exact ⟨_, hs, rfl, trivial⟩
  | @chain target expr display mode hm hs =>
    split at hw
    · cases hw
    · rename_i hb
      rw [List.mem_singleton.1 hw]
      refine ⟨_, hs, by simp [audienceOf, hb, Task.owner?], ?_⟩
      simp [Course.nested, Course.start, Task.Suits, hb]

lemma Arises.owned {task : Task} (h : Arises m c c' w task) (ho : task.owner? = some t) :
    t < c.tasks.length ∧ Expects c'.tasks t w := by
  cases h with
  | keeper | triggered | asked => cases ho
  | waiter hlt hx hb he =>
    cases ho
    exact ⟨hlt, he⟩
  | @nested t' k r audience target expr name mode hs hm hx he =>
    unfold audienceOf at ho
    split at ho
    · cases ho
    · rename_i hb
      cases ho
      exact ⟨lt_of_slotAt hs, he hb⟩
  | cycles ht =>
    rw [Task.owner?_of_cycle (by rw [ht]; rfl)] at ho
    cases ho

lemma taskAt_eq_none_iff : taskAt c.tasks w = none ↔ slotAt c.tasks w = none :=
  Option.map_eq_none_iff

namespace Tended

/-- The task that a run waits for does not go without a word. -/
lemma not_mem_of_gone (h : Tended c) (hc : Steps cfg c c')
    (hr : taskAt c.tasks t = some (.run r audience)) (hw : w ∈ r.waiting)
    (hr' : taskAt c'.tasks t = some (.run r' audience)) (hn : slotAt c'.tasks w = none) :
    w ∉ r'.waiting := by
  obtain ⟨task, hs, ho, -⟩ := h.member hr hw
  obtain ⟨r₁, b, hr₁, rfl⟩ := (hc.departs hs hn).told rfl ho hr'
  rw [hr] at hr₁
  cases hr₁
  exact fun hin => ((h.nodup hr).mem_erase_iff.1 hin).1 rfl

/-- A task that was cancelled now has lost the run that waited for it. -/
lemma gone_of_cancels (h : Tended c) {slot : Slot} (hs : slotAt c.tasks w = some slot)
    (hx : Cancels c c' w) : ∃ t, slot.task.owner? = some t ∧ taskAt c'.tasks t = none := by
  cases hx with
  | run hv hw gone =>
    obtain ⟨task, hs', ho, -⟩ := h.member hv hw
    rw [hs] at hs'
    cases hs'
    exact ⟨_, ho, gone⟩
  | cycle hv ht =>
    have hsome := h.cancelled hv rfl
    rw [Task.owner?_of_cycle ht] at hsome
    cases hsome

/-- What a run waits for is left as it was. -/
lemma stays (h : Tended c) (hc : Steps cfg c c') (hr : taskAt c.tasks t = some (.run r audience))
    (hw : w ∈ r.waiting) (hr' : taskAt c'.tasks t = some (.run r' audience))
    (hw' : w ∈ r'.waiting) : ∃ task, slotAt c'.tasks w = some ⟨task, false⟩ ∧
      task.owner? = some t ∧ task.Suits r'.exitOnError := by
  obtain ⟨task, hs, ho, hsuits⟩ := h.member hr hw
  rcases hs' : slotAt c'.tasks w with _ | ⟨task', b⟩
  · exact absurd hw' (h.not_mem_of_gone hc hr hw hr' hs')
  · obtain ⟨slot, hs₁, hkin, -⟩ := hc.keeps.slot (lt_of_slotAt hs) hs'
    rw [hs] at hs₁
    cases hs₁
    obtain ⟨task₁, hr₁, hkin₁⟩ := hc.keeps.kin (lt_of_taskAt hr) hr'
    rw [hr] at hr₁
    cases hr₁
    obtain ⟨r₂, heq, -, -, he⟩ := hkin₁.of_run
    cases heq
    cases b with
    | false => exact ⟨task', rfl, hkin.owner?_eq.trans ho, he ▸ hkin.suits hsuits⟩
    | true =>
      obtain ⟨t', ho', gone⟩ := h.gone_of_cancels hs (hc.cancels hs rfl hs' rfl)
      rw [ho] at ho'
      cases ho'
      rw [hr'] at gone
      cases gone

/-- As long as a task is not cancelled, the run that started it waits for it. -/
lemma expects_stays (h : Tended c) (hc : Steps cfg c c') {slot slot' : Slot}
    (hs : slotAt c.tasks w = some slot) (hf : slot.cancelled = false)
    (ho : slot.task.owner? = some t) (hs' : slotAt c'.tasks w = some slot')
    (hf' : slot'.cancelled = false) : Expects c'.tasks t w := by
  obtain ⟨r, audience, hr, hw⟩ := (h.owned hs ho).2.1 hf
  rcases hc.keeps.run_after hr with hn | ⟨r', hr'⟩
  · obtain ⟨slot₁, hs₁, heq⟩ := Option.map_eq_some_iff.1 hr
    have hcancelled := (hc.departs hs₁ (taskAt_eq_none_iff.1 hn)).abandons heq hw hs'
    rw [hf'] at hcancelled
    cases hcancelled
  · refine ⟨r', audience, hr', ((hc.origin hr').waits hr hw).resolve_right ?_⟩
    rintro ⟨b, -, -, gone⟩
    rw [taskAt_eq_none_iff, hs'] at gone
    cases gone

theorem step (h : Tended c) (hc : Steps cfg c c') : Tended c' where
  nodup {t r' audience} hr' := by
    cases hc.origin hr' with
    | same hr => exact h.nodup hr
    | takes hr ha hx hb hw like =>
      rw [hw]
      refine List.nodup_append.2 ⟨h.nodup hr, hb.nodup, fun a hin b hb' heq => ?_⟩
      obtain ⟨task, hs, -⟩ := h.member hr hin
      exact Nat.not_le_of_lt (lt_of_slotAt hs) (heq ▸ hb.le hb')
    | quiet hr q =>
      have hnodup := h.nodup hr
      cases q <;> exact hnodup
    | told hr heq => exact heq ▸ (h.nodup hr).erase _
    | fresh _ heq => exact heq ▸ .nil
  member {t w r' audience} hr' hw := by
    cases hc.origin hr' with
    | same hr => exact h.stays hc hr hw hr' hw
    | takes hr ha hx hb heq like =>
      have hin := hw
      rw [heq] at hin
      rcases List.mem_append.1 hin with hin | hin
      · exact h.stays hc hr hin hr' hw
      · exact like.exits ▸ hb.slot hin
    | @quiet r hr q =>
      have hsame : r'.waiting = r.waiting := by cases q <;> rfl
      exact h.stays hc hr (hsame ▸ hw) hr' hw
    | told hr heq => exact h.stays hc hr (List.mem_of_mem_erase (heq ▸ hw)) hr' hw
    | fresh _ heq =>
      rw [heq] at hw
      cases hw
  owned {t w slot'} hs' ho := by
    by_cases hlt : w < c.tasks.length
    · -- the task was there before, and bore the same owner
      obtain ⟨slot, hs, hkin, hstill⟩ := hc.keeps.slot hlt hs'
      have ho₀ : slot.task.owner? = some t := hkin.owner?_eq ▸ ho
      obtain ⟨htw, -, hgone⟩ := h.owned hs ho₀
      refine ⟨htw, fun hf => ?_, fun hf => ?_⟩
      · have hf₀ : slot.cancelled = false := by
          by_contra hb
          rw [hstill (by simpa using hb)] at hf
          cases hf
        exact h.expects_stays hc hs hf₀ ho₀ hs' hf
      · by_cases hb : slot.cancelled = true
        · exact hc.keeps.gone (Nat.lt_trans htw hlt) (hgone hb)
        · have hcancels := hc.cancels hs (by simpa using hb) hs' hf
          obtain ⟨t', ho', gone⟩ := h.gone_of_cancels hs hcancels
          rw [ho₀] at ho'
          cases ho'
          exact gone
    · -- the task is new: its owner has begun to wait for it in the same step
      obtain ⟨hf, harises⟩ := hc.arises (Nat.not_lt.1 hlt) hs'
      obtain ⟨hlt', he⟩ := harises.owned ho
      refine ⟨Nat.lt_of_lt_of_le hlt' (Nat.not_lt.1 hlt), fun _ => he, fun hb => ?_⟩
      rw [hf] at hb
      cases hb
  cancelled {w slot'} hs' hb := by
    by_cases hlt : w < c.tasks.length
    · obtain ⟨slot, hs, hkin, -⟩ := hc.keeps.slot hlt hs'
      rw [hkin.owner?_eq]
      by_cases hb₀ : slot.cancelled = true
      · exact h.cancelled hs hb₀
      · obtain ⟨t, ho, -⟩ := h.gone_of_cancels hs (hc.cancels hs (by simpa using hb₀) hs' hb)
        rw [ho]
        rfl
    · obtain ⟨hf, -⟩ := hc.arises (Nat.not_lt.1 hlt) hs'
      rw [hf] at hb
      cases hb

end Tended

/-- Who has something to tell a run is a task that it waits for. -/
lemma Tended.expects {v : TaskId} {b : Arrival} (h : Tended c) (hv : Tells c t v b) :
    Expects c.tasks t v := by
  cases hv with
  | waiter hs | completed hs | broken hs => exact (h.owned hs rfl).2.1 rfl

lemma tended_nil : Tended {} := by
  refine ⟨?_, ?_, ?_, ?_⟩ <;> simp [taskAt, slotAt]

theorem tended_steady (cfg : Setting) : Steady cfg Tended where
  change h hc := h.step hc.steps
  request h hc hpre := h.step (hc.steps hpre : Steps cfg _ _)

theorem Calm.tended {s : State} (h : Calm cfg s) : Tended s.toCore :=
  (tended_steady cfg).calm tended_nil h

end

end ChainRunner.Run
