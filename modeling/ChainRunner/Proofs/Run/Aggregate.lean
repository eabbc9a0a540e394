import ChainRunner.Proofs.Process.Supervision
import ChainRunner.Proofs.Run.Failure
import ChainRunner.Proofs.Run.Termination

/-!
What a run makes of the failures below it.

A run counts what fails in it and in the chains that are nested below it in the foreground all the
way. One that does not exit on errors reports whether anything did; one that does gives up exactly
if it learns of such a failure.
-/

namespace ChainRunner.Run

/-- The run `root`, and the chains below it that are nested in the foreground all the way. -/
inductive Foreground (H : List Deed) : TaskId → TaskId → Prop
  | root {t : TaskId} : Foreground H t t
  | nested {t u v : TaskId} {k : Nat} {target name : String} {mode : Mode}
    (hx : .started t k (.chain u target mode name) ∈ H) (hb : mode ≠ .background)
    (h : Foreground H u v) : Foreground H t v

/-- Some member that counts has failed, in the run or below it. -/
def Core.FailsBelow (c : Core) (t : TaskId) : Prop :=
  ∃ u k x, Foreground c.history t u ∧ .started u k x ∈ c.history ∧ x.Failed c.table

/-- The arrival of a member that has failed. -/
def Arrival.IsFailure : Arrival → Prop
  | .settled _ failed _ => failed = true
  | .broken _ => True

/-! ### What a run blames is there -/

/-- Why the run `t` broke off between the cores `c` and `c'`. -/
inductive GivesUp (cfg : Setting) (c c' : Core) (t : TaskId) : Break → Prop
  | breaks {r : Course} {audience : Audience} {b : Break}
    (hs : slotAt c.tasks t = some ⟨.run r audience, false⟩) (hb : r.Broken cfg b)
    (gone : taskAt c'.tasks t = none) : GivesUp cfg c c' t b
  | fails {r : Course} {audience : Audience} {ds : List Deed} {why : Failure}
    (hs : slotAt c.tasks t = some ⟨.run r audience, false⟩) (he : r.exitOnError = true)
    (fatal : r.Fatal cfg.manifest t ds why) (hds : ds ⊆ c'.history)
    (gone : taskAt c'.tasks t = none) : GivesUp cfg c c' t (.failure why)

/-- What a step does about failures. -/
structure Weighs (cfg : Setting) (c c' : Core) : Prop extends Reckons cfg c c' where
  givesUp : ∀ {t : TaskId} {b : Break}, .brokeOff t b ∈ c'.history →
    .brokeOff t b ∈ c.history ∨ GivesUp cfg c c' t b

section

variable {cfg : Setting} {m : Manifest} {c c' : Core} {t u v : TaskId} {k : Nat} {x : Member}
  {b : Break} {r : Course} {audience : Audience}

lemma Change.givesUp (hc : Change cfg c c') (h : .brokeOff t b ∈ c'.history) :
    .brokeOff t b ∈ c.history ∨ GivesUp cfg c c' t b := by
  cases hc with
  | breaks hs hb =>
    refine (List.mem_append.1 h).imp_right fun hin => ?_
    cases List.mem_singleton.1 hin
    exact .breaks hs hb (taskAt_tellBreak_eq_none (by simp))
  | @fails self r audience ds why now hs hf he =>
    refine (List.mem_append.1 h).imp_right fun hin => ?_
    obtain ⟨target, mode, heq⟩ | heq | heq := hf.mem_deeds hin <;> cases heq
    exact .fails hs he hf (fun _ hd => List.mem_append_right _ (List.mem_append_left _ hd))
      (taskAt_tellBreak_eq_none (by simp))
  | news hp follows | droppedCycle hs ht =>
    exact .inl (mem_of_mem_ite_concat (by simp) h)
  | quiet | settles | leaves | cycles | droppedRun => exact .inl h
  | launches | awaits | nests | misses | completes | locks | refused | drains | triggers
  | releases => exact .inl ((List.mem_append.1 h).resolve_right (by simp))

theorem Change.weighs (hc : Change cfg c c') : Weighs cfg c c' :=
  { hc.reckons with givesUp := hc.givesUp }

theorem Request.weighs (hc : Request c c') (hpre : c.tasks <+: c'.tasks) : Weighs cfg c c' where
  toReckons := hc.reckons hpre
  givesUp h := by
    left
    cases hc with
    | run | push => exact (List.mem_append.1 h).resolve_right (by simp)
    | cycles | stop | cancel => exact h

/-- Everything is stopped only by a run that breaks off. -/
lemma Change.stopsAll (hc : Change cfg c c') (h : .stopped t ∈ c'.history) :
    .stopped t ∈ c.history ∨ ∃ b, .brokeOff t b ∈ c'.history := by
  cases hc with
  | @fails self r audience ds why now hs hf he =>
    refine (List.mem_append.1 h).imp_right fun hin => ?_
    obtain ⟨target, mode, heq⟩ | heq | heq := hf.mem_deeds hin <;> cases heq
    exact ⟨.failure why, by simp⟩
  | news hp follows | droppedCycle hs ht =>
    exact .inl (mem_of_mem_ite_concat (by simp) h)
  | quiet | settles | leaves | cycles | droppedRun => exact .inl h
  | launches | awaits | nests | misses | completes | breaks | locks | refused | drains | triggers
  | releases => exact .inl ((List.mem_append.1 h).resolve_right (by simp))

lemma stopped_stable (cfg : Setting) : Stable cfg fun c =>
    ∀ t, .stopped t ∈ c.history → ∃ b, Deed.brokeOff t b ∈ c.history where
  change h hc t hx := by
    rcases hc.stopsAll hx with hold | hnew
    · obtain ⟨b, hb⟩ := h t hold
      exact ⟨b, hc.moves.grows.subset hb⟩
    · exact hnew
  request {c c'} h hc t hx := by
    have hold : .stopped t ∈ c.history := by
      cases hc with
      | run | push => exact (List.mem_append.1 hx).resolve_right (by simp)
      | cycles | stop | cancel => exact hx
    obtain ⟨b, hb⟩ := h t hold
    exact ⟨b, (hc.moves (m := cfg.manifest)).grows.subset hb⟩

lemma Foreground.mono {H H' : List Deed} (hH : H <+: H') (h : Foreground H t u) :
    Foreground H' t u := by
  induction h with
  | root => exact .root
  | nested hx hb _ ih => exact .nested (hH.subset hx) hb ih

lemma Member.Failed.moves (h : x.Failed c.table) (hc : Moves m c c') : x.Failed c'.table := by
  cases x with
  | process => exact ⟨h.1, h.2.follows hc.follows⟩
  | chain | missing => exact h

namespace Core.FailsBelow

lemma moves (h : c.FailsBelow t) (hc : Moves m c c') : c'.FailsBelow t := by
  obtain ⟨u, k, x, hu, hx, hf⟩ := h
  exact ⟨u, k, x, hu.mono hc.grows, hc.grows.subset hx, hf.moves hc⟩

lemma of_member (hx : .started t k x ∈ c.history) (hf : x.Failed c.table) : c.FailsBelow t :=
  ⟨t, k, x, .root, hx, hf⟩

lemma of_nested {target name : String} {mode : Mode}
    (hx : .started t k (.chain u target mode name) ∈ c.history) (hb : mode ≠ .background)
    (h : c.FailsBelow u) : c.FailsBelow t := by
  obtain ⟨v, j, y, hv, hy, hf⟩ := h
  exact ⟨v, j, y, .nested hx hb hv, hy, hf⟩

end Core.FailsBelow

/-- Whatever a run takes for a failure goes back to one below it. -/
structure Blames (c : Core) : Prop where
  arrived : ∀ {t : TaskId} {r : Course} {audience : Audience} {a : Arrival},
    taskAt c.tasks t = some (.run r audience) → a ∈ r.arrived → a.IsFailure → c.FailsBelow t
  failed : ∀ {t : TaskId} {r : Course} {audience : Audience},
    taskAt c.tasks t = some (.run r audience) → r.failed = true → c.FailsBelow t
  strict : ∀ {t : TaskId} {r : Course} {audience : Audience},
    taskAt c.tasks t = some (.run r audience) → r.exitOnError = true → r.failed = false
  completed : ∀ {t : TaskId} {report : Report}, .completed t report ∈ c.history →
    (report.failed = true → c.FailsBelow t) ∧
      ∃ chain vars e, .opened t chain vars e ∈ c.history ∧ (e = true → report.failed = false)
  brokeOff : ∀ {t : TaskId} {b : Break}, .brokeOff t b ∈ c.history →
    c.FailsBelow t ∧ (∃ why, b = .failure why) ∧ ∃ chain vars, .opened t chain vars true ∈ c.history

namespace Blames

/-- A run that gives up on a failure of its own. -/
lemma of_fatal {ds : List Deed} {why : Failure} (h : Blames c) (hc : Moves m c c')
    (ht : taskAt c.tasks t = some (.run r audience)) (fatal : r.Fatal m t ds why)
    (hds : ds ⊆ c'.history) : c'.FailsBelow t := by
  cases fatal with
  | @member name code arrived ha hr =>
    have hin : .settled name true code ∈ r.arrived := hr ▸ List.mem_cons_self
    exact (h.arrived ht hin rfl).moves hc
  | missing ha ht' hm hseq => exact .of_member (hds (List.mem_singleton_self _)) hseq

lemma of_broken (h : Blames c) (hcfg : cfg.Sound)
    (ht : taskAt c.tasks t = some (.run r audience)) (hb : r.Broken cfg b) :
    c.FailsBelow t ∧ ∃ why, b = .failure why := by
  cases hb with
  | @member why arrived ha hr =>
    have hin : .broken why ∈ r.arrived := hr ▸ List.mem_cons_self
    exact ⟨h.arrived ht hin trivial, why, rfl⟩
  | crash ha hn => simp [hcfg _ _] at hn

/-- A run that is gone without having come to its end has given up. -/
lemma of_ends (h : Blames c) (hcfg : cfg.Sound) (hc : Moves cfg.manifest c c')
    (ht : taskAt c.tasks t = some (.run r audience)) (hends : r.Ends cfg c' t) (hu : ¬r.IsDone) :
    c'.FailsBelow t := by
  cases hends with
  | completes hd => exact absurd hd hu
  | breaks hb => exact (h.of_broken hcfg ht hb).1.moves hc
  | fails he hf hx fatal hds => exact h.of_fatal hc ht fatal hds

lemma of_tells {a : Arrival} (h : Blames c) (hcfg : cfg.Sound) (hk : Kept cfg.manifest c)
    (hc : Steps cfg c c') (hv : Tells c t v a) (gone : taskAt c'.tasks v = none)
    (ha : a.IsFailure) : c'.FailsBelow t := by
  cases hv with
  | waiter hs hp ho =>
    obtain ⟨k, i, hx, hb⟩ := hk.attributed.waiter (taskAt_of_slotAt hs)
    obtain rfl := ha
    exact (Core.FailsBelow.of_member hx ⟨hb, endedWith_of_outcome? hp ho⟩).moves hc.toMoves
  | completed hs hd =>
    obtain ⟨k, target, mode, hx, hb⟩ := hk.attributed.nested (taskAt_of_slotAt hs)
    exact (Core.FailsBelow.of_nested hx hb (h.failed (taskAt_of_slotAt hs) ha)).moves hc.toMoves
  | broken hs hu =>
    obtain ⟨k, target, mode, hx, hb⟩ := hk.attributed.nested (taskAt_of_slotAt hs)
    exact .of_nested (hc.grows.subset hx) hb (h.of_ends hcfg hc.toMoves (taskAt_of_slotAt hs)
      (hc.ends hs (taskAt_eq_none_iff.1 gone)) hu)

/-- A run that gives up had something to blame, and was to exit on errors. -/
lemma of_givesUp (h : Blames c) (hcfg : cfg.Sound) (hk : Kept cfg.manifest c) (hl : Lenient c)
    (hc : Moves cfg.manifest c c') (hg : GivesUp cfg c c' t b) :
    c'.FailsBelow t ∧ (∃ why, b = .failure why) ∧
      ∃ chain vars, .opened t chain vars true ∈ c'.history := by
  cases hg with
  | @breaks r audience b hs hb =>
    have ht := taskAt_of_slotAt hs
    obtain ⟨hfails, hwhy⟩ := h.of_broken hcfg ht hb
    -- nothing breaks a run that does not exit on errors
    have he : r.exitOnError = true := by
      by_contra hlenient
      cases hb with
      | member ha hr => exact hl.unbroken ht (by simpa using hlenient) _ (hr ▸ List.mem_cons_self)
      | crash ha hn => simp [hcfg _ _] at hn
    exact ⟨hfails.moves hc, hwhy, r.chain, r.vars,
      hc.grows.subset (he ▸ (hk.orderly.runs ht).opened)⟩
  | @fails r audience ds why hs he fatal hds =>
    have ht := taskAt_of_slotAt hs
    exact ⟨h.of_fatal hc ht fatal hds, ⟨why, rfl⟩, r.chain, r.vars,
      hc.grows.subset (he ▸ (hk.orderly.runs ht).opened)⟩

/-- The failure that a run has counted had arrived, or is a step that names nothing. -/
lemma of_failed {r' : Course} (h : Blames c) (hc : Moves m c c')
    (ho : Origin m c c' t r' audience) (hfailed : r'.failed = true) : c'.FailsBelow t := by
  cases ho with
  | same hr => exact (h.failed hr hfailed).moves hc
  | takes hr ha hx hb hw like hf =>
    rcases hf hfailed with hold | ⟨-, k, target, hx⟩
    · exact (h.failed hr hold).moves hc
    · exact .of_member hx rfl
  | @quiet r hr q =>
    cases q with
    | @enter name failed code arrived entries ha harrived =>
      rcases Bool.or_eq_true_iff.1 hfailed with hold | hnew
      · exact (h.failed hr hold).moves hc
      · have hin : .settled name failed code ∈ r.arrived := harrived ▸ List.mem_cons_self
        exact (h.arrived hr hin hnew).moves hc
    | skip | expand | begins => exact (h.failed hr hfailed).moves hc
  | told hr heq =>
    subst heq
    exact (h.failed hr hfailed).moves hc
  | fresh _ heq =>
    subst heq
    cases hfailed

/-- A run that exits on errors counts none. -/
lemma not_failed {r' : Course} (h : Blames c) (ho : Origin m c c' t r' audience)
    (he : r'.exitOnError = true) : r'.failed = false := by
  cases ho with
  | same hr => exact h.strict hr he
  | takes hr ha hx hb hw like =>
    have he := like.exits.symm.trans he
    exact like.failed (h.strict hr he) he
  | quiet hr q =>
    have hstrict := h.strict hr
    cases q with
    | @enter name failed code arrived entries ha harrived hgo =>
      have hwell : failed = false := by
        by_contra hbad
        have hexits := hgo (by simpa using hbad)
        rw [hexits] at he
        cases he
      simp [hstrict he, hwell]
    | skip | expand | begins => exact hstrict he
  | told hr heq =>
    have hstrict := h.strict hr
    subst heq
    exact hstrict he
  | fresh _ heq =>
    subst heq
    rfl

theorem step (h : Blames c) (hcfg : cfg.Sound) (hk : Kept cfg.manifest c) (hl : Lenient c)
    (hc : Weighs cfg c c') : Blames c' where
  arrived hr' hin ha := by
    obtain ⟨r, hr, -, hold | ⟨v, hv, gone⟩⟩ := (hc.origin hr').arrived hin
    · exact (h.arrived hr hold ha).moves hc.toMoves
    · exact h.of_tells hcfg hk hc.toSteps hv gone ha
  failed hr' := h.of_failed hc.toMoves (hc.origin hr')
  strict hr' := h.not_failed (hc.origin hr')
  completed {t report} hin := by
    obtain ⟨ds, hH, hds⟩ := hc.adds
    rw [hH] at hin
    rcases List.mem_append.1 hin with hold | hnew
    · obtain ⟨hfailed, chain, vars, e, ho, hstrict⟩ := h.completed hold
      exact ⟨fun hf => (hfailed hf).moves hc.toMoves, chain, vars, e, hc.grows.subset ho, hstrict⟩
    · obtain ⟨r, audience, hs, -, rfl⟩ := hds.completes hnew
      have ht := taskAt_of_slotAt hs
      exact ⟨fun hf => (h.failed ht hf).moves hc.toMoves, r.chain, r.vars, r.exitOnError,
        hc.grows.subset (hk.orderly.runs ht).opened, h.strict ht⟩
  brokeOff hin := by
    rcases hc.givesUp hin with hold | hnew
    · obtain ⟨hfails, hwhy, chain, vars, ho⟩ := h.brokeOff hold
      exact ⟨hfails.moves hc.toMoves, hwhy, chain, vars, hc.grows.subset ho⟩
    · exact h.of_givesUp hcfg hk hl hc.toMoves hnew

end Blames

end

/-! ### What fails below a run is blamed -/

/-- The run `t` has learned of a failure, and will not report that all went well. -/
inductive Core.Minds (c : Core) (t : TaskId) : Prop
  | known {r : Course} {audience : Audience} {a : Arrival}
    (ht : taskAt c.tasks t = some (.run r audience)) (hin : a ∈ r.arrived) (ha : a.IsFailure) :
    Minds c t
  | failed {r : Course} {audience : Audience} (ht : taskAt c.tasks t = some (.run r audience))
    (hf : r.failed = true) : Minds c t
  | ended (hlt : t < c.tasks.length) (hn : taskAt c.tasks t = none)
    (hx : ∀ report, .completed t report ∈ c.history → report.failed = true) : Minds c t

/-- The run that has started the member answers for it. -/
def Member.Counts : Member → Prop
  | .process _ i _ => i.isBackground = false
  | .chain _ _ mode _ => mode ≠ .background
  | .missing _ mode => mode = .sequential

def Member.EndedWell (c : Core) : Member → Prop
  | .process p .. => c.table.EndedWith p false
  | .chain u .. => ∃ report, .completed u report ∈ c.history ∧ report.failed = false
  | .missing .. => False

/-- The task `w` stands for the member of the run `t`. -/
def Member.StandsAt (ts : List (Option Slot)) (t w : TaskId) : Member → Prop
  | .process p _ name => taskAt ts w = some (.waiter p name t)
  | .chain u .. => w = u
  | .missing .. => False

/-- How a member of the run `t` ends is not lost on the run. -/
inductive Sees (c : Core) (t : TaskId) (x : Member) : Prop
  | well (h : x.EndedWell c) : Sees c t x
  | awaits {w : TaskId} (he : Expects c.tasks t w) (hw : x.StandsAt c.tasks t w) : Sees c t x
  | minds (h : c.Minds t) : Sees c t x

/-- No run loses sight of a member that counts. -/
structure Vigilant (c : Core) : Prop where
  sees : ∀ {t : TaskId} {k : Nat} {x : Member}, .started t k x ∈ c.history → x.Counts → Sees c t x

section

variable {cfg : Setting} {m : Manifest} {c c' : Core} {t u w : TaskId} {k : Nat} {x : Member}
  {r : Course} {audience : Audience} {report : Report}

/-- A run that is gone has told that it failed, or has not come to its end. -/
lemma minds_of_gone (ho : Orderly m c) (hc : Moves m c c')
    (ht : taskAt c.tasks t = some (.run r audience)) (hn : taskAt c'.tasks t = none)
    (h : r.IsDone → r.failed = true) : c'.Minds t := by
  refine .ended (Nat.lt_of_lt_of_le (lt_of_taskAt ht) hc.keeps.length_le) hn fun report hin => ?_
  obtain ⟨ds, hH, hds⟩ := hc.adds
  rw [hH] at hin
  rcases List.mem_append.1 hin with hold | hnew
  · rw [(ho.completed hold).2] at ht
    cases ht
  · obtain ⟨r', audience', hs, hd, rfl⟩ := hds.completes hnew
    cases (taskAt_of_slotAt hs).symm.trans ht
    exact h hd

lemma Origin.stays {r' : Course} {audience' : Audience} (h : Origin m c c' t r' audience')
    (ht : taskAt c.tasks t = some (.run r audience)) (hf : r.failed = true) :
    r'.failed = true := by
  cases h with
  | same ht₁ =>
    cases ht.symm.trans ht₁
    exact hf
  | takes ht₁ _ _ _ _ like =>
    cases ht.symm.trans ht₁
    exact like.stays hf
  | quiet ht₁ q =>
    cases ht.symm.trans ht₁
    cases q with
    | enter => exact Bool.or_eq_true_iff.2 (.inl hf)
    | skip | expand | begins => exact hf
  | told ht₁ heq =>
    cases ht.symm.trans ht₁
    subst heq
    exact hf
  | fresh hlen => exact absurd (lt_of_taskAt ht) (hlen ▸ Nat.lt_irrefl _)

/-- A failure that has arrived waits until the run counts it. -/
lemma Origin.heeds {r' : Course} {audience' : Audience} {a : Arrival}
    (h : Origin m c c' t r' audience') (ht : taskAt c.tasks t = some (.run r audience))
    (hin : a ∈ r.arrived) (ha : a.IsFailure) : a ∈ r'.arrived ∨ r'.failed = true := by
  cases h with
  | same ht₁ =>
    cases ht.symm.trans ht₁
    exact .inl hin
  | takes ht₁ _ _ _ _ like =>
    cases ht.symm.trans ht₁
    exact .inl (like.arrived ▸ hin)
  | quiet ht₁ q =>
    cases ht.symm.trans ht₁
    cases q with
    | enter entries hagenda harrived =>
      rw [harrived] at hin
      rcases List.mem_cons.1 hin with rfl | hin
      · exact .inr (Bool.or_eq_true_iff.2 (.inr ha))
      · exact .inl hin
    | skip | expand | begins => exact .inl hin
  | told ht₁ heq =>
    cases ht.symm.trans ht₁
    subst heq
    exact .inl (List.mem_append_left _ hin)
  | fresh hlen => exact absurd (lt_of_taskAt ht) (hlen ▸ Nat.lt_irrefl _)

lemma Core.Minds.step (h : c.Minds t) (ho : Orderly m c) (hc : Moves m c c') : c'.Minds t := by
  cases h with
  | known ht hin ha =>
    rcases hc.keeps.run_after ht with hn | ⟨r', hr'⟩
    · exact minds_of_gone ho hc ht hn fun hd => by simp [hd.2.1] at hin
    · rcases (hc.origin hr').heeds ht hin ha with hin' | hf
      · exact .known hr' hin' ha
      · exact .failed hr' hf
  | failed ht hf =>
    rcases hc.keeps.run_after ht with hn | ⟨r', hr'⟩
    · exact minds_of_gone ho hc ht hn fun _ => hf
    · exact .failed hr' ((hc.origin hr').stays ht hf)
  | ended hlt hn hx =>
    refine .ended (Nat.lt_of_lt_of_le hlt hc.keeps.length_le) (hc.keeps.gone hlt hn)
      fun report hin => ?_
    obtain ⟨ds, hH, hds⟩ := hc.adds
    rw [hH] at hin
    rcases List.mem_append.1 hin with hold | hnew
    · exact hx report hold
    · obtain ⟨r, audience, hs, -⟩ := hds.completes hnew
      rw [taskAt_of_slotAt hs] at hn
      cases hn

lemma Member.EndedWell.moves (h : x.EndedWell c) (hc : Moves m c c') : x.EndedWell c' := by
  cases x with
  | process => exact h.follows hc.follows
  | chain =>
    obtain ⟨report, hx, hwell⟩ := h
    exact ⟨report, hc.grows.subset hx, hwell⟩
  | missing => exact h

/-- A run that has come to its end reports whether it has failed. -/
lemma reported_of_done (ho : Orderly cfg.manifest c) (hc : Steps cfg c c')
    (hs : slotAt c.tasks u = some ⟨.run r audience, false⟩) (hd : r.IsDone)
    (hn : taskAt c'.tasks u = none) :
    ∃ report, .completed u report ∈ c'.history ∧ report.failed = r.failed := by
  cases hc.ends hs (taskAt_eq_none_iff.1 hn) with
  | @completes report _ hx =>
    obtain ⟨ds, hH, hds⟩ := hc.adds
    have hin := hx
    rw [hH] at hin
    rcases List.mem_append.1 hin with hold | hnew
    · have hgone := (ho.completed hold).2
      rw [taskAt_of_slotAt hs] at hgone
      cases hgone
    · obtain ⟨r', audience', hs', -, rfl⟩ := hds.completes hnew
      cases hs.symm.trans hs'
      exact ⟨_, hx, rfl⟩
  | breaks hb => exact absurd hd hb.not_isDone
  | fails _ _ _ fatal => exact absurd hd fatal.not_isDone

/-- A member that tells of no failure has ended well. -/
lemma endedWell_of_tells {a : Arrival} (hk : Kept cfg.manifest c) (hc : Steps cfg c c')
    (hx : .started t k x ∈ c.history) (hw : x.StandsAt c.tasks t w) (hv : Tells c t w a)
    (gone : taskAt c'.tasks w = none) (ha : ¬a.IsFailure) : x.EndedWell c' := by
  cases x with
  | process p i name =>
    cases hv with
    | waiter hs hp ho =>
      cases (taskAt_of_slotAt hs).symm.trans hw
      have hwell := endedWith_of_outcome? hp ho
      rw [Bool.eq_false_iff.2 ha] at hwell
      exact hwell.follows hc.follows
    | completed hs | broken hs => cases (taskAt_of_slotAt hs).symm.trans hw
  | chain u target mode name =>
    obtain rfl := hw
    cases hv with
    | waiter hs =>
      obtain ⟨expr, chain, vars, e, -, -, hopen⟩ := hk.orderly.nested hx
      obtain ⟨r, audience, heq⟩ := hk.orderly.opened_run hopen (taskAt_of_slotAt hs)
      cases heq
    | completed hs hd =>
      obtain ⟨report, hreport, heq⟩ := reported_of_done hk.orderly hc hs hd gone
      exact ⟨report, hreport, heq.trans (Bool.eq_false_iff.2 ha)⟩
    | broken hs hu => exact absurd trivial ha
  | missing => exact hw

/-- As long as the member is not over, the run waits for it, and then it learns how it ended. -/
lemma sees_of_awaits (hk : Kept cfg.manifest c) (hc : Steps cfg c c')
    (hx : .started t k x ∈ c.history) (he : Expects c.tasks t w) (hw : x.StandsAt c.tasks t w) :
    Sees c' t x := by
  obtain ⟨r, audience, ht, hin⟩ := he
  rcases hc.keeps.run_after ht with hn | ⟨r', hr'⟩
  · exact .minds (minds_of_gone hk.orderly hc.toMoves ht hn fun hd => by simp [hd.2.2.1] at hin)
  · rcases (hc.origin hr').waits ht hin with hin' | ⟨a, rfl, hv, gone⟩
    · refine .awaits ⟨r', audience, hr', hin'⟩ ?_
      cases x with
      | process p i name =>
        obtain ⟨task, hs, -⟩ := hk.tended.stays hc ht hin hr' hin'
        have hw' : taskAt c'.tasks w = some task := taskAt_of_slotAt hs
        obtain ⟨task₀, hw₀, hkin⟩ := hc.keeps.kin (lt_of_taskAt hw) hw'
        cases hw₀.symm.trans hw
        obtain rfl := hkin.of_waiter
        exact hw'
      | chain => exact hw
      | missing => exact hw
    · by_cases ha : a.IsFailure
      · exact .minds (.known hr' (List.mem_append_right _ (List.mem_singleton_self _)) ha)
      · exact .well (endedWell_of_tells hk hc hx hw hv gone ha)

lemma Vigilant.step (h : Vigilant c) (hk : Kept cfg.manifest c) (hc : Reckons cfg c c') :
    Vigilant c' := by
  refine ⟨fun {t k x} hx hcounts => ?_⟩
  have hstill (hold : .started t k x ∈ c.history) : Sees c' t x := by
    cases h.sees hold hcounts with
    | well hwell => exact .well (hwell.moves hc.toMoves)
    | awaits he hw => exact sees_of_awaits hk hc.toSteps hold he hw
    | minds hm => exact .minds (hm.step hk.orderly hc.toMoves)
  rcases hc.founds hx with hold | hnew
  · exact hstill hold
  · cases hnew with
    | aside hb =>
      rw [Member.Counts, hb] at hcounts
      cases hcounts
    | awaited he hw => exact .awaits he hw
    | nested he => exact .awaits (he hcounts) rfl
    | missed _ hr =>
      rcases hc.starts hx with hold | ⟨hmeets, -⟩
      · exact hstill hold
      · obtain ⟨r, audience, hs, hagenda⟩ := hmeets.busy
        rcases hc.keeps.run_after (taskAt_of_slotAt hs) with hn | ⟨r', hr'⟩
        · exact .minds (minds_of_gone hk.orderly hc.toMoves (taskAt_of_slotAt hs) hn
            fun hd => absurd hd.1 hagenda)
        · exact .minds (.failed hr' (hr hcounts _ _ hr'))

namespace Vigilant

/-- A run that reports no failure has seen all members end well that it answers for. -/
lemma endedWell (h : Vigilant c) (ho : Orderly m c) (hreport : .completed t report ∈ c.history)
    (hwell : report.failed = false) (hx : .started t k x ∈ c.history) (hcounts : x.Counts) :
    x.EndedWell c := by
  have hgone := (ho.completed hreport).2
  cases h.sees hx hcounts with
  | well h => exact h
  | awaits he =>
    obtain ⟨r, audience, ht, -⟩ := he
    simp [hgone] at ht
  | minds hm =>
    cases hm with
    | known ht | failed ht => simp [hgone] at ht
    | ended _ _ hfailed => simp [hfailed report hreport] at hwell

theorem not_failsBelow (h : Vigilant c) (ho : Orderly m c)
    (hreport : .completed t report ∈ c.history) (hwell : report.failed = false) :
    ¬c.FailsBelow t := by
  rintro ⟨u, k, x, hu, hx, hf⟩
  induction hu generalizing report with
  | root =>
    cases x with
    | process p i name =>
      obtain ⟨h₁, hp₁, -, hbad⟩ := hf.2
      obtain ⟨h₂, hp₂, -, hgood⟩ := h.endedWell ho hreport hwell hx hf.1
      cases hp₁.symm.trans hp₂
      rw [hbad] at hgood
      cases hgood
    | chain => exact hf
    | missing => exact h.endedWell ho hreport hwell hx hf
  | nested hx' hb _ ih =>
    obtain ⟨report', hreport', hwell'⟩ := h.endedWell ho hreport hwell hx' hb
    exact ih hreport' hwell' hx

end Vigilant

end

/-! ### What a run returns -/

lemma weighed_steady {cfg : Setting} (hcfg : cfg.Sound) : Steady cfg fun c =>
    (Kept cfg.manifest c ∧ Lenient c) ∧ Blames c ∧ Vigilant c where
  change h hc :=
    ⟨(lenient_steady hcfg).change h.1 hc, h.2.1.step hcfg h.1.1 h.1.2 hc.weighs,
      h.2.2.step h.1.1 hc.reckons⟩
  request h hc hpre :=
    ⟨(lenient_steady hcfg).request h.1 hc hpre, h.2.1.step hcfg h.1.1 h.1.2 (hc.weighs hpre),
      h.2.2.step h.1.1 (hc.reckons hpre)⟩

lemma blames_nil : Blames {} := by
  refine ⟨?_, ?_, ?_, ?_, ?_⟩ <;> simp [taskAt, slotAt]

theorem Calm.weighed {cfg : Setting} {s : State} (hcfg : cfg.Sound) (h : Calm cfg s) :
    Blames s.toCore ∧ Vigilant s.toCore :=
  ((weighed_steady hcfg).calm ⟨⟨kept_nil _, lenient_nil⟩, blames_nil,
    ⟨fun hx => absurd hx List.not_mem_nil⟩⟩ h).2

/-- What the run `t` returns tells whether something has failed below it; `e` says whether it
exits on errors. -/
structure Aggregates (c : Core) (t : TaskId) (e : Bool) : Prop where
  reports : ∀ report, .completed t report ∈ c.history →
    (report.failed = true ↔ c.FailsBelow t) ∧ (e = true → report.failed = false)
  givesUp : ∀ b, .brokeOff t b ∈ c.history →
    e = true ∧ c.FailsBelow t ∧ ∃ why, b = .failure why

/-- The run `t` has returned a report, or an error, or it was dropped because the run that waited
for it was. -/
inductive Returned (H : List Deed) (t : TaskId) (e : Bool) : Prop
  | report {report : Report} (hx : .completed t report ∈ H)
  | error {b : Break} (he : e = true) (hx : .brokeOff t b ∈ H)
  | dropped {r : TaskId} {k : Nat} {target name : String} {mode : Mode} (he : e = true)
    (hx : .started r k (.chain t target mode name) ∈ H) (hb : mode ≠ .background)
    (h : TornDown H r)

lemma Calm.returned {cfg : Setting} {s : State} {t : TaskId} {chain : String} {vars : Variables}
    {e : Bool} (hcfg : cfg.Sound) (hs : Calm cfg s) (ho : .opened t chain vars e ∈ s.history)
    (hn : taskAt s.tasks t = none) : Returned s.history t e := by
  cases e with
  | false =>
    obtain ⟨report, hx⟩ := (hs.lenient hcfg).completed ho hn
    exact .report hx
  | true =>
    rcases hs.ended t chain vars true ho hn with ⟨report, hx⟩ | htorn
    · exact .report hx
    · cases htorn with
      | brokeOff hx => exact .error rfl hx
      | dropped h hx hb => exact .dropped rfl hx hb h

/-- **What a run makes of the failures below it.** As long as nobody drops a task from outside and
the launcher does not break down, a run reports a failure exactly if some process that is not in
the background has failed, or some step names nothing, in the run or in a chain that is nested
below it in the foreground all the way. A run that exits on errors never reports one: it gives up,
and does so only if there is one. Once all processes of a run have ended and every task has had
its turn, it has returned. A process has failed if it has not left with the status 0, or is in the
foreground and wrote to its error stream before it was over. -/
theorem failures_aggregate {cfg : Setting} (hcfg : cfg.Sound) :
    (∀ s, Calm cfg s → ∀ t chain vars e, .opened t chain vars e ∈ s.history →
      Aggregates s.toCore t e ∧ (taskAt s.tasks t = none → Returned s.history t e)) ∧
    (∀ σ, Fair cfg σ → ∀ n t chain vars e, .opened t chain vars e ∈ (σ n).history →
      (∀ k p, OnBehalf (σ k).history t p → ∃ k', .ended p ∈ (σ k').history) →
      ∃ k, ∀ j, k ≤ j → Returned (σ j).history t e) ∧
    ∀ h : Handle, h.hasEnded = false → h.failed = false → ∀ news,
      (Supervision.handleAfter h news).failed = true ↔
        (Supervision.handleAfter h news).hasEnded = true ∧
          (Supervision.handleAfter h news).code ≠ some 0 ∨ Supervision.Stained h news := by
  refine ⟨fun s hs t chain vars e ho => ⟨⟨fun report hx => ?_, fun b hx => ?_⟩, ?_⟩, ?_, ?_⟩
  · obtain ⟨hblames, hvigilant⟩ := hs.weighed hcfg
    obtain ⟨hfails, chain', vars', e', ho', hstrict⟩ := hblames.completed hx
    obtain ⟨-, -, rfl⟩ := hs.kept.orderly.opened_unique ho ho'
    refine ⟨⟨hfails, fun hbelow => ?_⟩, hstrict⟩
    -- a run that has succeeded would have to know of a failure below it
    by_contra hwell
    exact hvigilant.not_failsBelow hs.kept.orderly hx (by simpa using hwell) hbelow
  · obtain ⟨hfails, hwhy, chain', vars', ho'⟩ := (hs.weighed hcfg).1.brokeOff hx
    obtain ⟨-, -, rfl⟩ := hs.kept.orderly.opened_unique ho ho'
    exact ⟨rfl, hfails, hwhy⟩
  · exact hs.returned hcfg ho
  · intro σ h n t chain vars e ho hend
    obtain ⟨k, hk, hspent⟩ := h.exists_spent ho hend
    refine ⟨k, fun j hj => ?_⟩
    exact (h.calm_at j).returned hcfg ((h.grows (Nat.le_trans hk hj)).subset ho)
      ((h.spent hspent hj).2 t .root)
  · exact fun h hended hfailed news => Supervision.failed_iff h hended hfailed news

/-- The run of `bg`, where `a` fails, until that is known; `e` says whether it exits on errors. -/
def State.blamed (e : Bool) : State :=
  let s : State := (({} : State).spawn (.run (.start "bg" .empty e) (.caller "r"))).1
  ((s.actAll .paused [0, 0, 1, 1, 1]).endProcess 0 false (some 1) false).actAll .paused [2, 1]

/-- It gives up. -/
def State.givenUp : State := (State.blamed true).actAll .paused [0]

/-- It goes on with `b`. -/
def State.tolerated : State :=
  (((State.blamed false).actAll .paused [1, 1, 1]).endProcess 1 false (some 0) false).actAll .paused
    [3, 1, 1, 0, 0]

lemma calm_blamed (e : Bool) : Calm .paused (.blamed e) := by
  have h := calm_run .paused "bg" .empty e "r"
  have h := (h.evolves (evolves_actAll [0, 0, 1, 1, 1])).evolves
    (evolves_endProcess 0 false (some 1) false)
  exact h.evolves (evolves_actAll [2, 1])

lemma calm_givenUp : Calm .paused .givenUp := (calm_blamed true).evolves (evolves_actAll [0])

lemma calm_tolerated : Calm .paused .tolerated := by
  have h := ((calm_blamed false).evolves (evolves_actAll [1, 1, 1])).evolves
    (evolves_endProcess 1 false (some 0) false)
  exact h.evolves (evolves_actAll [3, 1, 1, 0, 0])

theorem failures_aggregate_blamed :
    (∃ report, .completed 0 report ∈ State.tolerated.history ∧ report.failed = true) ∧
      Returned State.givenUp.history 0 true ∧ State.givenUp.toCore.FailsBelow 0 ∧
      (∃ k, ∀ j, k ≤ j → Returned (State.nested j).history 0 true) ∧
      ∀ code, (Supervision.handleAfter { name := "a", background := false }
        [(0, .spawned 7), (1, .wrote true [33]), (2, .exited code)]).failed = true := by
  have hcfg : Setting.paused.Sound := fun _ _ => rfl
  obtain ⟨hall, hfair, hprocess⟩ := failures_aggregate hcfg
  have htolerated : State.tolerated.history =
      [.opened 0 "bg" .empty false, .opened 1 "a - b" .empty false,
        .started 0 1 (.chain 1 "bg" .sequential "bg"),
        .started 1 1 (.process 0 ⟨"a", "a", "true", .sequential⟩ "a"), .ended 0,
        .started 1 2 (.process 1 ⟨"b", "b", "true", .sequential⟩ "b"), .ended 1,
        .completed 1 ⟨"a - b", true, [⟨"a", false, true, true, some 1⟩,
          ⟨"b", false, true, false, some 0⟩]⟩,
        .completed 0 ⟨"bg", true, [⟨"bg", false, true, true, none⟩]⟩] := rfl
  have hgivenUp : State.givenUp.history =
      [.opened 0 "bg" .empty true, .opened 1 "a - b" .empty true,
        .started 0 1 (.chain 1 "bg" .sequential "bg"),
        .started 1 1 (.process 0 ⟨"a", "a", "true", .sequential⟩ "a"), .ended 0, .stopped 1,
        .brokeOff 1 (.failure (.stepFailed "a" (some 1))),
        .brokeOff 0 (.failure (.stepFailed "a" (some 1)))] := rfl
  refine ⟨?_, ?_, ?_, ?_, fun code => ?_⟩
  · obtain ⟨haggregates, -⟩ := hall _ calm_tolerated 0 "bg" .empty false (by simp [htolerated])
    have hnested : .started 0 1 (.chain 1 "bg" .sequential "bg") ∈ State.tolerated.history := by
      simp [htolerated]
    have hx : .started 1 1 (.process 0 ⟨"a", "a", "true", .sequential⟩ "a") ∈
        State.tolerated.history := by simp [htolerated]
    have hbad : (Member.process 0 ⟨"a", "a", "true", .sequential⟩ "a").Failed
        State.tolerated.table := ⟨rfl, _, rfl, rfl, rfl⟩
    have hfails : State.tolerated.toCore.FailsBelow 0 :=
      .of_nested hnested (by simp) (.of_member hx hbad)
    have hreport : .completed 0 ⟨"bg", true, [⟨"bg", false, true, true, none⟩]⟩ ∈
        State.tolerated.history := by simp [htolerated]
    exact ⟨_, hreport, (haggregates.reports _ hreport).1.2 hfails⟩
  · obtain ⟨-, hreturned⟩ := hall _ calm_givenUp 0 "bg" .empty true (by simp [hgivenUp])
    exact hreturned rfl
  · obtain ⟨haggregates, -⟩ := hall _ calm_givenUp 0 "bg" .empty true (by simp [hgivenUp])
    have hgone : .brokeOff 0 (.failure (.stepFailed "a" (some 1))) ∈ State.givenUp.history := by
      simp [hgivenUp]
    exact (haggregates.givesUp _ hgone).2.1
  · exact hfair State.nested fair_nested 0 0 "bg" .empty true opened_nested
      fun k p hp => ended_nested hp
  · exact (hprocess _ rfl rfl _).2 (.inr ⟨rfl, [(0, .spawned 7)], 1, [33], _, rfl, by simp, rfl⟩)

end ChainRunner.Run
