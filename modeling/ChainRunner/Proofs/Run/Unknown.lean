import ChainRunner.Proofs.Run.Culprit
import ChainRunner.Proofs.Run.Tags

/-!
What a run reports of a step that names nothing.

A run that exits on errors gives up at the first sequential step whose target is neither a script
nor a chain. It does not report the target but the name that is handed out for it, and that is
another one if an instance that the run has started before shows under the target. The failure
then climbs from run to run as it is, unless that of a process is faster.
-/

namespace ChainRunner

/-- Some sequential step has this target, in the expression or in that of a chain which is reached
from it by sequential steps. -/
inductive Manifest.Mentions (m : Manifest) : String → String → Prop
  | step {e target : String} (h : .sequential target ∈ Chain.parse e) : Mentions m e target
  | chain {e e' name target : String} (h : .sequential name ∈ Chain.parse e)
    (hm : m.resolve name = .chain e') (hx : Mentions m e' target) : Mentions m e target

/-- An instance shows under the name of its script, or under that with labels behind it. -/
lemma Instance.displayName_of_expand {script body : String} {mode : Mode} {vs : Variables}
    {i : Instance} (h : i ∈ Instance.expand script body mode vs) : i.script = script ∧
      (i.displayName = script ∨ ∃ labels, i.displayName = script ++ "::" ++ labels) := by
  obtain ⟨asg, -, rfl⟩ := List.mem_map.1 h
  refine ⟨rfl, ?_⟩
  dsimp only [nameFor]
  split
  · exact .inl rfl
  · exact .inr ⟨_, rfl⟩

/-- What is planned for the step, by what it names. -/
inductive Step.Yields (m : Manifest) (vars : Variables) (step : Step) : Run.Planned → Prop
  | launch {name body : String} {i : Instance} (hm : m.resolve name = .script body)
    (hi : i ∈ Instance.expand name body step.mode vars) : Yields m vars step (.launch i)
  | chain {name e : String} (ht : step.target? = some name) (hm : m.resolve name = .chain e) :
    Yields m vars step (.chain name step.mode)
  | unknown {name : String} (ht : step.target? = some name) (hm : m.resolve name = .unknown) :
    Yields m vars step (.unknown name step.mode)

namespace Run

/-- The plan of the expression comes to a sequential step with this target that names nothing. It
is `before` up to there, where there is no other such step. -/
structure Strands (m : Manifest) (vars : Variables) (e target : String) (before : List Planned) :
    Prop where
  planned : before ++ [.unknown target .sequential] <+: (plan m e vars).flatten
  first : ∀ other, .unknown other .sequential ∉ before

/-- The name that is handed out for the target after those for `before`. -/
def nameAfter (before : List Planned) (target : String) : String :=
  titleOf target ((before.filterMap Planned.asked?).count target + 1)

/-- Where the failure of the run `t` comes from. Nothing is said here of a step that has failed. -/
inductive Springs (m : Manifest) (H : List Deed) : Failure → TaskId → Prop
  | member {t : TaskId} {name : String} {code : Option Int} : Springs m H (.stepFailed name code) t
  | unknown {t : TaskId} {e target : String} {vars : Variables} {before : List Planned}
    (hopen : .opened t e vars true ∈ H) (h : Strands m vars e target before) :
    Springs m H (.unknownScript (nameAfter before target)) t
  | climbs {t u : TaskId} {why : Failure} (hx : Encloses H t u) (h : Springs m H why u) :
    Springs m H why t

/-- The run `t` has come to the step, which names nothing, after the deeds `pre`, and has given up
at once. -/
def GaveUp (H pre : List Deed) (t : TaskId) (k : Nat) (target name : String) : Prop :=
  pre ++ [.started t k (.missing target .sequential), .stopped t,
    .brokeOff t (.failure (.unknownScript name))] <+: H

/-- All that the runs report, or are about to report, comes from a step; and a run that exits on
errors gives up at a sequential step that names nothing. -/
structure Sourced (m : Manifest) (c : Core) : Prop where
  arrived : ∀ {t : TaskId} {r : Course} {audience : Audience} {why : Failure},
    taskAt c.tasks t = some (.run r audience) → .broken why ∈ r.arrived →
      Springs m c.history why t
  brokeOff : ∀ {t : TaskId} {why : Failure}, .brokeOff t (.failure why) ∈ c.history →
    Springs m c.history why t
  missed : ∀ {t : TaskId} {k : Nat} {e target : String} {vars : Variables},
    .started t k (.missing target .sequential) ∈ c.history → .opened t e vars true ∈ c.history →
      ∃ pre name, GaveUp c.history pre t k target name

/-- The run `t` comes to a sequential step that names nothing, and gives up if it exits on
errors. -/
def Misses (c c' : Core) (t : TaskId) (k : Nat) (target : String) : Prop :=
  ∃ r audience, taskAt c.tasks t = some (.run r audience) ∧ (r.exitOnError = true →
    GaveUp c'.history c.history t k target (r.names.unique target).1)

/-- What a step does about failures, and about those that name nothing. -/
structure Marks (cfg : Setting) (c c' : Core) : Prop extends Weighs cfg c c' where
  misses : ∀ {t : TaskId} {k : Nat} {target : String},
    .started t k (.missing target .sequential) ∈ c'.history →
      .started t k (.missing target .sequential) ∈ c.history ∨ Misses c c' t k target

section

variable {cfg : Setting} {m : Manifest} {c c' : Core} {H H' : List Deed} {t u : TaskId} {k : Nat}
  {e target name : String} {vars : Variables} {before : List Planned} {why : Failure} {r : Course}
  {audience : Audience} {i : Instance} {mode : Mode} {x : Planned}

/-! ### Planned steps -/

lemma yields_of_mem_planStep {step : Step} (hx : x ∈ planStep m vars step) :
    step.Yields m vars x := by
  unfold planStep at hx
  split at hx
  · cases hx
  · rename_i name ht
    split at hx
    · obtain ⟨i, hi, rfl⟩ := List.mem_map.1 hx
      exact .launch ‹_› hi
    · cases List.mem_singleton.1 hx
      exact .chain ht ‹_›
    · cases List.mem_singleton.1 hx
      exact .unknown ht ‹_›

lemma exists_step_of_planned (hx : x ∈ (plan m e vars).flatten) :
    ∃ step ∈ Chain.parse e, step.Yields m vars x := by
  obtain ⟨ps, hps, hx⟩ := List.mem_flatten.1 hx
  obtain ⟨b, hb, rfl⟩ := List.mem_map.1 hps
  obtain ⟨step, hstep, hx⟩ := List.mem_flatMap.1 hx
  exact ⟨step, Chain.mem_parse_of_batches hb hstep, yields_of_mem_planStep hx⟩

lemma sequential_of_target? {step : Step} (ht : step.target? = some name)
    (hb : step.mode ≠ .background) : step = .sequential name := by
  cases step with
  | sequential => exact congrArg Step.sequential (Option.some.inj ht)
  | background => exact absurd rfl hb
  | pause => cases ht

lemma chain_of_planned (hx : .chain name mode ∈ (plan m e vars).flatten) :
    (mode ≠ .background → .sequential name ∈ Chain.parse e) ∧ ∃ e', m.resolve name = .chain e' := by
  obtain ⟨step, hstep, hyields⟩ := exists_step_of_planned hx
  cases hyields with
  | chain ht hm => exact ⟨fun hb => sequential_of_target? ht hb ▸ hstep, _, hm⟩

lemma unknown_of_planned (hx : .unknown name mode ∈ (plan m e vars).flatten) :
    (mode ≠ .background → .sequential name ∈ Chain.parse e) ∧ m.resolve name = .unknown := by
  obtain ⟨step, hstep, hyields⟩ := exists_step_of_planned hx
  cases hyields with
  | unknown ht hm => exact ⟨fun hb => sequential_of_target? ht hb ▸ hstep, hm⟩

lemma launch_of_planned (hx : .launch i ∈ (plan m e vars).flatten) :
    ∃ body, m.resolve i.script = .script body ∧
      (i.displayName = i.script ∨ ∃ labels, i.displayName = i.script ++ "::" ++ labels) := by
  obtain ⟨step, -, hyields⟩ := exists_step_of_planned hx
  cases hyields with
  | launch hm hi =>
    obtain ⟨rfl, hname⟩ := Instance.displayName_of_expand hi
    exact ⟨_, hm, hname⟩

lemma Orderly.planned {x : Member} (ho : Orderly m c) (hx : .started t k x ∈ c.history)
    {flag : Bool} (hopen : .opened t e vars flag ∈ c.history) :
    x.planned ∈ (plan m e vars).flatten :=
  (ho.ordered.startsOf_prefix (ho.openedAs hopen)).subset
    (List.mem_map_of_mem (List.mem_map_of_mem (mem_startsOf.2 hx)))

/-! ### The step that a run strands at -/

lemma titleOf_eq_self {n : Nat} : titleOf name (n + 1) = name ↔ n = 0 := by
  unfold titleOf
  split
  · exact iff_of_true rfl (by omega)
  · refine iff_of_false (fun h => ?_) (by omega)
    have hlen := congrArg String.length (show name ++ "#" ++ (n + 1).repr = name from h)
    have hmark : "#".length = 1 := rfl
    rw [String.length_append, String.length_append] at hlen
    omega

namespace Strands

lemma mem (h : Strands m vars e target before) (hx : x ∈ before) : x ∈ (plan m e vars).flatten :=
  h.planned.subset (List.mem_append_left _ hx)

lemma unknown (h : Strands m vars e target before) :
    .sequential target ∈ Chain.parse e ∧ m.resolve target = .unknown := by
  obtain ⟨hstep, hm⟩ := unknown_of_planned
    (h.planned.subset (List.mem_append_right _ (List.mem_singleton_self _)))
  exact ⟨hstep (by simp), hm⟩

/-- Only an instance can have asked for the target. -/
lemma asked_iff (h : Strands m vars e target before) :
    target ∈ before.filterMap Planned.asked? ↔
      ∃ i, .launch i ∈ before ∧ i.displayName = target := by
  rw [List.mem_filterMap]
  constructor
  · rintro ⟨x, hx, hasked⟩
    cases x with
    | launch i => exact ⟨i, hx, Option.some.inj hasked⟩
    | chain name mode =>
      obtain rfl := Option.some.inj hasked
      obtain ⟨-, e', hm⟩ := chain_of_planned (h.mem hx)
      cases hm.symm.trans h.unknown.2
    | unknown name mode =>
      by_cases hseq : mode = .sequential
      · exact absurd (hseq ▸ hx) (h.first name)
      · simp [Planned.asked?, hseq] at hasked
  · rintro ⟨i, hx, rfl⟩
    exact ⟨.launch i, hx, rfl⟩

lemma name_eq_iff (h : Strands m vars e target before) :
    nameAfter before target = target ↔ ∀ i, .launch i ∈ before → i.displayName ≠ target := by
  rw [nameAfter, titleOf_eq_self, List.count_eq_zero, h.asked_iff]
  simp

/-- Such an instance is one of a script, with labels behind its name. -/
lemma labels (h : Strands m vars e target before) (hi : .launch i ∈ before)
    (hname : i.displayName = target) :
    ∃ body labels, m.resolve i.script = .script body ∧ target = i.script ++ "::" ++ labels := by
  obtain ⟨body, hm, heq | ⟨labels, heq⟩⟩ := launch_of_planned (h.mem hi)
  · rw [hname] at heq
    cases (heq ▸ hm).symm.trans h.unknown.2
  · exact ⟨body, labels, hm, hname ▸ heq⟩

end Strands

/-! ### Every failure comes from a step -/

lemma GaveUp.brokeOff {pre : List Deed} (h : GaveUp H pre t k target name) :
    .brokeOff t (.failure (.unknownScript name)) ∈ H := h.subset (by simp)

lemma GaveUp.stopped {pre : List Deed} (h : GaveUp H pre t k target name) :
    pre ++ [.started t k (.missing target .sequential), .stopped t] <+: H :=
  List.IsPrefix.trans ((List.prefix_append_right_inj _).2 ⟨_, rfl⟩) h

lemma Springs.mono (hH : H <+: H') (h : Springs m H why t) : Springs m H' why t := by
  induction h with
  | member => exact .member
  | unknown hopen h => exact .unknown (hH.subset hopen) h
  | climbs hx _ ih => exact .climbs (hx.mono hH) ih

lemma Change.startsMissing (hc : Change cfg c c')
    (hx : .started t k (.missing target .sequential) ∈ c'.history) :
    .started t k (.missing target .sequential) ∈ c.history ∨ Misses c c' t k target := by
  cases hc with
  | @misses self r audience step agenda target' names entries hs ha ht hm hgo =>
    refine (List.mem_append.1 hx).imp_right fun hin => ?_
    obtain ⟨rfl, -, hmember⟩ := Deed.started.inj (List.mem_singleton.1 hin)
    have hseq := (Member.missing.inj hmember).2
    exact ⟨r, audience, taskAt_of_slotAt hs, fun he => by simp [hgo hseq.symm] at he⟩
  | @fails self r audience ds why now hs hf he =>
    refine (List.mem_append.1 hx).imp_right fun hin => ?_
    cases hf with
    | member ha hr => simp at hin
    | @missing step agenda target' ha ht hm hseq =>
      obtain ⟨rfl, rfl, rfl, -⟩ : t = self ∧ k = r.batch ∧ target = target' ∧ _ := by
        simpa using hin
      exact ⟨r, audience, taskAt_of_slotAt hs, fun _ => ⟨[], by simp [hseq]⟩⟩
  | news hp follows | droppedCycle hs ht =>
    exact .inl (mem_of_mem_ite_concat (by simp) hx)
  | quiet | settles | leaves | cycles | droppedRun => exact .inl hx
  | launches | awaits | nests | completes | breaks | locks | refused | drains | triggers
  | releases => exact .inl ((List.mem_append.1 hx).resolve_right (by simp))

theorem Change.marks (hc : Change cfg c c') : Marks cfg c c' :=
  { hc.weighs with misses := hc.startsMissing }

theorem Request.marks (hc : Request c c') (hpre : c.tasks <+: c'.tasks) : Marks cfg c c' where
  toWeighs := hc.weighs hpre
  misses h := by
    left
    cases hc with
    | run | push => exact (List.mem_append.1 h).resolve_right (by simp)
    | cycles | stop | cancel => exact h

namespace Sourced

/-- A run that exits on errors strands at the first step that it misses. -/
lemma strands (h : Sourced m c) (hn : Named c) (hi : Informed m c) (ho : Orderly m c')
    (ht : taskAt c.tasks t = some (.run r audience)) (he : r.exitOnError = true)
    (hx : Misses c c' t k target) :
    ∃ before, Strands m r.vars r.chain target before ∧
      (r.names.unique target).1 = nameAfter before target := by
  obtain ⟨r', audience', ht', hbroke⟩ := hx
  cases ht.symm.trans ht'
  have hopen : .opened t r.chain r.vars true ∈ c.history := he ▸ (hi.kept.orderly.runs ht).opened
  obtain ⟨later, hlater⟩ : c.history ++ [.started t k (.missing target .sequential)] <+:
      c'.history := ((List.prefix_append_right_inj _).2 ⟨_, rfl⟩).trans (hbroke he).stopped
  have hopen' : .opened t r.chain r.vars true ∈ c'.history := hlater ▸ by simp [hopen]
  have hplan := (hlater ▸ ho.ordered).of_append.startsOf_prefix
    (OpenedAs.of_append (hlater ▸ ho.openedAs hopen'))
  refine ⟨((startsOf c.history t).map Prod.snd).map Member.planned, ⟨?_, fun other hin => ?_⟩, ?_⟩
  · simpa [startsOf_append, startsOf, Member.planned] using hplan
  · -- the run would have broken off at that step
    obtain ⟨_, hin, hplanned⟩ := List.mem_map.1 hin
    obtain ⟨⟨j, x⟩, hstart, rfl⟩ := List.mem_map.1 hin
    cases x <;> cases hplanned
    obtain ⟨pre, name, hgave⟩ := h.missed (mem_startsOf.1 hstart) hopen
    cases (hi.halted.gone hgave.brokeOff).symm.trans ht
  · rw [nameAfter, ← askedBy_eq]
    exact ((hn.registered ht).counts.unique target).1

/-- A run that gives up has been told of a failure, or a step of its own has failed. -/
lemma of_givesUp (h : Sourced cfg.manifest c) (hn : Named c) (hi : Informed cfg.manifest c)
    (ho : Orderly cfg.manifest c') (hc : Marks cfg c c')
    (hg : GivesUp cfg c c' t (.failure why)) : Springs cfg.manifest c'.history why t := by
  cases hg with
  | breaks hs hb =>
    cases hb with
    | member ha hr =>
      exact (h.arrived (taskAt_of_slotAt hs) (hr ▸ List.mem_cons_self)).mono hc.grows
  | @fails r audience ds _ hs he fatal hds =>
    cases fatal with
    | member => exact .member
    | @missing step agenda target ha ht hm hseq =>
      have hr := taskAt_of_slotAt hs
      have hopen : .opened t r.chain r.vars true ∈ c.history :=
        he ▸ (hi.kept.orderly.runs hr).opened
      have hx : .started t r.batch (.missing target .sequential) ∈ c'.history :=
        hds (by simp [hseq])
      rcases hc.misses hx with hold | hnew
      · obtain ⟨pre, name, hgave⟩ := h.missed hold hopen
        cases (hi.halted.gone hgave.brokeOff).symm.trans hr
      · obtain ⟨before, hstrands, hname⟩ := h.strands hn hi ho hr he hnew
        exact hname ▸ .unknown (hc.grows.subset hopen) hstrands

/-- A failure that a run is told of is that of a chain that it encloses. -/
lemma of_origin {why : Failure} (h : Sourced m c) (hi : Informed m c) (hb : Blames c')
    (hH : c.history <+: c'.history) (ho : Origin m c c' t r audience)
    (hbroke : ∀ {u : TaskId}, .brokeOff u (.failure why) ∈ c'.history → Springs m c'.history why u)
    (hin : .broken why ∈ r.arrived) : Springs m c'.history why t := by
  cases ho with
  | same ht => exact (h.arrived ht hin).mono hH
  | takes ht _ _ _ _ like => exact (h.arrived ht (like.arrived ▸ hin)).mono hH
  | quiet ht q =>
    cases q with
    | enter entries _ harrived =>
      exact (h.arrived ht (harrived ▸ List.mem_cons_of_mem _ hin)).mono hH
    | skip | expand | begins => exact (h.arrived ht hin).mono hH
  | told ht heq hv gone broke =>
    subst heq
    rcases List.mem_append.1 hin with hin | hin
    · exact (h.arrived ht hin).mono hH
    · obtain rfl := List.mem_singleton.1 hin
      obtain ⟨x, hx, rfl⟩ := broke why rfl
      obtain ⟨-, ⟨why, rfl⟩, -⟩ := hb.brokeOff hx
      cases hv with
      | broken hs =>
        obtain ⟨k, target, mode, hstarted, hmode⟩ := hi.kept.attributed.nested (taskAt_of_slotAt hs)
        exact .climbs ⟨k, target, mode, _, hH.subset hstarted, hmode⟩ (hbroke hx)
  | fresh _ heq =>
    subst heq
    cases hin

lemma step (h : Sourced cfg.manifest c) (hn : Named c) (hi : Informed cfg.manifest c)
    (ho : Orderly cfg.manifest c') (hb : Blames c') (hc : Marks cfg c c') :
    Sourced cfg.manifest c' := by
  have hbroke {t : TaskId} {why : Failure} (hx : .brokeOff t (.failure why) ∈ c'.history) :
      Springs cfg.manifest c'.history why t := by
    rcases hc.givesUp hx with hold | hnew
    · exact (h.brokeOff hold).mono hc.grows
    · exact h.of_givesUp hn hi ho hc hnew
  refine ⟨fun ht => h.of_origin hi hb hc.grows (hc.origin ht) hbroke, hbroke, ?_⟩
  intro t k e target vars hx hopen
  rcases hc.misses hx with hold | ⟨r, audience, ht, hmissed⟩
  · obtain ⟨e', vars', flag, hopen'⟩ := hi.kept.orderly.ordered.opened hold
    obtain ⟨-, -, rfl⟩ := ho.opened_unique hopen (hc.grows.subset hopen')
    obtain ⟨pre, name, hgave⟩ := h.missed hold hopen'
    exact ⟨pre, name, hgave.trans hc.grows⟩
  · have hrun := hc.grows.subset (hi.kept.orderly.runs ht).opened
    obtain ⟨-, -, he⟩ := ho.opened_unique hrun hopen
    exact ⟨c.history, _, hmissed he⟩

end Sourced

lemma sourced_steady (hcfg : cfg.Sound) : Steady cfg fun c =>
    ((Informed cfg.manifest c ∧ Founded c) ∧ Named c) ∧ Sourced cfg.manifest c where
  change h hc :=
    have hbase := (founded_steady hcfg).change h.1.1 hc
    have hnamed := (Named.stable cfg).change
      ⟨⟨h.1.1.1.kept.orderly, h.1.1.1.kept.accounted⟩, h.1.2⟩ hc
    ⟨⟨hbase, hnamed.2⟩,
      h.2.step h.1.2 h.1.1.1 hbase.1.kept.orderly hbase.1.blames hc.marks⟩
  request h hc hpre :=
    have hbase := (founded_steady hcfg).request h.1.1 hc hpre
    have hnamed := (Named.stable cfg).request
      ⟨⟨h.1.1.1.kept.orderly, h.1.1.1.kept.accounted⟩, h.1.2⟩ hc
    ⟨⟨hbase, hnamed.2⟩,
      h.2.step h.1.2 h.1.1.1 hbase.1.kept.orderly hbase.1.blames (hc.marks hpre)⟩

lemma sourced_nil (m : Manifest) : Sourced m {} := by
  refine ⟨?_, ?_, ?_⟩ <;> simp [taskAt, slotAt]

theorem Calm.sourced {s : State} (hcfg : cfg.Sound) (hs : Calm cfg s) :
    Sourced cfg.manifest s.toCore :=
  ((sourced_steady hcfg).calm ⟨⟨⟨informed_nil _, founded_nil⟩, .empty⟩, sourced_nil _⟩ hs).2

end

/-! ### What is reported -/

section

variable {cfg : Setting} {m : Manifest} {c : Core} {s : State} {H : List Deed} {t u w : TaskId}
  {e target : String} {vars : Variables} {why : Failure}

lemma Springs.kind (h : Springs m H why t) :
    (∃ name, why = .unknownScript name) ∨ ∃ name code, why = .stepFailed name code := by
  induction h with
  | member => exact .inr ⟨_, _, rfl⟩
  | unknown => exact .inl ⟨_, rfl⟩
  | climbs _ _ ih => exact ih

/-- A chain in the foreground of a run is reached from its expression by sequential steps. -/
lemma Foreground.opened (ho : Orderly m c) (h : Foreground c.history t u)
    (hopen : .opened t e vars true ∈ c.history) : ∃ e', .opened u e' vars true ∈ c.history ∧
      ∀ target, m.Mentions e' target → m.Mentions e target := by
  induction h generalizing e with
  | root => exact ⟨e, hopen, fun _ => id⟩
  | nested hx hb _ ih =>
    obtain ⟨e', hm, -, hopen'⟩ := ho.nests hx hopen
    obtain ⟨e'', hopen'', hmentions⟩ := ih (e := e') (by simpa [hb] using hopen')
    have hstep := (chain_of_planned (ho.planned hx hopen)).1 hb
    exact ⟨e'', hopen'', fun target hin => .chain hstep hm (hmentions target hin)⟩

/-- Who breaks off with a step that names nothing has a chain in the foreground that strands. -/
lemma Springs.strands {name : String} (h : Springs m H (.unknownScript name) t) :
    ∃ u e vars target before, Foreground H t u ∧ .opened u e vars true ∈ H ∧
      Strands m vars e target before ∧ name = nameAfter before target := by
  generalize hwhy : Failure.unknownScript name = why at h
  induction h with
  | member => cases hwhy
  | @unknown t e target vars before hopen hs =>
    cases hwhy
    exact ⟨t, e, vars, target, before, .root, hopen, hs, rfl⟩
  | climbs hx _ ih =>
    obtain ⟨u, e, vars, target, before, hu, hrest⟩ := ih hwhy
    obtain ⟨k, target', mode, title, hstarted, hb⟩ := hx
    exact ⟨u, e, vars, target, before, .nested hstarted hb hu, hrest⟩

/-- Neither a run itself nor a chain that it encloses is remote from it. -/
lemma Numbered.not_remote (hn : Numbered H) (hu : u = t ∨ Encloses H t u) : ¬Remote H t w u := by
  rintro ⟨v, g, hv, -, ⟨k, target, mode, name, hg, -⟩, hgu, hne, -⟩
  have hlt : t < g := Nat.lt_of_le_of_lt (hn.le_of_family hv.family) (hn.younger hg)
  rcases hu with rfl | ⟨k', target', mode', name', hu, -⟩
  · exact Nat.not_le_of_lt hlt (hn.le_of_family hgu.family)
  · cases hgu.family with
    | root => exact hne rfl
    | nested hfamily hx =>
      obtain rfl := hn.chain hu hx
      exact Nat.not_le_of_lt hlt (hn.le_of_family hfamily)

/-- What was over before everything was stopped was over before the step. -/
lemma EndedBefore.of_gaveUp {pre : List Deed} {k : Nat} {name : String} {p : ProcessId}
    (h : EndedBefore H p u) (hu : GaveUp H pre u k target name) : .ended p ∈ pre := by
  obtain ⟨pre', hpre', hended, hstop⟩ := h
  rcases List.prefix_or_prefix_of_prefix hpre' hu.stopped with hle | hle
  · simpa using hle.subset hended
  · exact absurd (hle.subset (by simp)) hstop

/-- **What is reported of a step that names nothing.** As long as nobody drops tasks from outside
and the launcher does not break down, a run that gives up with an unknown script has in its
foreground a run, of its own expression or of a chain reached from it by sequential steps, which
has come to a first sequential step with a target that is neither a script nor a chain. What is
reported is the name that is handed out for this target; that is the target itself exactly if no
instance that was planned before shows under it, as only those do that are shown with labels.
Conversely, a run gives up at once when it comes to such a step, and the run in whose foreground it
is reports no success. That run reports an unknown script as well, unless a process has failed that
was over before, or a casualty is faster: that takes a step which is not one of its own nor one of
a chain that it encloses. -/
theorem unknownScript_written (hcfg : cfg.Sound) (hs : Calm cfg s)
    (hopen : .opened t e vars true ∈ s.history) :
    (∀ name, .brokeOff t (.failure (.unknownScript name)) ∈ s.history →
      ∃ u e' target before, Foreground s.history t u ∧ .opened u e' vars true ∈ s.history ∧
        Strands cfg.manifest vars e' target before ∧ cfg.manifest.Mentions e target ∧
        cfg.manifest.scripts.get? target = none ∧ cfg.manifest.chains.get? target = none ∧
        name = nameAfter before target ∧
        (name = target ↔ ∀ i, .launch i ∈ before → i.displayName ≠ target) ∧
        ∀ i, .launch i ∈ before → i.displayName = target → ∃ body labels,
          cfg.manifest.resolve i.script = .script body ∧ target = i.script ++ "::" ++ labels) ∧
    ∀ u k target, Foreground s.history t u →
      .started u k (.missing target .sequential) ∈ s.history →
        ∃ pre name, GaveUp s.history pre u k target name ∧
          (∀ report, .completed t report ∉ s.history) ∧
          ∀ b, .brokeOff t b ∈ s.history → (∃ name, b = .failure (.unknownScript name)) ∨
            ∃ w j p i title code, b = .failure (.stepFailed title code) ∧
              Foreground s.history t w ∧ .started w j (.process p i title) ∈ s.history ∧
              s.table.FailedWith p code ∧ (.ended p ∈ pre ∨
                u ≠ t ∧ ¬Encloses s.history t u ∧ Remote s.history t w u) := by
  have ho := hs.kept.orderly
  have hsourced := hs.sourced hcfg
  refine ⟨fun name hx => ?_, fun u k target hu hx => ?_⟩
  · -- the run gave up with the name of a target that strands a run of its foreground
    obtain ⟨u, e', vars', target, before, hu, hopen', hstrands, rfl⟩ :=
      (hsourced.brokeOff hx).strands
    obtain ⟨e'', hopen'', hmentions⟩ := hu.opened ho hopen
    obtain ⟨rfl, rfl, -⟩ := ho.opened_unique hopen' hopen''
    obtain ⟨hstep, hm⟩ := hstrands.unknown
    obtain ⟨hscript, hchain⟩ := resolve_eq_unknown_iff.1 hm
    exact ⟨u, e', target, before, hu, hopen', hstrands, hmentions target (.step hstep), hscript,
      hchain, rfl, hstrands.name_eq_iff, fun i => hstrands.labels⟩
  · -- the other way: a step that names nothing has come up in the foreground
    obtain ⟨e', hopen', -⟩ := hu.opened ho hopen
    obtain ⟨pre, name, hgave⟩ := hsourced.missed hx hopen'
    obtain ⟨hblames, hvigilant⟩ := hs.weighed hcfg
    refine ⟨pre, name, hgave, fun report hreport => ?_, fun b hb => ?_⟩
    · obtain ⟨-, chain, vars', flag, hopen'', hwell⟩ := hblames.completed hreport
      obtain ⟨-, -, rfl⟩ := ho.opened_unique hopen hopen''
      exact hvigilant.not_failsBelow ho hreport (hwell rfl) ⟨u, k, _, hu, hx, rfl⟩
    · obtain ⟨-, ⟨why, rfl⟩, -⟩ := hblames.brokeOff hb
      refine (hsourced.brokeOff hb).kind.imp (fun ⟨name, h⟩ => ⟨name, h ▸ rfl⟩) ?_
      rintro ⟨title, code, rfl⟩
      obtain ⟨p, hp⟩ := (hs.founded hcfg).brokeOff hb
      obtain ⟨w, j, i, hw, hstarted, -, hf, hbefore⟩ := hp.endedBefore hs.kept.numbered
      refine ⟨w, j, p, i, title, code, rfl, hw, hstarted, hf, ?_⟩
      refine (hbefore u hu).imp (fun hearly => hearly.of_gaveUp hgave) fun hremote => ?_
      have hfar : ¬(u = t ∨ Encloses s.history t u) := fun hnear =>
        hs.kept.numbered.not_remote hnear hremote
      exact ⟨fun h => hfar (.inl h), fun h => hfar (.inr h), hremote⟩

end

/-- A script that shows its flavor. -/
def Setting.flavored : Setting where
  manifest := { toDraft := { scripts := NameMap.ofList [("s", "echo $FLV")] }, checked := rfl }

/-- The run of `s s::x` with the flavor `x`, where the instance of `s` shows under the name that the
second step is written with. -/
def State.flavored : State :=
  (({} : State).spawn (.run (.start "s s::x" { flavor := ["x"] } true) (.caller "r"))).1.actAll
    .flavored [0, 0, 0, 0]

/-- What is reported is nowhere written. -/
theorem unknownScript_written_flavored :
    .brokeOff 0 (.failure (.unknownScript "s::x#2")) ∈ State.flavored.history ∧
      ¬Setting.flavored.manifest.Mentions "s s::x" "s::x#2" ∧
      ∃ target before, Setting.flavored.manifest.Mentions "s s::x" target ∧
        "s::x#2" = nameAfter before target ∧ ∃ i, .launch i ∈ before ∧ i.displayName = target := by
  have hH : State.flavored.history = [.opened 0 "s s::x" { flavor := ["x"] } true,
      .started 0 1 (.process 0 ⟨"s", "s::x", "echo x", .sequential⟩ "s::x"),
      .started 0 1 (.missing "s::x" .sequential), .stopped 0,
      .brokeOff 0 (.failure (.unknownScript "s::x#2"))] := rfl
  have hcalm : Calm .flavored .flavored :=
    (calm_run .flavored "s s::x" _ true "r").evolves (evolves_actAll _)
  have hopen : .opened 0 "s s::x" { flavor := ["x"] } true ∈ State.flavored.history := by simp [hH]
  have hx : .brokeOff 0 (.failure (.unknownScript "s::x#2")) ∈ State.flavored.history := by
    simp [hH]
  have hparse : Chain.parse "s s::x" = [.sequential "s", .sequential "s::x"] := rfl
  have hnowhere : ¬Setting.flavored.manifest.Mentions "s s::x" "s::x#2" := by
    rintro (hstep | ⟨-, hm, -⟩)
    · simp [hparse] at hstep
    · cases Manifest.contains_of_resolve hm
  obtain ⟨-, -, target, before, -, -, -, hmentions, -, -, hname, hiff, -⟩ :=
    (unknownScript_written (fun _ _ => rfl) hcalm hopen).1 _ hx
  have hne : "s::x#2" ≠ target := fun h => hnowhere (h ▸ hmentions)
  refine ⟨hx, hnowhere, target, before, hmentions, hname, ?_⟩
  simpa using mt hiff.2 hne

end Run

end ChainRunner
