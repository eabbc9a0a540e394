import ChainRunner.Proofs.Run.Nesting
import ChainRunner.Proofs.Run.Progress
import ChainRunner.Proofs.Run.Records

/-!
A run that does not exit on errors does what its plan says.

Whatever its processes take and however they end, once nothing of it can go on any more the run
has come to its end with all the chains below it, and has started just what was planned, in the
order of the plan.
-/

namespace ChainRunner.Run

/-! ### The order of the starts -/

/-- What the run `t` has started, in order, each with the number of its batch. -/
def startsOf (H : List Deed) (t : TaskId) : List (Nat × Member) :=
  H.filterMap fun
    | .started r k x => if r = t then some (k, x) else none
    | _ => none

/-- What is planned, in order, each with the number of its batch, counted from one. -/
def numbered (pss : List (List Planned)) : List (Nat × Planned) :=
  (List.range pss.length).flatMap fun j => (pss.getD j []).map fun x => (j + 1, x)

section

variable {m : Manifest} {H : List Deed} {t : TaskId} {k : Nat} {x : Member} {chain : String}
  {vars : Variables}

lemma mem_startsOf : (k, x) ∈ startsOf H t ↔ .started t k x ∈ H := by
  unfold startsOf
  rw [List.mem_filterMap]
  constructor
  · rintro ⟨d, hd, h⟩
    cases d <;> simp only [reduceCtorEq] at h
    split at h <;> cases h
    rename_i heq
    rwa [heq] at hd
  · exact fun h => ⟨_, h, by simp⟩

lemma startsOf_append (H ds : List Deed) (t : TaskId) :
    startsOf (H ++ ds) t = startsOf H t ++ startsOf ds t := List.filterMap_append ..

lemma filter_startsOf (H : List Deed) (t : TaskId) (k : Nat) :
    (startsOf H t).filter (fun e => e.1 = k) = (membersOf H t k).map fun x => (k, x) := by
  unfold startsOf membersOf
  rw [List.filter_filterMap, List.map_filterMap]
  refine List.filterMap_congr fun d _ => ?_
  cases d with
  | started r k' x =>
    by_cases hr : r = t <;> by_cases hk : k' = k <;> simp [Deed.member?, hr, hk]
  | _ => rfl

/-- A run that has come to a batch starts nothing more of an earlier one. -/
lemma Ordered.batch_le (h : Ordered m (H ++ [.started t k x]))
    (hu : OpenedAs (H ++ [.started t k x]) t chain vars) {k' : Nat} {y : Member}
    (hy : .started t k' y ∈ H) : k' ≤ k := by
  by_contra hlt
  obtain ⟨j, ps, rfl, hps, hpre⟩ := (h.inTurn hu rfl).planned
  obtain ⟨pre, post, rfl⟩ := List.append_of_mem hy
  -- the whole batch had been started then
  have hall := (h.of_append.inTurn hu.of_append rfl).earlier (Nat.not_le.1 hlt) hps
  have hlen := hpre.length_le
  simp only [membersOf_append, List.map_append, hall, List.length_append, List.length_singleton]
    at hlen
  omega

lemma Ordered.startsOf_pairwise (h : Ordered m H) (hu : OpenedAs H t chain vars) :
    (startsOf H t).Pairwise fun a b => a.1 ≤ b.1 := by
  induction H using List.reverseRecOn with
  | nil => exact .nil
  | append_singleton H d ih =>
    rw [startsOf_append]
    refine List.pairwise_append.2 ⟨ih h.of_append hu.of_append, ?_, ?_⟩
    · cases d with
      | started r k x => by_cases hr : r = t <;> simp [startsOf, hr]
      | _ => exact .nil
    · rintro ⟨k', y⟩ hy ⟨k, x⟩ hx
      obtain rfl := List.mem_singleton.1 (mem_startsOf.1 hx)
      exact h.batch_le hu (mem_startsOf.1 hy)

lemma filter_lt_append {α : Type} {L : List (Nat × α)} (hs : L.Pairwise fun a b => a.1 ≤ b.1)
    (n : Nat) : (L.filter fun a => a.1 < n) ++ (L.filter fun a => a.1 = n) =
      L.filter fun a => a.1 < n + 1 := by
  induction L with
  | nil => rfl
  | cons a L ih =>
    obtain ⟨ha, hs⟩ := List.pairwise_cons.1 hs
    by_cases hlt : a.1 < n
    · have hlt' : a.1 < n + 1 := Nat.lt_succ_of_lt hlt
      simp only [List.filter_cons, decide_eq_true_eq, hlt, Nat.ne_of_lt hlt, hlt', if_true,
        if_false, List.cons_append, ih hs]
    · have hge : ∀ b ∈ a :: L, n ≤ b.1 := fun b hb => by
        rcases List.mem_cons.1 hb with rfl | hb
        · exact Nat.not_lt.1 hlt
        · exact Nat.le_trans (Nat.not_lt.1 hlt) (ha b hb)
      have hnone : ((a :: L).filter fun b => b.1 < n) = [] :=
        List.filter_eq_nil_iff.2 fun b hb => by simpa using hge b hb
      rw [hnone, List.nil_append]
      refine List.filter_congr fun b hb => ?_
      have := hge b hb
      simp only [decide_eq_decide]
      omega

/-- A list that is sorted by its keys is made up of the parts with one key. -/
lemma flatMap_filter_eq {α : Type} {L : List (Nat × α)} (hs : L.Pairwise fun a b => a.1 ≤ b.1)
    {n : Nat} (hn : ∀ a ∈ L, a.1 < n) :
    ((List.range n).flatMap fun j => L.filter fun a => a.1 = j) = L := by
  suffices h : ∀ n, ((List.range n).flatMap fun j => L.filter fun a => a.1 = j) =
      L.filter fun a => a.1 < n by
    rw [h, List.filter_eq_self.2 fun a ha => by simpa using hn a ha]
  intro n
  induction n with
  | zero => simp
  | succ n ih => rw [List.range_succ, List.flatMap_append, ih, List.flatMap_singleton,
      filter_lt_append hs]

/-- A run starts its members batch by batch. -/
lemma Ordered.startsOf_eq_flatMap (h : Ordered m H) (hu : OpenedAs H t chain vars) :
    startsOf H t = (List.range (plan m chain vars).length).flatMap fun j =>
      (membersOf H t (j + 1)).map fun x => (j + 1, x) := by
  have hbatch {k : Nat} {x : Member} (hx : .started t k x ∈ H) := h.batch_lt hu hx
  have hnone : ((startsOf H t).filter fun e => e.1 = 0) = [] := by
    refine List.filter_eq_nil_iff.2 fun ⟨k, x⟩ hx => ?_
    obtain ⟨j, rfl, -⟩ := hbatch (mem_startsOf.1 hx)
    simp
  rw [← flatMap_filter_eq (n := (plan m chain vars).length + 1) (h.startsOf_pairwise hu) ?_,
    List.range_succ_eq_map, List.flatMap_cons, List.flatMap_map, hnone, List.nil_append]
  · exact List.flatMap_congr fun j _ => filter_startsOf H t (j + 1)
  · rintro ⟨k, x⟩ hx
    obtain ⟨j, rfl, hj⟩ := hbatch (mem_startsOf.1 hx)
    exact Nat.succ_lt_succ hj

/-- A run that has started all that was planned has started it in the order of the plan. -/
lemma Ordered.startsOf_eq (h : Ordered m H) (hu : OpenedAs H t chain vars)
    (hall : ∀ {j ps}, (plan m chain vars)[j]? = some ps →
      (membersOf H t (j + 1)).map Member.planned = ps) :
    (startsOf H t).map (fun e => (e.1, e.2.planned)) = numbered (plan m chain vars) := by
  rw [h.startsOf_eq_flatMap hu, List.map_flatMap]
  unfold numbered
  refine List.flatMap_congr fun j hj => ?_
  have hps : (plan m chain vars)[j]? = some ((plan m chain vars).getD j []) := by
    simp [List.getD, List.getElem?_eq_getElem (List.mem_range.1 hj)]
  rw [List.map_map, ← hall hps, List.map_map]
  rfl

end

/-! ### Steps that name nothing -/

section

variable {m : Manifest} {H : List Deed} {t : TaskId} {e : String} {vars : Variables}

lemma resolve_eq_unknown_iff {name : String} :
    m.resolve name = .unknown ↔ m.scripts.get? name = none ∧ m.chains.get? name = none := by
  unfold Manifest.resolve Manifest.script? Manifest.chain?
  rcases m.scripts.get? name with _ | body <;> rcases m.chains.get? name with _ | expr <;> simp

lemma unknown_mem_planStep_iff {step : Step} {name : String} (ht : step.target? = some name) :
    .unknown name step.mode ∈ planStep m vars step ↔ m.resolve name = .unknown := by
  unfold planStep
  rw [ht]
  dsimp only
  split <;> simp_all

lemma mem_numbered {pss : List (List Planned)} {j : Nat} {x : Planned} :
    (j + 1, x) ∈ numbered pss ↔ ∃ ps, pss[j]? = some ps ∧ x ∈ ps := by
  unfold numbered
  simp only [List.mem_flatMap, List.mem_range, List.mem_map, Prod.mk.injEq]
  constructor
  · rintro ⟨j', hj, y, hy, heq, rfl⟩
    obtain rfl : j' = j := Nat.succ.inj heq
    exact ⟨pss[j'], List.getElem?_eq_getElem hj, by simpa [List.getD, hj] using hy⟩
  · rintro ⟨ps, hps, hx⟩
    obtain ⟨hj, rfl⟩ := List.getElem?_eq_some_iff.1 hps
    exact ⟨j, hj, x, by simpa [List.getD, hj] using hx, rfl, rfl⟩

/-- Where a run has done what was planned, it has missed the steps that are planned as unknown. -/
lemma missing_iff_of_startsOf
    (h : (startsOf H t).map (fun a => (a.1, a.2.planned)) = numbered (plan m e vars)) {j : Nat}
    {b : Batch} {step : Step} {name : String} (hb : (Chain.batches e)[j]? = some b)
    (hstep : step ∈ b.steps) (ht : step.target? = some name) :
    .started t (j + 1) (.missing name step.mode) ∈ H ↔ m.resolve name = .unknown := by
  have hplan : (plan m e vars)[j]? = some (b.steps.flatMap (planStep m vars)) := by
    rw [plan_getElem?, hb]
    rfl
  have hmissing : .started t (j + 1) (.missing name step.mode) ∈ H ↔
      (j + 1, .unknown name step.mode) ∈ numbered (plan m e vars) := by
    rw [← h, List.mem_map]
    constructor
    · exact fun hx => ⟨_, mem_startsOf.2 hx, rfl⟩
    · rintro ⟨⟨k, x⟩, hx, heq⟩
      cases x <;> cases heq
      exact mem_startsOf.1 hx
  rw [hmissing, mem_numbered]
  constructor
  · rintro ⟨ps, hps, hx⟩
    rw [hplan] at hps
    cases hps
    obtain ⟨step', -, hx⟩ := List.mem_flatMap.1 hx
    unfold planStep at hx
    split at hx
    · cases hx
    · split at hx <;> simp at hx
      rename_i hm
      exact hx.1 ▸ hm
  · intro hm
    refine ⟨_, hplan, List.mem_flatMap.2 ⟨step, hstep, ?_⟩⟩
    exact (unknown_mem_planStep_iff ht).2 hm

end

/-! ### Runs that can go on no more -/

/-- Nothing of the run and the chains below it can go on any more: the processes that were started
for them have ended, and the runs and the tasks they wait for rest. -/
structure StandsStill (cfg : Setting) (s : State) (t : TaskId) : Prop where
  ended : ∀ p, OnBehalf s.history t p → .ended p ∈ s.history
  rests : ∀ u v task, Family s.history t u → (v = u ∨ task.owner? = some u) →
    s.slot? v = some ⟨task, false⟩ → s.act cfg v task = .rests

/-- What was done for the run `t` of the expression `e` is what was planned for it. -/
structure Performed (m : Manifest) (s : State) (t : TaskId) (e : String) (vars : Variables) :
    Prop where
  /-- The run has come to its end with all the chains below it. -/
  completed : ∀ u, Family s.history t u → ∃ report, Deed.completed u report ∈ s.history
  /-- There is one process for each instance that the plan comes to. -/
  processes : ∃ ls : List (ProcessId × Instance), (ls.map Prod.fst).Nodup ∧
    (∀ p i, (p, i) ∈ ls ↔ StartedFor s.history t p i) ∧ ls.map Prod.snd = unfold m vars e
  /-- A process runs the command of its instance, in the same mode. -/
  launched : ∀ u k p i name, Family s.history t u → .started u k (.process p i name) ∈ s.history →
    (∃ l, s.launch? p = some l ∧ l.Shows i name) ∧ Titled i.displayName name
  /-- Each run starts what is planned for it batch by batch, in the order of the plan. -/
  order : ∀ u e' flag, Family s.history t u → .opened u e' vars flag ∈ s.history →
    (startsOf s.history u).map (fun a => (a.1, a.2.planned)) = numbered (plan m e' vars)
  /-- A step is planned as unknown if and only if it names nothing, and then it is missed. -/
  unknown : ∀ u e' flag, Family s.history t u → .opened u e' vars flag ∈ s.history →
    ∀ j b step name, (Chain.batches e')[j]? = some b → step ∈ b.steps →
      step.target? = some name →
      (.unknown name step.mode ∈ planStep m vars step ↔
        m.scripts.get? name = none ∧ m.chains.get? name = none) ∧
      (.started u (j + 1) (.missing name step.mode) ∈ s.history ↔
        m.scripts.get? name = none ∧ m.chains.get? name = none)

section

variable {cfg : Setting} {m : Manifest} {s : State} {c : Core} {t u : TaskId} {e : String}
  {vars : Variables}

/-- The chains below a run that does not exit on errors do not either. -/
lemma Family.lenient (ho : Orderly m c) (hopen : .opened t e vars false ∈ c.history)
    (hu : Family c.history t u) : ∃ e', .opened u e' vars false ∈ c.history := by
  induction hu with
  | root => exact ⟨e, hopen⟩
  | nested _ hx ih =>
    obtain ⟨e', hopen'⟩ := ih
    obtain ⟨e'', -, -, hopen''⟩ := ho.nests hx hopen'
    exact ⟨e'', by simpa using hopen''⟩

/-- Nothing is left of a run that stands still: what it would wait for could go on. -/
lemma StandsStill.gone (hstill : StandsStill cfg s t) (hs : Calm cfg s) (hcfg : cfg.Sound)
    (hopen : .opened t e vars false ∈ s.history) (hu : Family s.history t u) :
    taskAt s.tasks u = none := by
  have hk := hs.kept
  induction hn : s.tasks.length - u using Nat.strongRecOn generalizing u with
  | _ n ih =>
  subst hn
  by_contra hsome
  obtain ⟨task, ht⟩ := Option.ne_none_iff_exists'.1 hsome
  obtain ⟨e', hopen'⟩ := hu.lenient hk.orderly hopen
  obtain ⟨r, audience, rfl, -, -, he⟩ := hk.orderly.course hopen' ht
  obtain ⟨⟨_, b⟩, hslot, rfl⟩ := Option.map_eq_some_iff.1 ht
  obtain rfl := (hs.lenient hcfg).spared hslot he
  obtain ⟨w, hw⟩ := List.exists_mem_of_ne_nil _
    (Course.waiting_of_rests (hstill.rests u u _ hu (.inl rfl) hslot))
  cases hk.tends ht hw with
  | process hs' hx =>
    have hended := hk.accounted.ended.1 (hstill.ended _ ⟨u, _, _, _, hu, hx⟩)
    exact (gone_of_ended cfg hended.1 hended.2).1 (hstill.rests u w _ hu (.inr rfl) hs')
  | chain hs' hx =>
    have hlt := (hk.tended.owned hs' rfl).1
    have hgone := ih (s.tasks.length - w) (Nat.sub_lt_sub_left (lt_of_taskAt ht) hlt)
      (.nested hu hx) rfl
    cases (taskAt_of_slotAt hs').symm.trans hgone

/-- **A run does what was planned.** As long as nobody drops tasks from outside and the launcher
does not break down, a run that does not exit on errors has come to its end once nothing of it can
go on, whatever its processes did. It and the chains below it have started just what was planned:
one process for each instance of the plan with all chains in it unfolded, batch by batch in the
order of the plan, under the planned name or that name with a number, and nothing for a step that
names nothing. -/
theorem performed_of_standsStill (hcfg : cfg.Sound) (hs : Calm cfg s)
    (hopen : .opened t e vars false ∈ s.history) (hstill : StandsStill cfg s t) :
    Performed cfg.manifest s t e vars := by
  have hk := hs.kept
  have hcompleted (u : TaskId) (hu : Family s.history t u) :
      ∃ report, Deed.completed u report ∈ s.history := by
    obtain ⟨e', hopen'⟩ := hu.lenient hk.orderly hopen
    exact (hs.lenient hcfg).completed hopen' (hstill.gone hs hcfg hopen hu)
  have horder (u : TaskId) (e' : String) (flag : Bool) (hu : Family s.history t u)
      (hopen' : .opened u e' vars flag ∈ s.history) :
      (startsOf s.history u).map (fun a => (a.1, a.2.planned)) =
        numbered (plan cfg.manifest e' vars) := by
    have hunique : OpenedAs s.history u e' vars := hk.orderly.openedAs hopen'
    obtain ⟨report, hx⟩ := hcompleted u hu
    obtain ⟨chain, vars', hfulfilled⟩ := hk.concluded u report hx
    obtain ⟨flag', hopen''⟩ := hfulfilled.finished.opened
    obtain ⟨rfl, rfl⟩ := hunique hopen''
    exact hk.orderly.ordered.startsOf_eq hunique hfulfilled.finished.members
  refine ⟨hcompleted, ?_, ?_, horder, ?_⟩
  · obtain ⟨ls, hls⟩ := exists_lists hk.orderly hk.concluded hk.numbered hopen
    exact ⟨ls, hls.nodup, fun _ _ => hls.mem, hls.all hcompleted⟩
  · exact fun u k p i name hu hx => hs.reachable.recorded.shows hx
  · intro u e' flag hu hopen' j b step name hb hstep ht
    rw [← resolve_eq_unknown_iff]
    exact ⟨unknown_mem_planStep_iff ht,
      missing_iff_of_startsOf (horder u e' flag hu hopen') hb hstep ht⟩

end

/-- The run of `bg f x`, where `f` fails and `x` names nothing, once it is over. -/
def State.carriedOut : State :=
  let s : State := (({} : State).spawn (.run (.start "bg f x" .empty false) (.caller "r"))).1
  let s := (s.actAll .paused [0, 0, 0, 0, 0, 1, 1, 1]).endProcess 0 false (some 1) false
  let s := (s.actAll .paused [2, 0]).endProcess 1 false (some 0) false
  let s := (s.actAll .paused [3, 1, 1, 1, 1]).endProcess 2 false (some 0) false
  s.actAll .paused [4, 1, 1, 0, 0]

lemma calm_carriedOut : Calm .paused .carriedOut := by
  have h := calm_run .paused "bg f x" .empty false "r"
  have h := (h.evolves (evolves_actAll [0, 0, 0, 0, 0, 1, 1, 1])).evolves
    (evolves_endProcess 0 false (some 1) false)
  have h := (h.evolves (evolves_actAll [2, 0])).evolves (evolves_endProcess 1 false (some 0) false)
  have h := (h.evolves (evolves_actAll [3, 1, 1, 1, 1])).evolves
    (evolves_endProcess 2 false (some 0) false)
  exact h.evolves (evolves_actAll [4, 1, 1, 0, 0])

set_option maxRecDepth 1000 in
theorem performed_carriedOut :
    Performed Setting.paused.manifest .carriedOut 0 "bg f x" .empty ∧
      (startsOf State.carriedOut.history 0).map Prod.snd =
        [.chain 1 "bg" .sequential "bg", .process 0 ⟨"f", "f", "false", .sequential⟩ "f",
          .missing "x" .sequential] := by
  have hH : State.carriedOut.history =
      [.opened 0 "bg f x" .empty false, .opened 1 "a - b" .empty false,
        .started 0 1 (.chain 1 "bg" .sequential "bg"),
        .started 0 1 (.process 0 ⟨"f", "f", "false", .sequential⟩ "f"),
        .started 0 1 (.missing "x" .sequential),
        .started 1 1 (.process 1 ⟨"a", "a", "true", .sequential⟩ "a"), .ended 0, .ended 1,
        .started 1 2 (.process 2 ⟨"b", "b", "true", .sequential⟩ "b"), .ended 2,
        .completed 1 ⟨"a - b", false, [⟨"a", false, true, false, some 0⟩,
          ⟨"b", false, true, false, some 0⟩]⟩,
        .completed 0 ⟨"bg f x", true, [⟨"x", false, true, true, none⟩,
          ⟨"f", false, true, true, some 1⟩, ⟨"bg", false, true, false, none⟩]⟩] := rfl
  have htasks : State.carriedOut.tasks = [none, none, none, none, none] := rfl
  have hstill : StandsStill .paused .carriedOut 0 := by
    refine ⟨fun p hp => ?_, fun u v task _ _ hs => ?_⟩
    · obtain ⟨r, j, i, name, -, hx⟩ := hp
      rw [hH] at hx ⊢
      simp only [List.mem_cons, Deed.started.injEq, Member.process.injEq, reduceCtorEq, and_false,
        false_or, or_false, List.not_mem_nil] at hx
      rcases hx with ⟨-, -, rfl, -⟩ | ⟨-, -, rfl, -⟩ | ⟨-, -, rfl, -⟩ <;> simp
    · rw [Core.slot?, htasks] at hs
      rcases v with _ | _ | _ | _ | _ | v <;> cases hs
  refine ⟨performed_of_standsStill (fun _ _ => rfl) calm_carriedOut (by simp [hH]) hstill, ?_⟩
  rw [hH]
  rfl

end ChainRunner.Run
