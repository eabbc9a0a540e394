import ChainRunner.Proofs.Chain.Parser
import ChainRunner.Proofs.Manifest.Height
import ChainRunner.Proofs.Run.Family
import ChainRunner.Proofs.Run.Rest
import Mathlib.Data.List.Flatten
import Mathlib.Data.List.Nodup

/-!
What a run comes to with all the chains below it.

A chain of a plan is replaced by the plan of its expression, and so on; this comes to an end
because expressions get less high. The processes started for a run are among the instances
that are left then, each started for one of them, and they are all of them once the family of the
run has completed.
-/

namespace ChainRunner.Run

/-! ### Plans and nesting -/

section

variable {m : Manifest} {vars : Variables} {e e' : String}

/-- A chain that is planned for an expression is nested in it. -/
lemma nests_of_planned {name : String} {mode : Mode}
    (hx : .chain name mode ∈ (plan m e vars).flatten) (hm : m.resolve name = .chain e') :
    m.Nests e e' := by
  obtain ⟨ps, hps, hx⟩ := List.mem_flatten.1 hx
  obtain ⟨b, hb, rfl⟩ := List.mem_map.1 hps
  obtain ⟨step, hstep, hx⟩ := List.mem_flatMap.1 hx
  refine ⟨step, Chain.mem_parse_of_batches hb hstep, name, ?_, hm⟩
  unfold planStep at hx
  split at hx
  · cases hx
  · rename_i target ht
    split at hx
    · simp at hx
    · rw [ht, (Planned.chain.inj (List.mem_singleton.1 hx)).1]
    · simp at hx

end

/-- The plan of an expression with every chain in it replaced by its own plan, and so on. -/
def unfold (m : Manifest) (vars : Variables) (e : String) : List Instance :=
  (plan m e vars).flatten.attach.flatMap fun ⟨x, _hx⟩ =>
    match x with
    | .launch i => [i]
    | .chain name _ =>
      match _hm : m.resolve name with
      | .chain e' => unfold m vars e'
      | _ => []
    | .unknown _ _ => []
termination_by m.height e
decreasing_by exact m.height_lt_of_nests (nests_of_planned _hx _hm)

/-- The instances that a planned member comes to. -/
def Planned.instances (m : Manifest) (vars : Variables) : Planned → List Instance
  | .launch i => [i]
  | .chain name _ =>
    match m.resolve name with
    | .chain e => unfold m vars e
    | _ => []
  | .unknown _ _ => []

theorem unfold_eq (m : Manifest) (vars : Variables) (e : String) :
    unfold m vars e = (plan m e vars).flatten.flatMap (Planned.instances m vars) := by
  rw [unfold]
  conv_rhs => rw [← List.attach_map_subtype_val (plan m e vars).flatten, List.flatMap_map]
  refine List.flatMap_congr fun ⟨x, hx⟩ _ => ?_
  cases x with
  | launch i => rfl
  | unknown name mode => rfl
  | chain name mode =>
    simp only [Planned.instances]
    split <;> simp_all

/-! ### What a run has started of its plan -/

section

variable {m : Manifest} {H : List Deed} {t : TaskId} {chain : String} {vars : Variables}

lemma Ordered.of_append {ds : List Deed} (h : Ordered m (H ++ ds)) : Ordered m H := by
  rintro pre post r k x rfl
  exact h pre (post ++ ds) r k x (by simp)

/-- The run `t` is a run of this expression, if it was opened at all. -/
def OpenedAs (H : List Deed) (t : TaskId) (chain : String) (vars : Variables) : Prop :=
  ∀ {chain' vars' e}, .opened t chain' vars' e ∈ H → chain' = chain ∧ vars' = vars

lemma OpenedAs.of_append {ds : List Deed} (hu : OpenedAs (H ++ ds) t chain vars) :
    OpenedAs H t chain vars := fun ho => hu (List.mem_append_left _ ho)

/-- What a run starts it starts in turn by its own plan. -/
lemma Ordered.inTurn (h : Ordered m H) (hu : OpenedAs H t chain vars) {pre post : List Deed}
    {k : Nat} {x : Member} (hH : H = pre ++ .started t k x :: post) :
    InTurn m pre t k x chain vars := by
  obtain ⟨chain', vars', hturn⟩ := h pre post t k x hH
  obtain ⟨e, he⟩ := hturn.opened
  obtain ⟨rfl, rfl⟩ := hu (hH ▸ List.mem_append_left _ he)
  exact hturn

/-- Of a batch, a run has started what is planned first. -/
lemma Ordered.members_prefix (h : Ordered m H) (hu : OpenedAs H t chain vars) {j : Nat}
    {ps : List Planned} (hps : (plan m chain vars)[j]? = some ps) :
    (membersOf H t (j + 1)).map Member.planned <+: ps := by
  induction H using List.reverseRecOn with
  | nil => exact List.nil_prefix
  | append_singleton H d ih =>
    rw [membersOf_append]
    by_cases hd : ∃ x, d = .started t (j + 1) x
    · obtain ⟨x, rfl⟩ := hd
      obtain ⟨j', ps', hj, hps', hpre⟩ := (h.inTurn hu rfl).planned
      obtain rfl : j = j' := Nat.succ.inj hj
      rw [hps] at hps'
      cases hps'
      simpa using hpre
    · rw [membersOf_eq_nil fun x hx => hd ⟨x, (List.mem_singleton.1 hx).symm⟩, List.append_nil]
      exact ih h.of_append hu.of_append

/-- A run starts members of the batches that are planned only. -/
lemma Ordered.batch_lt (h : Ordered m H) (hu : OpenedAs H t chain vars) {k : Nat} {x : Member}
    (hx : .started t k x ∈ H) :
    ∃ j, k = j + 1 ∧ j < (plan m chain vars).length := by
  obtain ⟨pre, post, hH⟩ := List.append_of_mem hx
  obtain ⟨j, ps, hj, hps, -⟩ := (h.inTurn hu hH).planned
  exact ⟨j, hj, (List.getElem?_eq_some_iff.1 hps).1⟩

/-- The members of the first batches of a run, batch by batch. -/
def membersTo (H : List Deed) (t : TaskId) (n : Nat) : List Member :=
  (List.range n).flatMap fun j => membersOf H t (j + 1)

lemma mem_membersTo {n : Nat} {x : Member} :
    x ∈ membersTo H t n ↔ ∃ j, j < n ∧ .started t (j + 1) x ∈ H := by
  simp [membersTo, List.mem_flatMap, mem_membersOf]

lemma flatMap_range_sublist {α β : Type} {f : Nat → List α} {g : α → β} {L : List (List β)}
    (h : ∀ j ps, L[j]? = some ps → ((f j).map g).Sublist ps) :
    (((List.range L.length).flatMap f).map g).Sublist L.flatten := by
  induction L generalizing f with
  | nil => exact List.Sublist.slnil
  | cons ps L ih =>
    rw [List.length_cons, List.range_succ_eq_map, List.flatMap_cons, List.flatMap_map,
      List.map_append, List.flatten_cons]
    exact (h 0 ps rfl).append (ih fun j => h (j + 1))

lemma flatMap_range_eq {α β : Type} {f : Nat → List α} {g : α → β} {L : List (List β)}
    (h : ∀ j ps, L[j]? = some ps → (f j).map g = ps) :
    ((List.range L.length).flatMap f).map g = L.flatten := by
  induction L generalizing f with
  | nil => rfl
  | cons ps L ih =>
    rw [List.length_cons, List.range_succ_eq_map, List.flatMap_cons, List.flatMap_map,
      List.map_append, List.flatten_cons, h 0 ps rfl, ih fun j => h (j + 1)]

end

/-! ### The processes of a family -/

/-- The process was started for an instance by the run or a chain nested below it. -/
def StartedFor (H : List Deed) (root : TaskId) (p : ProcessId) (i : Instance) : Prop :=
  ∃ r k name, Family H root r ∧ .started r k (.process p i name) ∈ H

/-- The processes that a member comes to, with their instances. -/
def Member.Includes (H : List Deed) : Member → ProcessId → Instance → Prop
  | .process q j _, p, i => p = q ∧ i = j
  | .chain t _ _ _, p, i => StartedFor H t p i
  | .missing _ _, _, _ => False

/-- All the runs below a member have completed. -/
def Member.Complete (H : List Deed) : Member → Prop
  | .chain t _ _ _ => ∀ u, Family H t u → ∃ report, Deed.completed u report ∈ H
  | _ => True

/-- The list tells for which processes `P` holds and of what, each process once. What it holds of is
among `is`, in order, and it is all of them if `full` is true. -/
structure Lists {α : Type} (P : ProcessId → α → Prop) (full : Prop) (is : List α)
    (ls : List (ProcessId × α)) : Prop where
  nodup : (ls.map Prod.fst).Nodup
  mem : ∀ {p i}, (p, i) ∈ ls ↔ P p i
  among : (ls.map Prod.snd).Sublist is
  all : full → ls.map Prod.snd = is

section

variable {m : Manifest} {c : Core} {H : List Deed} {t : TaskId} {p : ProcessId} {i : Instance}
  {x y : Member}

lemma startedFor_iff : StartedFor H t p i ↔ ∃ k x, .started t k x ∈ H ∧ x.Includes H p i := by
  constructor
  · rintro ⟨r, k, name, hf, hx⟩
    rcases hf.cases_head with rfl | ⟨u, k', target, mode, name', hu, hf⟩
    · exact ⟨k, _, hx, rfl, rfl⟩
    · exact ⟨k', _, hu, r, k, name, hf, hx⟩
  · rintro ⟨k, x, hx, hp⟩
    cases x with
    | process q j name =>
      obtain ⟨rfl, rfl⟩ := hp
      exact ⟨t, k, name, .root, hx⟩
    | chain u target mode name =>
      obtain ⟨r, k', name', hf, hx'⟩ := hp
      exact ⟨r, k', name', .trans (.nested .root hx) hf, hx'⟩
    | missing => cases hp

/-- Two members of a run have no process in common. -/
lemma Numbered.includes_disjoint (h : Numbered H) {k k' : Nat} (hx : .started t k x ∈ H)
    (hy : .started t k' y ∈ H) (hne : ∀ n ∈ x.number?, n ∉ y.number?) {i i' : Instance}
    (hp : x.Includes H p i) (hp' : y.Includes H p i') : False := by
  -- a process that the run has started itself is of none of its chains
  have hown {u : TaskId} {k k' : Nat} {target name name' : String} {mode : Mode} {i i' : Instance}
      (hq : .started t k (.process p i name) ∈ H)
      (hu : .started t k' (.chain u target mode name') ∈ H) (hp : StartedFor H u p i') : False := by
    obtain ⟨r, k'', name'', hf, hr⟩ := hp
    obtain ⟨rfl, -⟩ := h.process hq hr
    exact Nat.not_le_of_lt (h.younger hu) (h.le_of_family hf)
  cases x with
  | process q j name =>
    obtain ⟨rfl, rfl⟩ := hp
    cases y with
    | process q' j' name' =>
      obtain ⟨rfl, rfl⟩ := hp'
      exact hne _ rfl rfl
    | chain u target mode name' => exact hown hx hy hp'
    | missing => exact hp'
  | chain u target mode name =>
    cases y with
    | process q' j' name' =>
      obtain ⟨rfl, rfl⟩ := hp'
      exact hown hy hx hp
    | chain v target' mode' name' =>
      obtain ⟨r, k₁, n₁, hf, hr⟩ := hp
      obtain ⟨r', k₂, n₂, hf', hr'⟩ := hp'
      obtain ⟨rfl, -⟩ := h.process hr hr'
      obtain rfl := h.disjoint hx hy hf hf'
      exact hne _ rfl rfl
    | missing => exact hp'
  | missing => exact hp

lemma Numbered.membersOf_pairwise (h : Numbered H) (k : Nat) :
    (membersOf H t k).Pairwise fun x y => ∀ n ∈ x.number?, n ∉ y.number? := by
  refine List.pairwise_filterMap.2 (h.apart.imp fun {d d'} hd x hx y hy => ?_)
  cases d <;> simp only [Deed.member?, reduceCtorEq] at hx
  cases d' <;> simp only [Deed.member?, reduceCtorEq] at hy
  split at hx <;> cases hx
  split at hy <;> cases hy
  exact hd

lemma Numbered.membersTo_pairwise (h : Numbered H) (n : Nat) :
    (membersTo H t n).Pairwise fun x y => ∀ n ∈ x.number?, n ∉ y.number? := by
  refine List.pairwise_flatMap.2 ⟨fun j _ => h.membersOf_pairwise (j + 1), ?_⟩
  refine List.nodup_range.imp fun {j j'} hj x hx y hy n hn hn' => hj ?_
  have heq := h.eq_of_number (mem_membersOf.1 hx) (mem_membersOf.1 hy) (hn.trans hn'.symm)
    (by rw [hn]; rfl)
  cases heq
  rfl

/-- Lists for what has no process in common make up one list. -/
lemma Lists.flatMap {α β : Type} {P : ProcessId → α → Prop} {Q : β → ProcessId → α → Prop}
    {full : Prop} {part : β → Prop} {is : List α} {xs : List β} {js : β → List α}
    {f : β → List (ProcessId × α)} (hP : ∀ {p a}, P p a ↔ ∃ x ∈ xs, Q x p a)
    (hapart : xs.Pairwise fun x y => ∀ {p a b}, Q x p a → Q y p b → False)
    (hf : ∀ x ∈ xs, Lists (Q x) (part x) (js x) (f x)) (hsub : (xs.flatMap js).Sublist is)
    (hall : full → xs.flatMap js = is ∧ ∀ x ∈ xs, part x) : Lists P full is (xs.flatMap f) where
  nodup := by
    rw [List.map_flatMap]
    refine List.nodup_flatMap.2 ⟨fun x hx => (hf x hx).nodup, ?_⟩
    refine hapart.imp_of_mem fun {x y} hx hy hne p hp hp' => ?_
    obtain ⟨⟨_, a⟩, hin, rfl⟩ := List.mem_map.1 hp
    obtain ⟨⟨_, b⟩, hin', rfl⟩ := List.mem_map.1 hp'
    exact hne ((hf x hx).mem.1 hin) ((hf y hy).mem.1 hin')
  mem {p a} := by
    rw [List.mem_flatMap, hP]
    exact exists_congr fun x => and_congr_right fun hx => (hf x hx).mem
  among := by
    rw [List.map_flatMap]
    exact (List.Sublist.flatMap_right _ fun x hx => (hf x hx).among).trans hsub
  all hfull := by
    obtain ⟨heq, hpart⟩ := hall hfull
    rw [List.map_flatMap, ← heq]
    exact List.flatMap_congr fun x hx => (hf x hx).all (hpart x hx)

variable {k : Nat} {e : String} {vars : Variables} {flag : Bool}

lemma Orderly.openedAs (ho : Orderly m c) (hopen : .opened t e vars flag ∈ c.history) :
    OpenedAs c.history t e vars := fun hopen' => by
  obtain ⟨rfl, rfl, -⟩ := ho.opened_unique hopen hopen'
  exact ⟨rfl, rfl⟩

/-- A chain that a run has started is nested in its expression. -/
lemma Orderly.nests (ho : Orderly m c) {u : TaskId} {target name : String} {mode : Mode}
    (hx : .started t k (.chain u target mode name) ∈ c.history)
    (hopen : .opened t e vars flag ∈ c.history) :
    ∃ e', m.resolve target = .chain e' ∧ m.Nests e e' ∧
      .opened u e' vars (flag && mode ≠ .background) ∈ c.history := by
  obtain ⟨e', chain, vars', flag', hm, ht, hu⟩ := ho.nested hx
  obtain ⟨rfl, rfl, rfl⟩ := ho.opened_unique hopen ht
  obtain ⟨pre, post, hH⟩ := List.append_of_mem hx
  obtain ⟨j, ps, -, hps, hpre⟩ := (ho.ordered.inTurn (ho.openedAs hopen) hH).planned
  have hin : .chain target mode ∈ ps :=
    hpre.subset (List.mem_append_right _ (List.mem_singleton_self _))
  have hplan := List.mem_flatten.2 ⟨ps, List.mem_of_getElem? hps, hin⟩
  exact ⟨e', hm, nests_of_planned hplan hm, hu⟩

/-- The processes started for a run are started for instances that its expression comes to, each
for another; and once its family has completed, these are all of them. -/
theorem exists_lists (ho : Orderly m c) (hd : Concluded m c) (hn : Numbered c.history)
    (hopen : .opened t e vars flag ∈ c.history) :
    ∃ ls, Lists (StartedFor c.history t)
      (∀ u, Family c.history t u → ∃ report, Deed.completed u report ∈ c.history)
      (unfold m vars e) ls := by
  -- by induction over the nesting: a chain that is a member is nested in the expression
  induction e using m.wellFounded_nests.induction generalizing t flag with
  | _ e ih =>
  have hu : OpenedAs c.history t e vars := ho.openedAs hopen
  let ms := membersTo c.history t (plan m e vars).length
  have hms (x : Member) : x ∈ ms ↔ ∃ k, .started t k x ∈ c.history := by
    rw [mem_membersTo]
    constructor
    · rintro ⟨j, -, hx⟩
      exact ⟨_, hx⟩
    · rintro ⟨k, hx⟩
      obtain ⟨j, rfl, hj⟩ := ho.ordered.batch_lt hu hx
      exact ⟨j, hj, hx⟩
  have hmember (x : Member) (hx : x ∈ ms) : ∃ ls, Lists (x.Includes c.history)
      (x.Complete c.history) (x.planned.instances m vars) ls := by
    obtain ⟨k, hx⟩ := (hms x).1 hx
    cases x with
    | process q j name =>
      refine ⟨[(q, j)], List.nodup_singleton q, ?_, .refl _, fun _ => rfl⟩
      simp [Member.Includes]
    | chain u target mode name =>
      obtain ⟨e', hm, hnests, hopen'⟩ := ho.nests hx hopen
      have hinstances : (Planned.chain target mode).instances m vars = unfold m vars e' := by
        simp [Planned.instances, hm]
      rw [Member.planned, hinstances]
      exact ih e' hnests hopen'
    | missing target mode =>
      exact ⟨[], .nil, by simp [Member.Includes], .refl _, fun _ => rfl⟩
  -- the members have their lists, and those of the run are these, one after the other
  choose! f hf using hmember
  rw [unfold_eq]
  have hplanned : (ms.flatMap fun x => x.planned.instances m vars) =
      (ms.map Member.planned).flatMap (Planned.instances m vars) := by rw [List.flatMap_map]
  refine ⟨ms.flatMap f, .flatMap (fun {p i} => ?_) ?_ hf ?_ fun hfull => ⟨?_, ?_⟩⟩
  · rw [startedFor_iff]
    constructor
    · rintro ⟨k, x, hx, hp⟩
      exact ⟨x, (hms x).2 ⟨k, hx⟩, hp⟩
    · rintro ⟨x, hx, hp⟩
      obtain ⟨k, hx⟩ := (hms x).1 hx
      exact ⟨k, x, hx, hp⟩
  · -- no process is started for two members
    refine (hn.membersTo_pairwise _).imp_of_mem fun {x y} hx hy hne p i i' hp hp' => ?_
    obtain ⟨k, hx⟩ := (hms x).1 hx
    obtain ⟨k', hy⟩ := (hms y).1 hy
    exact hn.includes_disjoint hx hy hne hp hp'
  · rw [hplanned]
    refine List.Sublist.flatMap ?_ _
    exact flatMap_range_sublist fun j ps hps => (ho.ordered.members_prefix hu hps).sublist
  · -- a run that has completed has started all that was planned
    obtain ⟨report, hcompleted⟩ := hfull t .root
    have hfinished := (hd.fulfilled ho hopen hcompleted).finished
    rw [hplanned]
    exact congrArg (List.flatMap _) (flatMap_range_eq fun j ps hps => hfinished.members hps)
  · intro x hx
    obtain ⟨k, hx⟩ := (hms x).1 hx
    cases x with
    | chain u target mode name => exact fun r hr => hfull r (.trans (.nested .root hx) hr)
    | _ => trivial

/-- The processes started for a run are no more than the instances its expression comes to. -/
lemma length_le_of_onBehalf (ho : Orderly m c) (hd : Concluded m c) (hn : Numbered c.history)
    (hopen : .opened t e vars flag ∈ c.history) {ps : List ProcessId} (hps : ps.Nodup)
    (hp : ∀ p ∈ ps, OnBehalf c.history t p) : ps.length ≤ (unfold m vars e).length := by
  obtain ⟨ls, hls⟩ := exists_lists ho hd hn hopen
  have hsub : ps ⊆ ls.map Prod.fst := fun p hin => by
    obtain ⟨r, k, i, name, hf, hx⟩ := hp p hin
    exact List.mem_map.2 ⟨(p, i), hls.mem.2 ⟨r, k, name, hf, hx⟩, rfl⟩
  calc ps.length ≤ (ls.map Prod.fst).length := (hps.subperm hsub).length_le
    _ = (ls.map Prod.snd).length := by rw [List.length_map, List.length_map]
    _ ≤ (unfold m vars e).length := hls.among.length_le

/-! ### Depth -/

/-- The run `u` is nested so many levels below the run `root`. -/
inductive Below (H : List Deed) (root : TaskId) : Nat → TaskId → Prop
  | root : Below H root 0 root
  | nested {d k : Nat} {r t : TaskId} {target name : String} {mode : Mode} (h : Below H root d r)
    (hx : .started r k (.chain t target mode name) ∈ H) : Below H root (d + 1) t

lemma exists_below {u : TaskId} (h : Family H t u) : ∃ d, Below H t d u := by
  induction h with
  | root => exact ⟨0, .root⟩
  | nested _ hx ih =>
    obtain ⟨d, hd⟩ := ih
    exact ⟨d + 1, .nested hd hx⟩

/-- What is nested below a run has an expression that is less high by as much. -/
lemma Below.height (ho : Orderly m c) (hopen : .opened t e vars flag ∈ c.history) {d : Nat}
    {u : TaskId} (h : Below c.history t d u) :
    ∃ e' flag', .opened u e' vars flag' ∈ c.history ∧ m.height e' + d ≤ m.height e := by
  induction h with
  | root => exact ⟨e, flag, hopen, Nat.le_refl _⟩
  | nested _ hx ih =>
    obtain ⟨e', flag', hopen', hle⟩ := ih
    obtain ⟨e'', -, hnests, hopen''⟩ := ho.nests hx hopen'
    have hlt := m.height_lt_of_nests hnests
    exact ⟨e'', _, hopen'', by omega⟩

end

end ChainRunner.Run
