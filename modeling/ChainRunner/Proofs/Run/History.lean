import ChainRunner.Proofs.Run.Tasks

/-!
What the history of a session says of its runs: the members of every batch, what has settled,
and whether a member was started when its turn had come.
-/

namespace ChainRunner.Run

/-- What a member stood for in the plan. -/
def Member.planned : Member → Planned
  | .process _ i _ => .launch i
  | .chain _ target mode _ => .chain target mode
  | .missing target mode => .unknown target mode

/-- The number that a member was given. -/
def Member.number? : Member → Option (ProcessId ⊕ TaskId)
  | .process p _ _ => some (.inl p)
  | .chain t _ _ _ => some (.inr t)
  | .missing _ _ => none

def Deed.number? : Deed → Option (ProcessId ⊕ TaskId)
  | .started _ _ x => x.number?
  | _ => none

/-- No two deeds give the same number. -/
def Apart (H : List Deed) : Prop := H.Pairwise fun d d' => ∀ n ∈ d.number?, n ∉ d'.number?

def Deed.member? (r : TaskId) (k : Nat) : Deed → Option Member
  | .started r' k' x => if r' = r ∧ k' = k then some x else none
  | _ => none

/-- The members of a batch of the run `r`, in the order in which they were started. -/
def membersOf (H : List Deed) (r : TaskId) (k : Nat) : List Member :=
  H.filterMap (Deed.member? r k)

/-- The run `t` of a chain has completed, and it started all that was planned. -/
structure Finished (m : Manifest) (H : List Deed) (t : TaskId) (chain : String)
    (vars : Variables) : Prop where
  opened : ∃ e, Deed.opened t chain vars e ∈ H
  completed : ∃ report, Deed.completed t report ∈ H
  members : ∀ {j : Nat} {ps : List Planned}, (plan m chain vars)[j]? = some ps →
    (membersOf H t (j + 1)).map Member.planned = ps

/-- Nothing of the member is left to wait for: a process that is not in the background has
ended, and a chain that is not in the background has finished, and all its members have settled
in the same way. -/
inductive Settled (m : Manifest) (H : List Deed) : Variables → Member → Prop
  | process {vars : Variables} {p : ProcessId} {i : Instance} {name : String}
    (ended : i.isBackground = false → .ended p ∈ H) : Settled m H vars (.process p i name)
  | background {vars : Variables} {t : TaskId} {target name : String} :
    Settled m H vars (.chain t target .background name)
  | chain {vars : Variables} {t : TaskId} {target name expr : String} {mode : Mode}
    (names : m.resolve target = .chain expr) (finished : Finished m H t expr vars)
    (members : ∀ k x, .started t k x ∈ H → Settled m H vars x) :
    Settled m H vars (.chain t target mode name)
  | missing {vars : Variables} {target : String} {mode : Mode} :
    Settled m H vars (.missing target mode)

/-- It is the turn of a member of batch `k` of the run `r`: the plan of the batch goes on with it,
and everything planned for the earlier batches was started and has settled. -/
structure InTurn (m : Manifest) (H : List Deed) (r : TaskId) (k : Nat) (x : Member)
    (chain : String) (vars : Variables) : Prop where
  opened : ∃ e, Deed.opened r chain vars e ∈ H
  planned : ∃ j ps, k = j + 1 ∧ (plan m chain vars)[j]? = some ps ∧
    (membersOf H r k).map Member.planned ++ [x.planned] <+: ps
  earlier : ∀ {j : Nat} {ps : List Planned}, j + 1 < k → (plan m chain vars)[j]? = some ps →
    (membersOf H r (j + 1)).map Member.planned = ps
  settled : ∀ {j : Nat} {y : Member}, j < k → .started r j y ∈ H → Settled m H vars y

section

variable {m : Manifest} {H H' ds : List Deed} {r t : TaskId} {k : Nat} {x : Member} {d : Deed}

lemma mem_membersOf : x ∈ membersOf H r k ↔ .started r k x ∈ H := by
  unfold membersOf
  rw [List.mem_filterMap]
  constructor
  · rintro ⟨d, hd, h⟩
    cases d <;> simp only [Deed.member?, reduceCtorEq] at h
    split at h <;> cases h
    rename_i heq
    rwa [heq.1, heq.2] at hd
  · exact fun h => ⟨_, h, by simp [Deed.member?]⟩

@[simp] lemma membersOf_append : membersOf (H ++ ds) r k = membersOf H r k ++ membersOf ds r k :=
  List.filterMap_append ..

lemma membersOf_eq_nil (h : ∀ x, .started r k x ∉ ds) : membersOf ds r k = [] :=
  List.eq_nil_iff_forall_not_mem.2 fun x hx => h x (mem_membersOf.1 hx)

@[simp] lemma membersOf_started (r' : TaskId) (k' : Nat) :
    membersOf [.started r' k' x] r k = if r' = r ∧ k' = k then [x] else [] := by
  unfold membersOf
  split <;> simp [Deed.member?, *]

/-- A run that has completed starts nothing among the deeds `ds`. -/
def Respects (H ds : List Deed) : Prop :=
  ∀ {t : TaskId} {report : Report} {k : Nat} {x : Member},
    .completed t report ∈ H → .started t k x ∉ ds

lemma Respects.of_no_start (h : ∀ t k x, Deed.started t k x ∉ ds) : Respects H ds :=
  fun _ => h _ _ _

lemma Finished.append {chain : String} {vars : Variables} (hr : Respects H ds)
    (h : Finished m H t chain vars) : Finished m (H ++ ds) t chain vars where
  opened := h.opened.imp fun _ he => List.mem_append_left _ he
  completed := h.completed.imp fun _ hc => List.mem_append_left _ hc
  members hj := by
    obtain ⟨report, hc⟩ := h.completed
    rw [membersOf_append, membersOf_eq_nil fun x => hr hc, List.append_nil]
    exact h.members hj

/-- What has settled stays so. -/
lemma Settled.append {vars : Variables} (hr : Respects H ds) (h : Settled m H vars x) :
    Settled m (H ++ ds) vars x := by
  induction h with
  | process ended => exact .process fun hb => List.mem_append_left _ (ended hb)
  | background => exact .background
  | chain names finished members ih =>
    refine .chain names (finished.append hr) fun k x hx => ih k x ?_
    obtain ⟨report, hc⟩ := finished.completed
    exact (List.mem_append.1 hx).resolve_right (hr hc)
  | missing => exact .missing

/-! ### Plans -/

/-- What the agenda of a run still comes to. -/
def agendaPlan (m : Manifest) (vars : Variables) (agenda : List Errand) : List Planned :=
  agenda.flatMap fun
    | .step s => planStep m vars s
    | .launch i => [.launch i]

variable {vars : Variables}

@[simp] lemma agendaPlan_nil : agendaPlan m vars [] = [] := rfl

@[simp] lemma agendaPlan_launch (i : Instance) (agenda : List Errand) :
    agendaPlan m vars (.launch i :: agenda) = .launch i :: agendaPlan m vars agenda := rfl

@[simp] lemma agendaPlan_step (s : Step) (agenda : List Errand) :
    agendaPlan m vars (.step s :: agenda) = planStep m vars s ++ agendaPlan m vars agenda := rfl

lemma planStep_chain {step : Step} {target expr : String} (ht : step.target? = some target)
    (hm : m.resolve target = .chain expr) :
    planStep m vars step = [.chain target step.mode] := by simp [planStep, ht, hm]

lemma planStep_unknown {step : Step} {target : String} (ht : step.target? = some target)
    (hm : m.resolve target = .unknown) :
    planStep m vars step = [.unknown target step.mode] := by simp [planStep, ht, hm]

lemma agendaPlan_launches (is : List Instance) (agenda : List Errand) :
    agendaPlan m vars (is.map .launch ++ agenda) =
      is.map .launch ++ agendaPlan m vars agenda := by
  induction is with
  | nil => rfl
  | cons i is ih => simp [ih]

lemma agendaPlan_steps (steps : List Step) :
    agendaPlan m vars (steps.map .step) = steps.flatMap (planStep m vars) := by
  induction steps with
  | nil => rfl
  | cons s steps ih => simp [ih]

lemma plan_getElem? (chain : String) (j : Nat) :
    (plan m chain vars)[j]? =
      (Chain.batches chain)[j]?.map fun b => b.steps.flatMap (planStep m vars) :=
  List.getElem?_map ..

end

/-! ### Every start in its turn -/

/-- Every member was started when its turn had come. -/
def Ordered (m : Manifest) (H : List Deed) : Prop :=
  ∀ pre post r k x, H = pre ++ .started r k x :: post →
    ∃ chain vars, InTurn m pre r k x chain vars

section

variable {m : Manifest} {H ds : List Deed} {d : Deed}

lemma Ordered.concat (h : Ordered m H)
    (hd : ∀ r k x, d = .started r k x → ∃ chain vars, InTurn m H r k x chain vars) :
    Ordered m (H ++ [d]) := by
  intro pre post r k x heq
  rcases concat_eq_append_cons heq with ⟨rfl, hlast⟩ | ⟨post', -, hold⟩
  · exact hd r k x hlast
  · exact h _ _ _ _ _ hold

lemma Ordered.append (h : Ordered m H) (hd : ∀ r k x, Deed.started r k x ∉ ds) :
    Ordered m (H ++ ds) := by
  induction ds generalizing H with
  | nil => simpa using h
  | cons d ds ih =>
    rw [List.append_cons]
    refine ih (h.concat ?_) fun r k x hx => hd r k x (List.mem_cons_of_mem _ hx)
    rintro r k x rfl
    exact absurd List.mem_cons_self (hd r k x)

/-- A run is opened before it starts anything. -/
lemma Ordered.opened (h : Ordered m H) {r : TaskId} {k : Nat} {x : Member}
    (hx : .started r k x ∈ H) : ∃ chain vars e, Deed.opened r chain vars e ∈ H := by
  obtain ⟨pre, post, rfl⟩ := List.append_of_mem hx
  obtain ⟨chain, vars, hturn⟩ := h _ _ _ _ _ rfl
  obtain ⟨e, he⟩ := hturn.opened
  exact ⟨chain, vars, e, List.mem_append_left _ he⟩

end

end ChainRunner.Run
