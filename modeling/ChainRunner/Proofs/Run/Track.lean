import ChainRunner.Proofs.Run.History
import ChainRunner.Proofs.Run.Origin

/-!
A run agrees with what the history says of it, and stays so whatever it does: it has started what
it has taken off its plan, and what it started it has settled or waits for.
-/

namespace ChainRunner.Run

/-- The task `w` stands for a member that the run `owner` has started. -/
def Watches (ts : List (Option Slot)) (owner w : TaskId) : Member → Prop
  | .process p _ _ =>
    w < ts.length ∧ ∀ t, taskAt ts w = some t → ∃ name, t = .waiter p name owner
  | .chain run _ _ _ => w = run
  | .missing _ _ => False

/-- The run cannot get to its next batch before it has learned of the member. -/
def Course.Awaits (ts : List (Option Slot)) (t : TaskId) (r : Course) (x : Member) : Prop :=
  (∃ why, Arrival.broken why ∈ r.arrived) ∨ ∃ w ∈ r.waiting, Watches ts t w x

/-- A run agrees with what the history says of it. -/
structure Course.OnTrack (m : Manifest) (H : List Deed) (ts : List (Option Slot)) (t : TaskId)
    (r : Course) : Prop where
  opened : .opened t r.chain r.vars r.exitOnError ∈ H
  rest : r.rest = (Chain.batches r.chain).drop r.batch
  bounded : r.batch ≤ (Chain.batches r.chain).length
  unbegun : r.batch = 0 → r.agenda = []
  within : ∀ {k : Nat} {x : Member}, .started t k x ∈ H → 0 < k ∧ k ≤ r.batch
  earlier : ∀ {j : Nat} {ps : List Planned}, j + 1 < r.batch →
    (plan m r.chain r.vars)[j]? = some ps → (membersOf H t (j + 1)).map Member.planned = ps
  current : ∀ {j : Nat} {ps : List Planned}, j + 1 = r.batch →
    (plan m r.chain r.vars)[j]? = some ps →
      (membersOf H t (j + 1)).map Member.planned ++ agendaPlan m r.vars r.agenda = ps
  settled : ∀ {k : Nat} {x : Member}, k < r.batch → .started t k x ∈ H → Settled m H r.vars x
  awaited : ∀ {x : Member}, .started t r.batch x ∈ H →
    Settled m H r.vars x ∨ r.Awaits ts t x

section

variable {m : Manifest} {H ds : List Deed} {ts ts' : List (Option Slot)} {t self w : TaskId}
  {r r' : Course} {x : Member}

lemma Watches.keep (h : Watches ts t w x) (hk : Keeps ts ts') : Watches ts' t w x := by
  cases x with
  | process p i name =>
    refine ⟨Nat.lt_of_lt_of_le h.1 hk.length_le, fun task' ht' => ?_⟩
    obtain ⟨task, ht, hkin⟩ := hk.kin h.1 ht'
    obtain ⟨n, rfl⟩ := h.2 task ht
    exact ⟨n, hkin.of_waiter⟩
  | chain run target mode name => exact h
  | missing target mode => exact h

lemma Course.Awaits.keep (h : r.Awaits ts t x) (hk : Keeps ts ts') : r.Awaits ts' t x :=
  h.imp_right fun ⟨w, hw, hx⟩ => ⟨w, hw, hx.keep hk⟩

/-- Whatever others do, a run stays on its track. -/
lemma Course.OnTrack.frame (h : r.OnTrack m H ts t) (hk : Keeps ts ts')
    (hr : Respects H ds) (hs : ∀ k x, Deed.started t k x ∉ ds) :
    r.OnTrack m (H ++ ds) ts' t := by
  have hold {k : Nat} {x : Member} (hx : Deed.started t k x ∈ H ++ ds) : .started t k x ∈ H :=
    (List.mem_append.1 hx).resolve_right (hs k x)
  have hmem (k : Nat) : membersOf (H ++ ds) t k = membersOf H t k := by
    rw [membersOf_append, membersOf_eq_nil (hs k), List.append_nil]
  exact
    { opened := List.mem_append_left _ h.opened
      rest := h.rest
      bounded := h.bounded
      unbegun := h.unbegun
      within := fun hx => h.within (hold hx)
      earlier := fun hj hps => by rw [hmem]; exact h.earlier hj hps
      current := fun hj hps => by rw [hmem]; exact h.current hj hps
      settled := fun hk hx => (h.settled hk (hold hx)).append hr
      awaited := fun hx => (h.awaited (hold hx)).imp (·.append hr) (·.keep hk) }

/-- A run that goes on quietly stays on its track. -/
lemma Course.OnTrack.quiet (h : r.OnTrack m H ts t) (q : r.Quiet m r') : r'.OnTrack m H ts t := by
  cases q with
  | skip ha ht =>
    refine { h with unbegun := ?_, current := ?_ }
    · intro hb
      simp [h.unbegun hb] at ha
    · intro j ps hj hps
      simpa [ha, planStep, ht] using h.current hj hps
  | expand ha ht hm =>
    refine { h with unbegun := ?_, current := ?_ }
    · intro hb
      simp [h.unbegun hb] at ha
    · intro j ps hj hps
      simpa [ha, planStep, ht, hm, agendaPlan_launches] using h.current hj hps
  | enter entries ha hr =>
    refine { h with awaited := fun hx => (h.awaited hx).imp_right ?_ }
    rintro (⟨why, hw⟩ | hw)
    · rw [hr] at hw
      exact .inl ⟨why, by simpa using hw⟩
    · exact .inr hw
  | @begins b rest ha hr hw hb =>
    -- the batch before becomes an earlier one: all of it was started, and has settled
    have hdrop : (Chain.batches r.chain).drop r.batch = b :: rest := by rw [← h.rest, hb]
    have hlt : r.batch < (Chain.batches r.chain).length := by
      by_contra hge
      simp [List.drop_eq_nil_of_le (Nat.le_of_not_lt hge)] at hdrop
    rw [List.drop_eq_getElem_cons hlt, List.cons.injEq] at hdrop
    have hnone {x : Member} : Deed.started t (r.batch + 1) x ∉ H := fun hx =>
      Nat.not_succ_le_self _ (h.within hx).2
    exact
      { opened := h.opened
        rest := hdrop.2.symm
        bounded := hlt
        unbegun := fun h0 => absurd h0 (Nat.succ_ne_zero _)
        within := fun hx => ⟨(h.within hx).1, Nat.le_succ_of_le (h.within hx).2⟩
        earlier := by
          intro j ps hj hps
          rcases Nat.lt_or_eq_of_le (Nat.le_of_lt_succ hj) with hj | hj
          · exact h.earlier hj hps
          · simpa [ha] using h.current hj hps
        current := by
          intro j ps hj hps
          obtain rfl : j = r.batch := Nat.succ.inj hj
          rw [plan_getElem?, List.getElem?_eq_getElem hlt, hdrop.1] at hps
          rw [membersOf_eq_nil fun x => hnone, List.map_nil, List.nil_append, agendaPlan_steps]
          exact Option.some.inj hps
        settled := by
          intro k x hk hx
          rcases Nat.lt_or_eq_of_le (Nat.le_of_lt_succ hk) with hk | rfl
          · exact h.settled hk hx
          · refine (h.awaited hx).resolve_right ?_
            rintro (⟨why, hin⟩ | ⟨w, hin, -⟩)
            · simp [hr] at hin
            · simp [hw] at hin
        awaited := fun hx => absurd hx hnone }

/-- A run begins on its track. -/
lemma Course.OnTrack.start {chain : String} {vars : Variables} {e : Bool}
    (ho : .opened t chain vars e ∈ H) (hs : ∀ k x, Deed.started t k x ∉ H) :
    (Course.start chain vars e).OnTrack m H ts t where
  opened := ho
  rest := rfl
  bounded := Nat.zero_le _
  unbegun _ := rfl
  within hx := absurd hx (hs _ _)
  earlier hj := absurd hj (Nat.not_lt_zero _)
  current hj := absurd hj (Nat.succ_ne_zero _)
  settled hk := absurd hk (Nat.not_lt_zero _)
  awaited hx := absurd hx (hs _ _)

variable {agenda : List Errand}

/-- What comes first on the agenda of a run may be started. -/
lemma Course.OnTrack.turn (h : r.OnTrack m H ts t)
    (ha : agendaPlan m r.vars r.agenda = x.planned :: agendaPlan m r.vars agenda) :
    InTurn m H t r.batch x r.chain r.vars := by
  have hpos : r.batch ≠ 0 := fun h0 => by simp [h.unbegun h0] at ha
  obtain ⟨j, hj⟩ := Nat.exists_eq_succ_of_ne_zero hpos
  have hlt : j < (Chain.batches r.chain).length := Nat.lt_of_succ_le (hj ▸ h.bounded)
  have hps : (plan m r.chain r.vars)[j]? = _ := plan_getElem? r.chain j
  rw [List.getElem?_eq_getElem hlt, Option.map_some] at hps
  refine ⟨⟨_, h.opened⟩, ⟨j, _, hj, hps, ?_⟩, fun hj' hps' => h.earlier hj' hps',
    fun hk hy => h.settled hk hy⟩
  rw [← h.current hj.symm hps, ha, hj]
  exact (List.prefix_append_right_inj _).2 ⟨_, rfl⟩

/-- A run that starts a member stays on its track. -/
lemma Course.OnTrack.starts (h : r.OnTrack m H ts t) (names : Names) (entries : List Entry)
    (failed : Bool) (background : List ProcessId) {waiting : List TaskId}
    (ha : agendaPlan m r.vars r.agenda = x.planned :: agendaPlan m r.vars agenda)
    (hr : Respects H [.started t r.batch x]) (hk : Keeps ts ts') (hw : r.waiting ⊆ waiting)
    (hx : Settled m (H ++ [.started t r.batch x]) r.vars x ∨ ∃ w ∈ waiting, Watches ts' t w x) :
    ({ r with agenda, names, entries, failed, background, waiting } : Course).OnTrack m
      (H ++ [.started t r.batch x]) ts' t := by
  have hpos : 0 < r.batch := Nat.pos_of_ne_zero fun h0 => by simp [h.unbegun h0] at ha
  have hmem {k : Nat} {y : Member} (hy : Deed.started t k y ∈ H ++ [.started t r.batch x]) :
      .started t k y ∈ H ∨ k = r.batch ∧ y = x := by
    rcases List.mem_append.1 hy with hy | hy
    · exact .inl hy
    · cases List.mem_singleton.1 hy
      exact .inr ⟨rfl, rfl⟩
  exact
    { opened := List.mem_append_left _ h.opened
      rest := h.rest
      bounded := h.bounded
      unbegun := fun h0 => absurd h0 (Nat.ne_of_gt hpos)
      within := by
        intro k y hy
        rcases hmem hy with hy | ⟨rfl, -⟩
        · exact h.within hy
        · exact ⟨hpos, Nat.le_refl _⟩
      earlier := by
        intro j ps hj hps
        rw [membersOf_append, membersOf_started, if_neg fun heq => Nat.ne_of_gt hj heq.2,
          List.append_nil]
        exact h.earlier hj hps
      current := by
        intro j ps hj hps
        rw [membersOf_append, membersOf_started, if_pos ⟨rfl, hj.symm⟩, List.map_append,
          List.append_assoc]
        have hcurrent := h.current hj hps
        rw [ha] at hcurrent
        exact hcurrent
      settled := by
        intro k y hk hy
        rcases hmem hy with hy | ⟨rfl, -⟩
        · exact (h.settled hk hy).append hr
        · exact absurd hk (Nat.lt_irrefl _)
      awaited := by
        intro y hy
        rcases hmem hy with hy | ⟨-, rfl⟩
        · refine (h.awaited hy).imp (·.append hr) ?_
          rintro (hb | ⟨w, hin, hwy⟩)
          · exact .inl hb
          · exact .inr ⟨w, hw hin, hwy.keep hk⟩
        · exact hx.imp_right .inr }

/-- A run that learns of the end of a member stays on its track. -/
lemma Course.OnTrack.receive (h : r.OnTrack m H ts t) (a : Arrival) (hk : Keeps ts ts')
    (hr : Respects H ds) (hs : ∀ k x, Deed.started t k x ∉ ds)
    (ha : (∃ why, a = .broken why) ∨ ∀ x, .started t r.batch x ∈ H → Watches ts t w x →
      Settled m (H ++ ds) r.vars x) :
    ({ r with waiting := r.waiting.erase w, arrived := r.arrived ++ [a] } : Course).OnTrack m
      (H ++ ds) ts' t := by
  have hold {x : Member} (hx : Deed.started t r.batch x ∈ H ++ ds) : .started t r.batch x ∈ H :=
    (List.mem_append.1 hx).resolve_right (hs _ x)
  refine { h.frame hk hr hs with awaited := fun {x} hx => ?_ }
  rcases ha with ⟨why, rfl⟩ | ha
  · exact .inr (.inl ⟨why, by simp⟩)
  · rcases h.awaited (hold hx) with hx | ⟨why, hb⟩ | ⟨v, hv, hx'⟩
    · exact .inl (hx.append hr)
    · exact .inr (.inl ⟨why, List.mem_append_left _ hb⟩)
    · by_cases hvw : v = w
      · subst hvw
        exact .inl (ha x (hold hx) hx')
      · exact .inr (.inr ⟨v, (List.mem_erase_of_ne hvw).2 hv, hx'.keep hk⟩)

/-- A run that has nothing left to do has started all its members, and they have settled. -/
lemma Course.OnTrack.done (h : r.OnTrack m H ts t) (ha : r.agenda = []) (hr : r.arrived = [])
    (hw : r.waiting = []) (hb : r.rest = []) :
    (∀ {j : Nat} {ps : List Planned}, (plan m r.chain r.vars)[j]? = some ps →
      (membersOf H t (j + 1)).map Member.planned = ps) ∧
    ∀ k x, .started t k x ∈ H → Settled m H r.vars x := by
  have hall : (Chain.batches r.chain).length ≤ r.batch := by
    rw [← List.drop_eq_nil_iff, ← h.rest, hb]
  constructor
  · intro j ps hps
    have hj : j < (Chain.batches r.chain).length := by
      have := (List.getElem?_eq_some_iff.1 hps).1
      simpa [plan] using this
    rcases Nat.lt_or_eq_of_le (Nat.le_trans hj hall) with hlt | heq
    · exact h.earlier hlt hps
    · simpa [ha] using h.current heq hps
  · intro k x hx
    rcases Nat.lt_or_eq_of_le (h.within hx).2 with hk | rfl
    · exact h.settled hk hx
    · refine (h.awaited hx).resolve_right ?_
      rintro (⟨why, hin⟩ | ⟨w, hin, -⟩)
      · simp [hr] at hin
      · simp [hw] at hin

end

end ChainRunner.Run
