import ChainRunner.Proofs.Run.Barrier
import Mathlib.Data.List.Pairwise

/-!
A run and the chains below it: every process and every nested run has a number of its own, and was
started by one run only, which is older.
-/

namespace ChainRunner.Run

/-- A run and all the chains that were nested below it. -/
inductive Family (H : List Deed) (root : TaskId) : TaskId → Prop
  | root : Family H root root
  | nested {r t : TaskId} {k : Nat} {target name : String} {mode : Mode} (h : Family H root r)
    (hx : .started r k (.chain t target mode name) ∈ H) : Family H root t

/-- The process was started by the run or a chain nested below it. -/
def OnBehalf (H : List Deed) (root : TaskId) (p : ProcessId) : Prop :=
  ∃ r k i name, Family H root r ∧ .started r k (.process p i name) ∈ H

section

variable {H H' : List Deed} {root t u : TaskId} {p : ProcessId}

lemma Family.mono (hH : H <+: H') (h : Family H root t) : Family H' root t := by
  induction h with
  | root => exact .root
  | nested _ hx ih => exact .nested ih (hH.subset hx)

lemma Family.trans (h : Family H root t) (h' : Family H t u) : Family H root u := by
  induction h' with
  | root => exact h
  | nested _ hx ih => exact .nested ih hx


lemma OnBehalf.mono (hH : H <+: H') (h : OnBehalf H root p) : OnBehalf H' root p := by
  obtain ⟨r, k, i, name, hf, hx⟩ := h
  exact ⟨r, k, i, name, hf.mono hH, hH.subset hx⟩

lemma OnBehalf.of_family (hf : Family H root t) (h : OnBehalf H t p) : OnBehalf H root p := by
  obtain ⟨r, k, i, name, hr, hx⟩ := h
  exact ⟨r, k, i, name, hf.trans hr, hx⟩

/-- Whatever is below a run is below one of the chains that it has started itself. -/
lemma Family.cases_head (h : Family H root u) : u = root ∨ ∃ t k target mode name,
    .started root k (.chain t target mode name) ∈ H ∧ Family H t u := by
  induction h with
  | root => exact .inl rfl
  | @nested r u k target name mode hf hx ih =>
    rcases ih with rfl | ⟨t, k', target', mode', name', hx', hf'⟩
    · exact .inr ⟨u, k, target, mode, name, hx, .root⟩
    · exact .inr ⟨t, k', target', mode', name', hx', .nested hf' hx⟩

end

section

variable {m : Manifest} {c c' : Core} {root t : TaskId}

lemma Orderly.lt_of_started (h : Orderly m c) {k : Nat} {x : Member}
    (hx : .started t k x ∈ c.history) : t < c.tasks.length := by
  obtain ⟨chain, vars, e, ho⟩ := h.ordered.opened hx
  exact h.opened_lt ho

lemma Orderly.lt_of_family (h : Orderly m c) (hroot : root < c.tasks.length)
    (hf : Family c.history root t) : t < c.tasks.length := by
  cases hf with
  | root => exact hroot
  | nested _ hx =>
    obtain ⟨expr, chain, vars, e, -, -, ho⟩ := h.nested hx
    exact h.opened_lt ho

lemma Core.Meets.busy {x : Planned} (h : c.Meets m t x) :
    ∃ r audience, slotAt c.tasks t = some ⟨.run r audience, false⟩ ∧ r.agenda ≠ [] := by
  obtain ⟨r, audience, rest, hs, hplan⟩ := h
  exact ⟨r, audience, hs, fun ha => by simp [ha] at hplan⟩

/-- A new member of a family was started by one that is in progress and busy. -/
lemma Family.move (ho : Orderly m c) (hc : Moves m c c') (h : Family c'.history root t) :
    Family c.history root t ∨
      t = c.tasks.length ∧ ∃ r, Family c.history root r ∧
        (∃ r₁ audience, slotAt c.tasks r = some ⟨.run r₁ audience, false⟩ ∧ r₁.agenda ≠ []) ∧
        ∃ k target mode name, .started r k (.chain t target mode name) ∈ c'.history := by
  induction h with
  | root => exact .inl .root
  | @nested r t k target name mode hf hx ih =>
    rcases hc.starts hx with hold | ⟨hmeets, hfresh⟩
    · rcases ih with ih | ⟨rfl, -⟩
      · exact .inl (.nested ih hold)
      · exact absurd (ho.lt_of_started hold) (Nat.lt_irrefl _)
    · rcases ih with ih | ⟨rfl, -⟩
      · exact .inr ⟨hfresh, r, ih, hmeets.busy, k, target, mode, name, hx⟩
      · obtain ⟨r₁, audience, hs, -⟩ := hmeets.busy
        exact absurd (lt_of_slotAt hs) (Nat.lt_irrefl _)

end

/-! ### Numbers -/

/-- Every member was given a number of its own, and a chain is younger than the run that has
started it. -/
structure Numbered (H : List Deed) : Prop where
  apart : Apart H
  younger : ∀ {t u : TaskId} {k : Nat} {target name : String} {mode : Mode},
    .started t k (.chain u target mode name) ∈ H → t < u

namespace Numbered

variable {m : Manifest} {c c' : Core} {H : List Deed} {t t' u v : TaskId} {k k' : Nat}
  {x x' : Member}

/-- A number tells the deed. -/
lemma eq_of_number (h : Numbered H) (hx : .started t k x ∈ H) (hx' : .started t' k' x' ∈ H)
    (hn : x.number? = x'.number?) (hsome : x.number?.isSome = true) :
    Deed.started t k x = .started t' k' x' := by
  obtain ⟨n, hn'⟩ := Option.isSome_iff_exists.1 hsome
  by_contra hne
  have hsymm : Std.Symm fun d d' : Deed => ∀ n ∈ d.number?, n ∉ d'.number? :=
    ⟨fun d d' hd n hn hn' => hd n hn' hn⟩
  exact h.apart.forall hx hx' hne n hn' (hn.symm.trans hn')

lemma process {p : ProcessId} {i i' : Instance} {name name' : String} (h : Numbered H)
    (hx : .started t k (.process p i name) ∈ H) (hx' : .started t' k' (.process p i' name') ∈ H) :
    t = t' ∧ k = k' ∧ i = i' ∧ name = name' := by
  have heq := h.eq_of_number hx hx' rfl rfl
  cases heq
  exact ⟨rfl, rfl, rfl, rfl⟩

lemma chain {target target' name name' : String} {mode mode' : Mode} (h : Numbered H)
    (hx : .started t k (.chain u target mode name) ∈ H)
    (hx' : .started t' k' (.chain u target' mode' name') ∈ H) : t = t' := by
  have heq := h.eq_of_number hx hx' rfl rfl
  cases heq
  rfl

lemma le_of_family (h : Numbered H) (hf : Family H t u) : t ≤ u := by
  induction hf with
  | root => exact Nat.le_refl t
  | nested _ hx ih => exact Nat.le_trans ih (Nat.le_of_lt (h.younger hx))

/-- Two chains that one run has started have no run in common. -/
lemma disjoint (h : Numbered H) {target target' name name' : String} {mode mode' : Mode}
    (hu : .started t k (.chain u target mode name) ∈ H)
    (hv : .started t k' (.chain v target' mode' name') ∈ H) {r : TaskId} (hr : Family H u r)
    (hr' : Family H v r) : u = v := by
  -- a chain below another that the same run has started would be younger than itself
  have hbelow {u v : TaskId} {k : Nat} {target name : String} {mode : Mode}
      (hu : .started t k (.chain u target mode name) ∈ H) (hlt : t < v) (hf : Family H v u) :
      v = u := by
    cases hf with
    | root => rfl
    | nested hf hx =>
      obtain rfl := h.chain hu hx
      exact absurd (h.le_of_family hf) (Nat.not_le_of_lt hlt)
  induction hr with
  | root => exact (hbelow hu (h.younger hv) hr').symm
  | @nested r r' j tg nm md hf hx ih =>
    cases hr' with
    | root => exact hbelow hv (h.younger hu) (.nested hf hx)
    | nested hf' hx' =>
      obtain rfl := h.chain hx hx'
      exact ih hf'

lemma move (h : Numbered c.history) (ho : Orderly m c) (hp : Accounted c) (hc : Moves m c c') :
    Numbered c'.history := by
  obtain ⟨ds, hH, hds⟩ := hc.adds
  -- the numbers given so far are taken
  have hold {d : Deed} {n : ProcessId ⊕ TaskId} (hd : d ∈ c.history) (hn : n ∈ d.number?) :
      n.elim (· < c.table.handles.length) (· < c.tasks.length) := by
    cases d with
    | started t k x =>
      cases x with
      | process p i name =>
        cases hn
        exact hp.started.2 ⟨t, k, i, name, hd⟩
      | chain u target mode name =>
        cases hn
        obtain ⟨expr, chain, vars, e, -, -, hu⟩ := ho.nested hd
        exact ho.opened_lt hu
      | missing => cases hn
    | _ => cases hn
  have hnew {d : Deed} {n : ProcessId ⊕ TaskId} (hd : d ∈ ds) (hn : n ∈ d.number?) :
      n = .inl c.table.handles.length ∨ n = .inr c.tasks.length := by
    cases d with
    | started t k x =>
      have hnext := (hds.starts hd).2
      cases x with
      | process p i name =>
        cases hn
        exact .inl (congrArg Sum.inl hnext)
      | chain u target mode name =>
        cases hn
        exact .inr (congrArg Sum.inr hnext)
      | missing => cases hn
    | _ => cases hn
  rw [hH]
  refine ⟨List.pairwise_append.2 ⟨h.apart, hds.apart, fun d hd d' hd' n hn hn' => ?_⟩, ?_⟩
  · have hlt := hold hd hn
    rcases hnew hd' hn' with rfl | rfl <;> exact Nat.lt_irrefl _ hlt
  · intro t u k target name mode hx
    rcases List.mem_append.1 hx with hx | hx
    · exact h.younger hx
    · obtain ⟨⟨r, audience, rest, hs, -⟩, hnext⟩ := hds.starts hx
      exact (show u = c.tasks.length from hnext) ▸ lt_of_slotAt hs

end Numbered

lemma numbered_stable (cfg : Setting) : Stable cfg fun c =>
    (Orderly cfg.manifest c ∧ Accounted c) ∧ Numbered c.history :=
  (orderly_stable cfg).and_moves fun ho h hc => h.move ho.1 ho.2 hc

theorem Reachable.numbered {cfg : Setting} {s : State} (h : Reachable cfg s) :
    Numbered s.history :=
  ((numbered_stable cfg).reachable ⟨⟨orderly_nil _, accounted_nil⟩, .nil, by simp⟩ h).2

end ChainRunner.Run
