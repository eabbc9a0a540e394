import Mathlib.Data.List.Induction

/-!
Runs of a labelled step relation: the acts one after the other, and the state they lead to. What
goes on at the same time is kept in a list, to which what begins is added.
-/

namespace ChainRunner

variable {σ α : Type} {Step : σ → α → σ → Prop} {s t u : σ} {as bs : List α} {a : α}

/-- The acts `as` lead from `s` to a state. -/
inductive Runs (Step : σ → α → σ → Prop) (s : σ) : List α → σ → Prop
  | nil : Runs Step s [] s
  | snoc {as : List α} {t : σ} {a : α} {u : σ} (h : Runs Step s as t) (hs : Step t a u) :
    Runs Step s (as ++ [a]) u

namespace Runs

lemma one (h : Step s a t) : Runs Step s [a] t := .snoc .nil h

lemma trans (h : Runs Step s as t) (h' : Runs Step t bs u) : Runs Step s (as ++ bs) u := by
  induction h' with
  | nil => rwa [List.append_nil]
  | snoc _ hs ih =>
    rw [← List.append_assoc]
    exact .snoc ih hs

lemma eq_of_nil (h : Runs Step s [] u) : s = u := by
  generalize hnil : ([] : List α) = none at h
  cases h with
  | nil => rfl
  | snoc => simp at hnil

/-- The last step of a run. -/
lemma exists_of_concat (h : Runs Step s (as ++ [a]) u) : ∃ t, Runs Step s as t ∧ Step t a u := by
  generalize hall : as ++ [a] = all at h
  cases h with
  | nil => simp at hall
  | @snoc _ t _ _ h hs =>
    obtain ⟨rfl, hlast⟩ := List.append_inj' hall rfl
    obtain rfl := List.singleton_inj.1 hlast
    exact ⟨t, h, hs⟩

/-- A run leads through the state behind each of its acts. -/
lemma exists_of_append (h : Runs Step s (as ++ bs) u) :
    ∃ t, Runs Step s as t ∧ Runs Step t bs u := by
  induction bs using List.reverseRecOn generalizing u with
  | nil => exact ⟨u, by rwa [List.append_nil] at h, .nil⟩
  | append_singleton bs b ih =>
    rw [← List.append_assoc] at h
    obtain ⟨v, hpre, hs⟩ := h.exists_of_concat
    obtain ⟨t, has, hbs⟩ := ih hpre
    exact ⟨t, has, .snoc hbs hs⟩

/-- The first step of a run. -/
lemma exists_of_cons (h : Runs Step s (a :: as) u) : ∃ t, Step s a t ∧ Runs Step t as u := by
  rw [← List.singleton_append] at h
  obtain ⟨t, hone, hrest⟩ := h.exists_of_append
  rw [← List.nil_append [a]] at hone
  obtain ⟨v, hnil, hs⟩ := hone.exists_of_concat
  obtain rfl := hnil.eq_of_nil
  exact ⟨t, hs, hrest⟩

/-- The state before and behind an act of a run. -/
lemma exists_of_mem (h : Runs Step s as u) (ha : a ∈ as) : ∃ pre post t t',
    as = pre ++ a :: post ∧ Runs Step s pre t ∧ Step t a t' ∧ Runs Step t' post u := by
  obtain ⟨pre, post, rfl⟩ := List.append_of_mem ha
  obtain ⟨t, hpre, hpost⟩ := h.exists_of_append
  obtain ⟨t', hs, hpost⟩ := hpost.exists_of_cons
  exact ⟨pre, post, t, t', rfl, hpre, hs, hpost⟩

end Runs

/-- In the run from `s` the act `a` was once done in a state with `P`. -/
def DoneWhile (Step : σ → α → σ → Prop) (s : σ) (P : σ → Prop) (a : α) (as : List α) : Prop :=
  ∃ pre post t, as = pre ++ a :: post ∧ Runs Step s pre t ∧ P t

lemma Runs.doneWhile {P : σ → Prop} (h : Runs Step s as t) (ht : P t) (a : α) :
    DoneWhile Step s P a (as ++ [a]) := ⟨as, [], t, rfl, h, ht⟩

lemma DoneWhile.concat {P : σ → Prop} (h : DoneWhile Step s P a as) (b : α) :
    DoneWhile Step s P a (as ++ [b]) := by
  obtain ⟨pre, post, t, rfl, hr, ht⟩ := h
  exact ⟨pre, post ++ [b], t, by simp, hr, ht⟩

/-! ### Lists of what goes on -/

variable {l : List α} {x y : α} {i j : Nat}

/-- After one more has begun each one was there before, or is the new one. -/
lemma getElem?_of_concat (h : (l ++ [x])[i]? = some y) : l[i]? = some y ∨ x = y := by
  rw [List.getElem?_append] at h
  split at h
  · exact .inl h
  · rw [List.getElem?_singleton] at h
    split at h
    · exact .inr (Option.some.inj h)
    · cases h

/-- After one has gone on each one stands where it stood, or is that one. -/
lemma getElem?_of_set (h : (l.set i x)[j]? = some y) : l[j]? = some y ∨ i = j ∧ x = y := by
  rw [List.getElem?_set] at h
  split at h
  · rename_i hij
    split at h
    · exact .inr ⟨hij, Option.some.inj h⟩
    · cases h
  · exact .inl h

end ChainRunner
