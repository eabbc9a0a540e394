import Mathlib.Data.List.Forall2

/-!
Lists gone through from the front with a function that may fail.
-/

namespace ChainRunner

variable {α β γ ε : Type} {xs : List α} {ys : List β}

lemma exists_error_iff {x : Except ε α} : (∃ e, x = .error e) ↔ ¬ ∃ y, x = .ok y := by
  cases x <;> simp

lemma forM_eq_ok {f : α → Except ε Unit} : xs.forM f = .ok () ↔ ∀ x ∈ xs, f x = .ok () := by
  induction xs with
  | nil => simp [pure, Except.pure]
  | cons x xs ih =>
    rw [List.forall_mem_cons, ← ih]
    change (f x >>= fun _ => xs.forM f) = .ok () ↔ _
    cases f x <;> simp [bind, Except.bind]

section

variable {f : α → Except ε β}

/-- The results stand in the order of the list, one for each of its elements. -/
lemma mapM_eq_ok : xs.mapM f = .ok ys ↔ List.Forall₂ (fun x y => f x = .ok y) xs ys := by
  induction xs generalizing ys with
  | nil => simp [pure, Except.pure, eq_comm]
  | cons x xs ih =>
    rw [List.mapM_cons, List.forall₂_cons_left_iff]
    cases f x with
    | error e => simp [bind, Except.bind]
    | ok y =>
      simp only [← ih]
      cases xs.mapM f <;> simp [bind, Except.bind, pure, Except.pure, eq_comm]

lemma mem_of_mapM {y : β} (h : xs.mapM f = .ok ys) (hy : y ∈ ys) : ∃ x ∈ xs, f x = .ok y := by
  rw [mapM_eq_ok] at h
  induction h with
  | nil => cases hy
  | cons hx _ ih =>
    rcases List.mem_cons.1 hy with rfl | hy
    · exact ⟨_, List.mem_cons_self, hx⟩
    · obtain ⟨x, hx, hf⟩ := ih hy
      exact ⟨x, List.mem_cons_of_mem _ hx, hf⟩

lemma exists_mapM_iff : (∃ ys, xs.mapM f = .ok ys) ↔ ∀ x ∈ xs, ∃ y, f x = .ok y := by
  induction xs with
  | nil => simp [pure, Except.pure]
  | cons x xs ih =>
    rw [List.mapM_cons, List.forall_mem_cons, ← ih]
    cases f x <;> cases xs.mapM f <;> simp [bind, Except.bind, pure, Except.pure]

/-- It fails exactly if it fails for some element. -/
lemma exists_mapM_error_iff : (∃ e, xs.mapM f = .error e) ↔ ∃ x ∈ xs, ∃ e, f x = .error e := by
  simp only [exists_error_iff, exists_mapM_iff, not_forall, exists_prop]

lemma mapM_congr {g : α → Except ε β} (h : ∀ x ∈ xs, f x = g x) : xs.mapM f = xs.mapM g := by
  have hmap (f : α → Except ε β) : xs.mapM f = (xs.map f).mapM id := by
    rw [List.mapM_map, Function.id_comp]
  rw [hmap, hmap, List.map_congr_left h]

/-- Lists of lists are gone through one after the other. -/
lemma mapM_flatMap (g : γ → List α) (zs : List γ) :
    (zs.flatMap g).mapM f = (zs.mapM fun z => (g z).mapM f).map List.flatten := by
  induction zs with
  | nil => rfl
  | cons z zs ih =>
    rw [List.flatMap_cons, List.mapM_append, ih, List.mapM_cons]
    cases (g z).mapM f <;> cases zs.mapM (fun z => (g z).mapM f) <;> rfl

end

end ChainRunner
