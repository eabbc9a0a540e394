import Mathlib.Data.List.Basic

/-!
Lists made of two others, each in its order.
-/

namespace ChainRunner

variable {α β : Type}

/-- The third list has the members of the first two, in any order that keeps those of both. -/
inductive Interleaves : List α → List α → List α → Prop
  | nil : Interleaves [] [] []
  | left {x xs ys zs} (h : Interleaves xs ys zs) : Interleaves (x :: xs) ys (x :: zs)
  | right {y xs ys zs} (h : Interleaves xs ys zs) : Interleaves xs (y :: ys) (y :: zs)

namespace Interleaves

variable {xs ys zs : List α} {p : α → Bool} {f : α → Option β}

lemma swap (h : Interleaves xs ys zs) : Interleaves ys xs zs := by
  induction h with
  | nil => exact .nil
  | left _ ih => exact ih.right
  | right _ ih => exact ih.left

/-- A list is made of what satisfies a condition and of what does not. -/
lemma filter (p : α → Bool) (zs : List α) : Interleaves (zs.filter p) (zs.filter (!p ·)) zs := by
  induction zs with
  | nil => exact .nil
  | cons z zs ih =>
    by_cases hz : p z
    · rw [List.filter_cons_of_pos hz, List.filter_cons_of_neg (by simp [hz])]
      exact ih.left
    · rw [List.filter_cons_of_neg hz, List.filter_cons_of_pos (by simp [hz])]
      exact ih.right

lemma mem_iff (h : Interleaves xs ys zs) {z : α} : z ∈ zs ↔ z ∈ xs ∨ z ∈ ys := by
  induction h with
  | nil => simp
  | left _ ih => simp [ih, or_assoc]
  | right _ ih => simp [ih, or_left_comm]

/-- What picks nothing of the second list picks the same as in the first. -/
lemma filterMap_left (h : Interleaves xs ys zs) (hy : ∀ y ∈ ys, f y = none) :
    zs.filterMap f = xs.filterMap f := by
  induction h with
  | nil => rfl
  | left _ ih => simp only [List.filterMap_cons, ih hy]
  | right _ ih =>
    obtain ⟨hy, hys⟩ := List.forall_mem_cons.1 hy
    rw [List.filterMap_cons_none hy, ih hys]

lemma filter_left (h : Interleaves xs ys zs) (hx : ∀ x ∈ xs, p x) (hy : ∀ y ∈ ys, p y = false) :
    zs.filter p = xs := by
  rw [← List.filterMap_eq_filter, h.filterMap_left fun y hys => by simp [Option.guard, hy y hys],
    List.filterMap_eq_filter, List.filter_eq_self.2 hx]

end Interleaves

end ChainRunner
