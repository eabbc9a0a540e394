import Mathlib.Data.List.Forall2

/-!
Numbers of two sessions that stand for the same.
-/

namespace ChainRunner.Run

/-- Pairs of a number of one session and a number of another one. -/
abbrev Pairing := List (Nat × Nat)

namespace Pairing

variable {T T' : Pairing} {a a' b b' n n' : Nat} {l l' : List Nat}

def left (T : Pairing) : List Nat := T.map Prod.fst

def right (T : Pairing) : List Nat := T.map Prod.snd

/-- The pairs for whom the other session comes first. -/
def swap (T : Pairing) : Pairing := T.map Prod.swap

/-- No number stands for two. -/
structure Matching (T : Pairing) : Prop where
  iff : ∀ {a a' b b' : Nat}, (a, a') ∈ T → (b, b') ∈ T → (a = b ↔ a' = b')

/-- The lists name the same in the same order. -/
abbrev Lists (T : Pairing) : List Nat → List Nat → Prop := List.Forall₂ fun a a' => (a, a') ∈ T

lemma mem_left (h : (a, a') ∈ T) : a ∈ T.left := List.mem_map_of_mem (f := Prod.fst) h

lemma mem_right (h : (a, a') ∈ T) : a' ∈ T.right := List.mem_map_of_mem (f := Prod.snd) h

@[simp] lemma left_concat : (T ++ [(n, n')]).left = T.left ++ [n] := List.map_append

@[simp] lemma right_concat : (T ++ [(n, n')]).right = T.right ++ [n'] := List.map_append

@[simp] lemma mem_swap : (a', a) ∈ T.swap ↔ (a, a') ∈ T := by
  simp [swap]

@[simp] lemma left_swap : T.swap.left = T.right := List.map_map

@[simp] lemma right_swap : T.swap.right = T.left := List.map_map

@[simp] lemma swap_swap : T.swap.swap = T := by
  simp [swap]

lemma Matching.swap (h : T.Matching) : T.swap.Matching :=
  ⟨fun ha hb => (h.iff (mem_swap.1 ha) (mem_swap.1 hb)).symm⟩

lemma Matching.concat (h : T.Matching) (hl : ∀ a ∈ T.left, a < n) (hr : ∀ a ∈ T.right, a < n') :
    Matching (T ++ [(n, n')]) := by
  refine ⟨fun {a a' b b'} ha hb => ?_⟩
  rw [List.mem_append, List.mem_singleton, Prod.mk.injEq] at ha hb
  rcases ha with ha | ⟨rfl, rfl⟩ <;> rcases hb with hb | ⟨rfl, rfl⟩
  · exact h.iff ha hb
  · exact iff_of_false (Nat.ne_of_lt (hl _ (mem_left ha))) (Nat.ne_of_lt (hr _ (mem_right ha)))
  · exact iff_of_false (Nat.ne_of_gt (hl _ (mem_left hb))) (Nat.ne_of_gt (hr _ (mem_right hb)))
  · simp

namespace Lists

lemma swap (h : T.Lists l l') : T.swap.Lists l' l := (h.imp fun _ _ => mem_swap.2).flip

lemma mono (hT : T ⊆ T') (h : T.Lists l l') : T'.Lists l l' := h.imp fun _ _ hin => hT hin

lemma concat (h : T.Lists l l') (ha : (a, a') ∈ T) : T.Lists (l ++ [a]) (l' ++ [a']) :=
  List.rel_append h (.cons ha .nil)

lemma mem_iff (h : T.Lists l l') (hT : T.Matching) (ha : (a, a') ∈ T) : a ∈ l ↔ a' ∈ l' := by
  induction h with
  | nil => simp
  | cons hb _ ih => rw [List.mem_cons, List.mem_cons, ih, hT.iff ha hb]

lemma erase (h : T.Lists l l') (hT : T.Matching) (ha : (a, a') ∈ T) :
    T.Lists (l.erase a) (l'.erase a') := by
  induction h with
  | nil => exact .nil
  | @cons b b' l l' hb hl ih =>
    by_cases heq : b = a
    · obtain rfl := heq
      obtain rfl := (hT.iff hb ha).1 rfl
      simpa using hl
    · have hne : ¬b' = a' := fun h' => heq ((hT.iff hb ha).2 h')
      rw [List.erase_cons_tail (by simpa using heq), List.erase_cons_tail (by simpa using hne)]
      exact .cons hb ih

lemma filter {p p' : Nat → Bool} (h : T.Lists l l')
    (hp : ∀ {a a'}, (a, a') ∈ T → p a = p' a') : T.Lists (l.filter p) (l'.filter p') := by
  induction h with
  | nil => exact .nil
  | @cons b b' l l' hb hl ih =>
    rw [List.filter_cons, List.filter_cons, hp hb]
    split
    · exact .cons hb ih
    · exact ih

end Lists

end Pairing

end ChainRunner.Run
