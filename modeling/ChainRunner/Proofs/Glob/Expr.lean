import Mathlib.Data.List.Basic
import ChainRunner.Glob.Expr

/-!
What the one-pass test says: an expression passes a text exactly if it describes it.
-/

namespace ChainRunner.Glob.Expr

variable {x y : Expr} {u v w : List UInt8} {b : UInt8}

/-! ### The texts of an expression, constructor by constructor -/

@[simp] lemma describes_empty : Describes .empty w ↔ w = [] :=
  ⟨by rintro ⟨⟩; rfl, by rintro rfl; exact .empty⟩

@[simp] lemma describes_byte {s : ByteClass} :
    Describes (.byte s) w ↔ ∃ b, s.contains b ∧ w = [b] :=
  ⟨by rintro ⟨⟩; exact ⟨_, ‹_›, rfl⟩, by rintro ⟨b, hb, rfl⟩; exact .byte hb⟩

@[simp] lemma describes_many {s : ByteClass} :
    Describes (.many s) w ↔ ∀ b ∈ w, s.contains b :=
  ⟨by rintro ⟨⟩; assumption, .many⟩

@[simp] lemma describes_seq :
    Describes (.seq x y) w ↔ ∃ u v, w = u ++ v ∧ Describes x u ∧ Describes y v :=
  ⟨by rintro ⟨⟩; exact ⟨_, _, rfl, ‹_›, ‹_›⟩, by rintro ⟨u, v, rfl, hu, hv⟩; exact .seq hu hv⟩

@[simp] lemma describes_alt : Describes (.alt x y) w ↔ Describes x w ∨ Describes y w :=
  ⟨by rintro (_ | _) <;> simp [*], by rintro (h | h); exacts [.altLeft h, .altRight h]⟩

lemma describes_andThen : Describes (x.andThen y) w ↔ Describes (.seq x y) w := by
  unfold andThen
  split
  · simp [*]
  · rfl

/-! ### The test -/

lemma nullable_iff : ∀ {x : Expr}, x.nullable ↔ Describes x []
  | .empty => by simp [nullable]
  | .byte _ => by simp [nullable]
  | .many _ => by simp [nullable]
  | .seq x y => by simp [nullable, nullable_iff (x := x), nullable_iff (x := y)]
  | .alt x y => by simp [nullable, nullable_iff (x := x), nullable_iff (x := y)]

/-- The residuals describe what may follow a first byte. -/
lemma exists_residual : ∀ {x : Expr} {w : List UInt8},
    (∃ y ∈ x.residuals b, Describes y w) ↔ Describes x (b :: w)
  | .empty, w => by simp [residuals]
  | .byte s, w => by by_cases h : s.contains b <;> simp [residuals, h]
  | .many s, w => by by_cases h : s.contains b <;> simp [residuals, h]
  | .alt x y, w => by
    simp only [residuals, List.mem_append, or_and_right, exists_or, describes_alt,
      exists_residual (x := x), exists_residual (x := y)]
  | .seq x y, w => by
    have hx : (∃ z ∈ (x.residuals b).map (·.andThen y), Describes z w) ↔
        ∃ u v, w = u ++ v ∧ Describes x (b :: u) ∧ Describes y v := by
      simp only [List.mem_map, exists_exists_and_eq_and, describes_andThen, describes_seq,
        ← exists_residual (x := x)]
      grind
    have hy : (∃ z ∈ (if x.nullable then y.residuals b else []), Describes z w) ↔
        Describes x [] ∧ Describes y (b :: w) := by
      rw [← nullable_iff, ← exists_residual (x := y)]
      split <;> simp [*]
    simp only [residuals, List.mem_append, or_and_right, exists_or, hx, hy, describes_seq,
      List.cons_eq_append_iff]
    grind

lemma exists_step {xs : List Expr} :
    (∃ y ∈ step xs b, Describes y w) ↔ ∃ x ∈ xs, Describes x (b :: w) := by
  simp only [step, List.mem_eraseDups, List.mem_flatMap, ← exists_residual]
  grind

lemma exists_run {xs : List Expr} :
    (∃ y ∈ run xs u, Describes y w) ↔ ∃ x ∈ xs, Describes x (u ++ w) := by
  induction u generalizing xs with
  | nil => rfl
  | cons b u ih => rw [run_cons, ih, exists_step, List.cons_append]

/-- **The test decides what an expression describes.** -/
theorem test_iff : x.test w ↔ Describes x w := by
  have h : (∃ y ∈ run [x] w, Describes y []) ↔ ∃ y ∈ [x], Describes y (w ++ []) := exists_run
  simpa [test, nullable_iff] using h

/-! ### Sequences -/

@[simp] lemma concat_nil : concat [] = .empty := rfl

lemma describes_concat_cons {xs : List Expr} :
    Describes (concat (x :: xs)) w ↔ Describes (.seq x (concat xs)) w := describes_andThen

lemma describes_concat_append {xs ys : List Expr} :
    Describes (concat (xs ++ ys)) w ↔
      ∃ u v, w = u ++ v ∧ Describes (concat xs) u ∧ Describes (concat ys) v := by
  induction xs generalizing w with
  | nil => simp
  | cons x xs ih =>
    simp only [List.cons_append, describes_concat_cons, describes_seq, ih]
    constructor
    · rintro ⟨s, _, rfl, hs, u, v, rfl, hu, hv⟩
      exact ⟨s ++ u, v, by simp, ⟨s, u, rfl, hs, hu⟩, hv⟩
    · rintro ⟨_, v, rfl, ⟨s, u, rfl, hs, hu⟩, hv⟩
      exact ⟨s, u ++ v, by simp, hs, u, v, rfl, hu, hv⟩

lemma describes_ofBytes : Describes (ofBytes u) w ↔ w = u := by
  induction u generalizing w with
  | nil => simp [ofBytes]
  | cons b u ih =>
    simp [ofBytes, describes_andThen, ih, ByteClass.contains, ByteClass.only]
    grind

end ChainRunner.Glob.Expr
