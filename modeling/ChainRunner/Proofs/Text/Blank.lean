import Mathlib.Data.List.Induction
import ChainRunner.Text.Blank

/-!
Texts without some end of theirs, one character after the other.
-/

namespace ChainRunner.Text

variable {α : Type} {p q : α → Bool} {c : α}

lemma dropEndWhile_concat_of_pos (hc : p c) (s : List α) :
    dropEndWhile p (s ++ [c]) = dropEndWhile p s := by
  simp [dropEndWhile, hc]

lemma dropEndWhile_concat_of_neg (hc : ¬ p c) (s : List α) :
    dropEndWhile p (s ++ [c]) = s ++ [c] := by
  simp [dropEndWhile, hc]

lemma all_dropEndWhile (h : ∀ c, p c → q c) (s : List α) :
    (dropEndWhile p s).all q = s.all q := by
  induction s using List.reverseRecOn with
  | nil => rfl
  | append_singleton s c ih =>
    by_cases hc : p c
    · rw [dropEndWhile_concat_of_pos hc, ih]
      simp [h c hc]
    · rw [dropEndWhile_concat_of_neg hc]

end ChainRunner.Text
