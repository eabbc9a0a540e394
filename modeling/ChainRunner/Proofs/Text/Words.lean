import Mathlib.Data.List.Basic
import ChainRunner.Text.Blank

/-!
Words and the texts they stand in.

A blank character separates whatever stands on its two sides, so that a text falls into the words
that were written into it, however many blanks there are between them.
-/

namespace ChainRunner.Text

variable {s t w b : List Char} {c : Char} {ws : List (List Char)}

/-- The text is one word. -/
structure IsWord (w : List Char) : Prop where
  ne_nil : w ≠ []
  solid : ∀ c ∈ w, isBlank c = false

instance (w : List Char) : Decidable (IsWord w) :=
  decidable_of_iff (w ≠ [] ∧ w.any isBlank = false)
    ⟨fun h => ⟨h.1, by simpa using h.2⟩, fun h => ⟨h.ne_nil, by simpa using h.solid⟩⟩

@[simp] lemma words_nil : words [] = [] := rfl

lemma words_append_cons (s : List Char) (hc : isBlank c) (t : List Char) :
    words (s ++ c :: t) = words s ++ words t := by
  rw [words, List.splitOnP_append_cons s t hc, List.filter_append, words, words]

lemma words_cons (hc : isBlank c) (t : List Char) : words (c :: t) = words t :=
  words_append_cons [] hc t

lemma IsWord.words_eq (h : IsWord w) : words w = [w] := by
  rw [words, List.splitOnP_eq_singleton h.solid]
  simp [h.ne_nil]

lemma words_append_of_blank (hb : ∀ c ∈ b, isBlank c) (t : List Char) :
    words (b ++ t) = words t := by
  induction b with
  | nil => rfl
  | cons c b ih =>
    obtain ⟨hc, hb⟩ := List.forall_mem_cons.1 hb
    rw [List.cons_append, words_cons hc, ih hb]

/-- Blanks between two texts keep their words apart. -/
lemma words_append_append (hb : ∀ c ∈ b, isBlank c) (hne : b ≠ []) (s t : List Char) :
    words (s ++ b ++ t) = words s ++ words t := by
  obtain ⟨c, b, rfl⟩ := List.exists_cons_of_ne_nil hne
  obtain ⟨hc, hb⟩ := List.forall_mem_cons.1 hb
  rw [List.append_assoc, List.cons_append, words_append_cons s hc, words_append_of_blank hb]

lemma of_mem_splitOnP {α : Type} {p : α → Bool} {xs g : List α} (hg : g ∈ xs.splitOnP p) :
    ∀ x ∈ g, x ∈ xs ∧ p x = false := by
  induction xs generalizing g with
  | nil => simp_all
  | cons y xs ih =>
    have later {g : List α} (hg : g ∈ xs.splitOnP p) : ∀ x ∈ g, x ∈ y :: xs ∧ p x = false :=
      fun x hx => (ih hg x hx).imp_left (List.mem_cons_of_mem _)
    rw [List.splitOnP_cons_eq_if_modifyHead] at hg
    split at hg
    · rcases List.mem_cons.1 hg with rfl | hg
      · simp
      · exact later hg
    · rename_i hy
      obtain ⟨h, t, hsplit⟩ := List.exists_cons_of_ne_nil (List.splitOnP_ne_nil p xs)
      rw [hsplit, List.modifyHead_cons, List.mem_cons] at hg
      rcases hg with rfl | hg
      · refine List.forall_mem_cons.2 ⟨⟨List.mem_cons_self, by simpa using hy⟩, later ?_⟩
        rw [hsplit]
        exact List.mem_cons_self
      · exact later (hsplit ▸ List.mem_cons_of_mem _ hg)

lemma isWord_of_mem_words (h : w ∈ words s) : IsWord w := by
  obtain ⟨hw, hne⟩ := List.mem_filter.1 h
  exact ⟨by simpa using hne, fun c hc => (of_mem_splitOnP hw c hc).2⟩

/-! ### Texts made of words -/

/-- The texts `ws` in order with blanks between any two of them. There may be more blanks than
one, also before the first and behind the last. -/
inductive Spaced : List (List Char) → List Char → Prop
  | nil : Spaced [] []
  | blank {c : Char} {ws : List (List Char)} {s : List Char} (hc : isBlank c) (h : Spaced ws s) :
    Spaced ws (c :: s)
  | last (w : List Char) : Spaced [w] w
  | cons (w : List Char) {c : Char} {ws : List (List Char)} {s : List Char} (hc : isBlank c)
    (h : Spaced ws s) : Spaced (w :: ws) (w ++ c :: s)

lemma words_of_spaced (h : Spaced ws s) : words s = ws.flatMap words := by
  induction h with
  | nil => rfl
  | blank hc _ ih => rw [words_cons hc, ih]
  | last w => simp
  | cons w hc _ ih => rw [words_append_cons w hc, ih, List.flatMap_cons]

lemma spaced_intercalate (hc : isBlank c) (ws : List (List Char)) :
    Spaced ws ([c].intercalate ws) := by
  induction ws with
  | nil => exact .nil
  | cons w ws ih =>
    cases ws with
    | nil => simpa using Spaced.last w
    | cons v ws =>
      rw [List.intercalate_cons_cons, List.append_assoc, List.singleton_append]
      exact .cons w hc ih

end ChainRunner.Text
