import ChainRunner.Chain.Parser
import ChainRunner.Proofs.Text.Words

/-!
Expressions and the lists of steps that they hold.

A step is legible if it is read back from the word that it is written as. The legible steps are all
that an expression can hold, and expressions with blanks between them hold the steps of the one and
then those of the other.
-/

namespace ChainRunner

open Text

/-- The target is a word, and no mark or bracket is taken for something else. -/
def Step.IsLegible : Step → Prop
  | .sequential t =>
    IsWord t.toList ∧ t.toList.head? ≠ some '+' ∧ t.toList.head? ≠ some '-' ∧ t ≠ "[" ∧ t ≠ "]"
  | .background t => IsWord t.toList ∧ t.toList.head? ≠ some '+'
  | .pause => True

instance (s : Step) : Decidable s.IsLegible :=
  match s with
  | .sequential t =>
    inferInstanceAs (Decidable (IsWord t.toList ∧ t.toList.head? ≠ some '+' ∧
      t.toList.head? ≠ some '-' ∧ t ≠ "[" ∧ t ≠ "]"))
  | .background t => inferInstanceAs (Decidable (IsWord t.toList ∧ t.toList.head? ≠ some '+'))
  | .pause => inferInstanceAs (Decidable True)

namespace Chain

variable {s : Step} {steps : List Step} {w : List Char} {e : String}

/-! ### One word -/

lemma stepOfWord?_plus (w : List Char) : stepOfWord? ('+' :: w) =
    if w.dropWhile (· == '+') = [] then none
    else some (.background (String.ofList (w.dropWhile (· == '+')))) := by
  rw [stepOfWord?, if_neg (by simp)]
  cases w.dropWhile (· == '+') <;> rfl

lemma stepOfWord?_minus (w : List Char) : stepOfWord? ('-' :: w) = some .pause := by
  simp [stepOfWord?]

lemma stepOfWord?_of_head? (hplus : w.head? ≠ some '+') (hminus : w.head? ≠ some '-') :
    stepOfWord? w =
      if w = ['['] ∨ w = [']'] then none else some (.sequential (String.ofList w)) := by
  unfold stepOfWord?
  split
  · rfl
  · split
    · simp at hminus
    · simp at hplus
    · rfl

lemma isLegible_of_stepOfWord? (hw : IsWord w) (h : stepOfWord? w = some s) : s.IsLegible := by
  -- the first character of the word decides what kind of step it is
  by_cases hplus : w.head? = some '+'
  · obtain ⟨rest, rfl⟩ := List.head?_eq_some_iff.1 hplus
    rw [stepOfWord?_plus] at h
    split at h
    · cases h
    · cases h
      rw [Step.IsLegible, String.toList_ofList]
      have hsub : rest.dropWhile (· == '+') ⊆ '+' :: rest := fun c hc =>
        List.mem_cons_of_mem _ (List.dropWhile_subset _ hc)
      refine ⟨⟨‹_›, fun c hc => hw.solid c (hsub hc)⟩, fun hhead => ?_⟩
      have hnot := List.head?_dropWhile_not (· == '+') rest
      simp [hhead] at hnot
  · by_cases hminus : w.head? = some '-'
    · obtain ⟨rest, rfl⟩ := List.head?_eq_some_iff.1 hminus
      rw [stepOfWord?_minus] at h
      cases h
      trivial
    · rw [stepOfWord?_of_head? hplus hminus] at h
      split at h
      · cases h
      · rename_i hbracket
        cases h
        rw [not_or] at hbracket
        rw [Step.IsLegible, String.toList_ofList]
        exact ⟨hw, hplus, hminus, fun heq => hbracket.1 (String.ofList_inj.1 heq),
          fun heq => hbracket.2 (String.ofList_inj.1 heq)⟩

/-- What a legible step is read back from. -/
lemma stepOfWord?_renderStep (h : s.IsLegible) :
    IsWord (renderStep s).toList ∧ stepOfWord? (renderStep s).toList = some s := by
  cases s with
  | sequential t =>
    obtain ⟨hw, hplus, hminus, hopen, hclose⟩ := h
    have hbracket : ¬ (t.toList = ['['] ∨ t.toList = [']']) :=
      not_or.2 ⟨fun heq => hopen (String.toList_inj.1 heq), fun heq => hclose (String.toList_inj.1 heq)⟩
    refine ⟨hw, ?_⟩
    rw [renderStep, stepOfWord?_of_head? hplus hminus, if_neg hbracket, String.ofList_toList]
  | background t =>
    obtain ⟨hw, hplus⟩ := h
    have hlist : (renderStep (.background t)).toList = '+' :: t.toList := by
      simp [renderStep]
    have hdrop : t.toList.dropWhile (· == '+') = t.toList := by
      obtain ⟨c, cs, hc⟩ := List.exists_cons_of_ne_nil hw.ne_nil
      have hne : c ≠ '+' := by simpa [hc] using hplus
      simp [hc, hne]
    rw [hlist, stepOfWord?_plus, hdrop, if_neg hw.ne_nil, String.ofList_toList]
    exact ⟨⟨by simp, List.forall_mem_cons.2 ⟨rfl, hw.solid⟩⟩, rfl⟩
  | pause => exact ⟨by decide, rfl⟩

/-! ### Expressions -/

lemma mem_parse_of_batches {b : Batch} (hb : b ∈ batches e) (hs : s ∈ b.steps) : s ∈ parse e := by
  obtain ⟨g, hg, rfl⟩ := List.mem_map.1 hb
  exact (of_mem_splitOnP (List.mem_filter.1 hg).1 s hs).1

/-- The expression holds the words of the steps in order, with blanks between any two. -/
def Spells (steps : List Step) (e : String) : Prop :=
  Spaced (steps.map fun s => (renderStep s).toList) e.toList

lemma parse_of_spells (h : Spells steps e) :
    parse e = steps.flatMap fun s => parse (renderStep s) := by
  rw [parse, words_of_spaced h, List.flatMap_map, List.filterMap_flatMap]
  rfl

lemma spells_render (steps : List Step) : Spells steps (render steps) := by
  rw [Spells, render, String.toList_intercalate, List.map_map]
  exact spaced_intercalate (by decide) _

lemma parse_renderStep (h : s.IsLegible) : parse (renderStep s) = [s] := by
  obtain ⟨hw, hstep⟩ := stepOfWord?_renderStep h
  rw [parse, hw.words_eq, List.filterMap_cons, hstep, List.filterMap_nil]

lemma parse_render_of_isLegible (h : ∀ s ∈ steps, s.IsLegible) : parse (render steps) = steps := by
  rw [parse_of_spells (spells_render steps),
    List.flatMap_congr fun s hs => parse_renderStep (h s hs), List.flatMap_singleton']

/-- Expressions hold nothing but legible steps. -/
lemma isLegible_of_mem_parse (h : s ∈ parse e) : s.IsLegible := by
  obtain ⟨w, hw, hstep⟩ := List.mem_filterMap.1 h
  exact isLegible_of_stepOfWord? (isWord_of_mem_words hw) hstep

/-- **Expressions and lists of legible steps are the same up to spelling.** A list is read back
from its expression exactly if its steps are legible, all lists that are read are of this kind, so
that writing down what was read changes nothing, and what stands behind a blank is read on its
own. -/
theorem parse_render_iff :
    (∀ steps, parse (render steps) = steps ↔ ∀ s ∈ steps, s.IsLegible) ∧
    (∀ e, ∀ s ∈ parse e, s.IsLegible) ∧
    (∀ e, parse (render (parse e)) = parse e) ∧
    ∀ a b w : String, w ≠ "" → (∀ c ∈ w.toList, isBlank c) →
      parse (a ++ w ++ b) = parse a ++ parse b := by
  refine ⟨fun steps => ⟨fun h s hs => ?_, parse_render_of_isLegible⟩,
    fun e s => isLegible_of_mem_parse,
    fun e => parse_render_of_isLegible fun s => isLegible_of_mem_parse, fun a b w hne hw => ?_⟩
  · rw [← h] at hs
    exact isLegible_of_mem_parse hs
  · have hne : w.toList ≠ [] := fun hnil => hne (String.toList_inj.1 hnil)
    rw [parse, String.toList_append, String.toList_append, words_append_append hw hne,
      List.filterMap_append]
    rfl

/-- Marks within a name, a named pause and a blank that is not a space. -/
theorem parse_render_iff_marked :
    (∀ s ∈ [Step.background "-b", .pause, .sequential "a+"], s.IsLegible) ∧
      parse (render [.background "-b", .pause, .sequential "a+"]) =
        [.background "-b", .pause, .sequential "a+"] ∧
      parse ("[ a -wait" ++ "\u3000" ++ "+ ++b ]") = parse "[ a -wait" ++ parse "+ ++b ]" := by
  have hlegible : ∀ s ∈ [Step.background "-b", .pause, .sequential "a+"], s.IsLegible := by
    decide
  obtain ⟨hiff, -, -, happend⟩ := parse_render_iff
  exact ⟨hlegible, (hiff _).2 hlegible, happend _ _ _ (by decide)
    (List.all_eq_true.1 (by decide))⟩

example : parse "[ a -wait\u3000+ ++b ]" = [.sequential "a", .pause, .background "b"] := by
  decide

end Chain

end ChainRunner
