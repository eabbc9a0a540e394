import ChainRunner.Proofs.Glob.Exact
import ChainRunner.Proofs.Watch.Pattern
import ChainRunner.Watch.Rule

/-!
When the text of the watched directory is taken literally.

A relative pattern is compiled behind the text of the directory, so every special character of
that text takes part, a placeholder in it is filled, and a doubled slash in it is lost. Without any
of these the rule matches what the pattern matches, below the directory.
-/

namespace ChainRunner.Watch

open Glob ChainRunner.Path Template

variable {root raw chain : String} {active : Variables} {s : List Char}

/-- The pattern by itself, with its slashes and dot segments put in order. -/
def collapsed (raw : String) : List Char := collapse (slashed raw.toList)

/-- A relative pattern without `..` and without placeholders that are filled. -/
structure IsSimple (raw : String) : Prop where
  relative : IsRelative raw
  up : ['.', '.'] ∉ segments (slashed raw.toList)
  unvaried : Rule.axesOf raw = []
  ne_nil : collapsed raw ≠ []

/-- For every simple pattern there is one rule, which matches what the pattern by itself matches,
behind the text of the directory and a slash; and where the pattern by itself is no glob, the
error is the same. -/
def TakenLiterally (root : String) : Prop :=
  ∀ (active : Variables) (chain raw : String), IsSimple raw →
    match Glob.compile (String.ofList (collapsed raw)) with
    | .ok g => ∃ r, Rule.ofPattern active root chain raw = .ok [r] ∧
        ∀ p, r.isMatch p ↔ ∃ t, p = String.ofList (stem root) ++ "/" ++ t ∧ g.isMatch t
    | .error reason => ∃ pattern,
        Rule.ofPattern active root chain raw = .error ⟨pattern, pattern, reason⟩

/-- Nothing in the text of a directory is read as part of a glob, and no slash is doubled. -/
structure IsInert (root : String) : Prop where
  plain : ∀ c ∈ root.toList, c ∉ special
  unvaried : Rule.axesOf root = []
  tidy : tidied root = stem root

instance (root : String) : Decidable (IsInert root) :=
  decidable_of_iff (root.toList.all (· ∉ special) ∧ Rule.axesOf root = [] ∧
      tidied root = stem root)
    ⟨fun h => ⟨by simpa using h.1, h.2.1, h.2.2⟩,
      fun h => ⟨by simpa using h.plain, h.unvaried, h.tidy⟩⟩

/-! ### Placeholders -/

lemma mem_axesOf {text : String} {a : Axis} :
    a ∈ Rule.axesOf text ↔ a ≠ .file ∧ a.placeholder.toList <:+: text.toList := by
  simp [Rule.axesOf, axesIn, Axis.mem_all, hole_mem_pieces]

lemma axesOf_congr {text text' : String} (h : ∀ a : Axis, a ≠ .file →
    (a.placeholder.toList <:+: text.toList ↔ a.placeholder.toList <:+: text'.toList)) :
    Rule.axesOf text = Rule.axesOf text' := by
  simp only [Rule.axesOf, axesIn, List.filter_filter, hole_mem_pieces]
  refine List.filter_congr fun a _ => ?_
  by_cases ha : a = .file
  · simp [ha]
  · simp [h a ha]

/-- Behind the directory a simple pattern is varied along the axes of the directory. -/
lemma axesOf_resolve (hroot : IsPlain root) (hraw : IsSimple raw) :
    Rule.axesOf (resolve root raw) = Rule.axesOf root := by
  refine axesOf_congr fun a ha => ?_
  obtain ⟨w, hw, -, hslash⟩ := placeholder_eq a
  have hno : '/' ∉ a.placeholder.toList := by simp [hw, hslash]
  have htidied := infix_tidied root hno ⟨'$', by simp [hw], by decide⟩
  rw [resolve_relative hroot hraw.relative hraw.up hraw.ne_nil, ← htidied]
  refine ⟨fun hin => (infix_join hno hin).resolve_right fun hin => ?_, fun hin => ?_⟩
  · rw [collapse_of_relative (head?_of_isRelative hraw.relative), keptSegments_eq hraw.up] at hin
    have hmem := mem_axesOf.2 ⟨ha, infix_of_infix_slashed hno
      (infix_of_infix_counts hno (by simp [hw]) hin)⟩
    simp [hraw.unvaried] at hmem
  · exact hin.trans (List.prefix_append ..).isInfix

/-- A pattern that is not varied gives one rule, or the error of its glob. -/
lemma ofPattern_eq (h : Rule.axesOf (resolve root raw) = []) :
    Rule.ofPattern active root chain raw =
      (Rule.compile chain (resolve root raw) (active.without .file)).map fun r => [r] := by
  have hfill : fill [] (resolve root raw) = resolve root raw := by
    rw [← String.toList_inj, toList_fill, fillChars_eq_self (by simp)]
  simp only [Rule.ofPattern, h, List.any_nil, Bool.false_eq_true, if_false, combinations,
    List.mapM_cons, List.mapM_nil, hfill, Rule.scope, List.foldl_nil]
  cases Rule.compile chain (resolve root raw) (active.without .file) <;> rfl

/-- Without values a pattern that is varied gives no rule. -/
lemma ofPattern_empty (h : Rule.axesOf (resolve root raw) ≠ []) :
    Rule.ofPattern {} root chain raw = .ok [] := by
  obtain ⟨a, as, ha⟩ := List.exists_cons_of_ne_nil h
  rw [Rule.ofPattern, if_pos]
  rw [ha]
  cases a <;> rfl

/-! ### The rule of a simple pattern -/

lemma not_slash_suffix_collapsed (hraw : IsSimple raw) : ¬ ['/'] <:+ collapsed raw := by
  rw [collapsed, collapse_of_relative (head?_of_isRelative hraw.relative), keptSegments_eq hraw.up]
  refine not_slash_suffix fun seg hseg => ?_
  obtain ⟨hs, hc⟩ := List.mem_filter.1 hseg
  exact ⟨by rintro rfl; simp [counts] at hc, slash_notMem_of_mem_segments hs⟩

lemma resolve_eq (hroot : IsPlain root) (hraw : IsSimple raw) :
    resolve root raw = String.ofList (tidied root ++ '/' :: collapsed raw) := by
  rw [collapsed, ← resolve_relative hroot hraw.relative hraw.up hraw.ne_nil, String.ofList_toList]

lemma takenLiterally_of_isInert (hroot : IsPlain root) (h : IsInert root) :
    TakenLiterally root := by
  intro active chain raw hraw
  have hpattern := resolve_eq hroot hraw
  have hbehind := compile_behind
    (fun c (hc : c ∈ stem root) => h.plain c ((isPrefix_dropEndWhile _ _).subset hc))
    (not_slash_suffix_collapsed hraw)
  rw [h.tidy] at hpattern
  rw [← hpattern] at hbehind
  rw [ofPattern_eq ((axesOf_resolve hroot hraw).trans h.unvaried), Rule.compile]
  revert hbehind
  cases Glob.compile (String.ofList (collapsed raw)) with
  | error e =>
    intro he
    exact ⟨_, by rw [he]; rfl⟩
  | ok g =>
    rintro ⟨g', hg', hext⟩
    refine ⟨⟨chain, resolve root raw, active.without .file, g'⟩, by rw [hg']; rfl,
      fun p => (hext p).trans ?_⟩
    simp only [← String.toList_inj, String.toList_append, String.toList_ofList]
    simp

/-- The file `x` below the directory tells. -/
lemma isInert_of_takenLiterally (hroot : IsPlain root) (h : TakenLiterally root) :
    IsInert root := by
  -- one pattern is enough, that of a file in the directory
  have hx : IsSimple "x" := by constructor <;> decide
  have hchars : collapsed "x" = ['x'] := by decide
  have hlit : ∀ c ∈ ['x'], c ∉ special := List.forall_mem_singleton.2 (by decide)
  obtain ⟨g, hg, hmatch⟩ := compile_literal hlit
  have hrule := h {} "c" "x" hx
  rw [hchars, hg] at hrule
  obtain ⟨r, hr, hrmatch⟩ := hrule
  have hunvaried : Rule.axesOf root = [] := by
    by_contra hax
    rw [← axesOf_resolve hroot hx] at hax
    rw [ofPattern_empty hax] at hr
    cases hr
  rw [ofPattern_eq ((axesOf_resolve hroot hx).trans hunvaried), Rule.compile,
    resolve_eq hroot hx, hchars] at hr
  cases hc : Glob.compile (String.ofList (tidied root ++ '/' :: ['x'])) with
  | error e => rw [hc] at hr; cases hr
  | ok g' =>
    rw [hc] at hr
    obtain rfl := (List.cons.inj (Except.ok.inj hr)).1
    -- its rule matches one path, so the glob is that path
    have hsize : size (tidied root ++ '/' :: ['x']) ≤ size (stem root ++ '/' :: ['x']) := by
      rw [size_append, size_append]
      exact Nat.add_le_add_right
        (List.Sublist.flatMap (tidied_sublist hroot.absolute) _).length_le _
    obtain ⟨heq, hplain⟩ := eq_of_exact hc hsize fun p => (hrmatch p).trans (by
      simp only [hmatch]
      simp [← String.toList_inj])
    have htidy : tidied root = stem root := List.append_cancel_right heq
    refine ⟨fun c hcr hcs => hplain c ?_ hcs, hunvaried, htidy⟩
    have hslash : '/' ≠ c := by rintro rfl; exact absurd hcs (by decide)
    obtain ⟨u, v, huv⟩ := List.append_of_mem hcr
    have hstem : [c] <:+: stem root :=
      (infix_stem (by simpa using hslash) (by simp)).2 ⟨u, v, by simp [huv]⟩
    rw [htidy]
    exact List.mem_append_left _ (hstem.subset (by simp))

/-- **When the watched directory is taken literally.** A rule matches exactly what its pattern
matches below the directory, for every simple pattern, exactly if the text of the directory has no
special character, no placeholder and no doubled slash; then a pattern that is literal itself
matches that one file. -/
theorem takenLiterally_iff (hroot : IsPlain root) :
    (TakenLiterally root ↔ IsInert root) ∧
      (IsInert root → ∀ (active : Variables) (chain raw : String), IsSimple raw →
        (∀ c ∈ collapsed raw, c ∉ special) →
          ∃ r, Rule.ofPattern active root chain raw = .ok [r] ∧
            ∀ p, r.isMatch p ↔ p = String.ofList (stem root ++ '/' :: collapsed raw)) := by
  refine ⟨⟨isInert_of_takenLiterally hroot, takenLiterally_of_isInert hroot⟩, ?_⟩
  intro h active chain raw hraw hlit
  obtain ⟨g, hg, hmatch⟩ := compile_literal hlit
  have hrule := takenLiterally_of_isInert hroot h active chain raw hraw
  rw [hg] at hrule
  obtain ⟨r, hr, hrmatch⟩ := hrule
  refine ⟨r, hr, fun p => (hrmatch p).trans ?_⟩
  simp only [hmatch]
  simp [← String.toList_inj]

/-- `/home/me` is taken literally, `/p[1]` is not. -/
theorem takenLiterally_home :
    (IsPlain "/home/me" ∧ TakenLiterally "/home/me") ∧
      IsPlain "/p[1]" ∧ ¬ TakenLiterally "/p[1]" := by
  have hhome : IsPlain "/home/me" := by decide
  have hbracket : IsPlain "/p[1]" := by decide
  exact ⟨⟨hhome, (takenLiterally_iff hhome).1.2 (by decide)⟩, hbracket,
    fun h => absurd ((takenLiterally_iff hbracket).1.1 h) (by decide)⟩

end ChainRunner.Watch
