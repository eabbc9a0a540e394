import ChainRunner.Proofs.Watch.Checked
import ChainRunner.Proofs.Watch.Plan
import ChainRunner.Proofs.Watch.Root
import ChainRunner.Proofs.Watch.RootDir

/-!
What the rules of a table are compiled from.

A pattern of the table is varied along the axes whose placeholder it has, the flavor outside and
the project within. Each variant gives one rule, in its place, and a table is refused exactly if
what one of its variants says is no glob.
-/

namespace ChainRunner.Watch

open Glob Template

/-- A pattern behind the watched directory, with values for the axes that it mentions. -/
structure Variant where
  chain : String
  pattern : String
  flavor : Option String
  project : Option String
deriving DecidableEq, Repr

namespace Variant

/-- The value that is chosen on an axis. -/
def value? (v : Variant) : Axis → Option String
  | .flavor => v.flavor
  | .project => v.project
  | .file => none

/-- What can be chosen on an axis: one of the active values if the pattern mentions it. -/
def choices (active : Variables) (pattern : String) (a : Axis) : List (Option String) :=
  if a.placeholder.toList <:+: pattern.toList then (active.values a).map some else [none]

def ofPattern (active : Variables) (chain pattern : String) : List Variant :=
  (choices active pattern .flavor).flatMap fun f =>
    (choices active pattern .project).map fun p => ⟨chain, pattern, f, p⟩

/-- The variants of a table, chain by chain and pattern by pattern. -/
def ofObserve (observe : Observe) (active : Variables) (root : String) : List Variant :=
  observe.entries.flatMap fun e => e.2.flatMap fun raw => ofPattern active e.1 (resolve root raw)

/-- The text of the variant: its pattern with the chosen values put in. -/
def Says (v : Variant) (s : List Char) : Prop := Filled v.value? v.pattern.toList s

end Variant

/-- What the rule of a variant has to be. -/
structure Rule.Realizes (r : Rule) (active : Variables) (v : Variant) : Prop where
  chain : r.chain = v.chain
  pattern : v.Says r.pattern.toList
  glob : Glob.compile r.pattern = .ok r.glob
  chosen : ∀ a x, v.value? a = some x → r.vars.values a = [x]
  others : ∀ a, a ≠ .file → v.value? a = none → r.vars.values a = active.values a
  files : r.vars.file = []

variable {active : Variables} {observe : Observe} {root raw chain pattern : String} {v : Variant}
  {r : Rule} {rules : List Rule}

namespace Variant

/-- The values of a variant as the list that is filled in. -/
def assignment (v : Variant) : Assignment :=
  (v.flavor.map fun x => (.flavor, x)).toList ++ (v.project.map fun x => (.project, x)).toList

lemma lookup_assignment (v : Variant) (a : Axis) : v.assignment.lookup a = v.value? a := by
  obtain ⟨chain, pattern, f, p⟩ := v
  cases f <;> cases p <;> cases a <;> rfl

lemma says_iff {s : List Char} : v.Says s ↔ s = (fill v.assignment v.pattern).toList := by
  rw [toList_fill, ← filled_iff, Says]
  simp only [lookup_assignment]

/-- The rule of a variant. -/
def compile (active : Variables) (v : Variant) : Except PatternError Rule :=
  Rule.compile v.chain (fill v.assignment v.pattern) (Rule.scope active v.assignment)

lemma values_scope (v : Variant) (active : Variables) (a : Axis) :
    (Rule.scope active v.assignment).values a =
      match v.value? a with
      | some x => [x]
      | none => (active.without .file).values a := by
  obtain ⟨chain, pattern, f, p⟩ := v
  cases f <;> cases p <;> cases a <;>
    simp [Rule.scope, assignment, value?, Variables.values_set_singleton]

lemma compile_eq_ok : v.compile active = .ok r ↔ r.Realizes active v := by
  have hout {a : Axis} (ha : a ≠ .file) : (active.without .file).values a = active.values a :=
    Variables.values_setValues_of_ne _ ha _
  rw [compile, Rule.compile_eq_ok]
  constructor
  · rintro ⟨hchain, hpattern, hvars, hglob⟩
    refine ⟨hchain, says_iff.2 (congrArg _ hpattern), hpattern ▸ hglob, fun a x hx => ?_,
      fun a ha hnone => ?_, ?_⟩
    · rw [hvars, values_scope, hx]
    · rw [hvars, values_scope, hnone, hout ha]
    · change r.vars.values .file = []
      rw [hvars, values_scope]
      rfl
  · rintro ⟨hchain, hpattern, hglob, hchosen, hothers, hfiles⟩
    have hpattern := String.toList_inj.1 (says_iff.1 hpattern)
    refine ⟨hchain, hpattern, Variables.ext_values fun a => ?_, hpattern ▸ hglob⟩
    rw [values_scope]
    cases hx : v.value? a with
    | some x => exact hchosen a x hx
    | none =>
      by_cases ha : a = .file
      · subst a
        exact hfiles
      · rw [hothers a ha hx, hout ha]

/-- The axes that a pattern mentions, the flavor first. -/
lemma axesOf_eq (pattern : String) : Rule.axesOf pattern =
    [Axis.flavor, .project].filter fun a => a.placeholder.toList <:+: pattern.toList := by
  rw [Rule.axesOf, axesIn, List.filter_filter]
  simp [Axis.all, List.filter_cons, hole_mem_pieces]

/-- One axis after the other: what can be chosen on the first, with all choices on the others. -/
lemma combinations_filter_cons {a : Axis} (axes : List Axis)
    (h : a.placeholder.toList <:+: pattern.toList → active.values a ≠ []) :
    combinations ((a :: axes).filter fun a => a.placeholder.toList <:+: pattern.toList) active =
      (choices active pattern a).flatMap fun x =>
        (combinations (axes.filter fun a => a.placeholder.toList <:+: pattern.toList) active).map
          ((x.map fun y => (a, y)).toList ++ ·) := by
  unfold choices
  split
  · rename_i hin
    rw [List.filter_cons_of_pos (by simpa using hin), combinations_cons, if_neg (h hin),
      List.flatMap_map]
    rfl
  · rename_i hout
    rw [List.filter_cons_of_neg (by simpa using hout)]
    simp

lemma combinations_eq (chain : String) (h : ∀ a ∈ Rule.axesOf pattern, active.values a ≠ []) :
    combinations (Rule.axesOf pattern) active =
      (ofPattern active chain pattern).map assignment := by
  have hne {a : Axis} (ha : a ≠ .file) (hin : a.placeholder.toList <:+: pattern.toList) :
      active.values a ≠ [] := h a (mem_axesOf.2 ⟨ha, hin⟩)
  rw [axesOf_eq, combinations_filter_cons _ (hne (by decide)),
    combinations_filter_cons _ (hne (by decide)), List.filter_nil, combinations, ofPattern,
    List.map_flatMap]
  simp [assignment, List.map_eq_flatMap, List.flatMap_assoc]

lemma ofPattern_eq_nil {a : Axis} (ha : a ∈ Rule.axesOf pattern) (hnone : active.values a = []) :
    ofPattern active chain pattern = [] := by
  obtain ⟨hfile, hin⟩ := mem_axesOf.1 ha
  have hchoices : choices active pattern a = [] := by
    rw [choices, if_pos hin, hnone, List.map_nil]
  cases a with
  | flavor => rw [ofPattern, hchoices, List.flatMap_nil]
  | project => simp [ofPattern, hchoices]
  | file => exact absurd rfl hfile

lemma eq_of_mem_ofPattern (h : v ∈ ofPattern active chain pattern) :
    v.chain = chain ∧ v.pattern = pattern := by
  obtain ⟨f, -, h⟩ := List.mem_flatMap.1 h
  obtain ⟨p, -, rfl⟩ := List.mem_map.1 h
  exact ⟨rfl, rfl⟩

lemma ofPattern_eq : Rule.ofPattern active root chain raw =
    (ofPattern active chain (resolve root raw)).mapM (compile active) := by
  simp only [Rule.ofPattern]
  split
  · rename_i hany
    obtain ⟨a, ha, hnone⟩ := List.any_eq_true.1 hany
    rw [ofPattern_eq_nil ha (by simpa using hnone)]
    rfl
  · rename_i hall
    rw [combinations_eq chain (by simpa using hall), List.mapM_map]
    refine mapM_congr fun v hv => ?_
    obtain ⟨hchain, hpattern⟩ := eq_of_mem_ofPattern hv
    rw [compile, hchain, hpattern]
    rfl

/-- The rules of a table are those of its variants, compiled one after the other. -/
lemma ofObserve_eq :
    Rule.ofObserve observe active root = (ofObserve observe active root).mapM (compile active) := by
  simp only [Rule.ofObserve, ofPattern_eq, ← mapM_flatMap, List.flatMap_assoc, List.flatMap_map]
  rfl

lemma chain_of_mem {e : String × List String}
    (h : v ∈ e.2.flatMap fun raw => ofPattern active e.1 (resolve root raw)) : v.chain = e.1 := by
  obtain ⟨raw, -, hv⟩ := List.mem_flatMap.1 h
  exact (eq_of_mem_ofPattern hv).1

lemma ofObserve_sorted (observe : Observe) (active : Variables) (root : String) :
    (ofObserve observe active root).Pairwise fun v w => (compare v.chain w.chain).isLE := by
  refine List.pairwise_flatMap.2 ⟨fun e _ => ?_, observe.sorted.imp fun h v hv w hw => ?_⟩
  · refine List.pairwise_of_forall_mem_list fun v hv w hw => ?_
    have hrefl : compare e.1 e.1 = .eq := Std.ReflCmp.compare_self
    rw [chain_of_mem hv, chain_of_mem hw, hrefl]
    rfl
  · rw [chain_of_mem hv, chain_of_mem hw, h]
    rfl

end Variant

/-- **The rules of a table are exact.** They are in order the rules of its variants, one each: with
the pattern that the variant says, with the one value that it chooses on an axis, with all active
values on the others and without files. There are none exactly if some variant says what is no
glob. -/
theorem ofObserve_exact (observe : Observe) (active : Variables) (root : String) :
    (∀ rules, Rule.ofObserve observe active root = .ok rules ↔
      List.Forall₂ (fun v r => r.Realizes active v) (Variant.ofObserve observe active root) rules) ∧
    ((∃ e, Rule.ofObserve observe active root = .error e) ↔
      ∃ v ∈ Variant.ofObserve observe active root, ∃ s, v.Says s ∧ ¬ IsGlob s) ∧
    (∀ v : Variant, ∃! s, v.Says s) ∧
    (Variant.ofObserve observe active root).Pairwise fun v w =>
      (compare v.chain w.chain).isLE := by
  refine ⟨fun rules => ?_, ?_, fun v => ?_, Variant.ofObserve_sorted observe active root⟩
  · simp only [Variant.ofObserve_eq, mapM_eq_ok, Variant.compile_eq_ok]
  · rw [Variant.ofObserve_eq, exists_mapM_error_iff]
    refine exists_congr fun v => and_congr_right fun _ => ?_
    rw [exists_error_iff, Variant.compile, exists_compile_iff]
    simp only [Variant.says_iff, exists_eq_left]
  · simp only [Variant.says_iff, existsUnique_eq]

/-- A table with a pattern for every choice of both axes, one for the projects and one for none. -/
def mixed : Observe :=
  NameMap.ofList [("docs", ["*.md"]), ("build", ["$FLV/$PROJ.js", "$PROJ/*.js"])]

/-- A flavor that looks like a placeholder is put in as it is, an axis without values gives no
rules, and a project that is no glob gives an error. -/
theorem ofObserve_exact_mixed :
    (∃ rules, Rule.ofObserve mixed { flavor := ["$PROJ", "b"], project := ["red"] } "/p" =
        .ok rules ∧
      List.Forall₂ (fun v r => r.Realizes { flavor := ["$PROJ", "b"], project := ["red"] } v)
        [⟨"build", "/p/$FLV/$PROJ.js", some "$PROJ", some "red"⟩,
          ⟨"build", "/p/$FLV/$PROJ.js", some "b", some "red"⟩,
          ⟨"build", "/p/$PROJ/*.js", none, some "red"⟩, ⟨"docs", "/p/*.md", none, none⟩] rules) ∧
    (∀ rules, Rule.ofObserve mixed { project := ["red"] } "/p" = .ok rules → rules.length = 2) ∧
    ∃ e, Rule.ofObserve mixed { project := ["["] } "/p" = .error e := by
  obtain ⟨hrules, herror, -⟩ :=
    ofObserve_exact mixed { flavor := ["$PROJ", "b"], project := ["red"] } "/p"
  obtain ⟨hfew, -⟩ := ofObserve_exact mixed { project := ["red"] } "/p"
  obtain ⟨-, hrefused, -⟩ := ofObserve_exact mixed { project := ["["] } "/p"
  refine ⟨?_, fun rules h => ?_, ?_⟩
  · cases h : Rule.ofObserve mixed { flavor := ["$PROJ", "b"], project := ["red"] } "/p" with
    | error e =>
      obtain ⟨v, hv, s, hs, hglob⟩ := herror.1 ⟨e, h⟩
      rw [Variant.says_iff] at hs
      subst hs
      exact absurd hglob (by revert v; decide +kernel)
    | ok rules => exact ⟨rules, rfl, (hrules rules).1 h⟩
  · have hlength := ((hfew rules).1 h).length_eq
    rw [← hlength]
    decide +kernel
  · exact hrefused.2 ⟨⟨"build", "/p/$PROJ/*.js", none, some "["⟩, by decide +kernel, _,
      Variant.says_iff.2 rfl, by decide +kernel⟩

end ChainRunner.Watch
