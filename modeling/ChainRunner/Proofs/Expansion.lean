import ChainRunner.Expansion
import ChainRunner.Proofs.Variables.Basic
import ChainRunner.Proofs.Variables.Template

/-!
The instances of a script whose body mentions the changed file: for every choice of the other
values one instance per file.
-/

namespace ChainRunner

namespace Template

variable {axes : List Axis} {vs : Variables} {asg : Assignment} {p v : String} {a : Axis}
  {text : String}

/-- The axes of a text but for the file. -/
def otherAxes (text : String) : List Axis := (axesIn text).filter (· ≠ .file)

lemma file_notMem_otherAxes : .file ∉ otherAxes text := by simp [otherAxes]

/-- The file varies fastest. -/
lemma axesIn_of_file (h : .file ∈ axesIn text) : axesIn text = otherAxes text ++ [.file] := by
  have hfile : Piece.hole .file ∈ pieces text.toList := by
    simpa [axesIn] using (List.mem_filter.1 h).2
  simp only [otherAxes, axesIn, Axis.all, List.filter_cons, hfile]
  by_cases hflavor : Piece.hole .flavor ∈ pieces text.toList <;>
    by_cases hproject : Piece.hole .project ∈ pieces text.toList <;> simp [hflavor, hproject]

lemma combinations_concat (h : vs.values a ≠ []) : combinations (axes ++ [a]) vs =
    (combinations axes vs).flatMap fun asg => (vs.values a).map fun v => asg ++ [(a, v)] := by
  induction axes with
  | nil => simp [combinations_cons, combinations, h, List.map_eq_flatMap]
  | cons b axes ih =>
    rw [List.cons_append, combinations_cons, combinations_cons]
    split
    · exact ih
    · simp [ih, List.flatMap_assoc, List.map_flatMap, List.flatMap_map, Function.comp_def]

lemma lookup_of_combinations (h : asg ∈ combinations axes vs) (ha : a ∉ axes) :
    asg.lookup a = none :=
  Option.eq_none_iff_forall_ne_some.2 fun _ hv => ha (mem_of_lookup h hv).1

lemma lookup_concat (h : asg ∈ combinations axes vs) (ha : a ∉ axes) :
    (asg ++ [(a, v)]).lookup a = some v := by
  rw [List.lookup_append, lookup_of_combinations h ha]
  simp

/-- No two of the ways to choose the values are the same. -/
lemma nodup_combinations (hvs : vs.Distinct) : (combinations axes vs).Nodup := by
  induction axes with
  | nil => simp [combinations]
  | cons b axes ih =>
    rw [combinations_cons]
    split
    · exact ih
    · refine List.nodup_flatMap.2 ⟨fun x _ => ih.map (List.cons_injective), ?_⟩
      refine (hvs b).imp fun {x y} hxy => ?_
      rw [Function.onFun_apply, List.disjoint_left]
      intro asg hx hy
      obtain ⟨_, -, rfl⟩ := List.mem_map.1 hx
      obtain ⟨_, -, heq⟩ := List.mem_map.1 hy
      cases heq
      exact hxy rfl

/-- The choices with one file are the choices of the other values, each with that file. -/
lemma filter_combinations (hvs : vs.Distinct) (h : .file ∈ axesIn text) (hp : p ∈ vs.file) :
    (combinations (axesIn text) vs).filter (fun asg => asg.lookup .file = some p) =
      (combinations (otherAxes text) vs).map (· ++ [(.file, p)]) := by
  have hne : vs.values .file ≠ [] := List.ne_nil_of_mem hp
  rw [axesIn_of_file h, combinations_concat hne, List.filter_flatMap, List.map_eq_flatMap]
  refine List.flatMap_congr fun asg hasg => ?_
  have hlook (v : String) : (asg ++ [(Axis.file, v)]).lookup .file = some v :=
    lookup_concat hasg file_notMem_otherAxes
  have hone : (vs.values .file).filter (· = p) = [p] := by
    rw [List.filter_eq, List.nodup_iff_count_eq_one.1 (hvs .file) p hp, List.replicate_one]
  simp [List.filter_map, Function.comp_def, hlook, hone]

end Template

namespace Instance

open Template

variable {script body : String} {mode : Mode} {vs : Variables} {asg : Assignment} {p : String}

/-- The instance of a script under a choice of values. -/
def chosen (script body : String) (mode : Mode) (asg : Assignment) : Instance :=
  ⟨script, nameFor script asg, fill asg body, mode⟩

lemma expand_eq : expand script body mode vs =
    (combinations (axesIn body) vs).map (chosen script body mode) := rfl

end Instance

end ChainRunner
