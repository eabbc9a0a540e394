import Mathlib.Algebra.BigOperators.Group.List.Basic
import Mathlib.Data.List.Pairwise
import ChainRunner.Proofs.Expansion

/-!
The instances of a script as a product.

A body is varied along the axes that it mentions and that have values. Its instances stand for the
tuples with one value on each of these axes, and they are in the order of the places that the
values have, the first axis counting most.
-/

namespace ChainRunner

namespace Variables

variable {vs : Variables} {axes : List Axis} {t : List String} {a : Axis}

/-- Every way to take a value on each of the axes, the first axis varying slowest. -/
def tuples (vs : Variables) : List Axis → List (List String)
  | [] => [[]]
  | a :: axes => (vs.values a).flatMap fun v => (vs.tuples axes).map (v :: ·)

/-- The places of the values of a tuple, each on its axis. -/
def places (vs : Variables) (axes : List Axis) (t : List String) : List Nat :=
  List.zipWith (fun a v => (vs.values a).idxOf v) axes t

/-- The tuples with a value on each of the axes, each of them once, the one with the earlier value
on the first axis that tells two apart in front. -/
structure Enumerates (vs : Variables) (axes : List Axis) (ts : List (List String)) : Prop where
  mem : ∀ t, t ∈ ts ↔ List.Forall₂ (fun a v => v ∈ vs.values a) axes t
  nodup : ts.Nodup
  ordered : ts.Pairwise fun t u => vs.places axes t < vs.places axes u

lemma mem_tuples : t ∈ vs.tuples axes ↔ List.Forall₂ (fun a v => v ∈ vs.values a) axes t := by
  induction axes generalizing t with
  | nil => simp [tuples]
  | cons a axes ih =>
    rw [tuples, List.mem_flatMap, List.forall₂_cons_left_iff]
    constructor
    · rintro ⟨v, hv, ht⟩
      obtain ⟨u, hu, rfl⟩ := List.mem_map.1 ht
      exact ⟨v, u, hv, ih.1 hu, rfl⟩
    · rintro ⟨v, u, hv, hu, rfl⟩
      exact ⟨v, hv, List.mem_map.2 ⟨u, ih.2 hu, rfl⟩⟩

lemma length_tuples (vs : Variables) (axes : List Axis) :
    (vs.tuples axes).length = (axes.map fun a => (vs.values a).length).prod := by
  induction axes with
  | nil => rfl
  | cons a axes ih =>
    simp only [tuples, List.length_flatMap, List.length_map, ih]
    rw [List.map_const', List.sum_replicate_nat, List.map_cons, List.prod_cons]

/-- Values without repetition stand in the order of their places. -/
lemma pairwise_idxOf {xs : List String} (h : xs.Nodup) :
    xs.Pairwise fun x y => xs.idxOf x < xs.idxOf y := by
  rw [List.pairwise_iff_getElem]
  intro i j hi hj hij
  rwa [h.idxOf_getElem, h.idxOf_getElem]

/-- A tuple stands before another one if its value on the first axis that tells them apart does. -/
lemma pairwise_tuples (h : vs.Distinct) (axes : List Axis) :
    (vs.tuples axes).Pairwise fun t u => vs.places axes t < vs.places axes u := by
  induction axes with
  | nil => simp [tuples]
  | cons a axes ih =>
    rw [tuples, List.pairwise_flatMap]
    constructor
    · intro v _
      rw [List.pairwise_map]
      refine ih.imp fun {t u} htu => ?_
      simpa [places, List.cons_lt_cons_iff] using htu
    · refine (pairwise_idxOf (h a)).imp fun {v w} hvw => ?_
      intro t ht u hu
      obtain ⟨t, -, rfl⟩ := List.mem_map.1 ht
      obtain ⟨u, -, rfl⟩ := List.mem_map.1 hu
      simp [places, List.cons_lt_cons_iff, hvw]

lemma enumerates_tuples (h : vs.Distinct) (axes : List Axis) :
    vs.Enumerates axes (vs.tuples axes) where
  mem _ := mem_tuples
  nodup := (pairwise_tuples h axes).imp fun {t u} htu => by
    rintro rfl
    exact List.lt_irrefl _ htu
  ordered := pairwise_tuples h axes

end Variables

namespace Template

open Variables

variable {vs : Variables} {axes : List Axis}

/-- The axes that have values, of some axes. -/
def valued (vs : Variables) (axes : List Axis) : List Axis := axes.filter (vs.values · ≠ [])

lemma valued_cons_of_eq {a : Axis} (h : vs.values a = []) :
    valued vs (a :: axes) = valued vs axes := List.filter_cons_of_neg (by simp [h])

lemma valued_cons_of_ne {a : Axis} (h : vs.values a ≠ []) :
    valued vs (a :: axes) = a :: valued vs axes := List.filter_cons_of_pos (by simp [h])

/-- An assignment gives each axis with values its place in a tuple. -/
lemma combinations_eq (vs : Variables) (axes : List Axis) :
    combinations axes vs = (vs.tuples (valued vs axes)).map (valued vs axes).zip := by
  induction axes with
  | nil => rfl
  | cons a axes ih =>
    rw [combinations_cons]
    split
    · rename_i hnone
      rw [ih, valued_cons_of_eq hnone]
    · rename_i hsome
      rw [ih, valued_cons_of_ne hsome, tuples, List.map_flatMap]
      refine List.flatMap_congr fun v _ => ?_
      rw [List.map_map, List.map_map]
      rfl

end Template

namespace Instance

open Template

variable {script body : String} {mode : Mode} {vs : Variables}

/-- The axes along which a body is varied: those it mentions that have values. -/
def varied (body : String) (vs : Variables) : List Axis :=
  Axis.all.filter fun a => a.placeholder.toList <:+: body.toList ∧ vs.values a ≠ []

lemma varied_eq (body : String) (vs : Variables) : varied body vs = valued vs (axesIn body) := by
  simp only [varied, valued, axesIn, List.filter_filter, hole_mem_pieces]
  refine List.filter_congr fun a _ => ?_
  rw [Bool.decide_and, Bool.and_comm]

/-- An instance of a script for each tuple. -/
lemma expand_eq_tuples (script body : String) (mode : Mode) (vs : Variables) :
    expand script body mode vs = (vs.tuples (varied body vs)).map fun t =>
      chosen script body mode ((varied body vs).zip t) := by
  rw [expand_eq, combinations_eq, ← varied_eq, List.map_map]
  rfl

/-- **Expanding a script goes through the product of the values.** There is one instance for each
tuple of values on the axes that the body mentions and that have some, in the order of their places
with the first axis outermost. Its command is the body with the values of the tuple put in, and all
else is kept, the placeholders of the other axes included. -/
theorem expand_product (script body : String) (mode : Mode) (hvs : vs.Distinct) :
    (expand script body mode vs).length =
        ((varied body vs).map fun a => (vs.values a).length).prod ∧
      ∃ ts, vs.Enumerates (varied body vs) ts ∧
        List.Forall₂ (fun t i => i.script = script ∧ i.mode = mode ∧
          Filled (fun a => ((varied body vs).zip t).lookup a) body.toList i.command.toList)
          ts (expand script body mode vs) := by
  refine ⟨?_, vs.tuples (varied body vs), Variables.enumerates_tuples hvs _, ?_⟩
  · rw [expand_eq_tuples, List.length_map, Variables.length_tuples]
  · rw [expand_eq_tuples, List.forall₂_map_right_iff, List.forall₂_same]
    intro t _
    exact ⟨rfl, rfl, filled_iff.2 (toList_fill _ _)⟩

/-- Two flavors and two files, and no project. -/
def crossed : Variables := { flavor := ["red", "blue"], file := ["a.js", "b.js"] }

/-- A placeholder that stands twice, one without values and the beginning of one. -/
theorem expand_product_crossed :
    let body := "cp $FILE $FLV$PROJ$$FLV $FL"
    crossed.Distinct ∧ varied body crossed = [.flavor, .file] ∧
    (expand "c" body .sequential crossed).length = 2 * 2 ∧
    (∃ ts, crossed.Enumerates [.flavor, .file] ts ∧ ["blue", "a.js"] ∈ ts ∧ ts.length = 2 * 2) ∧
    (expand "c" body .sequential crossed).map Instance.command =
      ["cp a.js red$PROJ$red $FL", "cp b.js red$PROJ$red $FL",
        "cp a.js blue$PROJ$blue $FL", "cp b.js blue$PROJ$blue $FL"] := by
  intro body
  have hdistinct : crossed.Distinct := fun a => by cases a <;> decide
  have hvaried : varied body crossed = [.flavor, .file] := by decide +kernel
  obtain ⟨hlength, ts, hts, hall⟩ := expand_product "c" body .sequential hdistinct
  rw [hvaried] at hlength hts
  have hblue : ["blue", "a.js"] ∈ ts :=
    (hts.mem _).2 (.cons (by decide) (.cons (by decide) .nil))
  exact ⟨hdistinct, hvaried, hlength, ⟨ts, hts, hblue, hall.length_eq.trans hlength⟩,
    by decide +kernel⟩

end Instance

end ChainRunner
