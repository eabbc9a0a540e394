import ChainRunner.Variables.Basic
import Mathlib.Data.List.Nodup

/-!
What a variable set holds after values were added to it.
-/

namespace ChainRunner.Variables

variable {vs ws : Variables} {a b : Axis} {x y : String} {xs : List String}

/-- No axis has a value twice. -/
def Distinct (vs : Variables) : Prop := ∀ a, (vs.values a).Nodup

@[simp] lemma values_empty (a : Axis) : empty.values a = [] := by cases a <;> rfl

lemma distinct_empty : empty.Distinct := fun a => by simp

lemma mem_addNew : y ∈ addNew xs x ↔ y ∈ xs ∨ y = x := by
  unfold addNew
  split
  · exact ⟨.inl, fun h => h.elim id fun hy => hy ▸ ‹x ∈ xs›⟩
  · simp

lemma nodup_addNew (h : xs.Nodup) : (addNew xs x).Nodup := by
  unfold addNew
  split
  · exact h
  · exact List.nodup_append_comm.1 (List.nodup_cons.2 ⟨‹x ∉ xs›, h⟩)

lemma values_push (vs : Variables) (a b : Axis) (x : String) :
    (vs.push a x).values b = if b = a then addNew (vs.values a) x else vs.values b := by
  unfold push
  split
  · subst b
    exact values_setValues_same ..
  · exact values_setValues_of_ne _ ‹b ≠ a› _

/-- Only the one axis takes the values, each that is new behind the others. -/
lemma values_pushAll (vs : Variables) (a b : Axis) (xs : List String) :
    (vs.pushAll a xs).values b = if b = a then xs.foldl addNew (vs.values a) else vs.values b := by
  unfold pushAll
  induction xs generalizing vs with
  | nil =>
    split
    · subst b
      rfl
    · rfl
  | cons x xs ih =>
    rw [List.foldl_cons, ih, values_push, values_push, if_pos rfl, List.foldl_cons]
    split <;> rfl

lemma Distinct.push (h : vs.Distinct) (a : Axis) (x : String) : (vs.push a x).Distinct := by
  intro b
  rw [values_push]
  split
  · exact nodup_addNew (h a)
  · exact h b

lemma Distinct.pushAll (h : vs.Distinct) (a : Axis) (xs : List String) :
    (vs.pushAll a xs).Distinct := by
  unfold Variables.pushAll
  induction xs generalizing vs with
  | nil => exact h
  | cons x xs ih => exact ih (h.push a x)

lemma mem_values_pushAll :
    y ∈ (vs.pushAll a xs).values b ↔ y ∈ vs.values b ∨ b = a ∧ y ∈ xs := by
  unfold pushAll
  induction xs generalizing vs with
  | nil => simp
  | cons x xs ih =>
    rw [List.foldl_cons, ih, values_push, List.mem_cons]
    split
    · subst b
      simp only [mem_addNew, true_and]
      tauto
    · simp_all

lemma Distinct.merge (h : vs.Distinct) (ws : Variables) : (vs.merge ws).Distinct :=
  ((h.pushAll _ _).pushAll _ _).pushAll _ _

lemma mem_values_merge : y ∈ (vs.merge ws).values b ↔ y ∈ vs.values b ∨ y ∈ ws.values b := by
  simp only [merge, Axis.all, List.foldl_cons, List.foldl_nil, mem_values_pushAll]
  cases b <;> simp

/-- The values of one axis are replaced by setting it, those of the others stay. -/
lemma values_set_of_ne (h : b ≠ a) : (vs.set a xs).values b = vs.values b := by
  rw [Variables.set, values_pushAll, if_neg h, values_setValues_of_ne _ h]

lemma values_set_singleton (vs : Variables) (a b : Axis) (x : String) :
    (vs.set a [x]).values b = if b = a then [x] else vs.values b := by
  split
  · subst b
    simp [Variables.set, pushAll, values_push, addNew]
  · exact values_set_of_ne ‹b ≠ a›

end ChainRunner.Variables
