import Mathlib.Logic.Function.Basic
import ChainRunner.Proofs.Variables.Basic

/-!
Variable sets by the way they are built, and as tables in which an axis may be missing.

In a table an axis with no value and a missing axis would be told apart. No table that is built ever
has the former, so tables and sets are equal together, exactly if they have the same values on every
axis, and the laws of merging are those of ordered unions.
-/

namespace ChainRunner.Variables

variable {vs ws us : Variables} {a : Axis} {x : String} {xs ys zs : List String}

/-- The values by axis, where an axis may have no entry. -/
@[ext] structure Table where
  entry : Axis → Option (List String)

namespace Table

def empty : Table := ⟨fun _ => none⟩

def values (t : Table) (a : Axis) : List String := (t.entry a).getD []

/-- Where there is no entry, one is made. -/
def push (t : Table) (a : Axis) (x : String) : Table :=
  ⟨Function.update t.entry a (some (addNew (t.values a) x))⟩

def pushAll (t : Table) (a : Axis) (xs : List String) : Table :=
  xs.foldl (fun t x => t.push a x) t

/-- The entry of the axis is taken away. -/
def without (t : Table) (a : Axis) : Table := ⟨Function.update t.entry a none⟩

def set (t : Table) (a : Axis) (xs : List String) : Table := (t.without a).pushAll a xs

/-- The entries of `u` are gone through in axis order. -/
def merge (t u : Table) : Table :=
  Axis.all.foldl
    (fun t a =>
      match u.entry a with
      | none => t
      | some xs => t.pushAll a xs)
    t

/-- No entry has a value. -/
def isEmpty (t : Table) : Bool := Axis.all.all fun a => (t.entry a).all List.isEmpty

end Table

/-- The table with an entry for every axis that has values. -/
def table (vs : Variables) : Table :=
  ⟨fun a => if vs.values a = [] then none else some (vs.values a)⟩

/-- A way to build a set, from empty sets. -/
inductive Recipe
  | empty
  | push (r : Recipe) (a : Axis) (x : String)
  | pushAll (r : Recipe) (a : Axis) (xs : List String)
  | set (r : Recipe) (a : Axis) (xs : List String)
  | merge (r s : Recipe)
  | without (r : Recipe) (a : Axis)

namespace Recipe

def result : Recipe → Variables
  | .empty => Variables.empty
  | .push r a x => r.result.push a x
  | .pushAll r a xs => r.result.pushAll a xs
  | .set r a xs => r.result.set a xs
  | .merge r s => r.result.merge s.result
  | .without r a => r.result.without a

/-- The table that is built the same way. -/
def table : Recipe → Table
  | .empty => Table.empty
  | .push r a x => r.table.push a x
  | .pushAll r a xs => r.table.pushAll a xs
  | .set r a xs => r.table.set a xs
  | .merge r s => r.table.merge s.table
  | .without r a => r.table.without a

end Recipe

/-! ### Tables -/

lemma values_table (vs : Variables) (a : Axis) : vs.table.values a = vs.values a := by
  simp only [table, Table.values]
  split <;> simp_all

lemma entry_table_ne_nil (vs : Variables) (a : Axis) : vs.table.entry a ≠ some [] := by
  simp only [table]
  split <;> simp_all

lemma table_inj : vs.table = ws.table ↔ vs = ws := by
  refine ⟨fun h => ext_values fun a => ?_, fun h => h ▸ rfl⟩
  rw [← values_table, h, values_table]

lemma table_empty : empty.table = Table.empty := by
  ext a : 2
  simp [table, Table.empty]

lemma addNew_ne_nil (xs : List String) (x : String) : addNew xs x ≠ [] :=
  List.ne_nil_of_mem (mem_addNew.2 (.inr rfl))

lemma table_push (vs : Variables) (a : Axis) (x : String) :
    (vs.push a x).table = vs.table.push a x := by
  ext b : 2
  simp only [table, values_push, Table.push, Function.update_apply]
  by_cases h : b = a
  · subst h
    rw [if_pos rfl, if_neg (addNew_ne_nil _ _), if_pos rfl, ← values_table]
    rfl
  · rw [if_neg h, if_neg h]

lemma table_pushAll (vs : Variables) (a : Axis) (xs : List String) :
    (vs.pushAll a xs).table = vs.table.pushAll a xs := by
  induction xs generalizing vs with
  | nil => rfl
  | cons x xs ih =>
    have h := ih (vs.push a x)
    rw [table_push] at h
    exact h

lemma values_without (vs : Variables) (a b : Axis) :
    (vs.without a).values b = if b = a then [] else vs.values b := by
  split
  · subst b
    exact values_setValues_same ..
  · exact values_setValues_of_ne _ ‹b ≠ a› _

lemma table_without (vs : Variables) (a : Axis) : (vs.without a).table = vs.table.without a := by
  ext b : 2
  simp only [table, values_without, Table.without, Function.update_apply]
  by_cases h : b = a
  · rw [if_pos h, if_pos rfl, if_pos h]
  · rw [if_neg h, if_neg h]

lemma table_set (vs : Variables) (a : Axis) (xs : List String) :
    (vs.set a xs).table = vs.table.set a xs := by
  rw [Table.set, ← table_without, ← table_pushAll]
  rfl

lemma table_merge (vs ws : Variables) : (vs.merge ws).table = vs.table.merge ws.table := by
  unfold merge Table.merge
  induction Axis.all generalizing vs with
  | nil => rfl
  | cons a axes ih =>
    rw [List.foldl_cons, List.foldl_cons, ih, table_pushAll]
    by_cases h : ws.values a = []
    · simp [table, h, Table.pushAll]
    · simp [table, h]

lemma isEmpty_iff : vs.isEmpty ↔ vs = empty := by
  have hall : vs.isEmpty ↔ ∀ a, vs.values a = [] := by
    simp [isEmpty, Axis.mem_all]
  rw [hall]
  exact ⟨fun h => ext_values fun a => by rw [h, values_empty], fun h a => by rw [h, values_empty]⟩

lemma isEmpty_table (vs : Variables) : vs.table.isEmpty = vs.isEmpty := by
  simp only [Table.isEmpty, isEmpty, table]
  congr 1
  funext a
  by_cases h : vs.values a = [] <;> simp [h]

/-! ### Ordered unions -/

lemma foldl_addNew (h : ys.Nodup) : ys.foldl addNew xs = xs ++ ys.filter (· ∉ xs) := by
  induction ys generalizing xs with
  | nil => simp
  | cons y ys ih =>
    obtain ⟨hy, hys⟩ := List.nodup_cons.1 h
    rw [List.foldl_cons, ih hys, addNew]
    split
    · rw [List.filter_cons_of_neg (by simpa)]
    · rw [List.filter_cons_of_pos (by simpa), List.append_assoc, List.singleton_append]
      congr 2
      exact List.filter_congr fun z hz => by simp [show z ≠ y from fun h => hy (h ▸ hz)]

lemma values_merge (vs : Variables) (h : ws.Distinct) (a : Axis) :
    (vs.merge ws).values a = vs.values a ++ (ws.values a).filter (· ∉ vs.values a) := by
  rw [← foldl_addNew (h a)]
  simp only [merge, Axis.all, List.foldl_cons, List.foldl_nil, values_pushAll]
  cases a <;> simp

lemma merge_empty (vs : Variables) : vs.merge empty = vs :=
  ext_values fun a => by rw [values_merge vs distinct_empty]; simp

lemma empty_merge (h : vs.Distinct) : empty.merge vs = vs :=
  ext_values fun a => by rw [values_merge empty h]; simp

lemma merge_assoc (hw : ws.Distinct) (hu : us.Distinct) :
    (vs.merge ws).merge us = vs.merge (ws.merge us) := by
  refine ext_values fun a => ?_
  rw [values_merge _ hu, values_merge _ hw, values_merge _ (hw.merge us), values_merge _ hu,
    List.filter_append, List.append_assoc, List.filter_filter]
  congr 2
  refine List.filter_congr fun x _ => ?_
  by_cases hv : x ∈ vs.values a <;> simp [hv]

/-- What is there already is not put in again. -/
lemma merge_of_subset (h : ws.Distinct) (hsub : ∀ a, ws.values a ⊆ vs.values a) :
    vs.merge ws = vs := by
  refine ext_values fun a => ?_
  rw [values_merge _ h, List.filter_eq_nil_iff.2 fun x hx => by simpa using hsub a hx,
    List.append_nil]

/-! ### What is built -/

namespace Recipe

variable (r s u : Recipe)

lemma table_eq : r.table = r.result.table := by
  induction r with
  | empty => exact table_empty.symm
  | push r a x ih => rw [table, ih, result, table_push]
  | pushAll r a xs ih => rw [table, ih, result, table_pushAll]
  | set r a xs ih => rw [table, ih, result, table_set]
  | merge r s ihr ihs => rw [table, ihr, ihs, result, table_merge]
  | without r a ih => rw [table, ih, result, table_without]

lemma distinct : r.result.Distinct := by
  have hwithout {vs : Variables} (h : vs.Distinct) (a : Axis) : (vs.without a).Distinct := by
    intro b
    rw [values_without]
    split
    · exact .nil
    · exact h b
  induction r with
  | empty => exact distinct_empty
  | push r a x ih => exact ih.push a x
  | pushAll r a xs ih => exact ih.pushAll a xs
  | set r a xs ih => exact (hwithout ih a).pushAll a xs
  | merge r s ih => exact ih.merge s.result
  | without r a ih => exact hwithout ih a

/-- **However sets are built, they are known by their values, and merging them is an ordered
union.** No axis has a value twice. The table built the same way has the same values and no axis
without values, so two tables are equal exactly if the sets are, which is if they have the same
values on every axis; and they are empty together. -/
theorem union_laws :
    (∀ a, (r.result.values a).Nodup ∧ r.table.entry a ≠ some [] ∧
      r.table.values a = r.result.values a) ∧
    (r.result = s.result ↔ ∀ a, r.result.values a = s.result.values a) ∧
    (r.table = s.table ↔ r.result = s.result) ∧
    (r.result.isEmpty ↔ r.result = Variables.empty) ∧ (r.table.isEmpty ↔ r.table = Table.empty) ∧
    (∀ a, (r.result.merge s.result).values a =
      r.result.values a ++ (s.result.values a).filter (· ∉ r.result.values a)) ∧
    (r.result.merge s.result).merge u.result = r.result.merge (s.result.merge u.result) ∧
    r.result.merge r.result = r.result ∧
    r.result.merge Variables.empty = r.result ∧ Variables.empty.merge r.result = r.result ∧
    (r.result.merge s.result).merge r.result = r.result.merge s.result := by
  refine ⟨fun a => ⟨r.distinct a, ?_, ?_⟩, ⟨fun h a => h ▸ rfl, ext_values⟩, ?_, isEmpty_iff, ?_,
    values_merge _ s.distinct, merge_assoc s.distinct u.distinct,
    merge_of_subset r.distinct fun a => List.Subset.refl _, merge_empty _, empty_merge r.distinct,
    merge_of_subset r.distinct fun a x hx => mem_values_merge.2 (.inl hx)⟩
  · rw [table_eq]
    exact entry_table_ne_nil _ a
  · rw [table_eq, values_table]
  · rw [table_eq, table_eq, table_inj]
  · rw [table_eq, isEmpty_table, isEmpty_iff, ← table_empty, table_inj]

end Recipe

end ChainRunner.Variables
