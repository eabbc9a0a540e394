import ChainRunner.NameMap
import Mathlib.Data.List.Induction

/-!
The names of a map.
-/

namespace ChainRunner.NameMap

variable {α : Type} {k x : String}

lemma mem_insertEntry_fst (v : α) (es : List (String × α)) :
    x ∈ (insertEntry k v es).map Prod.fst ↔ x = k ∨ x ∈ es.map Prod.fst := by
  induction es with
  | nil => simp [insertEntry]
  | cons e es ih =>
    unfold insertEntry
    split
    · simp
    · rename_i heq
      rw [Std.LawfulEqCmp.eq_of_compare heq]
      simp
    · rw [List.map_cons, List.mem_cons, ih, List.map_cons, List.mem_cons, or_left_comm]

@[simp] lemma mem_keys_insert (m : NameMap α) (v : α) :
    x ∈ (m.insert k v).keys ↔ x = k ∨ x ∈ m.keys := mem_insertEntry_fst v m.entries

@[simp] lemma keys_empty : (empty : NameMap α).keys = [] := rfl

lemma ofList_concat (es : List (String × α)) (e : String × α) :
    ofList (es ++ [e]) = (ofList es).insert e.1 e.2 := by
  rw [ofList, List.foldl_append]
  rfl

lemma mem_keys_ofList {es : List (String × α)} : x ∈ (ofList es).keys ↔ x ∈ es.map Prod.fst := by
  induction es using List.reverseRecOn with
  | nil => rfl
  | append_singleton es e ih => simp [ofList_concat, ih, or_comm]

theorem nodup_keys (m : NameMap α) : m.keys.Nodup := by
  refine List.pairwise_map.2 (m.sorted.imp fun {a b} h heq => ?_)
  have hrefl : compare b.1 b.1 = .eq := Std.ReflCmp.compare_self
  rw [heq, hrefl] at h
  cases h

lemma keys_sorted (m : NameMap α) : m.keys.Pairwise (compare · · = .lt) :=
  List.pairwise_map.2 m.sorted

/-- The names of a map are listed in one order only. -/
lemma keys_eq_of_mem_iff {m n : NameMap α} (h : ∀ k, k ∈ m.keys ↔ k ∈ n.keys) :
    m.keys = n.keys := by
  refine List.Perm.eq_of_pairwise (fun a b _ _ hab hba => ?_) m.keys_sorted n.keys_sorted
    ((List.perm_ext_iff_of_nodup m.nodup_keys n.nodup_keys).2 h)
  have hswap : compare a b = (compare b a).swap := Std.OrientedCmp.eq_swap
  rw [hswap, hba] at hab
  cases hab

lemma lookup_eq_some_iff {es : List (String × α)} (h : (es.map Prod.fst).Nodup) {v : α} :
    es.lookup k = some v ↔ (k, v) ∈ es := by
  induction es with
  | nil => simp
  | cons e es ih =>
    obtain ⟨hnew, hes⟩ := List.nodup_cons.1 h
    rw [List.lookup_cons, List.mem_cons]
    split
    · rename_i heq
      obtain rfl := eq_of_beq heq
      have hout : (e.1, v) ∉ es := fun hin => hnew (List.mem_map.2 ⟨_, hin, rfl⟩)
      rw [or_iff_left hout, Option.some.injEq]
      exact ⟨fun hv => hv ▸ rfl, fun hv => (congrArg Prod.snd hv).symm⟩
    · rename_i hne
      rw [ih hes, or_iff_right]
      rintro rfl
      simp at hne

theorem get?_eq_some_iff {m : NameMap α} {v : α} : m.get? k = some v ↔ (k, v) ∈ m.entries :=
  lookup_eq_some_iff m.nodup_keys

theorem contains_iff {m : NameMap α} : m.contains k = true ↔ k ∈ m.keys := by
  rw [contains, Option.isSome_iff_exists]
  simp [get?_eq_some_iff, keys]

lemma lookup_insertEntry (v : α) (es : List (String × α)) :
    (insertEntry k v es).lookup x = if x = k then some v else es.lookup x := by
  induction es with
  | nil =>
    rw [insertEntry, List.lookup_cons]
    split <;> simp_all
  | cons e es ih =>
    unfold insertEntry
    split
    · rw [List.lookup_cons]
      split <;> simp_all
    · rename_i heq
      obtain rfl := Std.LawfulEqCmp.eq_of_compare heq
      rw [List.lookup_cons, List.lookup_cons]
      split <;> simp_all
    · rename_i hgt
      have hne : e.1 ≠ k := by
        rintro rfl
        have hrefl : compare e.1 e.1 = .eq := Std.ReflCmp.compare_self
        rw [hrefl] at hgt
        cases hgt
      rw [List.lookup_cons, ih, List.lookup_cons]
      split <;> simp_all

lemma get?_insert (m : NameMap α) (k x : String) (v : α) :
    (m.insert k v).get? x = if x = k then some v else m.get? x := lookup_insertEntry v m.entries

end ChainRunner.NameMap
