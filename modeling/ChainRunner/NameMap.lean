/-!
Finite maps from names, kept in name order.

Names compare by code point. A map is the list of its entries with strictly increasing names,
so two maps with the same look-ups are equal and listing one needs no sort.
-/

namespace ChainRunner

/-- Entries in strictly increasing order of names. -/
def NameMap.Sorted {α : Type} (es : List (String × α)) : Prop :=
  es.Pairwise (fun x y => compare x.1 y.1 = .lt)

structure NameMap (α : Type) where
  entries : List (String × α)
  sorted : NameMap.Sorted entries

namespace NameMap

variable {α β : Type}

theorem ext {m n : NameMap α} (h : m.entries = n.entries) : m = n := by
  cases m; cases n; cases h; rfl

def empty : NameMap α := ⟨[], .nil⟩

instance : Inhabited (NameMap α) := ⟨empty⟩

/-- Put `v` under `k`; an earlier value of `k` is replaced. -/
def insertEntry (k : String) (v : α) : List (String × α) → List (String × α)
  | [] => [(k, v)]
  | e :: es =>
    match compare k e.1 with
    | .lt => (k, v) :: e :: es
    | .eq => (k, v) :: es
    | .gt => e :: insertEntry k v es

theorem fst_mem_insertEntry {k : String} {v : α} {es : List (String × α)} {x : String × α}
    (h : x ∈ insertEntry k v es) : x.1 = k ∨ x ∈ es := by
  induction es with
  | nil => simp [insertEntry] at h; simp [h]
  | cons e es ih =>
    simp only [insertEntry] at h
    split at h
    · simp only [List.mem_cons] at h ⊢; rcases h with rfl | h | h <;> simp [*]
    · simp only [List.mem_cons] at h ⊢; rcases h with rfl | h <;> simp [*]
    · simp only [List.mem_cons] at h ⊢
      rcases h with rfl | h
      · simp
      · rcases ih h with h | h <;> simp [h]

theorem sorted_insertEntry (k : String) (v : α) {es : List (String × α)} (h : Sorted es) :
    Sorted (insertEntry k v es) := by
  induction es with
  | nil => simp [Sorted, insertEntry]
  | cons e es ih =>
    have he := (List.pairwise_cons.1 h).1
    have ht := (List.pairwise_cons.1 h).2
    simp only [insertEntry]
    split
    · rename_i hlt
      refine List.pairwise_cons.2 ⟨?_, h⟩
      intro x hx
      rcases List.mem_cons.1 hx with rfl | hx
      · exact hlt
      · exact Std.TransCmp.lt_trans hlt (he x hx)
    · rename_i heq
      refine List.pairwise_cons.2 ⟨?_, ht⟩
      intro x hx
      exact Std.TransCmp.lt_of_eq_of_lt heq (he x hx)
    · rename_i hgt
      refine List.pairwise_cons.2 ⟨?_, ih ht⟩
      intro x hx
      rcases fst_mem_insertEntry hx with rfl | hx
      · exact Std.OrientedCmp.lt_of_gt hgt
      · exact he x hx

def insert (m : NameMap α) (k : String) (v : α) : NameMap α :=
  ⟨insertEntry k v m.entries, sorted_insertEntry k v m.sorted⟩

/-- The map of a list of pairs; the last pair of a name wins. -/
def ofList (es : List (String × α)) : NameMap α :=
  es.foldl (fun m e => m.insert e.1 e.2) empty

def get? (m : NameMap α) (k : String) : Option α := m.entries.lookup k

def contains (m : NameMap α) (k : String) : Bool := (m.get? k).isSome

def keys (m : NameMap α) : List String := m.entries.map (·.1)

def isEmpty (m : NameMap α) : Bool := m.entries.isEmpty

/-- The entries that satisfy `f`. -/
def filter (f : String → α → Bool) (m : NameMap α) : NameMap α :=
  ⟨m.entries.filter fun e => f e.1 e.2, List.Pairwise.filter _ m.sorted⟩

/-- Change the value of `k`, which counts as `d` when there is none. -/
def modifyD (m : NameMap α) (k : String) (d : α) (f : α → α) : NameMap α :=
  m.insert k (f ((m.get? k).getD d))

end NameMap

end ChainRunner
