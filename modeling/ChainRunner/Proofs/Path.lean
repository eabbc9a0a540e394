import Mathlib.Order.Compare
import ChainRunner.Path
import ChainRunner.Proofs.Watch.Pattern

/-!
Absolute paths as lists of names.

Every list of names has one plain text; joining and the order of directories above one another
can be read off the lists.
-/

namespace ChainRunner.Path

open Watch

/-- A text that stands for one step down a path. -/
structure IsName (n : String) : Prop where
  ne_nil : n.toList ≠ []
  slash : '/' ∉ n.toList
  here : n.toList ≠ ['.']
  up : n.toList ≠ ['.', '.']

instance (n : String) : Decidable (IsName n) :=
  decidable_of_iff (n.toList ≠ [] ∧ '/' ∉ n.toList ∧ n.toList ≠ ['.'] ∧ n.toList ≠ ['.', '.'])
    ⟨fun h => ⟨h.1, h.2.1, h.2.2.1, h.2.2.2⟩, fun h => ⟨h.ne_nil, h.slash, h.here, h.up⟩⟩

/-- Names all of which are names. -/
def AreNames (ns : List String) : Prop := ∀ n ∈ ns, IsName n

instance (ns : List String) : Decidable (AreNames ns) := inferInstanceAs (Decidable (∀ n ∈ ns, _))

/-- The components of the absolute path along `ns`. -/
def steps (ns : List String) : List Component := .root :: ns.map .name

/-- The plain text of the absolute path along `ns`. -/
def absolute (ns : List String) : String :=
  String.ofList ('/' :: ['/'].intercalate (ns.map String.toList))

/-- A text that is the plain one of its path. -/
def Canonical (p : String) : Prop := ∃ ns, AreNames ns ∧ p = absolute ns

variable {ns ms : List String} {n p : String}

lemma AreNames.append (hn : AreNames ns) (hm : AreNames ms) : AreNames (ns ++ ms) :=
  fun n h => (List.mem_append.1 h).elim (hn n) (hm n)

lemma AreNames.above (h : AreNames ms) (hp : ns <+: ms) : AreNames ns :=
  fun n hn => h n (hp.subset hn)

/-! ### Components -/

@[simp] lemma steps_append (ns ms : List String) :
    steps (ns ++ ms) = steps ns ++ ms.map .name := by simp [steps]

lemma name_injective : Function.Injective Component.name := fun _ _ => Component.name.inj

lemma steps_inj : steps ns = steps ms ↔ ns = ms := by
  simp [steps, name_injective.list_map.eq_iff]

lemma prefix_steps : steps ns <+: steps ms ↔ ns <+: ms := by
  simp only [steps, List.cons_prefix_cons, true_and]
  refine ⟨fun h => ?_, fun h => h.map _⟩
  obtain ⟨xs, hxs, heq⟩ := List.prefix_map_iff.1 h
  rwa [name_injective.list_map heq]

lemma IsName.ofSegment? (h : IsName n) : Component.ofSegment? n.toList = some (.name n) := by
  rw [Component.ofSegment?, if_neg (by simp [h.ne_nil, h.here]), if_neg h.up, String.ofList_toList]

lemma isName_of_ofSegment? {s : List Char} (hs : '/' ∉ s)
    (h : Component.ofSegment? s = some (.name n)) : IsName n := by
  unfold Component.ofSegment? at h
  split at h
  · cases h
  · split at h
    · cases h
    · rename_i hdots hup
      obtain rfl := Component.name.inj (Option.some.inj h)
      simp only [not_or] at hdots
      constructor <;> simp_all

lemma ofSegment?_names (h : AreNames ns) :
    (ns.map String.toList).filterMap Component.ofSegment? = ns.map .name := by
  rw [List.filterMap_map, ← List.filterMap_eq_map, List.filterMap_congr]
  exact fun n hn => (h n hn).ofSegment?

lemma segments_intercalate {segs : Segments} (h : ∀ s ∈ segs, '/' ∉ s) (hne : segs ≠ []) :
    segments (['/'].intercalate segs) = segs := by
  rw [segments, ← List.splitOn_eq_splitOnP, List.splitOn_intercalate _ h hne]

@[simp] lemma components_absolute (h : AreNames ns) : components (absolute ns) = steps ns := by
  rw [components, absolute, String.toList_ofList]
  simp only [steps, List.cons.injEq, true_and]
  by_cases hns : ns = []
  · subst hns
    rfl
  · rw [segments_intercalate (by simpa using fun n hn => (h n hn).slash) (by simpa),
      ofSegment?_names h]

lemma absolute_inj (hn : AreNames ns) (hm : AreNames ms) : absolute ns = absolute ms ↔ ns = ms :=
  ⟨fun h => steps_inj.1 (by rw [← components_absolute hn, h, components_absolute hm]),
    fun h => by rw [h]⟩

/-- The names among the components of a text are names. -/
lemma isName_of_mem_components (h : .name n ∈ components p) : IsName n := by
  have hsegs {s : List Char} {segs : Segments} (hsub : segs ⊆ segments s)
      (hmem : .name n ∈ segs.filterMap Component.ofSegment?) : IsName n := by
    obtain ⟨seg, hseg, hn⟩ := List.mem_filterMap.1 hmem
    exact isName_of_ofSegment? (slash_notMem_of_mem_segments (hsub hseg)) hn
  unfold components at h
  split at h
  · exact hsegs (List.Subset.refl _) (by simpa using h)
  · split at h
    · rename_i rest hs
      exact hsegs (hs ▸ List.subset_cons_self _ _) (by simpa using h)
    · exact hsegs (List.Subset.refl _) h

lemma components_of_isAbsolute (h : isAbsolute p) : ∃ cs, components p = .root :: cs := by
  have hp : ['/'] <+: p.toList := String.startsWith_string_iff.1 h
  obtain ⟨rest, hrest⟩ := hp
  rw [components, ← hrest]
  exact ⟨_, rfl⟩

/-! ### Directories -/

lemma isWithin_absolute (hn : AreNames ns) (hm : AreNames ms) :
    isWithin (absolute ms) (absolute ns) ↔ ns <+: ms := by
  rw [isWithin, components_absolute hn, components_absolute hm, List.isPrefixOf_iff_prefix,
    prefix_steps]

lemma endsWith_absolute (hn : AreNames ns) : (absolute ns).endsWith "/" ↔ ns = [] := by
  rw [String.endsWith_eq_endsWith_toSlice, String.Slice.endsWith_string_iff, String.copy_toSlice,
    absolute, String.toList_ofList, String.toList_ofList]
  refine ⟨fun h => by_contra fun hns => ?_, by rintro rfl; exact ⟨[], rfl⟩⟩
  have hsegs : ∀ seg ∈ ns.map String.toList, seg ≠ [] ∧ '/' ∉ seg := by
    simpa using fun n hmem => ⟨by simpa using (hn n hmem).ne_nil, (hn n hmem).slash⟩
  rcases List.suffix_cons_iff.1 h with h | h
  · obtain ⟨m, ms, rfl⟩ := List.exists_cons_of_ne_nil hns
    -- the first name is not empty
    have hm := (hsegs m.toList (by simp)).1
    have hnil : ['/'].intercalate ((m :: ms).map String.toList) = [] := by
      simpa using (congrArg List.tail h).symm
    rw [List.map_cons] at hnil
    exact hm (List.infix_nil.1 (hnil ▸ infix_intercalate (by simp)))
  · exact not_slash_suffix hsegs h

/-- What a directory lists lies one step below it. -/
lemma join_absolute (hns : AreNames ns) (hn : IsName n) :
    join (absolute ns) n = absolute (ns ++ [n]) := by
  have habs : isAbsolute n = false := by
    rw [isAbsolute, String.startsWith_string_eq_false_iff]
    rintro ⟨t, ht⟩
    exact hn.slash (by simp [← ht])
  have hempty : (absolute ns).isEmpty = false := by
    simp [absolute, ← String.toList_inj]
  rw [join, habs, if_neg (by simp), hempty, Bool.false_or, ← String.toList_inj]
  by_cases h : ns = []
  · subst h
    rw [if_pos ((endsWith_absolute hns).2 rfl)]
    simp [absolute]
  · rw [if_neg (mt (endsWith_absolute hns).1 h)]
    simp only [absolute, String.toList_append, String.toList_ofList, List.map_append]
    rw [intercalate_append (by simpa) (by simp)]
    simp

/-! ### Order -/

/-- What decides between components of one rank. -/
def Component.label : Component → String
  | .name s => s
  | _ => ""

lemma Component.compare_eq :
    Component.compare = compareLex (compareOn Component.rank) (compareOn Component.label) := by
  funext x y
  cases x <;> cases y <;> rfl

instance : Std.TransCmp Component.compare := Component.compare_eq ▸ inferInstance

instance : Std.LawfulEqCmp Component.compare where
  eq_of_compare {x y} h := by
    cases x with
    | name s =>
      cases y with
      | name t => exact congrArg _ (@Std.LawfulEqCmp.eq_of_compare _ Ord.compare _ s t h)
      | _ => cases h
    | _ => cases y <;> first | rfl | cases h

lemma compareComponents_eq : compareComponents = List.compareLex Component.compare := by
  funext xs ys
  induction xs generalizing ys with
  | nil => cases ys <;> rfl
  | cons x xs ih =>
    cases ys with
    | nil => rfl
    | cons y ys => rw [compareComponents, List.compareLex_cons_cons, ih]

instance : Std.TransCmp compareComponents := compareComponents_eq ▸ inferInstance

instance : Std.LawfulEqCmp compareComponents := compareComponents_eq ▸ inferInstance

instance : Std.TransCmp compare where
  eq_swap {p q} := @Std.OrientedCmp.eq_swap _ compareComponents _ (components p) (components q)
  isLE_trans {p q r} := @Std.TransCmp.isLE_trans _ compareComponents _ (components p) (components q)
    (components r)

lemma compare_eq_eq {q : String} : compare p q = .eq ↔ components p = components q :=
  @Std.LawfulEqCmp.compare_eq_iff_eq _ compareComponents _ _ _

end ChainRunner.Path
