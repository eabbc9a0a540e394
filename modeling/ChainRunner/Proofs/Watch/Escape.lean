import ChainRunner.Proofs.Path
import ChainRunner.Proofs.Watch.Checked
import ChainRunner.Proofs.Watch.Root

/-!
Which patterns stay below the watched directory, whatever it is called.

A pattern stays below if it is relative and takes no more names away than it has brought itself.
Any other pattern reads the same below two directories that differ in their last name, so it
cannot belong to either.
-/

namespace ChainRunner.Watch

open ChainRunner.Path Template

variable {root raw : String} {segs kept base : Segments} {s : List Char}

/-- A relative pattern none of whose `..` is left over when it is collapsed by itself. -/
structure StaysBelow (raw : String) : Prop where
  relative : IsRelative raw
  up : ['.', '.'] ∉ keptSegments (slashed raw.toList)

instance (raw : String) : Decidable (StaysBelow raw) :=
  decidable_of_iff
    (IsRelative raw ∧ (keptSegments (slashed raw.toList)).contains ['.', '.'] = false)
    ⟨fun h => ⟨h.1, by simpa using h.2⟩, fun h => ⟨h.relative, by simpa using h.up⟩⟩

/-! ### On top of other names -/

/-- A `..` that is left over stays. -/
lemma up_mem_foldl (h : ['.', '.'] ∈ kept) :
    ['.', '.'] ∈ segs.foldl (collapseStep false) kept := by
  induction segs generalizing kept with
  | nil => exact h
  | cons x xs ih =>
    refine ih ?_
    by_cases hdot : x = [] ∨ x = ['.']
    · simpa [collapseStep, hdot] using h
    by_cases hup : x = ['.', '.']
    · cases kept with
      | nil => cases h
      | cons k ks =>
        by_cases hk : k = ['.', '.']
        · simp [collapseStep, hup, hk]
        · simpa [collapseStep, hup, hk, Ne.symm hk] using h
    · simp [collapseStep, hdot, hup, h]

/-- What takes away only names of its own leaves the names below as they are. -/
lemma foldl_collapseStep_append (hkept : ['.', '.'] ∉ kept)
    (h : ['.', '.'] ∉ segs.foldl (collapseStep false) kept) :
    segs.foldl (collapseStep true) (kept ++ base) =
      segs.foldl (collapseStep false) kept ++ base := by
  induction segs generalizing kept with
  | nil => rfl
  | cons x xs ih =>
    rw [List.foldl_cons] at h ⊢
    have hnext : ['.', '.'] ∉ collapseStep false kept x := fun hup => h (up_mem_foldl hup)
    have hstep : collapseStep true (kept ++ base) x = collapseStep false kept x ++ base := by
      unfold collapseStep at hnext ⊢
      split
      · rfl
      · rename_i hx
        split
        · rename_i hup
          cases kept with
          | nil => simp [hup] at hnext
          | cons k ks =>
            have hk : k ≠ ['.', '.'] := (List.ne_and_not_mem_of_not_mem_cons hkept).1.symm
            simp [hk]
        · rfl
    rw [hstep, ih hnext h, List.foldl_cons]

/-- What takes away more leaves nothing of the name on top. -/
lemma foldl_collapseStep_escape {x y : List Char} (hx : x ≠ ['.', '.']) (hy : y ≠ ['.', '.'])
    (hkept : ['.', '.'] ∉ kept) (h : ['.', '.'] ∈ segs.foldl (collapseStep false) kept) :
    segs.foldl (collapseStep true) (kept ++ x :: base) =
      segs.foldl (collapseStep true) (kept ++ y :: base) := by
  induction segs generalizing kept with
  | nil => exact absurd h hkept
  | cons z zs ih =>
    rw [List.foldl_cons] at h
    rw [List.foldl_cons, List.foldl_cons]
    by_cases hdot : z = [] ∨ z = ['.']
    · simp only [collapseStep, hdot, if_true] at h ⊢
      exact ih hkept h
    by_cases hup : z = ['.', '.']
    · subst hup
      cases kept with
      | nil => simp [collapseStep, hx, hy]
      | cons k ks =>
        obtain ⟨hk, hks⟩ := List.ne_and_not_mem_of_not_mem_cons hkept
        simp only [collapseStep, Ne.symm hk, hdot, if_false, if_true, List.cons_append] at h ⊢
        exact ih hks h
    · simp only [collapseStep, hdot, hup, if_false] at h ⊢
      have hnext : ['.', '.'] ∉ z :: kept := by simp [Ne.symm hup, hkept]
      exact ih hnext h

/-! ### Patterns behind the directory -/

/-- The names of a plain directory. -/
lemma names_eq (hroot : IsPlain root) : names root = (segments (stem root)).filter counts := by
  have hnames := foldl_segments hroot.absolute
  rw [slashed_of_notMem hroot.slashes, ← foldl_segments_dropEndWhile] at hnames
  change (segments (stem root)).foldl (collapseStep true) [] = _ at hnames
  rw [foldl_collapseStep hroot.up, List.append_nil] at hnames
  rw [← List.reverse_reverse (names root), ← hnames, List.reverse_reverse]

/-- The text of a directory, or that and a slash with more behind it. -/
inductive Behind (dir : List Char) : List Char → Prop
  | self (h : dir ≠ []) : Behind dir dir
  | more (s : List Char) : Behind dir (dir ++ '/' :: s)

/-- A pattern that stays below stands behind the text of the directory. -/
lemma StaysBelow.behind (hroot : IsPlain root) (h : StaysBelow raw) :
    Behind (tidied root) (resolve root raw).toList := by
  set ks := keptSegments (slashed raw.toList) with hks
  have hfold : (segments (slashed raw.toList)).foldl (collapseStep false) [] = ks.reverse := by
    rw [hks, keptSegments, decide_eq_false (head?_of_isRelative h.relative), List.reverse_reverse]
  have hresolve : (resolve root raw).toList = '/' :: ['/'].intercalate (names root ++ ks) := by
    have hup : ['.', '.'] ∉ ks.reverse := by simpa using h.up
    rw [toList_resolve hroot.absolute h.relative, ← List.nil_append (names root).reverse,
      foldl_collapseStep_append List.not_mem_nil (hfold ▸ hup), hfold]
    simp
  have htidied : tidied root = behindSlashes (names root) := by rw [names_eq hroot, tidied]
  rw [hresolve, htidied]
  by_cases hnil : ks = []
  · rw [hnil, List.append_nil]
    cases hn : names root with
    | nil => exact .more []
    | cons n ns =>
      have hjoin := intercalate_nil_cons (n :: ns)
      rw [List.intercalate_cons_cons] at hjoin
      exact hjoin ▸ .self (by simp)
  · rw [slash_intercalate_append hnil]
    exact .more _

/-- A pattern that does not stay below reads the same below two directories that differ in their
last name. -/
lemma resolve_sibling {root' : String} {above : Segments} {n m : List Char}
    (habs : root.toList.head? = some '/') (habs' : root'.toList.head? = some '/')
    (hn : names root = above ++ [n]) (hm : names root' = above ++ [m]) (h : ¬ StaysBelow raw) :
    resolve root raw = resolve root' raw := by
  by_cases hrel : IsRelative raw
  · have hup : ['.', '.'] ∈ (segments (slashed raw.toList)).foldl (collapseStep false) [] := by
      by_contra hno
      refine h ⟨hrel, ?_⟩
      rwa [keptSegments, decide_eq_false (head?_of_isRelative hrel), List.mem_reverse]
    have hname {r : String} {x : List Char} (hr : r.toList.head? = some '/')
        (hx : names r = above ++ [x]) : x ≠ ['.', '.'] := by
      rintro rfl
      exact up_notMem_names hr (by simp [hx])
    have hfold : (segments (slashed raw.toList)).foldl (collapseStep true) (n :: above.reverse) =
        (segments (slashed raw.toList)).foldl (collapseStep true) (m :: above.reverse) :=
      foldl_collapseStep_escape (hname habs hn) (hname habs' hm) List.not_mem_nil hup
    rw [← String.toList_inj, toList_resolve habs hrel, toList_resolve habs' hrel, hn, hm,
      List.reverse_concat, List.reverse_concat, hfold]
  · rw [IsRelative, Bool.not_eq_false] at hrel
    rw [resolve, resolve, if_pos hrel, if_pos hrel]

lemma names_absolute {ns : List String} (h : AreNames ns) (hback : '\\' ∉ (absolute ns).toList) :
    names (absolute ns) = ns.map String.toList := by
  have hseg : ∀ seg ∈ ns.map String.toList, seg ≠ ['.', '.'] ∧ counts seg := by
    simpa [counts] using fun n hn => ⟨(h n hn).up, by simpa using (h n hn).ne_nil, (h n hn).here⟩
  rw [names, slashed_of_notMem hback, absolute, String.toList_ofList]
  by_cases hns : ns = []
  · subst hns
    rfl
  · have hsegments : segments ('/' :: ['/'].intercalate (ns.map String.toList)) =
        [] :: ns.map String.toList := by
      rw [← List.nil_append ('/' :: _), segments_join,
        segments_intercalate (by simpa using fun n hn => (h n hn).slash) (by simpa)]
      rfl
    rw [keptSegments_eq, hsegments, List.filter_cons_of_neg (by decide),
      List.filter_eq_self.2 fun seg hs => (hseg seg hs).2]
    rw [hsegments]
    simpa using fun n hn => (h n hn).up

end ChainRunner.Watch
