import ChainRunner.Proofs.Text.Offsets
import ChainRunner.Proofs.Watch.Filling

/-!
Resolved patterns are in normal form.

What is kept of an absolute path is said segment by segment, in the order in which they are read.
Resolving a pattern keeps just this of the directory with the pattern behind it, so a detour in the
pattern makes no difference.
-/

namespace ChainRunner.Watch

open ChainRunner.Path Text

/-- The names that are kept of an absolute path when its segments are read. A `..` takes the
nearest kept name away, and does nothing at the top. -/
inductive Retains : Segments → List String → Prop
  | top : Retains [] []
  | skip {segs : Segments} {ns : List String} {seg : List Char} (h : Retains segs ns)
    (hseg : seg = [] ∨ seg = ['.']) : Retains (segs ++ [seg]) ns
  | name {segs : Segments} {ns : List String} {n : String} (h : Retains segs ns)
    (hn : IsName n) : Retains (segs ++ [n.toList]) (ns ++ [n])
  | up {segs : Segments} {ns : List String} {n : String} (h : Retains segs (ns ++ [n])) :
    Retains (segs ++ [['.', '.']]) ns
  | stay {segs : Segments} (h : Retains segs []) : Retains (segs ++ [['.', '.']]) []

/-- One byte, a colon and a slash stand in front. -/
def HasDrive (raw : String) : Prop :=
  ∃ c rest, slashed raw.toList = c :: ':' :: '/' :: rest ∧ c.utf8Size = 1

variable {s : List Char} {segs : Segments} {ns : List String} {d root raw : String}

/-! ### One segment after the other -/

lemma Retains.areNames (h : Retains segs ns) : AreNames ns := by
  induction h with
  | top | stay => simp [AreNames]
  | skip _ _ ih => exact ih
  | name _ hn ih => exact ih.append (List.forall_mem_singleton.2 hn)
  | up _ ih => exact ih.above (List.prefix_append ..)

lemma Retains.foldl (h : Retains segs ns) :
    segs.foldl (collapseStep true) [] = (ns.map String.toList).reverse := by
  induction h with
  | top => rfl
  | skip _ hseg ih => simp [ih, collapseStep, hseg]
  | name _ hn ih => simp [ih, collapseStep, hn.ne_nil, hn.here, hn.up]
  | @up segs ns n h ih =>
    have hn : n.toList ≠ ['.', '.'] := (h.areNames n (by simp)).up
    simp [ih, collapseStep, hn]
  | stay _ ih => simp [ih, collapseStep]

lemma exists_retains (hslash : ∀ seg ∈ segs, '/' ∉ seg) : ∃ ns, Retains segs ns := by
  induction segs using List.reverseRecOn with
  | nil => exact ⟨[], .top⟩
  | append_singleton segs seg ih =>
    rw [List.forall_mem_append, List.forall_mem_singleton] at hslash
    obtain ⟨ns, h⟩ := ih hslash.1
    by_cases hskip : seg = [] ∨ seg = ['.']
    · exact ⟨ns, h.skip hskip⟩
    by_cases hup : seg = ['.', '.']
    · subst hup
      rcases List.eq_nil_or_concat ns with rfl | ⟨ns, n, rfl⟩
      · exact ⟨[], h.stay⟩
      · exact ⟨ns, .up (by simpa using h)⟩
    · have hn : IsName (String.ofList seg) := by
        rw [not_or] at hskip
        constructor <;> rw [String.toList_ofList]
        exacts [hskip.1, hslash.2, hskip.2, hup]
      exact ⟨ns ++ [String.ofList seg], by simpa using h.name hn⟩

/-- An absolute text collapses to the plain text of the names that are kept of it. -/
lemma retains_iff (h : s.head? = some '/') :
    Retains (segments s) ns ↔ AreNames ns ∧ collapse s = (absolute ns).toList := by
  have hcollapse {ms : List String} (hms : Retains (segments s) ms) :
      collapse s = (absolute ms).toList := by
    rw [collapse_of_absolute h, keptSegments, h, decide_eq_true rfl, hms.foldl,
      List.reverse_reverse, absolute, String.toList_ofList]
  constructor
  · exact fun hns => ⟨hns.areNames, hcollapse hns⟩
  · rintro ⟨hns, heq⟩
    obtain ⟨ms, hms⟩ := exists_retains fun _ => slash_notMem_of_mem_segments (s := s)
    rw [hcollapse hms, String.toList_inj, absolute_inj hms.areNames hns] at heq
    exact heq ▸ hms

/-! ### The directory with the pattern behind it -/

lemma head?_of_isAbsolute (h : isAbsolute root) : root.toList.head? = some '/' := by
  obtain ⟨u, hu⟩ := String.startsWith_string_iff.1 h
  rw [← hu]
  rfl

lemma isAbsolute_iff : isAbsolute root ↔ root.toList.head? = some '/' := by
  refine ⟨head?_of_isAbsolute, fun h => ?_⟩
  obtain ⟨u, hu⟩ := List.head?_eq_some_iff.1 h
  exact String.startsWith_string_iff.2 ⟨u, hu.symm⟩

lemma startsAtRoot_iff (h : ¬HasDrive raw) :
    startsAtRoot (slashed raw.toList) ↔ isAbsolute (toSlash raw) := by
  rw [isAbsolute_iff, toSlash, String.toList_ofList]
  unfold startsAtRoot
  split
  · rename_i hs
    simp [hs]
  · rename_i c rest hno hs
    have hc : ¬c.toNat < 0x80 := fun hc => h ⟨c, rest, hs, toNat_lt_iff.1 hc⟩
    simp [hc, hs, show c ≠ '/' from hno]
  · rename_i hno _
    refine iff_of_false (by simp) fun hhead => ?_
    obtain ⟨u, hu⟩ := List.head?_eq_some_iff.1 hhead
    exact hno u hu

/-- A directory ends where its text does, whether or not a slash is put behind it. -/
lemma foldl_segments_join (habs : ¬isAbsolute raw) (hroot : root ≠ "") :
    (segments (join root raw).toList).foldl (collapseStep true) [] =
      (segments (root.toList ++ '/' :: raw.toList)).foldl (collapseStep true) [] := by
  have hempty : root.isEmpty = false := by simpa [String.isEmpty_iff] using hroot
  rw [join, if_neg habs, hempty, Bool.false_or]
  split
  · rename_i hend
    obtain ⟨u, hu⟩ : ['/'] <:+ root.toList := by
      rwa [String.endsWith_eq_endsWith_toSlice, String.Slice.endsWith_string_iff,
        String.copy_toSlice] at hend
    have happend (v : List Char) : u ++ ['/'] ++ v = u ++ '/' :: v := by simp
    rw [String.toList_append, ← hu, happend, happend, segments_join, segments_join, segments_slash]
    simp [collapseStep]
  · simp

lemma head?_join_of_isAbsolute (h : isAbsolute root) (raw : String) :
    (join root raw).toList.head? = some '/' := by
  obtain ⟨u, hu⟩ := List.head?_eq_some_iff.1 (isAbsolute_iff.1 h)
  unfold join
  split
  · exact isAbsolute_iff.1 ‹_›
  · split <;> simp [hu]

/-- What is resolved is the directory joined with the pattern. -/
lemma toList_resolve_join (hroot : isAbsolute root) (hraw : ¬HasDrive raw) :
    (resolve root raw).toList = collapse (join (toSlash root) (toSlash raw)).toList := by
  have hslashed : (slashed root.toList).head? = some '/' := head?_slashed (isAbsolute_iff.1 hroot)
  have hroot : isAbsolute (toSlash root) :=
    isAbsolute_iff.2 (by rwa [toSlash, String.toList_ofList])
  have hjoin := head?_join_of_isAbsolute hroot (toSlash raw)
  rw [toList_resolve_eq, behind]
  by_cases habs : isAbsolute (toSlash raw)
  · rw [if_pos ((startsAtRoot_iff hraw).2 habs), join, if_pos habs, toSlash, String.toList_ofList]
  · rw [if_neg (mt (startsAtRoot_iff hraw).1 habs)]
    have hhead := head?_dropEndWhile hslashed (slashed raw.toList)
    have hne : toSlash root ≠ "" := by
      rintro hempty
      rw [hempty] at hroot
      exact absurd hroot (by decide)
    refine collapse_congr (iff_of_true hhead hjoin) ?_
    rw [hhead, decide_eq_true rfl, foldl_segments_join habs hne, segments_join, segments_join,
      List.foldl_append, List.foldl_append, foldl_segments_dropEndWhile, toSlash, toSlash,
      String.toList_ofList, String.toList_ofList]

/-! ### Detours -/

/-- A relative pattern with more in front, which changes nothing of what is kept. -/
lemma resolve_of_foldl {raw' : String} (hroot : isAbsolute root) (hraw : IsRelative raw)
    (hraw' : IsRelative raw') (h : ∀ kept,
      (segments (slashed raw'.toList)).foldl (collapseStep true) kept =
        (segments (slashed raw.toList)).foldl (collapseStep true) kept) :
    resolve root raw' = resolve root raw := by
  rw [← String.toList_inj, toList_resolve (isAbsolute_iff.1 hroot) hraw',
    toList_resolve (isAbsolute_iff.1 hroot) hraw, h]

lemma resolve_here (hroot : isAbsolute root) (hraw : IsRelative raw) :
    resolve root ("./" ++ raw) = resolve root raw := by
  have htext : slashed ("./" ++ raw).toList = ['.'] ++ '/' :: slashed raw.toList := by
    simp [slashed]
  refine resolve_of_foldl hroot hraw ?_ fun kept => ?_
  · rw [IsRelative, htext]
    rfl
  · rw [htext, segments_join, List.foldl_append]
    rfl

lemma resolve_back (hroot : isAbsolute root) (hraw : IsRelative raw) (hd : IsName d)
    (hcolon : ':' ∉ d.toList) (hback : '\\' ∉ d.toList) :
    resolve root (d ++ "/../" ++ raw) = resolve root raw := by
  have htext : slashed (d ++ "/../" ++ raw).toList =
      d.toList ++ '/' :: (['.', '.'] ++ '/' :: slashed raw.toList) := by
    rw [← slashed_of_notMem hback]
    simp [slashed]
  refine resolve_of_foldl hroot hraw ?_ fun kept => ?_
  · obtain ⟨c, w, hw⟩ := List.exists_cons_of_ne_nil hd.ne_nil
    have hslash : c ≠ '/' := by
      rintro rfl
      exact hd.slash (by simp [hw])
    rw [IsRelative, htext, hw]
    cases w with
    | nil => simp [startsAtRoot, hslash]
    | cons c' w =>
      have hc' : c' ≠ ':' := by
        rintro rfl
        exact hcolon (by simp [hw])
      simp [startsAtRoot, hslash, hc']
  · have hup : '/' ∉ ['.', '.'] := by decide
    rw [htext, segments_join, segments_join, segments_of_notMem hd.slash, segments_of_notMem hup,
      List.foldl_append, List.foldl_append]
    simp [collapseStep, hd.ne_nil, hd.here, hd.up]

/-! ### Normal form -/

/-- **A resolved pattern is in normal form.** Below an absolute directory every pattern without a
drive becomes the plain text of a list of names, without backslashes, and stays as it is when it
is resolved again. The names are those that are kept of the directory joined with the pattern.
Steps that lead back in front of a relative pattern make no difference. -/
theorem resolve_normal (hroot : isAbsolute root) (hraw : ¬HasDrive raw) :
    (∃ ns, AreNames ns ∧ resolve root raw = absolute ns ∧ '\\' ∉ (resolve root raw).toList) ∧
    (∀ root', resolve root' (resolve root raw) = resolve root raw) ∧
    (∀ ns, Retains (segments (join (toSlash root) (toSlash raw)).toList) ns ↔
      AreNames ns ∧ resolve root raw = absolute ns) ∧
    (¬isAbsolute (toSlash raw) → resolve root ("./" ++ raw) = resolve root raw ∧
      ∀ d, IsName d → ':' ∉ d.toList → '\\' ∉ d.toList →
        resolve root (d ++ "/../" ++ raw) = resolve root raw) := by
  have hhead : (join (toSlash root) (toSlash raw)).toList.head? = some '/' := by
    refine head?_join_of_isAbsolute (isAbsolute_iff.2 ?_) _
    rw [toSlash, String.toList_ofList]
    exact head?_slashed (isAbsolute_iff.1 hroot)
  have htext := toList_resolve_join hroot hraw
  have hresolved : IsResolved (resolve root raw) := by
    refine isResolved_resolve ?_
    rw [htext, head?_collapse]
    exact hhead
  refine ⟨hresolved.canonical, fun root' => ?_, fun ns => ?_, fun hrel => ?_⟩
  · -- a resolved pattern starts at the root, so no directory matters
    obtain ⟨u, hu⟩ := List.head?_eq_some_iff.1
      (head?_slashed (isAbsolute_iff.1 hresolved.rooted))
    conv_rhs => rw [← hresolved.fixed]
    rw [← String.toList_inj, toList_resolve_eq, toList_resolve_eq, behind_of_slashed hu,
      behind_of_slashed hu]
  · rw [retains_iff hhead, ← htext, String.toList_inj]
  · -- what is written relative to the directory can be written behind `.` or `d/..`
    have hrelative : IsRelative raw := by
      rw [IsRelative, ← Bool.not_eq_true]
      exact mt (startsAtRoot_iff hraw).1 hrel
    exact ⟨resolve_here hroot hrelative, fun d => resolve_back hroot hrelative⟩

/-- A pattern that leaves the directory, with slashes of both kinds. -/
theorem resolve_normal_outside :
    isAbsolute "/w//x/" ∧ ¬HasDrive "..\\..\\../é:/./b/../c" ∧
      (∀ ns, Retains (segments (join (toSlash "/w//x/")
        (toSlash "..\\..\\../é:/./b/../c")).toList) ns ↔ ns = ["é:", "c"]) ∧
      resolve "/w//x/" ("q" ++ "/../" ++ "..\\..\\../é:/./b/../c") = absolute ["é:", "c"] := by
  have hroot : isAbsolute "/w//x/" := isAbsolute_iff.2 rfl
  have hraw : ¬HasDrive "..\\..\\../é:/./b/../c" := by
    rintro ⟨c, rest, h, -⟩
    cases h
  have hrel : ¬isAbsolute (toSlash "..\\..\\../é:/./b/../c") :=
    isAbsolute_iff.not.2 (by decide)
  have hresolve : resolve "/w//x/" "..\\..\\../é:/./b/../c" = absolute ["é:", "c"] := by decide
  have hnames : AreNames ["é:", "c"] := by decide
  obtain ⟨-, -, hretains, hdetour⟩ := resolve_normal hroot hraw
  refine ⟨hroot, hraw, fun ns => (hretains ns).trans ?_, ?_⟩
  · rw [hresolve]
    refine ⟨fun ⟨hns, h⟩ => ((absolute_inj hnames hns).1 h).symm, ?_⟩
    rintro rfl
    exact ⟨hnames, rfl⟩
  · rw [(hdetour hrel).2 "q" (by decide) (by decide) (by decide), hresolve]

end ChainRunner.Watch
