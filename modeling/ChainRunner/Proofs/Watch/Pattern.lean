import Mathlib.Data.List.Flatten
import ChainRunner.Path
import ChainRunner.Proofs.Text.Blank
import ChainRunner.Proofs.Text.Words
import ChainRunner.Proofs.Variables.Template
import ChainRunner.Watch.Pattern

/-!
Patterns segment by segment: what is kept of a path text, and what a pattern becomes below a
directory.
-/

namespace ChainRunner.Watch

open ChainRunner.Path Text

variable {s t : List Char} {segs kept : Segments}

/-! ### Segments -/

lemma segments_join (s t : List Char) : segments (s ++ '/' :: t) = segments s ++ segments t :=
  List.splitOnP_append_cons s t rfl

lemma intercalate_segments (s : List Char) : ['/'].intercalate (segments s) = s := by
  rw [segments, ← List.splitOn_eq_splitOnP, List.intercalate_splitOn]

lemma slash_notMem_of_mem_segments {seg : List Char} (h : seg ∈ segments s) : '/' ∉ seg :=
  fun hslash => by simpa using (of_mem_splitOnP h '/' hslash).2

lemma intercalate_append {segs' : Segments} (h : segs ≠ []) (h' : segs' ≠ []) :
    ['/'].intercalate (segs ++ segs') =
      ['/'].intercalate segs ++ '/' :: ['/'].intercalate segs' := by
  induction segs with
  | nil => contradiction
  | cons x xs ih =>
    cases xs with
    | nil => simp [List.intercalate_cons_of_ne_nil h']
    | cons y ys =>
      rw [List.cons_append, List.cons_append, List.intercalate_cons_cons, ← List.cons_append,
        ih (by simp), List.intercalate_cons_cons]
      simp

lemma infix_intercalate {seg : List Char} (h : seg ∈ segs) : seg <:+: ['/'].intercalate segs := by
  obtain ⟨xs, ys, rfl⟩ := List.append_of_mem h
  have hr : seg <+: ['/'].intercalate (seg :: ys) := by cases ys <;> simp
  cases xs with
  | nil => exact hr.isInfix
  | cons x xs =>
    rw [intercalate_append (by simp) (by simp)]
    exact hr.isInfix.trans ⟨['/'].intercalate (x :: xs) ++ ['/'], [], by simp⟩

lemma infix_of_mem_segments {seg : List Char} (h : seg ∈ segments s) : seg <:+: s := by
  simpa [intercalate_segments] using infix_intercalate h

lemma not_slash_suffix (h : ∀ seg ∈ segs, seg ≠ [] ∧ '/' ∉ seg) :
    ¬ ['/'] <:+ ['/'].intercalate segs := by
  rcases List.eq_nil_or_concat segs with rfl | ⟨xs, x, rfl⟩
  · simp
  · obtain ⟨hx, hs⟩ := h x (by simp)
    obtain ⟨y, c, rfl⟩ := (List.eq_nil_or_concat x).resolve_left hx
    have hlast : ∃ w, ['/'].intercalate (xs ++ [y ++ [c]]) = w ++ [c] := by
      cases xs with
      | nil => exact ⟨y, by simp⟩
      | cons z zs =>
        exact ⟨['/'].intercalate (z :: zs) ++ '/' :: y, by rw [intercalate_append] <;> simp⟩
    obtain ⟨w, hw⟩ := hlast
    rw [List.concat_eq_append, List.concat_eq_append, hw]
    rintro ⟨v, hv⟩
    have hc : '/' = c := by simpa using List.append_inj_right' hv rfl
    exact hs (by simp [← hc])

/-- A text without a slash lies within one of the segments. -/
lemma infix_join {w : List Char} (hw : '/' ∉ w) (h : w <:+: s ++ '/' :: t) :
    w <:+: s ∨ w <:+: t := by
  induction s with
  | nil =>
    rcases List.infix_cons_iff.1 h with h | h
    · exact .inl (Template.prefix_of_prefix_append (s := []) hw h).isInfix
    · exact .inr h
  | cons c s ih =>
    rcases List.infix_cons_iff.1 h with h | h
    · exact .inl (Template.prefix_of_prefix_append (s := c :: s) hw h).isInfix
    · exact (ih h).imp_left (·.trans (List.suffix_cons ..).isInfix)

lemma exists_infix_of_intercalate {w : List Char} (hw : '/' ∉ w) (hne : w ≠ [])
    (h : w <:+: ['/'].intercalate segs) : ∃ seg ∈ segs, w <:+: seg := by
  induction segs with
  | nil => exact absurd (List.infix_nil.1 h) hne
  | cons x xs ih =>
    cases xs with
    | nil => exact ⟨x, by simp, by simpa using h⟩
    | cons y ys =>
      rw [List.intercalate_cons_cons, List.append_assoc] at h
      rcases infix_join hw h with h | h
      · exact ⟨x, by simp, h⟩
      · obtain ⟨seg, hs, h⟩ := ih h
        exact ⟨seg, by simp [hs], h⟩

/-- Turning backslashes into slashes makes no text that has neither. -/
lemma infix_of_infix_slashed {w : List Char} (hw : '/' ∉ w) (h : w <:+: slashed s) : w <:+: s := by
  obtain ⟨u, hu, rfl⟩ := List.infix_map_iff.1 h
  -- a character of `u` that becomes a slash would show in `w`
  have hkeep : ∀ c ∈ u, (if c = '\\' then '/' else c) = c := fun c hc => by
    by_cases hb : c = '\\'
    · exact (hw (List.mem_map.2 ⟨c, hc, if_pos hb⟩)).elim
    · exact if_neg hb
  rwa [List.map_congr_left hkeep, List.map_id']

/-! ### What is kept -/

/-- A segment that is kept unless a `..` behind it takes it away. -/
def counts (seg : List Char) : Bool := seg ≠ [] ∧ seg ≠ ['.']

/-- The segments of a text that are kept. -/
def keptSegments (s : List Char) : Segments :=
  ((segments s).foldl (collapseStep (s.head? = some '/')) []).reverse

lemma collapse_of_absolute (h : s.head? = some '/') :
    collapse s = '/' :: ['/'].intercalate (keptSegments s) := by
  simp [collapse, keptSegments, h, segments]

lemma collapse_of_relative (h : s.head? ≠ some '/') :
    collapse s = ['/'].intercalate (keptSegments s) := by
  simp [collapse, keptSegments, h, segments]

lemma foldl_collapseStep {absolute : Bool} (h : ['.', '.'] ∉ segs) :
    segs.foldl (collapseStep absolute) kept = (segs.filter counts).reverse ++ kept := by
  induction segs generalizing kept with
  | nil => rfl
  | cons x xs ih =>
    obtain ⟨hx, hxs⟩ := List.ne_and_not_mem_of_not_mem_cons h
    rw [List.foldl_cons, ih hxs, List.filter_cons]
    have hc : counts x = false ↔ x = [] ∨ x = ['.'] := by simp [counts]; tauto
    simp only [collapseStep, Ne.symm hx, if_false, ← hc]
    split <;> simp_all

lemma keptSegments_eq (h : ['.', '.'] ∉ segments s) :
    keptSegments s = (segments s).filter counts := by
  rw [keptSegments, foldl_collapseStep h, List.append_nil, List.reverse_reverse]

lemma infix_of_infix_counts {w : List Char} (hw : '/' ∉ w) (hne : w ≠ [])
    (h : w <:+: ['/'].intercalate ((segments s).filter counts)) : w <:+: s := by
  obtain ⟨seg, hseg, h⟩ := exists_infix_of_intercalate hw hne h
  exact h.trans (infix_of_mem_segments (List.mem_of_mem_filter hseg))

lemma mem_foldl_collapseStep {absolute : Bool} {seg : List Char}
    (h : seg ∈ segs.foldl (collapseStep absolute) kept) :
    seg ∈ kept ∨ seg ∈ segs ∧ counts seg ∧ (absolute → seg ≠ ['.', '.']) := by
  induction segs generalizing kept with
  | nil => exact .inl h
  | cons x xs ih =>
    rcases ih h with h | h
    · unfold collapseStep at h
      split at h
      · exact .inl h
      · rename_i hx
        have hcounts : counts x := by simpa [counts] using hx
        split at h
        · grind
        · rename_i hup
          rcases List.mem_cons.1 h with rfl | h
          · exact .inr ⟨by simp, hcounts, fun _ => hup⟩
          · exact .inl h
    · exact .inr ⟨by simp [h.1], h.2⟩

lemma of_mem_keptSegments {seg : List Char} (h : seg ∈ keptSegments s) :
    seg ∈ segments s ∧ counts seg ∧ (s.head? = some '/' → seg ≠ ['.', '.']) := by
  simpa using mem_foldl_collapseStep (List.mem_reverse.1 h)

/-- Slashes at the end are no segments that are kept. -/
lemma foldl_segments_dropEndWhile {absolute : Bool} :
    (segments (dropEndWhile (· == '/') s)).foldl (collapseStep absolute) kept =
      (segments s).foldl (collapseStep absolute) kept := by
  induction s using List.reverseRecOn with
  | nil => rfl
  | append_singleton s c ih =>
    by_cases hc : c = '/'
    · subst hc
      rw [dropEndWhile_concat_of_pos (by simp), ih, segments_join, List.foldl_append]
      rfl
    · rw [dropEndWhile_concat_of_neg (by simpa using hc)]

/-! ### Below a directory -/

/-- A pattern that is taken relative to the watched directory. -/
def IsRelative (raw : String) : Prop := startsAtRoot (slashed raw.toList) = false

instance (raw : String) : Decidable (IsRelative raw) := inferInstanceAs (Decidable (_ = _))

/-- The directory text without the slashes at its end. -/
def stem (root : String) : List Char := dropEndWhile (· == '/') root.toList

/-- An absolute directory without backslashes, no segment of which is `.` or `..`. -/
structure IsPlain (root : String) : Prop where
  absolute : root.toList.head? = some '/'
  slashes : '\\' ∉ root.toList
  here : ['.'] ∉ segments (stem root)
  up : ['.', '.'] ∉ segments (stem root)

instance (root : String) : Decidable (IsPlain root) :=
  decidable_of_iff (root.toList.head? = some '/' ∧ '\\' ∉ root.toList ∧
      ['.'] ∉ segments (stem root) ∧ ['.', '.'] ∉ segments (stem root))
    ⟨fun h => ⟨h.1, h.2.1, h.2.2.1, h.2.2.2⟩, fun h => ⟨h.absolute, h.slashes, h.here, h.up⟩⟩

/-- Segments as a text, each behind a slash. -/
def behindSlashes (segs : Segments) : List Char := segs.flatMap ('/' :: ·)

/-- The directory text without the segments that do not count. -/
def tidied (root : String) : List Char := behindSlashes ((segments (stem root)).filter counts)

lemma intercalate_nil_cons (segs : Segments) :
    ['/'].intercalate ([] :: segs) = behindSlashes segs := by
  induction segs with
  | nil => rfl
  | cons x xs ih =>
    rw [List.intercalate_cons_cons, behindSlashes, List.flatMap_cons, ← behindSlashes, ← ih]
    cases xs <;> simp [List.intercalate_cons_cons]

lemma slash_intercalate_append {segs' : Segments} (h : segs' ≠ []) :
    '/' :: ['/'].intercalate (segs ++ segs') =
      behindSlashes segs ++ '/' :: ['/'].intercalate segs' := by
  have hcat := intercalate_append (List.cons_ne_nil [] segs) h
  rw [List.cons_append, List.intercalate_cons_of_ne_nil (by simp [h])] at hcat
  rw [← intercalate_nil_cons, ← hcat]
  rfl

lemma slashed_of_notMem (h : '\\' ∉ s) : slashed s = s := by
  rw [slashed, List.map_congr_left (g := id), List.map_id]
  intro c hc
  rw [if_neg (by rintro rfl; exact h hc), id]

lemma isPrefix_dropEndWhile (p : Char → Bool) (s : List Char) : dropEndWhile p s <+: s := by
  rw [dropEndWhile, ← List.reverse_suffix, List.reverse_reverse]
  exact List.dropWhile_suffix p

lemma head?_dropEndWhile (h : s.head? = some '/') (t : List Char) :
    (dropEndWhile (· == '/') s ++ '/' :: t).head? = some '/' := by
  obtain ⟨u, hu⟩ := isPrefix_dropEndWhile (· == '/') s
  rw [← hu] at h
  cases hs : dropEndWhile (· == '/') s with
  | nil => rfl
  | cons c w =>
    rw [hs] at h
    exact h

lemma segments_stem {root : String} (h : root.toList.head? = some '/') :
    segments (stem root) = [] :: (segments (stem root)).tail := by
  have hs : (stem root ++ ['/']).head? = some '/' := head?_dropEndWhile h []
  cases hw : stem root with
  | nil => rfl
  | cons c w =>
    obtain rfl : c = '/' := by simpa [hw] using hs
    rw [show '/' :: w = [] ++ '/' :: w from rfl, segments_join]
    rfl

lemma stem_eq {root : String} (h : root.toList.head? = some '/') :
    stem root = behindSlashes (segments (stem root)).tail := by
  rw [← intercalate_nil_cons, ← segments_stem h, intercalate_segments]

lemma tidied_sublist {root : String} (h : root.toList.head? = some '/') :
    (tidied root).Sublist (stem root) := by
  rw [stem_eq h, tidied, segments_stem h, List.filter_cons_of_neg (by decide), List.tail_cons]
  exact List.Sublist.flatMap List.filter_sublist _

/-- Slashes at the end of the directory hold no text. -/
lemma infix_stem {root : String} {w : List Char} (hw : '/' ∉ w) (hne : w ≠ []) :
    w <:+: stem root ↔ w <:+: root.toList := by
  refine ⟨fun h => h.trans (isPrefix_dropEndWhile _ _).isInfix, fun h => ?_⟩
  unfold stem
  generalize root.toList = s at h
  induction s using List.reverseRecOn with
  | nil => exact h
  | append_singleton s c ih =>
    by_cases hc : c = '/'
    · subst hc
      rw [dropEndWhile_concat_of_pos (by simp)]
      exact ih ((infix_join hw h).resolve_right fun h => hne (List.infix_nil.1 h))
    · rwa [dropEndWhile_concat_of_neg (by simpa using hc)]

/-- Nothing but slashes is lost of a directory. -/
lemma infix_tidied (root : String) {w : List Char} (hw : '/' ∉ w) (hc : ∃ c ∈ w, c ≠ '.') :
    w <:+: tidied root ↔ w <:+: root.toList := by
  have hne : w ≠ [] := by
    rintro rfl
    simp at hc
  rw [← infix_stem hw hne]
  constructor
  · intro h
    rw [tidied, ← intercalate_nil_cons] at h
    obtain ⟨seg, hseg, h⟩ := exists_infix_of_intercalate hw hne h
    rcases List.mem_cons.1 hseg with rfl | hseg
    · exact absurd (List.infix_nil.1 h) hne
    · exact h.trans (infix_of_mem_segments (List.mem_of_mem_filter hseg))
  · intro h
    rw [← intercalate_segments (stem root)] at h
    obtain ⟨seg, hseg, h⟩ := exists_infix_of_intercalate hw hne h
    have hcounts : counts seg := by
      obtain ⟨c, hcw, hc⟩ := hc
      have hmem := h.subset hcw
      simp only [counts, decide_eq_true_eq]
      constructor <;> rintro rfl <;> simp_all
    have hmem : seg ∈ (segments (stem root)).filter counts := List.mem_filter.2 ⟨hseg, hcounts⟩
    rw [tidied, ← intercalate_nil_cons]
    exact h.trans (infix_intercalate (List.mem_cons_of_mem _ hmem))

lemma head?_of_isRelative {raw : String} (h : IsRelative raw) :
    (slashed raw.toList).head? ≠ some '/' := by
  unfold IsRelative at h
  intro hs
  cases hw : slashed raw.toList <;> simp_all [startsAtRoot]

variable {root raw : String}

/-- A pattern without `..` stands behind the directory as it collapses by itself. -/
theorem resolve_relative (hroot : IsPlain root) (hraw : IsRelative raw)
    (hup : ['.', '.'] ∉ segments (slashed raw.toList)) (hne : collapse (slashed raw.toList) ≠ []) :
    (resolve root raw).toList = tidied root ++ '/' :: collapse (slashed raw.toList) := by
  set r := slashed raw.toList with hr
  have hjoin : segments (stem root ++ '/' :: r) = segments (stem root) ++ segments r :=
    segments_join _ _
  have hkept : keptSegments (stem root ++ '/' :: r) =
      (segments (stem root)).filter counts ++ (segments r).filter counts := by
    rw [keptSegments_eq, hjoin, List.filter_append]
    rw [hjoin, List.mem_append]
    exact not_or.2 ⟨hroot.up, hup⟩
  rw [collapse_of_relative (head?_of_isRelative hraw), keptSegments_eq hup] at hne ⊢
  have hfilter : (segments r).filter counts ≠ [] := by
    rintro h
    simp [h] at hne
  rw [resolve, if_neg (by simpa [IsRelative] using hraw), slashed_of_notMem hroot.slashes,
    String.toList_ofList, ← hr]
  have hhead : (stem root ++ '/' :: r).head? = some '/' := head?_dropEndWhile hroot.absolute r
  change collapse (stem root ++ '/' :: r) = _
  rw [collapse_of_absolute hhead, hkept, slash_intercalate_append hfilter]
  rfl

end ChainRunner.Watch
