import Mathlib.Data.List.TakeWhile
import ChainRunner.Proofs.Watch.Pattern

/-!
Directories written in different ways.

Texts with the same components are the same directory to every pattern, although a pattern is put
behind the text. Doubled slashes, lone dots and slashes at the end make no difference to the
components.
-/

namespace ChainRunner.Watch

open ChainRunner.Path Text

variable {s t : List Char} {segs kept : Segments} {root root' raw : String}

/-! ### Directories with the same components -/

/-- What a component adds to a path. -/
def text? : Component → Option (List Char)
  | .root | .current => none
  | .parent => some ['.', '.']
  | .name n => some n.toList

/-- Whether a path reads as an absolute one once its backslashes are slashes. -/
def readsAbsolute : List Component → Bool
  | [] | .root :: _ => true
  | .name n :: _ => n.toList.head? = some '\\'
  | _ => false

lemma ofSegment?_text? (seg : List Char) :
    (Component.ofSegment? seg).bind text? = if counts seg then some seg else none := by
  unfold Component.ofSegment?
  split
  · rename_i hskip
    have hno : counts seg = false := by simpa [counts, or_iff_not_imp_left] using hskip
    simp [hno]
  · rename_i hskip
    have hyes : counts seg = true := by simpa [counts] using hskip
    rw [if_pos hyes]
    split
    · rename_i hup
      rw [hup]
      rfl
    · exact congrArg some String.toList_ofList

lemma filter_counts (segs : Segments) :
    segs.filter counts = (segs.filterMap Component.ofSegment?).filterMap text? := by
  rw [List.filterMap_filterMap, ← List.filterMap_eq_filter]
  refine List.filterMap_congr fun seg _ => ?_
  rw [ofSegment?_text?, Option.guard]

/-- What a path begins with, apart from its segments. -/
def lead (p : String) : List Component :=
  if p.toList.head? = some '/' then [.root]
  else if (segments p.toList).head? = some ['.'] then [.current] else []

lemma filterMap_counts (segs : Segments) :
    (segs.filter counts).filterMap Component.ofSegment? = segs.filterMap Component.ofSegment? := by
  rw [List.filterMap_filter]
  refine List.filterMap_congr fun seg _ => ?_
  split
  · rfl
  · rename_i hskip
    have hnone : seg = [] ∨ seg = ['.'] := by simpa [counts, or_iff_not_imp_left] using hskip
    exact (if_pos hnone).symm

lemma segments_slash (s : List Char) : segments ('/' :: s) = [] :: segments s :=
  segments_join [] s

lemma components_eq (p : String) : components p =
    lead p ++ ((segments p.toList).filter counts).filterMap Component.ofSegment? := by
  rw [filterMap_counts]
  unfold components lead
  split
  · rename_i rest hp
    rw [hp, segments_slash]
    rfl
  · rename_i hp
    have hhead : p.toList.head? ≠ some '/' := by
      intro hslash
      obtain ⟨rest, hrest⟩ := List.head?_eq_some_iff.1 hslash
      exact hp rest hrest
    rw [if_neg hhead]
    split
    · rename_i rest hsegs
      rw [hsegs]
      rfl
    · rename_i hsegs
      have hfirst : (segments p.toList).head? ≠ some ['.'] := by
        intro hdot
        obtain ⟨rest, hrest⟩ := List.head?_eq_some_iff.1 hdot
        exact hsegs rest hrest
      rw [if_neg hfirst]
      rfl

/-- The segments that count can be read off the components. -/
lemma counts_segments (p : String) :
    (segments p.toList).filter counts = (components p).filterMap text? := by
  have hlead : (lead p).filterMap text? = [] := by
    unfold lead
    split
    · rfl
    · split <;> rfl
  rw [components_eq, List.filterMap_append, hlead, List.nil_append, ← filter_counts,
    List.filter_filter]
  simp only [Bool.and_self]

lemma readsAbsolute_components (p : String) :
    (slashed p.toList = [] ∨ (slashed p.toList).head? = some '/') ↔
      readsAbsolute (components p) := by
  unfold components
  split
  · rename_i rest hp
    simp [hp, slashed, readsAbsolute]
  · rename_i hp
    cases hs : p.toList with
    | nil => simp [slashed, segments, readsAbsolute, Component.ofSegment?]
    | cons c rest =>
      have hc : c ≠ '/' := fun hc => hp rest (hc ▸ hs)
      obtain ⟨w, ws, hw⟩ : ∃ w ws, segments (c :: rest) = (c :: w) :: ws := by
        obtain ⟨w, ws, hw⟩ := List.exists_cons_of_ne_nil (List.splitOnP_ne_nil (· == '/') rest)
        refine ⟨w, ws, ?_⟩
        rw [segments, List.splitOnP_cons_eq_if_modifyHead, if_neg (by simpa using hc), hw]
        rfl
      -- the text begins with no slash, so it is a backslash that may become one
      have hhead : (slashed (c :: rest)).head? = some '/' ↔ c = '\\' := by
        simp only [slashed, List.map_cons, List.head?_cons, Option.some.injEq]
        split <;> simp_all
      have hne : slashed (c :: rest) ≠ [] := by simp [slashed]
      rw [hw, or_iff_right hne, hhead]
      by_cases hdot : c :: w = ['.']
      · obtain ⟨rfl, rfl⟩ := List.cons.inj hdot
        simp [readsAbsolute]
      · have hseg : c :: w = ['.', '.'] ∨
            Component.ofSegment? (c :: w) = some (.name (String.ofList (c :: w))) := by
          unfold Component.ofSegment?
          rw [if_neg (by simpa using hdot)]
          split <;> simp_all
        rcases hseg with hup | hname
        · obtain ⟨rfl, rfl⟩ := List.cons.inj hup
          simp [readsAbsolute, Component.ofSegment?]
        · simp [hdot, hname, readsAbsolute]

/-- Backslashes part a segment into more. -/
lemma segments_slashed (s : List Char) :
    segments (slashed s) = (segments s).flatMap fun seg => segments (slashed seg) := by
  have hsplit (segs : Segments) (hne : segs ≠ []) :
      segments (slashed (['/'].intercalate segs)) =
        segs.flatMap fun seg => segments (slashed seg) := by
    induction segs with
    | nil => contradiction
    | cons x xs ih =>
      cases xs with
      | nil => simp
      | cons y ys =>
        have hjoin (u v : List Char) : slashed (u ++ '/' :: v) = slashed u ++ '/' :: slashed v := by
          simp [slashed]
        rw [List.intercalate_cons_cons, List.append_assoc, List.singleton_append, hjoin,
          segments_join, ih (by simp)]
        rfl
  rw [← hsplit (segments s) (List.splitOnP_ne_nil _ _), intercalate_segments]

/-- Segments that do not count add nothing. -/
lemma foldl_flatMap_slashed (absolute : Bool) (segs kept : Segments) :
    (segs.flatMap fun seg => segments (slashed seg)).foldl (collapseStep absolute) kept =
      ((segs.filter counts).flatMap fun seg => segments (slashed seg)).foldl
        (collapseStep absolute) kept := by
  induction segs generalizing kept with
  | nil => rfl
  | cons seg segs ih =>
    by_cases hseg : counts seg
    · rw [List.filter_cons_of_pos hseg, List.flatMap_cons, List.flatMap_cons, List.foldl_append,
        List.foldl_append, ih]
    · have hskip : seg = [] ∨ seg = ['.'] := by
        simpa [counts, or_iff_not_imp_left] using hseg
      have hnone : (segments (slashed seg)).foldl (collapseStep absolute) kept = kept := by
        rcases hskip with rfl | rfl <;> rfl
      rw [List.filter_cons_of_neg hseg, List.flatMap_cons, List.foldl_append, hnone, ih]

/-- A text in front of a slash begins with one if it begins with one itself or holds no other
character. -/
lemma head?_join (s t : List Char) :
    (dropEndWhile (· == '/') s ++ '/' :: t).head? = some '/' ↔
      s = [] ∨ s.head? = some '/' := by
  constructor
  · intro h
    cases s with
    | nil => exact .inl rfl
    | cons c s =>
      refine .inr ?_
      obtain ⟨u, hu⟩ := isPrefix_dropEndWhile (· == '/') (c :: s)
      cases hw : dropEndWhile (· == '/') (c :: s) with
      | nil =>
        rw [dropEndWhile, List.reverse_eq_nil_iff, List.dropWhile_eq_nil_iff] at hw
        have hc := hw c (by simp)
        simpa using hc
      | cons d w =>
        rw [hw] at h hu
        obtain rfl : d = '/' := by simpa using h
        rw [← hu]
        rfl
  · rintro (rfl | h)
    · rfl
    · exact head?_dropEndWhile h t

lemma collapse_congr (hhead : s.head? = some '/' ↔ t.head? = some '/')
    (hfold : (segments s).foldl (collapseStep (s.head? = some '/')) [] =
      (segments t).foldl (collapseStep (s.head? = some '/')) []) : collapse s = collapse t := by
  have hkept : keptSegments s = keptSegments t := by
    rw [keptSegments, keptSegments, hfold, decide_eq_decide.2 hhead]
  by_cases h : s.head? = some '/'
  · rw [collapse_of_absolute h, collapse_of_absolute (hhead.1 h), hkept]
  · rw [collapse_of_relative h, collapse_of_relative (hhead.not.1 h), hkept]

/-- **Directories with the same components are the same to every pattern.** -/
theorem resolve_congr (h : components root = components root') (raw : String) :
    resolve root raw = resolve root' raw := by
  have hhead : (slashed root.toList = [] ∨ (slashed root.toList).head? = some '/') ↔
      (slashed root'.toList = [] ∨ (slashed root'.toList).head? = some '/') := by
    rw [readsAbsolute_components, readsAbsolute_components, h]
  have hfold (absolute : Bool) (r : String) :
      (segments (dropEndWhile (· == '/') (slashed r.toList))).foldl (collapseStep absolute) [] =
        (((components r).filterMap text?).flatMap fun seg => segments (slashed seg)).foldl
          (collapseStep absolute) [] := by
    rw [foldl_segments_dropEndWhile, segments_slashed, foldl_flatMap_slashed, counts_segments]
  -- a pattern that is absolute itself never sees the directory
  have hjoined : collapse (dropEndWhile (· == '/') (slashed root.toList) ++
      '/' :: slashed raw.toList) = collapse (dropEndWhile (· == '/') (slashed root'.toList) ++
      '/' :: slashed raw.toList) := by
    refine collapse_congr ?_ ?_
    · rw [head?_join, head?_join, hhead]
    · rw [segments_join, segments_join, List.foldl_append, List.foldl_append, hfold, hfold, h]
  rw [resolve, resolve]
  split
  · rfl
  · rw [hjoined]

/-! ### Ways to write a directory -/

/-- The text with a slash doubled, a `.` put in, or one of them put behind. -/
inductive Respelled : String → String → Prop
  | slash (s t : List Char) :
    Respelled (String.ofList (s ++ '/' :: t)) (String.ofList (s ++ '/' :: '/' :: t))
  | dot (s t : List Char) :
    Respelled (String.ofList (s ++ '/' :: t)) (String.ofList (s ++ '/' :: '.' :: '/' :: t))
  | slashBehind {s : List Char} (hs : s ≠ []) :
    Respelled (String.ofList s) (String.ofList (s ++ ['/']))
  | dotBehind {s : List Char} (hs : s ≠ []) :
    Respelled (String.ofList s) (String.ofList (s ++ ['/', '.']))

lemma components_congr {p q : String} (hhead : p.toList.head? = q.toList.head?)
    (hfirst : (segments p.toList).head? = (segments q.toList).head?)
    (hcounts : (segments p.toList).filter counts = (segments q.toList).filter counts) :
    components p = components q := by
  rw [components_eq, components_eq, lead, lead, hhead, hfirst, hcounts]

lemma components_of_respelled {p q : String} (h : Respelled p q) : components p = components q := by
  have hfirst (s : List Char) (segs : Segments) :
      (segments s ++ segs).head? = (segments s).head? :=
    List.head?_append_of_ne_nil _ (List.splitOnP_ne_nil _ _)
  have hhead {s : List Char} (hs : s ≠ []) (t : List Char) : (s ++ t).head? = s.head? :=
    List.head?_append_of_ne_nil _ hs
  -- however it is written, the text begins alike and has the same segments that count
  cases h with
  | slash s t =>
    refine components_congr ?_ ?_ ?_ <;> simp only [String.toList_ofList]
    · cases s <;> rfl
    · rw [segments_join, segments_join, hfirst, hfirst]
    · rw [segments_join, segments_join, segments_slash, List.filter_append, List.filter_append,
        List.filter_cons_of_neg (by decide)]
  | dot s t =>
    have hdot : segments ('.' :: '/' :: t) = ['.'] :: segments t := segments_join ['.'] t
    refine components_congr ?_ ?_ ?_ <;> simp only [String.toList_ofList]
    · cases s <;> rfl
    · rw [segments_join, segments_join, hfirst, hfirst]
    · rw [segments_join, segments_join, hdot, List.filter_append, List.filter_append,
        List.filter_cons_of_neg (by decide)]
  | @slashBehind s hs =>
    refine components_congr ?_ ?_ ?_ <;> simp only [String.toList_ofList]
    · rw [hhead hs]
    · rw [segments_join, hfirst]
    · rw [segments_join, List.filter_append]
      exact (List.append_nil _).symm
  | @dotBehind s hs =>
    refine components_congr ?_ ?_ ?_ <;> simp only [String.toList_ofList]
    · rw [hhead hs]
    · rw [segments_join, hfirst]
    · rw [segments_join, List.filter_append]
      exact (List.append_nil _).symm

end ChainRunner.Watch
