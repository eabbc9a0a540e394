import Mathlib.Algebra.Order.BigOperators.Group.List
import ChainRunner.Proofs.Watch.Directory
import ChainRunner.Proofs.Watch.Roots
import ChainRunner.Proofs.Watch.Variants

/-!
Putting the values in before or after a pattern stands behind the directory.

A pattern is resolved as it is written and gets its values afterwards, in the text of the
directory too. The two orders give the same text for values that are one name each, below
directories without placeholders. Values of several names still give patterns that are in order;
any other value gives one that is not.
-/

namespace ChainRunner.Watch

open ChainRunner.Path Template Text

variable {s t u w : List Char} {segs kept : Segments} {asg : Assignment} {a : Axis} {x : String}
  {root raw chain pattern : String} {active : Variables} {v : Variant}

/-- A segment that is a name. -/
def Solid (seg : List Char) : Prop := seg ≠ [] ∧ seg ≠ ['.'] ∧ seg ≠ ['.', '.']

/-- A text made of names with slashes between them. -/
def Solids (s : List Char) : Prop := ∀ seg ∈ segments s, Solid seg

/-- A value of one name or more. -/
def AreSteps (x : String) : Prop := '\\' ∉ x.toList ∧ Solids x.toList

/-- A value that is one name. -/
def IsStep (x : String) : Prop := AreSteps x ∧ '/' ∉ x.toList

/-- The values that a pattern can get. -/
def Offers (active : Variables) (P : String → Prop) : Prop :=
  ∀ a ≠ .file, ∀ x ∈ active.values a, P x

/-- What was chosen from the values. -/
def Puts (asg : Assignment) (P : String → Prop) : Prop := ∀ a x, asg.lookup a = some x → P x

/-- Below the directory a rule has the text of the pattern with the values put in beforehand. A
pattern that only then reads as an absolute one, behind a drive, does not count. -/
def Commutes (active : Variables) (root : String) : Prop :=
  ∀ chain raw, ∀ v ∈ Variant.ofPattern active chain (resolve root raw),
    startsAtRoot (slashed (fill v.assignment raw).toList) = startsAtRoot (slashed raw.toList) →
      v.Says (resolve root (fill v.assignment raw)).toList

instance (seg : List Char) : Decidable (Solid seg) := inferInstanceAs (Decidable (_ ∧ _ ∧ _))

instance (s : List Char) : Decidable (Solids s) :=
  inferInstanceAs (Decidable (∀ seg ∈ segments s, Solid seg))

instance (x : String) : Decidable (AreSteps x) := inferInstanceAs (Decidable (_ ∧ _))

instance (x : String) : Decidable (IsStep x) := inferInstanceAs (Decidable (_ ∧ _))

/-! ### Names -/

/-- What holds a name is one. -/
lemma Solid.of_isInfix (h : Solid w) (hin : w <:+: s) : Solid s := by
  obtain ⟨hnil, hhere, hup⟩ := h
  refine ⟨?_, ?_, ?_⟩ <;> rintro rfl <;>
    simp only [List.infix_cons_iff, List.prefix_cons_iff, List.infix_nil,
      List.prefix_nil] at hin <;>
    grind

lemma solid_of_counts {seg : List Char} (h : counts seg) (hup : seg ≠ ['.', '.']) : Solid seg := by
  simp only [counts, decide_eq_true_eq] at h
  exact ⟨h.1, h.2, hup⟩

lemma Solid.counts {seg : List Char} (h : Solid seg) : counts seg := by
  simp [Watch.counts, h.1, h.2.1]

lemma segments_of_notMem (h : '/' ∉ s) : segments s = [s] := by
  refine List.splitOnP_eq_singleton fun c hc => ?_
  simpa using fun hslash : c = '/' => h (hslash ▸ hc)

lemma exists_segments_eq (s : List Char) : ∃ init last, segments s = init ++ [last] := by
  obtain hnil | ⟨init, last, hsegs⟩ := List.eq_nil_or_concat (segments s)
  · exact absurd hnil (List.splitOnP_ne_nil _ _)
  · exact ⟨init, last, hsegs.trans List.concat_eq_append⟩

lemma solids_join : Solids (s ++ '/' :: t) ↔ Solids s ∧ Solids t := by
  rw [Solids, segments_join, List.forall_mem_append]
  rfl

lemma solids_intercalate (hne : segs ≠ []) (h : ∀ seg ∈ segs, Solids seg) :
    Solids (['/'].intercalate segs) := by
  induction segs with
  | nil => contradiction
  | cons x xs ih =>
    cases xs with
    | nil => simpa using h
    | cons y ys =>
      obtain ⟨hx, hxs⟩ := List.forall_mem_cons.1 h
      rw [List.intercalate_cons_cons, List.append_assoc, List.singleton_append]
      exact solids_join.2 ⟨hx, ih (by simp) hxs⟩

/-- Where two texts meet, their last and first segments are one. -/
lemma segments_append {init tail : Segments} {last head : List Char}
    (hs : segments s = init ++ [last]) (ht : segments t = head :: tail) :
    segments (s ++ t) = init ++ (last ++ head) :: tail := by
  have hjoin (init : Segments) : ['/'].intercalate (init ++ [last]) ++
      ['/'].intercalate (head :: tail) = ['/'].intercalate (init ++ (last ++ head) :: tail) := by
    induction init with
    | nil => cases tail <;> simp
    | cons y ys ih =>
      have hne : ys ++ [last] ≠ [] := by simp
      rw [List.cons_append, List.intercalate_cons_of_ne_nil hne, List.append_assoc, ih,
        List.cons_append, List.intercalate_cons_of_ne_nil (by simp)]
  have hslash : ∀ seg ∈ init ++ (last ++ head) :: tail, '/' ∉ seg := by
    have hs' : ∀ seg ∈ init ++ [last], '/' ∉ seg := hs ▸ fun _ => slash_notMem_of_mem_segments
    have ht' : ∀ seg ∈ head :: tail, '/' ∉ seg := ht ▸ fun _ => slash_notMem_of_mem_segments
    simp only [List.mem_append, List.mem_cons] at hs' ht' ⊢
    grind
  rw [← intercalate_segments s, ← intercalate_segments t, hs, ht, hjoin,
    segments_intercalate hslash (by simp)]

/-- Names with other text before or behind are names. -/
lemma Solids.append (hs : Solids s ∨ '/' ∉ s) (ht : Solids t ∨ '/' ∉ t) (h : Solids s ∨ Solids t) :
    Solids (s ++ t) := by
  obtain ⟨init, last, hsegs⟩ := exists_segments_eq s
  obtain ⟨head, tail, htsegs⟩ := List.exists_cons_of_ne_nil (List.splitOnP_ne_nil (· == '/') t)
  have hinit : ∀ seg ∈ init, Solid seg := by
    rcases hs with hs | hs
    · exact fun seg hseg => hs seg (by simp [hsegs, hseg])
    · rw [segments_of_notMem hs] at hsegs
      obtain rfl : init = [] := by
        cases init with
        | nil => rfl
        | cons => simp at hsegs
      simp
  have htail : ∀ seg ∈ tail, Solid seg := by
    rcases ht with ht | ht
    · exact fun seg hseg => ht seg (by rw [segments, htsegs]; simp [hseg])
    · have hone := segments_of_notMem ht
      rw [segments, htsegs] at hone
      obtain rfl := (List.cons.inj hone).2
      simp
  -- only where the two texts meet is there a segment that is new
  have hmeet : Solid (last ++ head) := by
    rcases h with h | h
    · exact (h last (by simp [hsegs])).of_isInfix (List.prefix_append ..).isInfix
    · exact (h head (by rw [segments, htsegs]; simp)).of_isInfix (List.suffix_append ..).isInfix
  intro seg hseg
  rw [segments_append hsegs htsegs, List.mem_append, List.mem_cons] at hseg
  rcases hseg with hseg | rfl | hseg
  · exact hinit seg hseg
  · exact hmeet
  · exact htail seg hseg

/-! ### Patterns in order -/

/-- The text that is collapsed for a pattern. -/
def behind (root raw : String) : List Char :=
  if startsAtRoot (slashed raw.toList) then slashed raw.toList
  else dropEndWhile (· == '/') (slashed root.toList) ++ '/' :: slashed raw.toList

lemma toList_resolve_eq (root raw : String) :
    (resolve root raw).toList = collapse (behind root raw) :=
  String.toList_ofList

lemma behind_of_slashed (h : slashed raw.toList = '/' :: s) (root : String) :
    behind root raw = '/' :: s := by
  rw [behind, h]
  rfl

lemma isResolved_iff : IsResolved (String.ofList ('/' :: s)) ↔
    '\\' ∉ s ∧ (s = [] ∨ Solids s) := by
  have htext : (String.ofList ('/' :: s)).toList = '/' :: s := String.toList_ofList
  constructor
  · -- a resolved pattern is the text of names, and names are solid
    intro h
    obtain ⟨ns, hns, habs, hback⟩ := h.canonical
    have hs : s = ['/'].intercalate (ns.map String.toList) := by
      rw [habs, absolute, String.toList_ofList] at htext
      exact (List.cons.inj htext).2.symm
    rw [htext] at hback
    refine ⟨fun hmem => hback (List.mem_cons_of_mem _ hmem), ?_⟩
    by_cases hnil : ns = []
    · subst hnil
      exact .inl hs
    · refine .inr fun seg hseg => ?_
      rw [hs, segments_intercalate (by simpa using fun n hn => (hns n hn).slash) (by simpa)] at hseg
      obtain ⟨n, hn, rfl⟩ := List.mem_map.1 hseg
      exact ⟨(hns n hn).ne_nil, (hns n hn).here, (hns n hn).up⟩
  · rintro ⟨hback, hs⟩
    have hslashed : slashed ('/' :: s) = '/' :: s :=
      slashed_of_notMem (by simpa using hback)
    have hkept : ['/'].intercalate (keptSegments ('/' :: s)) = s := by
      rcases hs with rfl | hs
      · rfl
      · have hup : ['.', '.'] ∉ segments ('/' :: s) := by
          rw [segments_slash, List.mem_cons]
          exact not_or.2 ⟨by decide, fun hmem => (hs _ hmem).2.2 rfl⟩
        rw [keptSegments_eq hup, segments_slash, List.filter_cons_of_neg (by decide),
          List.filter_eq_self.2 fun seg hseg => (hs seg hseg).counts, intercalate_segments]
    refine ⟨String.startsWith_string_iff.2 ⟨s, htext.symm⟩, ?_⟩
    rw [← String.toList_inj, toList_resolve_eq, behind_of_slashed (by rw [htext, hslashed]),
      collapse_of_absolute rfl, hkept, htext]

lemma ne_nil_of_mem_foldl {absolute : Bool} (h : ∀ seg ∈ kept, seg ≠ []) :
    ∀ seg ∈ segs.foldl (collapseStep absolute) kept, seg ≠ [] := by
  induction segs generalizing kept with
  | nil => exact h
  | cons x xs ih =>
    refine ih ?_
    unfold collapseStep
    grind

/-- What a pattern collapses to starts with a slash only if it does itself. -/
lemma head?_collapse : (collapse s).head? = some '/' ↔ s.head? = some '/' := by
  by_cases h : s.head? = some '/'
  · rw [collapse_of_absolute h, h]
    rfl
  · refine iff_of_false (fun hc => ?_) h
    rw [collapse_of_relative h] at hc
    cases hsegs : keptSegments s with
    | nil => simp [hsegs] at hc
    | cons seg segs =>
      have hmem : seg ∈ keptSegments s := by simp [hsegs]
      have hne : seg ≠ [] :=
        ne_nil_of_mem_foldl (by simp) seg (List.mem_reverse.1 (keptSegments.eq_1 s ▸ hmem))
      obtain ⟨c, seg', rfl⟩ := List.exists_cons_of_ne_nil hne
      have hc : c = '/' := by
        rw [hsegs] at hc
        cases segs <;> simpa using hc
      exact slash_notMem_of_mem_segments (of_mem_keptSegments hmem).1 (by simp [hc])

lemma backslash_notMem_collapse (h : '\\' ∉ s) : '\\' ∉ collapse s := by
  have hkept : '\\' ∉ ['/'].intercalate (keptSegments s) := by
    intro hmem
    obtain ⟨seg, hseg, hin⟩ := exists_infix_of_intercalate (by decide) (by decide)
      ((List.singleton_infix_iff _ _).2 hmem)
    exact h ((infix_of_mem_segments (of_mem_keptSegments hseg).1).subset
      (hin.subset (List.mem_singleton_self _)))
  by_cases habs : s.head? = some '/'
  · rw [collapse_of_absolute habs]
    simpa using hkept
  · rwa [collapse_of_relative habs]

lemma backslash_notMem_behind : '\\' ∉ behind root raw := by
  have hraw : '\\' ∉ slashed raw.toList := backslash_notMem_slashed
  have hroot : '\\' ∉ dropEndWhile (· == '/') (slashed root.toList) := fun hmem =>
    backslash_notMem_slashed ((isPrefix_dropEndWhile _ _).subset hmem)
  unfold behind
  split
  · exact hraw
  · simp [hraw, hroot]

/-- Of an absolute text only names are kept. -/
lemma solid_of_mem_kept (h : s.head? = some '/') : ∀ seg ∈ keptSegments s, Solid seg := by
  intro seg hseg
  obtain ⟨-, hcounts, hup⟩ := of_mem_keptSegments hseg
  exact solid_of_counts hcounts (hup h)

lemma solids_of_solid (h : Solid s) (hslash : '/' ∉ s) : Solids s := by
  rw [Solids, segments_of_notMem hslash]
  simpa using h

/-- A resolved pattern that is absolute is in order. -/
lemma isResolved_resolve (h : (resolve root raw).toList.head? = some '/') :
    IsResolved (resolve root raw) := by
  rw [toList_resolve_eq, head?_collapse] at h
  have htext := toList_resolve_eq root raw
  have hback : '\\' ∉ (resolve root raw).toList := by
    rw [htext]
    exact backslash_notMem_collapse backslash_notMem_behind
  rw [collapse_of_absolute h] at htext
  rw [← String.ofList_toList (s := resolve root raw), htext, isResolved_iff]
  rw [htext] at hback
  refine ⟨fun hmem => hback (List.mem_cons_of_mem _ hmem), ?_⟩
  by_cases hnil : keptSegments (behind root raw) = []
  · exact .inl (by simp [hnil])
  · exact .inr (solids_intercalate hnil fun seg hseg => solids_of_solid
      (solid_of_mem_kept h seg hseg) (slash_notMem_of_mem_segments (of_mem_keptSegments hseg).1))

/-! ### Values -/

lemma mem_values_of_mem_ofPattern (h : v ∈ Variant.ofPattern active chain pattern)
    (hx : v.assignment.lookup a = some x) : a ≠ .file ∧ x ∈ active.values a := by
  rw [Variant.lookup_assignment] at hx
  obtain ⟨f, hf, h⟩ := List.mem_flatMap.1 h
  obtain ⟨p, hp, rfl⟩ := List.mem_map.1 h
  have hchoice {b : Axis} (hmem : some x ∈ Variant.choices active pattern b) :
      x ∈ active.values b := by
    unfold Variant.choices at hmem
    split at hmem
    · simpa using hmem
    · simp at hmem
  cases a with
  | flavor =>
    obtain rfl : f = some x := hx
    exact ⟨by decide, hchoice hf⟩
  | project =>
    obtain rfl : p = some x := hx
    exact ⟨by decide, hchoice hp⟩
  | file => cases hx

lemma Offers.puts {P : String → Prop} (h : Offers active P)
    (hv : v ∈ Variant.ofPattern active chain pattern) : Puts v.assignment P := by
  intro a x hx
  obtain ⟨ha, hmem⟩ := mem_values_of_mem_ofPattern hv hx
  exact h a ha x hmem

lemma Puts.imp {P Q : String → Prop} (h : Puts asg P) (himp : ∀ x, P x → Q x) : Puts asg Q :=
  fun a x hx => himp x (h a x hx)

/-- Names that are put in show. -/
lemma fillChars_eq_iff {d : List Char} (hv : Puts asg (Solid ·.toList)) (hd : ¬ Solid d) :
    fillChars asg s = d ↔ s = d := by
  have hdots : fillChars asg d = d := by
    by_cases hnil : d = []
    · rw [hnil]
      rfl
    · by_cases hhere : d = ['.']
      · rw [hhere]
        rfl
      · obtain rfl : d = ['.', '.'] := by_contra fun hup => hd ⟨hnil, hhere, hup⟩
        rfl
  constructor
  · rintro rfl
    refine (fillChars_eq_self fun a ha hhole => hd ?_).symm
    obtain ⟨x, hx⟩ := Option.ne_none_iff_exists'.1 ha
    exact (hv a x hx).of_isInfix (infix_fillChars hx hhole)
  · rintro rfl
    exact hdots

lemma segments_fillChars (hv : Puts asg ('/' ∉ ·.toList)) (s : List Char) :
    segments (fillChars asg s) = (segments s).map (fillChars asg) := by
  have hslash : ∀ seg ∈ (segments s).map (fillChars asg), '/' ∉ seg := by
    refine List.forall_mem_map.2 fun seg hseg hmem => ?_
    rcases mem_fillChars hmem with hmem | ⟨a, x, hx, hmem⟩
    · exact slash_notMem_of_mem_segments hseg hmem
    · exact hv a x hx hmem
  have hne : (segments s).map (fillChars asg) ≠ [] :=
    List.map_eq_nil_iff.not.2 (List.splitOnP_ne_nil _ _)
  rw [← segments_intercalate hslash hne, ← fillChars_intercalate, intercalate_segments]

/-! ### Filling and collapsing -/

lemma collapseStep_map (hv : Puts asg (Solid ·.toList)) (absolute : Bool) (kept : Segments)
    (seg : List Char) :
    collapseStep absolute (kept.map (fillChars asg)) (fillChars asg seg) =
      (collapseStep absolute kept seg).map (fillChars asg) := by
  have hnil (s : List Char) : fillChars asg s = [] ↔ s = [] := fillChars_eq_iff hv (by decide)
  have hhere (s : List Char) : fillChars asg s = ['.'] ↔ s = ['.'] :=
    fillChars_eq_iff hv (by decide)
  have hup (s : List Char) : fillChars asg s = ['.', '.'] ↔ s = ['.', '.'] :=
    fillChars_eq_iff hv (by decide)
  simp only [collapseStep, hnil, hhere, hup]
  split
  · rfl
  · split
    · cases kept with
      | nil => cases absolute <;> rfl
      | cons x xs =>
        simp only [List.map_cons, hup]
        split
        · cases absolute <;> rfl
        · rfl
    · rfl

lemma foldl_collapseStep_map (hv : Puts asg (Solid ·.toList)) (absolute : Bool)
    (segs kept : Segments) :
    (segs.map (fillChars asg)).foldl (collapseStep absolute) (kept.map (fillChars asg)) =
      (segs.foldl (collapseStep absolute) kept).map (fillChars asg) := by
  induction segs generalizing kept with
  | nil => rfl
  | cons x xs ih => rw [List.map_cons, List.foldl_cons, List.foldl_cons, collapseStep_map hv, ih]

lemma Solids.exists_eq_cons (h : Solids s) : ∃ c t, s = c :: t ∧ c ≠ '/' := by
  cases s with
  | nil => exact absurd h (by decide)
  | cons c t =>
    refine ⟨c, t, rfl, ?_⟩
    rintro rfl
    exact (h [] (by simp [segments_slash])).1 rfl

/-- A name in front is no slash. -/
lemma head?_fillChars (hv : Puts asg (Solids ·.toList)) :
    (fillChars asg s).head? = some '/' ↔ s.head? = some '/' := by
  have hfilled : Filled (fun a => asg.lookup a) s (fillChars asg s) := filled_iff.2 rfl
  generalize fillChars asg s = t at hfilled
  -- only a placeholder at the front could bring a slash there, and its value begins with none
  cases hfilled with
  | nil => rfl
  | keep => rfl
  | @hole a x s t hx =>
    obtain ⟨w, hw, -⟩ := placeholder_eq a
    obtain ⟨c, rest, hcons, hc⟩ := (hv a x hx).exists_eq_cons
    simp [hw, hcons, hc]

lemma IsStep.solid (h : IsStep x) : Solid x.toList :=
  h.1.2 x.toList (by simp [segments_of_notMem h.2])

/-- One name each puts nothing in the way of collapsing. -/
lemma collapse_fillChars (hv : Puts asg IsStep) (s : List Char) :
    collapse (fillChars asg s) = fillChars asg (collapse s) := by
  have hsolid : Puts asg (Solid ·.toList) := hv.imp fun _ hx => hx.solid
  have hslash : Puts asg ('/' ∉ ·.toList) := hv.imp fun _ hx => hx.2
  have hhead : (fillChars asg s).head? = some '/' ↔ s.head? = some '/' :=
    head?_fillChars (hv.imp fun _ hx => hx.1.2)
  have hkept : keptSegments (fillChars asg s) = (keptSegments s).map (fillChars asg) := by
    have hfold := foldl_collapseStep_map hsolid (s.head? = some '/') (segments s) []
    rw [List.map_nil] at hfold
    rw [keptSegments, keptSegments, segments_fillChars hslash, decide_eq_decide.2 hhead, hfold,
      List.map_reverse]
  by_cases habs : s.head? = some '/'
  · rw [collapse_of_absolute (hhead.2 habs), collapse_of_absolute habs, hkept, fillChars_slash,
      fillChars_intercalate]
  · rw [collapse_of_relative (hhead.not.2 habs), collapse_of_relative habs, hkept,
      fillChars_intercalate]

lemma prefix_of_prefix_slashed (hw : '/' ∉ w) (h : w <+: slashed s) : w <+: s := by
  have htake : w = slashed (s.take w.length) := by
    rw [slashed, List.map_take]
    exact List.prefix_iff_eq_take.1 h
  have hin : w <:+: s.take w.length :=
    infix_of_infix_slashed hw (htake ▸ List.infix_refl _)
  rw [hin.eq_of_length_le (List.length_take_le _ _)]
  exact List.take_prefix _ _

/-- Values without backslashes stay as they are when backslashes become slashes. -/
lemma filled_slashed {value? : Axis → Option String}
    (hv : ∀ a x, value? a = some x → '\\' ∉ x.toList) (h : Filled value? s t) :
    Filled value? (slashed s) (slashed t) := by
  have happend (s t : List Char) : slashed (s ++ t) = slashed s ++ slashed t := List.map_append
  induction h with
  | nil => exact .nil
  | @hole a x s t hx _ ih =>
    have hplain : '\\' ∉ a.placeholder.toList := by cases a <;> decide
    rw [happend, happend, slashed_of_notMem hplain, slashed_of_notMem (hv a x hx)]
    exact .hole hx ih
  | @keep c s t hc _ ih =>
    refine .keep (fun a x hx hin => hc a x hx (prefix_of_prefix_slashed ?_ hin)) ih
    obtain ⟨w, hw, -, hslash⟩ := placeholder_eq a
    simp [hw, hslash]

lemma slashed_fillChars (hv : Puts asg ('\\' ∉ ·.toList)) (s : List Char) :
    slashed (fillChars asg s) = fillChars asg (slashed s) :=
  filled_iff.1 (filled_slashed hv (filled_iff.2 rfl))

/-! ### Values of one name each -/

/-- An axis that a directory does not mention is not mentioned by what is kept of it. -/
lemma fillChars_of_mem_kept (hfile : ∀ a, asg.lookup a ≠ none → a ≠ .file)
    (hroot : Rule.axesOf (String.ofList (collapse s)) = []) {seg : List Char}
    (hseg : seg ∈ keptSegments s) : fillChars asg seg = seg := by
  refine fillChars_eq_self fun a ha hhole => ?_
  have hcollapse : seg <:+: collapse s := by
    by_cases habs : s.head? = some '/'
    · rw [collapse_of_absolute habs]
      exact (infix_intercalate hseg).trans (List.suffix_cons ..).isInfix
    · rw [collapse_of_relative habs]
      exact infix_intercalate hseg
  have hmem : a ∈ Rule.axesOf (String.ofList (collapse s)) := by
    rw [mem_axesOf, String.toList_ofList]
    exact ⟨hfile a ha, (hole_mem_pieces.1 hhole).trans hcollapse⟩
  rw [hroot] at hmem
  cases hmem

/-- Placeholders in names that are not kept do not matter. -/
lemma collapse_fillChars_join (hv : Puts asg IsStep)
    (hfile : ∀ a, asg.lookup a ≠ none → a ≠ .file)
    (hroot : Rule.axesOf (String.ofList (collapse (s ++ ['/']))) = []) (t : List Char) :
    collapse (s ++ '/' :: fillChars asg t) = fillChars asg (collapse (s ++ '/' :: t)) := by
  have hsolid : Puts asg (Solid ·.toList) := hv.imp fun _ hx => hx.solid
  have hhead (t u : List Char) : (s ++ '/' :: t).head? = (s ++ '/' :: u).head? := by
    cases s <;> rfl
  rw [← collapse_fillChars hv, fillChars_join]
  refine collapse_congr ?_ ?_
  · rw [← fillChars_join, head?_fillChars (hv.imp fun _ hx => hx.1.2), hhead]
  · have hkept (segs : Segments) (h : ∀ seg ∈ segs, fillChars asg seg = seg) :
        segs.map (fillChars asg) = segs := by
      conv_rhs => rw [← List.map_id segs]
      exact List.map_congr_left h
    set absolute := decide ((s ++ '/' :: fillChars asg t).head? = some '/') with habs
    have hfold := foldl_collapseStep_map hsolid absolute (segments s) []
    rw [List.map_nil, ← segments_fillChars (hv.imp fun _ hx => hx.2), hkept] at hfold
    · rw [segments_join, segments_join, List.foldl_append, List.foldl_append, hfold]
    · intro seg hseg
      refine fillChars_of_mem_kept hfile hroot (List.mem_reverse.2 ?_)
      rw [segments_join, List.foldl_append, hhead [] (fillChars asg t), ← habs]
      exact hseg

lemma resolve_fill (hv : Puts asg IsStep) (hfile : ∀ a, asg.lookup a ≠ none → a ≠ .file)
    (hroot : Rule.axesOf (resolve root "") = [])
    (hkind : startsAtRoot (slashed (fill asg raw).toList) = startsAtRoot (slashed raw.toList)) :
    resolve root (fill asg raw) = fill asg (resolve root raw) := by
  have hslashed : slashed (fill asg raw).toList = fillChars asg (slashed raw.toList) := by
    rw [toList_fill, slashed_fillChars (hv.imp fun _ hx => hx.1.1)]
  rw [← String.toList_inj, toList_fill, toList_resolve_eq, toList_resolve_eq, behind, behind, hkind]
  split
  · rw [hslashed, collapse_fillChars hv]
  · rw [hslashed]
    exact collapse_fillChars_join hv hfile hroot _

lemma commutes (hactive : Offers active IsStep) (hroot : Rule.axesOf (resolve root "") = []) :
    Commutes active root := by
  intro chain raw v hv hkind
  have hfile (a : Axis) (ha : v.assignment.lookup a ≠ none) : a ≠ .file := by
    obtain ⟨x, hx⟩ := Option.ne_none_iff_exists'.1 ha
    exact (mem_values_of_mem_ofPattern hv hx).1
  obtain ⟨-, hpattern⟩ := Variant.eq_of_mem_ofPattern hv
  rw [Variant.says_iff, hpattern, resolve_fill (hactive.puts hv) hfile hroot hkind]

/-! ### Values of one name or more -/

lemma fillChars_solids_or (hv : Puts asg (Solids ·.toList)) (hs : '/' ∉ s) :
    Solids (fillChars asg s) ∨ fillChars asg s = s := by
  -- by induction over the pieces: one value makes all of it solid
  have hpieces (ps : List Piece) (hps : '/' ∉ ps.flatMap Piece.text) :
      Solids (ps.flatMap (Piece.fill asg)) ∨
        ps.flatMap (Piece.fill asg) = ps.flatMap Piece.text := by
    induction ps with
    | nil => exact .inr rfl
    | cons p ps ih =>
      rw [List.flatMap_cons, List.mem_append, not_or] at hps
      obtain ⟨hp, hps⟩ := hps
      have hpiece : Solids (p.fill asg) ∨ p.fill asg = p.text := by
        cases p with
        | literal c => exact .inr rfl
        | hole a =>
          cases hx : asg.lookup a with
          | none => exact .inr (by simp [Piece.fill, Piece.text, hx])
          | some x => exact .inl (by simpa [Piece.fill, hx] using hv a x hx)
      rw [List.flatMap_cons, List.flatMap_cons]
      rcases ih hps with hrest | hrest
      · have hpiece : Solids (p.fill asg) ∨ '/' ∉ p.fill asg := hpiece.imp_right fun h => by rwa [h]
        exact .inl (.append hpiece (.inl hrest) (.inr hrest))
      · rcases hpiece with hpiece | hpiece
        · exact .inl (.append (.inl hpiece) (.inr (by rwa [hrest])) (.inl hpiece))
        · exact .inr (by rw [hpiece, hrest])
  have hall := hpieces (pieces s) (by rwa [flatMap_text_pieces])
  rwa [flatMap_text_pieces] at hall

lemma Solid.fillChars (h : Solid s) (hv : Puts asg (Solids ·.toList)) (hs : '/' ∉ s) :
    Solids (fillChars asg s) := by
  rcases fillChars_solids_or hv hs with hfill | hfill
  · exact hfill
  · rw [hfill]
    exact solids_of_solid h hs

/-- Names that are put into names keep a pattern in order. -/
lemma isResolved_fill (hv : Puts asg AreSteps) (h : IsResolved pattern) :
    IsResolved (fill asg pattern) := by
  obtain ⟨u, hu⟩ := String.startsWith_string_iff.1 h.rooted
  obtain ⟨s, hs⟩ : ∃ s, pattern = String.ofList ('/' :: s) :=
    ⟨u, String.toList_inj.1 (hu.symm.trans String.toList_ofList.symm)⟩
  subst hs
  obtain ⟨hback, hsolids⟩ := isResolved_iff.1 h
  rw [fill, String.toList_ofList]
  change IsResolved (String.ofList (Template.fillChars asg ('/' :: s)))
  rw [fillChars_slash, isResolved_iff]
  refine ⟨fun hmem => ?_, ?_⟩
  · rcases mem_fillChars hmem with hmem | ⟨a, x, hx, hmem⟩
    · exact hback hmem
    · exact (hv a x hx).1 hmem
  · rcases hsolids with rfl | hsolids
    · exact .inl rfl
    · right
      rw [← intercalate_segments s, fillChars_intercalate]
      refine solids_intercalate ?_ (List.forall_mem_map.2 fun seg hseg => ?_)
      · exact List.map_eq_nil_iff.not.2 (List.splitOnP_ne_nil _ _)
      · exact (hsolids seg hseg).fillChars (hv.imp fun _ hx => hx.2)
          (slash_notMem_of_mem_segments hseg)

lemma isResolved_of_says (hactive : Offers active AreSteps)
    (hv : v ∈ Variant.ofPattern active chain (resolve root raw)) (hs : v.Says s)
    (hhead : s.head? = some '/') : IsResolved (String.ofList s) := by
  obtain ⟨-, hpattern⟩ := Variant.eq_of_mem_ofPattern hv
  rw [Variant.says_iff, hpattern] at hs
  have hputs := hactive.puts hv
  have hresolved : IsResolved (resolve root raw) := by
    refine isResolved_resolve ((head?_fillChars (hputs.imp fun _ hx => hx.2)).1 ?_)
    rwa [← toList_fill, ← hs]
  rw [hs, String.ofList_toList]
  exact isResolved_fill hputs hresolved

/-! ### Patterns that tell -/

/-- A pattern for the values of an axis below a directory. -/
def probe (a : Axis) : List Char := '/' :: 'a' :: '/' :: a.placeholder.toList

/-- The same pattern, by way of a directory named after the value. -/
def detour (a : Axis) : List Char := probe a ++ '/' :: '.' :: '.' :: '/' :: a.placeholder.toList

/-- The variant of the pattern for one value. -/
def told (a : Axis) (x : String) : Variant where
  chain := ""
  pattern := String.ofList (probe a)
  flavor := if a = .flavor then some x else none
  project := if a = .project then some x else none

lemma resolve_probe (ha : a ≠ .file) (root : String) :
    resolve root (String.ofList (probe a)) = String.ofList (probe a) := by
  simp only [resolve, String.toList_ofList]
  cases a with
  | file => contradiction
  | _ => rfl

lemma resolve_detour (ha : a ≠ .file) (root : String) :
    resolve root (String.ofList (detour a)) = String.ofList (probe a) := by
  simp only [resolve, String.toList_ofList]
  cases a with
  | file => contradiction
  | _ => rfl

lemma told_mem_ofPattern (ha : a ≠ .file) (hx : x ∈ active.values a) :
    told a x ∈ Variant.ofPattern active "" (String.ofList (probe a)) := by
  simp only [Variant.ofPattern, Variant.choices, String.toList_ofList]
  cases a with
  | flavor =>
    have hno : ¬ Axis.project.placeholder.toList <:+: probe .flavor := by decide
    have hin : Axis.flavor.placeholder.toList <:+: probe .flavor := by decide
    simp [hno, hin, told, hx]
  | project =>
    have hno : ¬ Axis.flavor.placeholder.toList <:+: probe .project := by decide
    have hin : Axis.project.placeholder.toList <:+: probe .project := by decide
    simp [hno, hin, told, hx]
  | file => contradiction

lemma fillChars_probe (ha : a ≠ .file) (x : String) :
    fillChars (told a x).assignment (probe a) = '/' :: 'a' :: '/' :: x.toList := by
  cases a with
  | file => contradiction
  | _ => simp [fillChars, probe, pieces, Axis.placeholder, Piece.fill, Variant.assignment, told]

lemma fillChars_detour (ha : a ≠ .file) (x : String) :
    fillChars (told a x).assignment (detour a) =
      '/' :: 'a' :: '/' :: (x.toList ++ '/' :: '.' :: '.' :: '/' :: x.toList) := by
  cases a with
  | file => contradiction
  | _ =>
    simp [fillChars, detour, probe, pieces, Axis.placeholder, Piece.fill, Variant.assignment, told]

lemma areSteps_of_isResolved (h : IsResolved (String.ofList ('/' :: 'a' :: '/' :: x.toList))) :
    AreSteps x := by
  obtain ⟨hback, hsolids⟩ := isResolved_iff.1 h
  refine ⟨fun hmem => hback (by simp [hmem]), ?_⟩
  have hcat : Solids (['a'] ++ '/' :: x.toList) := hsolids.resolve_left (by simp)
  exact (solids_join.1 hcat).2

/-- By way of a value of more names than one, all but the last of them are left over. -/
lemma keptSegments_detour (hs : Solids s) {init : Segments} {last : List Char}
    (hsegs : segments s = init ++ [last]) :
    keptSegments ('/' :: 'a' :: '/' :: (s ++ '/' :: '.' :: '.' :: '/' :: s)) =
      ['a'] :: (init ++ segments s) := by
  have hcat : '/' :: 'a' :: '/' :: (s ++ '/' :: '.' :: '.' :: '/' :: s) =
      [] ++ '/' :: (['a'] ++ '/' :: (s ++ '/' :: (['.', '.'] ++ '/' :: s))) := rfl
  have hup : ['.', '.'] ∉ segments s := fun hmem => (hs _ hmem).2.2 rfl
  -- going into the value twice, the single `..` between takes back the last name only
  have hfold (kept : Segments) :
      (segments s).foldl (collapseStep true) kept = (segments s).reverse ++ kept := by
    rw [foldl_collapseStep hup, List.filter_eq_self.2 fun seg hseg => (hs seg hseg).counts]
  have hlast : last ≠ ['.', '.'] := (hs last (by simp [hsegs])).2.2
  have hfirst : (segments ['a']).foldl (collapseStep true)
      ((segments []).foldl (collapseStep true) []) = [['a']] := rfl
  have hback : (segments ['.', '.']).foldl (collapseStep true) ((segments s).reverse ++ [['a']]) =
      init.reverse ++ [['a']] := by
    have hone : segments ['.', '.'] = [['.', '.']] := rfl
    rw [hone, hsegs, List.reverse_concat, List.foldl_cons, List.foldl_nil]
    simp [collapseStep, hlast]
  have hhead : decide (('/' :: 'a' :: '/' ::
      (s ++ '/' :: '.' :: '.' :: '/' :: s)).head? = some '/') = true := rfl
  rw [keptSegments, hhead, hcat]
  simp only [segments_join, List.foldl_append]
  rw [hfirst, hfold, hfold, hback]
  simp

lemma isStep_of_detour (ha : a ≠ .file) (h : (told a x).Says
    (resolve root (fill (told a x).assignment (String.ofList (detour a)))).toList) : IsStep x := by
  have hfill : fill (told a x).assignment (String.ofList (detour a)) =
      String.ofList ('/' :: 'a' :: '/' :: (x.toList ++ '/' :: '.' :: '.' :: '/' :: x.toList)) := by
    rw [← String.toList_inj, toList_fill, String.toList_ofList, String.toList_ofList,
      fillChars_detour ha]
  rw [Variant.says_iff, toList_fill, hfill] at h
  change _ = fillChars _ (String.ofList (probe a)).toList at h
  rw [String.toList_ofList, fillChars_probe ha] at h
  have hresolved := congrArg List.head? h
  have hsteps : AreSteps x := by
    have hresolved := isResolved_resolve hresolved
    rw [← String.ofList_toList (s := resolve root _), h] at hresolved
    exact areSteps_of_isResolved hresolved
  refine ⟨hsteps, ?_⟩
  obtain ⟨init, last, hsegs⟩ := exists_segments_eq x.toList
  have hplain : '\\' ∉ '/' :: 'a' :: '/' :: (x.toList ++ '/' :: '.' :: '.' :: '/' :: x.toList) := by
    simp [hsteps.1]
  rw [toList_resolve_eq, behind_of_slashed (by rw [String.toList_ofList, slashed_of_notMem hplain]),
    collapse_of_absolute rfl, keptSegments_detour hsteps.2 hsegs] at h
  -- both texts are the segments with slashes between them
  have hslash : ∀ seg ∈ segments x.toList, '/' ∉ seg := fun _ => slash_notMem_of_mem_segments
  have hsame : ['a'] :: (init ++ segments x.toList) = ['a'] :: segments x.toList := by
    have htext : ['/'].intercalate (['a'] :: (init ++ segments x.toList)) =
        'a' :: '/' :: x.toList := (List.cons.inj h).2
    have hleft : ∀ seg ∈ ['a'] :: (init ++ segments x.toList), '/' ∉ seg := by
      rw [hsegs] at hslash
      rw [hsegs]
      simp only [List.mem_cons, List.mem_append, List.not_mem_nil, or_false] at hslash ⊢
      grind
    rw [← segments_intercalate hleft (by simp), htext]
    exact segments_join ['a'] x.toList
  obtain rfl : init = [] := List.append_left_eq_self.1 (List.cons.inj hsame).2
  rw [← intercalate_segments x.toList, hsegs]
  simpa using hslash last (by simp [hsegs])

lemma isStep_of_commutes (h : Commutes active "/") : Offers active IsStep := by
  intro a ha x hx
  have hv : told a x ∈ Variant.ofPattern active "" (resolve "/" (String.ofList (detour a))) := by
    rw [resolve_detour ha]
    exact told_mem_ofPattern ha hx
  refine isStep_of_detour ha (h "" _ _ hv ?_)
  rw [toList_fill, String.toList_ofList, fillChars_detour ha]
  cases a with
  | file => contradiction
  | _ => rfl

lemma areSteps_of_says (h : ∀ a ≠ .file,
    ∀ v ∈ Variant.ofPattern active "" (resolve "/" (String.ofList (probe a))),
      ∀ s, v.Says s → s.head? = some '/' → IsResolved (String.ofList s)) :
    Offers active AreSteps := by
  intro a ha x hx
  have hv : told a x ∈ Variant.ofPattern active "" (resolve "/" (String.ofList (probe a))) := by
    rw [resolve_probe ha]
    exact told_mem_ofPattern ha hx
  refine areSteps_of_isResolved (h a ha _ hv _ ?_ rfl)
  rw [Variant.says_iff, toList_fill]
  change _ = fillChars _ (String.ofList (probe a)).toList
  rw [String.toList_ofList, fillChars_probe ha]

/-- Short values make a text with placeholders shorter. -/
lemma length_fillChars_lt (hshort : Puts asg (·.toList.length ≤ 1)) (ha : asg.lookup a ≠ none)
    (hhole : .hole a ∈ pieces s) : (fillChars asg s).length < s.length := by
  have hpiece (p : Piece) : (p.fill asg).length ≤ p.text.length := by
    cases p with
    | literal c => exact Nat.le_refl _
    | hole b =>
      cases hx : asg.lookup b with
      | none => simp [Piece.fill, Piece.text, hx]
      | some x =>
        have hone : 1 ≤ b.placeholder.toList.length := by cases b <;> decide
        simpa [Piece.fill, Piece.text, hx] using (hshort b x hx).trans hone
  obtain ⟨x, hx⟩ := Option.ne_none_iff_exists'.1 ha
  have hlt : ((Piece.hole a).fill asg).length < (Piece.hole a).text.length := by
    have htwo : 1 < a.placeholder.toList.length := by cases a <;> decide
    simpa [Piece.fill, Piece.text, hx] using (hshort a x hx).trans_lt htwo
  have hsum := List.sum_lt_sum (fun p : Piece => (p.fill asg).length) (fun p => p.text.length)
    (fun p _ => hpiece p) ⟨_, hhole, hlt⟩
  conv_rhs => rw [← flatMap_text_pieces s]
  rw [fillChars, List.length_flatMap, List.length_flatMap]
  exact hsum

/-- One value on every axis. -/
def oneEach : Variables := { flavor := ["x"], project := ["x"] }

lemma offers_oneEach {P : String → Prop} (h : P "x") : Offers oneEach P := by
  intro a ha x hx
  cases a with
  | file => contradiction
  | _ => rwa [List.mem_singleton.1 hx]

lemma exists_mem_oneEach (chain : String) (ha : a ∈ Rule.axesOf pattern) :
    ∃ v ∈ Variant.ofPattern oneEach chain pattern, v.value? a = some "x" := by
  have hchoice (b : Axis) (hb : b ≠ .file) : ∃ y ∈ Variant.choices oneEach pattern b,
      b.placeholder.toList <:+: pattern.toList → y = some "x" := by
    have hvalues : oneEach.values b = ["x"] := by
      cases b with
      | file => contradiction
      | _ => rfl
    unfold Variant.choices
    split
    · exact ⟨some "x", by simp [hvalues], fun _ => rfl⟩
    · exact ⟨none, by simp, fun hin => absurd hin ‹_›⟩
  obtain ⟨f, hf, hflavor⟩ := hchoice .flavor (by decide)
  obtain ⟨p, hp, hproject⟩ := hchoice .project (by decide)
  obtain ⟨hfile, hin⟩ := mem_axesOf.1 ha
  refine ⟨⟨chain, pattern, f, p⟩, List.mem_flatMap.2 ⟨f, hf, List.mem_map.2 ⟨p, hp, rfl⟩⟩, ?_⟩
  cases a with
  | flavor => exact hflavor hin
  | project => exact hproject hin
  | file => contradiction

/-- A placeholder in the text of the directory gets a value as well. -/
lemma axesOf_of_commutes (h : Commutes oneEach root) : Rule.axesOf (resolve root "") = [] := by
  refine List.eq_nil_iff_forall_not_mem.2 fun a ha => ?_
  obtain ⟨v, hv, hx⟩ := exists_mem_oneEach "" ha
  obtain ⟨-, hpattern⟩ := Variant.eq_of_mem_ofPattern hv
  have hempty : fill v.assignment "" = "" := rfl
  have hsays := h "" "" v hv (by rw [hempty])
  rw [hempty, Variant.says_iff, hpattern, toList_fill] at hsays
  have hshort : Puts v.assignment (·.toList.length ≤ 1) :=
    (offers_oneEach (P := (·.toList.length ≤ 1)) (by decide)).puts hv
  have hassigned : v.assignment.lookup a ≠ none := by
    rw [Variant.lookup_assignment, hx]
    simp
  have hlt := length_fillChars_lt hshort hassigned (hole_mem_pieces.2 (mem_axesOf.1 ha).2)
  -- the text is at once that of the directory and shorter than it
  rw [← hsays] at hlt
  exact lt_irrefl _ hlt

/-- **Putting values in and resolving commute for values of one name each.** Each rule of a
pattern has the resolved pattern with its values in it. The values put in beforehand give the same
text, below all directories without placeholders, exactly if each value is one name; what rules
have in place of a pattern is in order exactly if each value is names with slashes between them;
and a directory leaves one name each in peace exactly if it has no placeholder. -/
theorem commutes_iff (active : Variables) (root : String) :
    (∀ chain raw rules, Rule.ofPattern active root chain raw = .ok rules ↔
      List.Forall₂ (fun v r => r.Realizes active v)
        (Variant.ofPattern active chain (resolve root raw)) rules) ∧
    ((∀ root, Rule.axesOf (resolve root "") = [] → Commutes active root) ↔
      Offers active IsStep) ∧
    ((∀ root chain raw, ∀ v ∈ Variant.ofPattern active chain (resolve root raw),
        ∀ s, v.Says s → s.head? = some '/' → IsResolved (String.ofList s)) ↔
      Offers active AreSteps) ∧
    ((∀ active, Offers active IsStep → Commutes active root) ↔
      Rule.axesOf (resolve root "") = []) := by
  refine ⟨fun chain raw rules => ?_, ⟨fun h => ?_, fun hactive root hroot => ?_⟩,
    ⟨fun h => ?_, fun hactive root chain raw v hv s hs hhead => ?_⟩,
    ⟨fun h => ?_, fun hroot active hactive => ?_⟩⟩
  · simp only [Variant.ofPattern_eq, mapM_eq_ok, Variant.compile_eq_ok]
  · exact isStep_of_commutes (h "/" (by decide +kernel))
  · exact commutes hactive hroot
  · exact areSteps_of_says fun a ha v => h "/" "" (String.ofList (probe a)) v
  · exact isResolved_of_says hactive hv hs hhead
  · exact axesOf_of_commutes (h _ (offers_oneEach (by decide)))
  · exact commutes hactive hroot

/-- With a backslash in it a value is no name: the rule has the text of the value, where the value
put in beforehand gives a directory and another one in it. A placeholder in the directory is
filled as well. -/
theorem commutes_iff_web :
    Commutes { project := ["red"] } "/p" ∧
    (¬ ∀ root, Rule.axesOf (resolve root "") = [] → Commutes { project := ["apps\\web"] } root) ∧
    (∃ r, Rule.ofPattern { project := ["apps\\web"] } "/p" "build" "$PROJ/*.ts" = .ok [r] ∧
      r.pattern = "/p/apps\\web/*.ts") ∧
    resolve "/p" (fill [(.project, "apps\\web")] "$PROJ/*.ts") = "/p/apps/web/*.ts" ∧
    ¬ ∀ active, Offers active IsStep → Commutes active "/$PROJ" := by
  obtain ⟨hrules, hnames, -, hroot⟩ := commutes_iff { project := ["apps\\web"] } "/p"
  obtain ⟨-, -, -, hplaceholder⟩ := commutes_iff {} "/$PROJ"
  have hred : Offers { project := ["red"] } IsStep := by
    intro a ha x hx
    cases a with
    | flavor => cases hx
    | project =>
      rw [List.mem_singleton.1 hx]
      decide
    | file => contradiction
  refine ⟨hroot.2 (by decide +kernel) _ hred, fun h => ?_, ?_, by decide +kernel,
    fun h => absurd (hplaceholder.1 h) (by decide +kernel)⟩
  · -- a value with a backslash is no single step
    have hstep := hnames.1 h .project (by decide) "apps\\web" (List.mem_singleton_self _)
    exact absurd hstep (by decide)
  · -- in the rule the value stands as it is, backslash and all
    have hcompiles :
        (Rule.ofPattern { project := ["apps\\web"] } "/p" "build" "$PROJ/*.ts").isOk := by
      decide +kernel
    have hvariants : Variant.ofPattern { project := ["apps\\web"] } "build"
        (resolve "/p" "$PROJ/*.ts") = [⟨"build", "/p/$PROJ/*.ts", none, some "apps\\web"⟩] := by
      decide +kernel
    cases hok : Rule.ofPattern { project := ["apps\\web"] } "/p" "build" "$PROJ/*.ts" with
    | error e =>
      rw [hok] at hcompiles
      contradiction
    | ok rules =>
      have hrealizes := (hrules _ _ _).1 hok
      rw [hvariants] at hrealizes
      cases hrealizes with
      | cons hr hnil =>
        cases hnil
        refine ⟨_, rfl, String.toList_inj.1 ((Variant.says_iff.1 hr.pattern).trans ?_)⟩
        decide +kernel

end ChainRunner.Watch
