import ChainRunner.Proofs.Glob.Segments
import ChainRunner.Proofs.Manifest.Circle
import ChainRunner.Proofs.Manifest.Names

/-!
Whether a checked pattern can be compiled once it stands below the watched directory.

The check reads a pattern as it is written, the rules read it behind the directory, with its dot
segments collapsed and real values in the place of `x`. The two agree on the patterns that are
`Regular`, for values that are globs, exactly below directories each of whose names is a glob.
-/

namespace ChainRunner.Watch

open Glob Glob.Place ChainRunner.Path Template

variable {s : List Char} {d : Nat} {asg : Assignment} {segs kept : Segments} {raw root : String}

/-! ### Values in the place of placeholders -/

/-- The values that are filled in are globs. -/
def FillsGlobs (asg : Assignment) : Prop := ∀ a v, asg.lookup a = some v → IsGlob v.toList

lemma isGlob_placeholder (a : Axis) : IsGlob a.placeholder.toList := by
  cases a <;> exact isGlob_iff.2 rfl

/-- Outside of classes a value is as good as its placeholder. -/
lemma walk_fillChars (hv : FillsGlobs asg) (hclass : '[' ∉ s) (hesc : '\\' ∉ s) :
    walk (.text d) (fillChars asg s) = walk (.text d) s := by
  rw [fillChars]
  conv_rhs => rw [← flatMap_text_pieces s]
  rw [← flatMap_text_pieces s] at hclass hesc
  generalize pieces s = ps at hclass hesc
  -- piece by piece: a value that is a glob ends at the depth at which it began
  induction ps generalizing d with
  | nil => rfl
  | cons p ps ih =>
    simp only [List.flatMap_cons, List.mem_append, not_or] at hclass hesc
    have ih {d : Nat} := ih (d := d) hclass.2 hesc.2
    cases p with
    | hole a =>
      have hfill : IsGlob ((Piece.hole a).fill asg) := by
        rw [Piece.fill]
        cases h : asg.lookup a with
        | some v => exact hv a v h
        | none => exact isGlob_placeholder a
      have htext : IsGlob (Piece.hole a).text := isGlob_placeholder a
      rw [List.flatMap_cons, List.flatMap_cons, walk_append, walk_append, walk_of_isGlob hfill,
        walk_of_isGlob htext]
      exact ih
    | literal c =>
      have hc : c ≠ '[' ∧ c ≠ '\\' := by simpa [Piece.text, eq_comm] using And.intro hclass.1 hesc.1
      simp only [List.flatMap_cons, Piece.fill, Piece.text, List.cons_append, List.nil_append,
        walk_cons, Place.next, hc.1, hc.2, if_false]
      split
      · exact ih
      · split
        · split
          · rfl
          · exact ih
        · exact ih

/-- A class and a placeholder do not stand in one text. -/
def Unmixed (asg : Assignment) (s : List Char) : Prop :=
  '[' ∉ s ∨ ∀ a, asg.lookup a ≠ none → .hole a ∉ pieces s

lemma walk_of_unmixed (hv : FillsGlobs asg) (hesc : '\\' ∉ s) (hs : Unmixed asg s) (d : Nat) :
    walk (.text d) (fillChars asg s) = walk (.text d) s := by
  rcases hs with hs | hs
  · exact walk_fillChars hv hs hesc
  · rw [fillChars_eq_self hs]

lemma isGlob_fillChars (hv : FillsGlobs asg) (hesc : '\\' ∉ s) (hs : Unmixed asg s) :
    IsGlob (fillChars asg s) ↔ IsGlob s := by
  rw [isGlob_iff, isGlob_iff, walk_of_unmixed hv hesc hs]

/-! ### Patterns on which the check and the rules agree -/

/-- No backslash; a `..` only among segments that are globs themselves; and no placeholder beside
a class. -/
structure Regular (raw : String) : Prop where
  slashes : '\\' ∉ raw.toList
  up : ['.', '.'] ∉ segments raw.toList ∨ ∀ seg ∈ segments raw.toList, IsGlob seg
  classes : '[' ∉ raw.toList ∨ axesIn raw = []

lemma Regular.unmixed (h : Regular raw) (hs : ∀ w, w ≠ [] → '/' ∉ w → w <:+: s → w <:+: raw.toList)
    (asg : Assignment) : Unmixed asg s := by
  refine h.classes.imp (fun hc hmem => ?_) fun hax a _ hmem => ?_
  · obtain ⟨u, v, hu⟩ := List.append_of_mem hmem
    exact hc ((hs ['['] (by simp) (by decide) ⟨u, v, by simp [hu]⟩).subset (by simp))
  · obtain ⟨w, hw, -, hslash⟩ := placeholder_eq a
    exact axesIn_eq_nil.1 hax a
      (hs _ (by simp [hw]) (by simp [hw, hslash]) (hole_mem_pieces.1 hmem))

/-- The values with which a pattern is checked. -/
def samples : Assignment := Axis.all.map fun a => (a, "x")

lemma fillsGlobs_samples : FillsGlobs samples := by
  intro a v h
  obtain rfl : "x" = v := by cases a <;> exact Option.some.inj h
  exact isGlob_iff.2 rfl

lemma checkPattern_eq_ok :
    Draft.checkPattern raw = .ok () ↔ IsGlob (fillChars samples raw.toList) := by
  rw [IsGlob, ← toList_fill, String.ofList_toList, Draft.checkPattern, samples]
  cases Glob.compile (fill (Axis.all.map fun a => (a, "x")) raw) <;> simp

lemma Regular.isGlob (h : Regular raw) (hc : Draft.checkPattern raw = .ok ()) :
    IsGlob raw.toList :=
  (isGlob_fillChars fillsGlobs_samples h.slashes (h.unmixed (fun _ _ _ => id) _)).1
    (checkPattern_eq_ok.1 hc)

/-! ### Below the directory -/

lemma isGlob_filled (h : ∀ seg ∈ segs, IsGlob (fillChars asg seg)) :
    IsGlob (fillChars asg (['/'].intercalate segs)) := by
  rw [fillChars_intercalate]
  exact isGlob_intercalate (List.forall_mem_map.2 h)

lemma isGlob_filled_counts (hv : FillsGlobs asg) (h : Regular raw) (hg : IsGlob raw.toList) :
    IsGlob (fillChars asg (['/'].intercalate ((segments raw.toList).filter counts))) := by
  have hsub {w : List Char} (hne : w ≠ []) (hw : '/' ∉ w) :=
    infix_of_infix_counts hw hne (s := raw.toList)
  refine (isGlob_fillChars hv (fun hb => ?_) (h.unmixed (fun w hne hw => hsub hne hw) asg)).2
    (isGlob_counts h.slashes hg)
  obtain ⟨u, v, hu⟩ := List.append_of_mem hb
  exact h.slashes ((hsub (w := ['\\']) (by simp) (by decide) ⟨u, v, by simp [hu]⟩).subset (by simp))

/-- What is kept of a regular pattern behind segments that are globs is a glob. -/
lemma isGlob_below (absolute : Bool) (hv : FillsGlobs asg)
    (hkept : ∀ seg ∈ kept, IsGlob (fillChars asg seg)) (h : Regular raw) (hg : IsGlob raw.toList) :
    IsGlob (fillChars asg (['/'].intercalate
      ((segments raw.toList).foldl (collapseStep absolute) kept).reverse)) := by
  have hin {w : List Char} {seg : List Char} (hseg : seg ∈ segments raw.toList) (hw : w <:+: seg) :
      w <:+: raw.toList := hw.trans (infix_of_mem_segments hseg)
  rcases h.up with hup | hup
  · have hcounts := isGlob_filled_counts hv h hg
    have hk : IsGlob (fillChars asg (['/'].intercalate kept.reverse)) :=
      isGlob_filled fun seg hs => hkept seg (List.mem_reverse.1 hs)
    rw [foldl_collapseStep hup, List.reverse_append, List.reverse_reverse]
    by_cases hnone : kept = [] ∨ (segments raw.toList).filter counts = []
    · rcases hnone with hn | hn
      · simpa [hn] using hcounts
      · simpa [hn] using hk
    · rw [not_or] at hnone
      rw [intercalate_append (by simpa using hnone.1) hnone.2, fillChars_join]
      exact isGlob_join hk hcounts
  · refine isGlob_filled fun seg hseg => ?_
    rcases mem_foldl_collapseStep (List.mem_reverse.1 hseg) with hs | ⟨hs, -⟩
    · exact hkept seg hs
    · have hin : seg <:+: raw.toList := infix_of_mem_segments hs
      exact (isGlob_fillChars hv (fun hb => h.slashes (hin.subset hb))
        (h.unmixed (fun _ _ _ hw => hw.trans hin) asg)).2 (hup seg hs)

/-! ### The rules of a table -/

lemma exists_compile_iff {chain pattern : String} {vars : Variables} :
    (∃ r, Rule.compile chain pattern vars = .ok r) ↔ IsGlob pattern.toList := by
  rw [IsGlob, String.ofList_toList, Rule.compile]
  cases Glob.compile pattern <;> simp

variable {active : Variables} {chain : String} {observe : Observe}

lemma exists_ofPattern_iff :
    (∃ rs, Rule.ofPattern active root chain raw = .ok rs) ↔
      (∃ a ∈ Rule.axesOf (resolve root raw), active.values a = []) ∨
        ∀ asg ∈ combinations (Rule.axesOf (resolve root raw)) active,
          IsGlob (fillChars asg (resolve root raw).toList) := by
  have hskip : (Rule.axesOf (resolve root raw)).any (fun a => (active.values a).isEmpty) ↔
      ∃ a ∈ Rule.axesOf (resolve root raw), active.values a = [] := by simp
  by_cases h : ∃ a ∈ Rule.axesOf (resolve root raw), active.values a = []
  · simp only [Rule.ofPattern, if_pos (hskip.2 h), h, true_or, iff_true]
    exact ⟨_, rfl⟩
  · simp only [Rule.ofPattern, if_neg (hskip.not.2 h), h, false_or, exists_mapM_iff,
      exists_compile_iff, toList_fill]

lemma exists_ofObserve_iff :
    (∃ rs, Rule.ofObserve observe active root = .ok rs) ↔
      ∀ e ∈ observe.entries, ∀ raw ∈ e.2, ∃ rs, Rule.ofPattern active root e.1 raw = .ok rs := by
  have hmap {α β ε : Type} {f : α → β} {x : Except ε α} :
      (∃ y, x.map f = .ok y) ↔ ∃ y, x = .ok y := by cases x <;> simp [Except.map]
  rw [Rule.ofObserve, hmap, exists_mapM_iff]
  constructor
  · intro h e he raw hraw
    exact h (e.1, raw) (List.mem_flatMap.2 ⟨e, he, List.mem_map.2 ⟨raw, hraw, rfl⟩⟩)
  · rintro h p hp
    obtain ⟨e, he, hp⟩ := List.mem_flatMap.1 hp
    obtain ⟨raw, hraw, rfl⟩ := List.mem_map.1 hp
    exact h e he raw hraw

/-! ### Directories -/

/-- The names of a directory, as they stand in a pattern below it. -/
def names (root : String) : Segments := keptSegments (slashed root.toList)

lemma head?_slashed (h : s.head? = some '/') : (slashed s).head? = some '/' := by
  cases s with
  | nil => cases h
  | cons c s =>
    obtain rfl : c = '/' := by simpa using h
    rfl

lemma foldl_segments (habs : root.toList.head? = some '/') :
    (segments (slashed root.toList)).foldl (collapseStep true) [] = (names root).reverse := by
  rw [names, keptSegments, List.reverse_reverse, head?_slashed habs, decide_eq_true rfl]

/-- A relative pattern goes on where the names of the directory end. -/
lemma toList_resolve (habs : root.toList.head? = some '/')
    (hrel : startsAtRoot (slashed raw.toList) = false) :
    (resolve root raw).toList = '/' :: ['/'].intercalate
      ((segments (slashed raw.toList)).foldl (collapseStep true) (names root).reverse).reverse := by
  have hhead := head?_dropEndWhile (head?_slashed habs) (slashed raw.toList)
  rw [resolve, if_neg (by simp [hrel]), String.toList_ofList, collapse_of_absolute hhead,
    keptSegments, hhead, decide_eq_true rfl, segments_join, List.foldl_append,
    foldl_segments_dropEndWhile, foldl_segments habs]

lemma up_notMem_foldl (h : ['.', '.'] ∉ kept) :
    ['.', '.'] ∉ segs.foldl (collapseStep true) kept := by
  induction segs generalizing kept with
  | nil => exact h
  | cons x xs ih =>
    refine ih ?_
    unfold collapseStep
    split
    · exact h
    · grind

lemma up_notMem_names (habs : root.toList.head? = some '/') :
    ['.', '.'] ∉ (names root).reverse := by
  rw [← foldl_segments habs]
  exact up_notMem_foldl (by simp)

lemma foldl_replicate_up {m : Nat} (h : ['.', '.'] ∉ kept) :
    (List.replicate m ['.', '.']).foldl (collapseStep true) kept = kept.drop m := by
  induction m generalizing kept with
  | zero => rfl
  | succ m ih =>
    rw [List.replicate_succ, List.foldl_cons]
    cases kept with
    | nil => simpa [collapseStep] using ih List.not_mem_nil
    | cons x xs =>
      have hx : x ≠ ['.', '.'] := fun hx => h (by simp [hx])
      have hstep : collapseStep true (x :: xs) ['.', '.'] = xs := by simp [collapseStep, hx]
      rw [hstep, ih fun hm => h (by simp [hm]), List.drop_succ_cons]

lemma backslash_notMem_slashed : '\\' ∉ slashed s := by
  simp only [slashed, List.mem_map, not_exists, not_and]
  grind

lemma infix_of_mem_names {name : List Char} (h : name ∈ names root) :
    name <:+: slashed root.toList :=
  infix_of_mem_segments (of_mem_keptSegments h).1

lemma backslash_notMem_name {name : List Char} (h : name ∈ names root) : '\\' ∉ name := fun hb =>
  backslash_notMem_slashed ((infix_of_mem_names h).subset hb)

/-- A directory that has no class, or no placeholder that is filled. -/
def Unvaried (root : String) : Prop := '[' ∉ root.toList ∨ Rule.axesOf root = []

lemma unmixed_name (hroot : Unvaried root) (hasg : ∀ a, asg.lookup a ≠ none → a ≠ .file)
    {name : List Char} (h : name ∈ names root) : Unmixed asg name := by
  have hin {w : List Char} (hw : '/' ∉ w) (hn : w <:+: name) : w <:+: root.toList :=
    infix_of_infix_slashed hw (hn.trans (infix_of_mem_names h))
  refine hroot.imp (fun hc hmem => ?_) fun hax a ha hmem => ?_
  · obtain ⟨u, v, hu⟩ := List.append_of_mem hmem
    exact hc ((hin (w := ['[']) (by decide) ⟨u, v, by simp [hu]⟩).subset (by simp))
  · obtain ⟨w, hw, -, hslash⟩ := placeholder_eq a
    have hhole := hole_mem_pieces.2 (hin (by simp [hw, hslash]) (hole_mem_pieces.1 hmem))
    have hmem : a ∈ Rule.axesOf root := by
      simp [Rule.axesOf, axesIn, Axis.mem_all, hhole, hasg a ha]
    simp [hax] at hmem

/-! ### The check is sufficient -/

/-- Patterns and values on which the check and the rules agree. -/
structure Agrees (observe : Observe) (active : Variables) : Prop where
  regular : ∀ e ∈ observe.entries, ∀ raw ∈ e.2, Regular raw
  values : ∀ a ≠ .file, ∀ v ∈ active.values a, IsGlob v.toList

/-- The values that a pattern gets are active ones of flavors and projects. -/
lemma fillsGlobs_of_mem {pattern : String}
    (hval : ∀ a ≠ .file, ∀ v ∈ active.values a, IsGlob v.toList)
    (h : asg ∈ combinations (Rule.axesOf pattern) active) :
    FillsGlobs asg ∧ ∀ a, asg.lookup a ≠ none → a ≠ .file := by
  have hax {a : Axis} {v : String} (hv : asg.lookup a = some v) :
      a ≠ .file ∧ v ∈ active.values a := by
    obtain ⟨ha, hv⟩ := mem_of_lookup h hv
    exact ⟨by simpa using (List.mem_filter.1 ha).2, hv⟩
  refine ⟨fun a v hv => hval a (hax hv).1 v (hax hv).2, fun a ha => ?_⟩
  obtain ⟨v, hv⟩ := Option.ne_none_iff_exists'.1 ha
  exact (hax hv).1

lemma checkPattern_of_mem (m : Manifest) {e : String × List String} (he : e ∈ m.observe.entries)
    (hraw : raw ∈ e.2) : Draft.checkPattern raw = .ok () := by
  have hc := forM_eq_ok.1 (Draft.check_eq_ok.1 m.checked).2.2.1 e he
  rw [if_neg (by cases h : e.2 <;> simp_all)] at hc
  exact forM_eq_ok.1 hc raw hraw

lemma isGlob_slash (h : IsGlob (fillChars asg s)) : IsGlob (fillChars asg ('/' :: s)) := by
  rw [← List.nil_append ('/' :: s), fillChars_join]
  exact isGlob_join isGlob_nil h

lemma isGlob_resolve (hroot : Unvaried root) (habs : root.toList.head? = some '/')
    (hnames : ∀ name ∈ names root, IsGlob name) (hraw : Regular raw) (hg : IsGlob raw.toList)
    (hv : FillsGlobs asg) (hasg : ∀ a, asg.lookup a ≠ none → a ≠ .file) :
    IsGlob (fillChars asg (resolve root raw).toList) := by
  have hsame := slashed_of_notMem hraw.slashes
  by_cases hrel : startsAtRoot (slashed raw.toList) = false
  · rw [toList_resolve habs hrel, hsame]
    refine isGlob_slash (isGlob_below _ hv (fun name hn => ?_) hraw hg)
    have hn := List.mem_reverse.1 hn
    exact (isGlob_fillChars hv (backslash_notMem_name hn) (unmixed_name hroot hasg hn)).2
      (hnames name hn)
  · have htext := isGlob_below (raw.toList.head? = some '/') hv
      (List.forall_mem_nil _) hraw hg
    rw [resolve, if_pos (by simpa using hrel), String.toList_ofList, hsame]
    by_cases habs : raw.toList.head? = some '/'
    · rw [collapse_of_absolute habs]
      exact isGlob_slash htext
    · rw [collapse_of_relative habs]
      exact htext

/-! ### A table for each name of the directory -/

/-- A pattern for a file so many directories up. -/
def above (m : Nat) : String :=
  String.ofList (['/'].intercalate (List.replicate m ['.', '.'] ++ [['x']]))

lemma segments_above (m : Nat) :
    segments (above m).toList = List.replicate m ['.', '.'] ++ [['x']] := by
  rw [above, String.toList_ofList, segments, ← List.splitOn_eq_splitOnP, List.splitOn_intercalate]
  · simp only [List.mem_append, List.mem_replicate, List.mem_singleton]
    rintro _ (⟨-, rfl⟩ | rfl) <;> decide
  · simp

lemma isGlob_segment_above {m : Nat} {seg : List Char} (h : seg ∈ segments (above m).toList) :
    IsGlob seg := by
  rw [segments_above, List.mem_append, List.mem_singleton] at h
  rcases h with h | rfl
  · rw [List.eq_of_mem_replicate h]
    exact isGlob_iff.2 rfl
  · exact isGlob_iff.2 rfl

lemma notMem_above {m : Nat} {c : Char} (hc : c ∉ ['/', '.', 'x']) : c ∉ (above m).toList := by
  intro h
  obtain ⟨u, v, hu⟩ := List.append_of_mem h
  simp only [List.mem_cons, List.not_mem_nil, or_false, not_or] at hc
  have hcat : [c] <:+: ['/'].intercalate (segments (above m).toList) := by
    rw [intercalate_segments]
    exact ⟨u, v, by simp [hu]⟩
  obtain ⟨seg, hseg, hin⟩ := exists_infix_of_intercalate
    (show '/' ∉ [c] by simpa using Ne.symm hc.1) (by simp) hcat
  rw [segments_above, List.mem_append, List.mem_singleton] at hseg
  have hmem := hin.subset (List.mem_singleton_self c)
  rcases hseg with hseg | rfl
  · rw [List.eq_of_mem_replicate hseg] at hmem
    simp [hc] at hmem
  · simp [hc] at hmem

lemma regular_above (m : Nat) : Regular (above m) :=
  ⟨notMem_above (by decide), .inr fun _ => isGlob_segment_above, .inl (notMem_above (by decide))⟩

lemma isGlob_above (m : Nat) : IsGlob (above m).toList := by
  rw [← intercalate_segments (above m).toList]
  exact isGlob_intercalate fun _ => isGlob_segment_above

lemma startsAtRoot_above (m : Nat) : startsAtRoot (slashed (above m).toList) = false := by
  rw [slashed_of_notMem (regular_above m).slashes, above, String.toList_ofList]
  cases m with
  | zero => rfl
  | succ m =>
    rw [List.replicate_succ, List.cons_append, List.intercalate_cons_of_ne_nil (by simp)]
    rfl

/-- A manifest with one script that is watched with one pattern. -/
def watchingDraft (raw : String) : Draft where
  scripts := NameMap.ofList [("a", "true")]
  observe := NameMap.ofList [("a", [raw])]

lemma check_watchingDraft (h : Draft.checkPattern raw = .ok ()) :
    (watchingDraft raw).check = .ok () := by
  have ho : (watchingDraft raw).checkObserve = .ok () := by
    refine forM_eq_ok.2 fun e he => ?_
    obtain rfl : e = ("a", [raw]) := List.mem_singleton.1 he
    exact forM_eq_ok.2 (by simpa using h)
  rw [Draft.check_eq rfl rfl ho]
  rfl

lemma toList_resolve_above (habs : root.toList.head? = some '/') {before after : Segments}
    {name : List Char} (hnames : names root = before ++ name :: after) :
    (resolve root (above after.length)).toList =
      '/' :: ['/'].intercalate ((before ++ [name]) ++ [['x']]) := by
  have hdrop : (names root).reverse.drop after.length = (before ++ [name]).reverse := by
    simp [hnames]
  rw [toList_resolve habs (startsAtRoot_above _),
    slashed_of_notMem (regular_above _).slashes, segments_above, List.foldl_append,
    foldl_replicate_up (up_notMem_names habs), hdrop]
  simp [collapseStep]

/-- The manifest that watches `raw`. -/
def watching (raw : String) (h : Draft.checkPattern raw = .ok ()) : Manifest :=
  ⟨watchingDraft raw, check_watchingDraft h⟩

lemma checkPattern_above (m : Nat) : Draft.checkPattern (above m) = .ok () :=
  checkPattern_eq_ok.2 ((isGlob_fillChars fillsGlobs_samples (regular_above m).slashes
    ((regular_above m).unmixed (fun _ _ _ => id) _)).2 (isGlob_above m))

lemma agrees_watching (m : Nat) : Agrees (watching (above m) (checkPattern_above m)).observe
    { flavor := ["x"], project := ["x"] } where
  regular e he raw hraw := by
    obtain rfl : e = ("a", [above m]) := List.mem_singleton.1 he
    obtain rfl : raw = above m := List.mem_singleton.1 hraw
    exact regular_above m
  values a ha v hv := by
    obtain rfl : v = "x" := by
      cases a with
      | file => exact absurd rfl ha
      | _ => exact List.mem_singleton.1 hv
    exact isGlob_iff.2 rfl

lemma isGlob_of_compiles (habs : root.toList.head? = some '/') (hroot : Unvaried root)
    (h : ∀ (m : Manifest) (active : Variables), Agrees m.observe active →
      ∃ rules, Rule.ofObserve m.observe active root = .ok rules)
    {before after : Segments} {name : List Char} (hnames : names root = before ++ name :: after)
    (hbefore : ∀ seg ∈ before, IsGlob seg) : IsGlob name := by
  have hmem {seg : List Char} (hs : seg ∈ before ++ [name]) : seg ∈ names root := by
    simp only [hnames, List.mem_append, List.mem_cons] at hs ⊢
    tauto
  -- the pattern that climbs to the name, and goes on from there
  have hrules := exists_ofObserve_iff.1 (h _ _ (agrees_watching after.length))
    ("a", [above after.length])
    (List.mem_singleton_self _) (above after.length) (List.mem_singleton_self _)
  rcases exists_ofPattern_iff.1 hrules with ⟨a, ha, hnone⟩ | hall
  · exfalso
    cases a <;> simp_all [Rule.axesOf, Variables.values]
  obtain ⟨asg, hasg⟩ := List.exists_mem_of_ne_nil _ combinations_ne_nil
  obtain ⟨hv, hfile⟩ := fillsGlobs_of_mem (agrees_watching 0).values hasg
  have hfill {seg : List Char} (hs : seg ∈ before ++ [name]) (d : Nat) :
      walk (.text d) (fillChars asg seg) = walk (.text d) seg :=
    walk_of_unmixed hv (backslash_notMem_name (hmem hs)) (unmixed_name hroot hfile (hmem hs)) d
  -- the names before are globs, so the walk comes to `name` outside of groups
  have hfilled : ∀ seg ∈ before.map (fillChars asg), IsGlob seg := by
    refine List.forall_mem_map.2 fun seg hs => isGlob_iff.2 ?_
    rw [hfill (by simp [hs]), isGlob_iff.1 (hbefore seg hs)]
  have htext : fillChars asg (resolve root (above after.length)).toList =
      '/' :: (closed (before.map (fillChars asg)) ++ (fillChars asg name ++ ['/', 'x'])) := by
    rw [toList_resolve_above habs hnames, ← List.nil_append ('/' :: _), fillChars_join,
      fillChars_intercalate, List.map_append, List.map_append, List.map_singleton,
      List.map_singleton, intercalate_concat]
    simp [closed, fillChars, pieces, Piece.fill]
  have hwalk := isGlob_iff.1 (hall asg hasg)
  rw [htext, walk_cons, next_slash, Option.bind_some, walk_append, walk_closed hfilled,
    Option.bind_some, walk_append, hfill (by simp), ← walk_append] at hwalk
  exact isGlob_of_file (backslash_notMem_name (hmem (by simp))) hwalk

/-- **The check of a manifest is sufficient for watching a directory exactly if each of its names
is a glob**: then every table of regular patterns that passed the check compiles for all values
that are globs. -/
theorem checked_compiles_iff (habs : root.toList.head? = some '/') (hroot : Unvaried root) :
    (∀ (m : Manifest) (active : Variables), Agrees m.observe active →
        ∃ rules, Rule.ofObserve m.observe active root = .ok rules) ↔
      ∀ name ∈ names root, IsGlob name := by
  constructor
  · intro h
    -- the names are taken from the root on: those before are globs already
    suffices ∀ before after, names root = before ++ after → ∀ seg ∈ before, IsGlob seg from
      this (names root) [] (by simp)
    intro before
    induction before using List.reverseRecOn with
    | nil => simp
    | append_singleton before name ih =>
      intro after hn seg hseg
      have hn : names root = before ++ name :: after := by simpa using hn
      have hbefore := ih (name :: after) hn
      rcases List.mem_append.1 hseg with hs | hs
      · exact hbefore seg hs
      · obtain rfl := List.mem_singleton.1 hs
        exact isGlob_of_compiles habs hroot h hn hbefore
  · intro hnames m active h
    refine exists_ofObserve_iff.2 fun e he raw hraw => ?_
    have hreg := h.regular e he raw hraw
    refine exists_ofPattern_iff.2 (.inr fun asg hasg => ?_)
    obtain ⟨hv, hfile⟩ := fillsGlobs_of_mem h.values hasg
    exact isGlob_resolve hroot habs hnames hreg (hreg.isGlob (checkPattern_of_mem m he hraw)) hv
      hfile

/-- Below `/w` the check is sufficient, below `/w[` it is not. -/
theorem checked_compiles_below :
    (∀ (m : Manifest) (active : Variables), Agrees m.observe active →
        ∃ rules, Rule.ofObserve m.observe active "/w" = .ok rules) ∧
      ¬ ∀ (m : Manifest) (active : Variables), Agrees m.observe active →
        ∃ rules, Rule.ofObserve m.observe active "/w[" = .ok rules := by
  constructor
  · exact (checked_compiles_iff rfl (.inl (by decide))).2 (by decide)
  · exact (checked_compiles_iff rfl (.inr rfl)).not.2 (by decide)

end ChainRunner.Watch
