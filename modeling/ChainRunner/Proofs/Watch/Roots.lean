import Mathlib.Data.String.Basic
import ChainRunner.Proofs.NameMap
import ChainRunner.Proofs.Path
import ChainRunner.Proofs.Watch.Checked
import ChainRunner.Proofs.Watch.RootDir

/-!
The root directories of rules, and those of them that are watched.

A rule matches nothing outside its root directory. A watched directory lies in no other watched
one, and every root directory lies in a watched one.
-/

namespace ChainRunner

namespace Watch

open Glob ChainRunner.Path

variable {root pattern : String} {ns ms : List String} {s t w : List Char} {segs kept : Segments}

/-! ### Resolved patterns -/

/-- An absolute pattern that stays as it is when it is resolved. -/
structure IsResolved (pattern : String) : Prop where
  rooted : isAbsolute pattern
  fixed : resolve "/" pattern = pattern

instance (pattern : String) : Decidable (IsResolved pattern) :=
  decidable_of_iff (isAbsolute pattern ∧ resolve "/" pattern = pattern)
    ⟨fun h => ⟨h.1, h.2⟩, fun h => ⟨h.rooted, h.fixed⟩⟩

lemma IsResolved.canonical (h : IsResolved pattern) :
    ∃ ns, AreNames ns ∧ pattern = absolute ns ∧ '\\' ∉ pattern.toList := by
  obtain ⟨u, hu⟩ := String.startsWith_string_iff.1 h.rooted
  have hslashed : slashed pattern.toList = '/' :: slashed u := by rw [← hu]; rfl
  have hhead : (slashed pattern.toList).head? = some '/' := by rw [hslashed]; rfl
  have htext : pattern.toList =
      '/' :: ['/'].intercalate (keptSegments (slashed pattern.toList)) := by
    conv_lhs => rw [← h.fixed, resolve]
    rw [if_pos (by rw [hslashed]; rfl), String.toList_ofList, collapse_of_absolute hhead]
  -- what a collapsed text keeps of an absolute path are names
  have hseg {seg : List Char} (hs : seg ∈ keptSegments (slashed pattern.toList)) :
      seg ∈ segments (slashed pattern.toList) ∧ counts seg ∧ seg ≠ ['.', '.'] := by
    obtain ⟨hmem, hcounts, hup⟩ := of_mem_keptSegments hs
    exact ⟨hmem, hcounts, hup hhead⟩
  refine ⟨(keptSegments (slashed pattern.toList)).map String.ofList, fun n hn => ?_, ?_, ?_⟩
  · obtain ⟨seg, hs, rfl⟩ := List.mem_map.1 hn
    obtain ⟨hmem, hcounts, hup⟩ := hseg hs
    simp only [counts, decide_eq_true_eq] at hcounts
    constructor <;> rw [String.toList_ofList]
    exacts [hcounts.1, slash_notMem_of_mem_segments hmem, hcounts.2, hup]
  · rw [← String.toList_inj, absolute, String.toList_ofList, List.map_map]
    simpa [Function.comp_def] using htext
  · intro hmem
    rw [htext] at hmem
    have hin := (List.singleton_infix_iff _ _).2 ((List.mem_cons.1 hmem).resolve_left (by decide))
    obtain ⟨seg, hs, hin⟩ := exists_infix_of_intercalate (by decide) (by decide) hin
    exact backslash_notMem_slashed
      ((infix_of_mem_segments (hseg hs).1).subset (hin.subset (List.mem_singleton_self _)))

/-- A directory part of an absolute path, up to some slash in its text. -/
lemma exists_absolute_of_slash (h : AreNames ms) (heq : (absolute ms).toList = s ++ '/' :: t) :
    ∃ ns, ns <+: ms ∧ (absolute ns).toList = if s = [] then ['/'] else s := by
  rw [absolute, String.toList_ofList] at heq
  cases s with
  | nil => exact ⟨[], List.nil_prefix, rfl⟩
  | cons c d =>
    obtain ⟨rfl, hjoin⟩ := List.cons.inj heq
    have hms : ms ≠ [] := by
      rintro rfl
      simp at hjoin
    have hsegs : ms.map String.toList = segments d ++ segments t := by
      have hjoin : ['/'].intercalate (ms.map String.toList) = d ++ '/' :: t := hjoin
      rw [← segments_join, ← hjoin,
        segments_intercalate (by simpa using fun n hn => (h n hn).slash) (by simpa)]
    refine ⟨(segments d).map String.ofList, ?_, ?_⟩
    · have hofList : ms = (segments d ++ segments t).map String.ofList := by
        rw [← hsegs, List.map_map]
        simp [Function.comp_def]
      rw [hofList, List.map_append]
      exact List.prefix_append ..
    · rw [if_neg (by simp), absolute, String.toList_ofList, List.map_map]
      simp [Function.comp_def, intercalate_segments]

/-! ### The root directory of a rule -/

/-- A rule compiled from a resolved pattern. -/
structure Rule.IsProper (r : Rule) : Prop where
  compiled : Rule.compile r.chain r.pattern r.vars = .ok r
  resolved : IsResolved r.pattern

lemma Rule.isProper_of_compile {r : Rule} {chain : String} {vars : Variables}
    (h : Rule.compile chain pattern vars = .ok r) (hp : IsResolved pattern) : r.IsProper := by
  obtain ⟨rfl, rfl, rfl, -⟩ := Rule.compile_eq_ok.1 h
  exact ⟨h, hp⟩

/-- The directory of a resolved pattern is a plain path, and what the rule matches lies along it. -/
lemma Rule.IsProper.exists_rootDir {r : Rule} (h : r.IsProper) :
    ∃ ns, AreNames ns ∧ r.rootDir = absolute ns ∧
      ∀ ms, AreNames ms → r.isMatch (absolute ms) → ns <+: ms := by
  obtain ⟨ps, hps, hpattern, hback⟩ := h.resolved.canonical
  have hanchored : r.IsAnchored := isAnchored_of_compile h.compiled h.resolved.rooted hback
  obtain ⟨ns, hns, hroot⟩ : ∃ ns, AreNames ns ∧ r.rootDir = absolute ns := by
    by_cases hmeta : r.pattern.toList.any isMeta
    · obtain ⟨dir, rest, hsplit, -, hroot⟩ := literalDir_of_meta hanchored.slash_mem_stem hmeta
      obtain ⟨ns, hns, hdir⟩ := exists_absolute_of_slash hps (hpattern ▸ hsplit)
      exact ⟨ns, hps.above hns, by rw [← String.toList_inj, Rule.rootDir, hroot, hdir]⟩
    · exact ⟨ps, hps, by rw [Rule.rootDir, literalDir_of_plain hmeta, hpattern]⟩
  refine ⟨ns, hns, hroot, fun ms hms hm => ?_⟩
  rw [← isWithin_absolute hns hms, ← hroot]
  exact hanchored.isWithin hm

/-! ### The watched directories -/

/-- Keep a directory unless it lies in one that is kept. -/
def keep (kept : List String) (dir : String) : List String :=
  if kept.any (Path.isWithin dir ·) then kept else kept ++ [dir]

variable {dir dir' : String} {dirs kept : List String}

/-- What is kept, each directory before and outside the next ones, and the directories to come. -/
structure Kept (kept dirs : List String) : Prop where
  apart : kept.Pairwise fun d d' => d < d' ∧ ¬ isWithin d' d
  before : ∀ d ∈ kept, ∀ d' ∈ dirs, d < d'
  sorted : dirs.Pairwise (· < ·)

lemma Kept.keep (h : Kept kept (dir :: dirs)) : Kept (keep kept dir) dirs := by
  obtain ⟨hdir, hsorted⟩ := List.pairwise_cons.1 h.sorted
  unfold Watch.keep
  split
  · exact ⟨h.apart, fun d hd d' hd' => h.before d hd d' (by simp [hd']), hsorted⟩
  · rename_i hno
    simp only [List.any_eq_true, not_exists, not_and] at hno
    refine ⟨List.pairwise_append.2 ⟨h.apart, by simp, fun d hd d' hd' => ?_⟩, ?_, hsorted⟩
    · obtain rfl := List.mem_singleton.1 hd'
      exact ⟨h.before d hd d' (by simp), hno d hd⟩
    · intro d hd d' hd'
      rcases List.mem_append.1 hd with hd | hd
      · exact h.before d hd d' (by simp [hd'])
      · exact List.mem_singleton.1 hd ▸ hdir d' hd'

lemma Kept.foldl (h : Kept kept dirs) : Kept (dirs.foldl Watch.keep kept) [] := by
  induction dirs generalizing kept with
  | nil => exact h
  | cons dir dirs ih => exact ih h.keep

lemma mem_foldl_keep (h : dir ∈ dirs.foldl keep kept) : dir ∈ kept ∨ dir ∈ dirs := by
  induction dirs generalizing kept with
  | nil => exact .inl h
  | cons d dirs ih =>
    rcases ih h with h | h
    · unfold keep at h
      split at h
      · exact .inl h
      · simpa [or_assoc] using Or.inl h
    · simp [h]

/-- No directory is left without one that it lies in. -/
lemma exists_foldl_keep (h : dir ∈ dirs ∨ ∃ d ∈ kept, isWithin dir d) :
    ∃ d ∈ dirs.foldl keep kept, isWithin dir d := by
  induction dirs generalizing kept with
  | nil => exact h.resolve_left List.not_mem_nil
  | cons d dirs ih =>
    have hself : ∃ k ∈ keep kept d, isWithin d k := by
      unfold keep
      split
      · rename_i hany
        exact List.any_eq_true.1 hany
      · exact ⟨d, by simp, isWithin_refl d⟩
    have hsub : ∀ k ∈ kept, k ∈ keep kept d := by
      unfold keep
      split <;> simp +contextual
    refine ih ?_
    rcases h with h | ⟨k, hk, hin⟩
    · exact (List.mem_cons.1 h).elim (fun h => .inr (h ▸ hself)) .inl
    · exact .inr ⟨k, hsub k hk, hin⟩

variable {rules : List Rule} {r : Rule}

/-- The root directories of `rules`, each once. -/
lemma mem_rootDirs : dir ∈ (NameMap.ofList (rules.map fun r => (r.rootDir, ()))).keys ↔
    ∃ r ∈ rules, r.rootDir = dir := by
  simp [NameMap.mem_keys_ofList]

lemma exists_rule_of_mem_roots (h : dir ∈ roots rules) : ∃ r ∈ rules, r.rootDir = dir :=
  mem_rootDirs.1 ((mem_foldl_keep h).resolve_left List.not_mem_nil)

lemma exists_root (h : r ∈ rules) : ∃ dir ∈ roots rules, isWithin r.rootDir dir :=
  exists_foldl_keep (.inl (mem_rootDirs.2 ⟨r, h, rfl⟩))

lemma roots_singleton (r : Rule) : roots [r] = [r.rootDir] := rfl

lemma kept_roots (rules : List Rule) : Kept (roots rules) [] := by
  refine Kept.foldl ⟨.nil, by simp, List.pairwise_map.2 ?_⟩
  refine (NameMap.ofList (rules.map fun r => (r.rootDir, ()))).sorted.imp fun {x y} h => ?_
  exact compare_lt_iff_lt.1 h

/-! ### What the watched directories hold -/

/-- **No rule matches outside its root directory, or outside the watched ones**: among the paths
below those are all that are matched. -/
theorem isMatch_within_roots (h : ∀ r ∈ rules, r.IsAnchored) :
    (∀ r ∈ rules, ∀ p, r.isMatch p →
      isWithin p r.rootDir ∧ ∃ dir ∈ roots rules, isWithin p dir) ∧
    ∀ paths, planDispatch (paths.filter fun p => (roots rules).any (isWithin p ·)) rules =
      planDispatch paths rules := by
  have hwithin : ∀ r ∈ rules, ∀ p, r.isMatch p → ∃ dir ∈ roots rules, isWithin p dir := by
    intro r hr p hm
    obtain ⟨dir, hdir, hin⟩ := exists_root hr
    exact ⟨dir, hdir, isWithin_trans ((h r hr).isWithin hm) hin⟩
  refine ⟨fun r hr p hm => ⟨(h r hr).isWithin hm, hwithin r hr p hm⟩, fun paths => ?_⟩
  have hhits : ∀ r ∈ rules, (paths.filter fun p => (roots rules).any (isWithin p ·)).filter
      r.isMatch = paths.filter r.isMatch := by
    intro r hr
    rw [List.filter_filter]
    refine List.filter_congr fun p _ => ?_
    simpa using hwithin r hr p
  exact List.foldl_ext _ _ _ fun plan r hr => by rw [hhits r hr]

/-- The slash behind `/p` goes into the `**`, and one of the alternatives has slashes of its own. -/
theorem isMatch_within_roots_nested :
    ∃ outer inner, Rule.compile "c" "/p/**" {} = .ok outer ∧
      Rule.compile "c" "/p/q/\x7ba,/b/\x7d*" {} = .ok inner ∧ inner.isMatch "/p/q//b/c" ∧
        isWithin "/p/q//b/c" inner.rootDir ∧ ∃ dir ∈ roots [outer, inner],
          isWithin "/p/q//b/c" dir := by
  have hcomputed : (Rule.compile "c" "/p/q/\x7ba,/b/\x7d*" {}).toOption.map
      (·.isMatch "/p/q//b/c") = some true := by decide +kernel
  have hcompiled : (Rule.compile "c" "/p/**" {}).isOk := by decide +kernel
  cases ho : Rule.compile "c" "/p/**" {} with
  | error e => rw [ho] at hcompiled; cases hcompiled
  | ok outer =>
  cases hi : Rule.compile "c" "/p/q/\x7ba,/b/\x7d*" {} with
  | error e => rw [hi] at hcomputed; cases hcomputed
  | ok inner =>
  rw [hi] at hcomputed
  have hm : inner.isMatch "/p/q//b/c" := Option.some.inj hcomputed
  have hr : ∀ r ∈ [outer, inner], r.IsAnchored := by
    simpa using ⟨Rule.isAnchored_of_compile ho (by decide +kernel) (by decide),
      Rule.isAnchored_of_compile hi (by decide +kernel) (by decide)⟩
  exact ⟨outer, inner, rfl, rfl, hm, (isMatch_within_roots hr).1 inner (by simp) _ hm⟩

end Watch

end ChainRunner
