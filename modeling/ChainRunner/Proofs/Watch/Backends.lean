import ChainRunner.Proofs.Files.Inward
import ChainRunner.Proofs.Watch.Escape
import ChainRunner.Proofs.Watch.Polling

/-!
What the two ways of watching see of a rule set.

Notifications come from the watched directory and below. The files that are polled come from the
directories of the rules, which lie below the watched one if every pattern stays below it.
-/

namespace ChainRunner.Watch

open Glob ChainRunner.Path Template Files

variable {root raw chain p : String} {active : Variables} {observe : Observe} {rules : List Rule}
  {r : Rule} {s d : List Char} {asg : Assignment} {v : View} {ts : List String}

/-! ### Patterns behind the text of a directory -/

/-- The text of a directory as it is read alone. -/
def dirText (d : List Char) : String := String.ofList (if d = [] then ['/'] else d)

lemma Behind.fill (h : Behind d s) (hd : fillChars asg d = d) : Behind d (fillChars asg s) := by
  cases h with
  | self hne => rw [hd]; exact .self hne
  | more s =>
    rw [fillChars_join, hd]
    exact .more _

lemma Behind.isWithin (h : Behind d s) : isWithin (String.ofList s) (dirText d) := by
  cases h with
  | self hne => rw [dirText, if_neg hne]; exact isWithin_refl _
  | more s => exact isWithin_join d s

/-- The directory part of a pattern keeps what has no metacharacter. -/
lemma Behind.literalDir {pattern : String} (h : Behind d pattern.toList)
    (hd : ∀ c ∈ d, ¬ isMeta c) : Path.isWithin (literalDir pattern) (dirText d) := by
  by_cases hmeta : pattern.toList.any isMeta
  · generalize hs : pattern.toList = s at h
    cases h with
    | self =>
      obtain ⟨c, hc, hm⟩ := List.any_eq_true.1 hmeta
      exact absurd hm (hd c (hs ▸ hc))
    | more s =>
      have hstem : pattern.toList.takeWhile (!isMeta ·) = d ++ '/' :: s.takeWhile (!isMeta ·) := by
        rw [hs, List.takeWhile_append_of_pos (by simpa using hd)]
        rfl
      set w := s.takeWhile (!isMeta ·)
      -- the last slash before the metacharacters is behind `d`, or the one that ends `d`
      by_cases hslash : '/' ∈ w
      · obtain ⟨after, before, hrev, hafter⟩ :=
          List.eq_append_cons_of_mem (List.mem_reverse.2 hslash)
        have hdrop : (d ++ '/' :: w).reverse.dropWhile (· != '/') =
            '/' :: (before ++ '/' :: d.reverse) := by
          have hsplit : (d ++ '/' :: w).reverse = after ++ '/' :: (before ++ '/' :: d.reverse) := by
            simp [hrev]
          rw [hsplit, List.dropWhile_append_of_pos (by grind)]
          rfl
        have hdir : Watch.literalDir pattern = String.ofList (d ++ '/' :: before.reverse) := by
          simp only [Watch.literalDir, hmeta, if_true, hstem, hdrop]
          cases before <;> simp
        rw [hdir]
        exact isWithin_join d _
      · have hdrop : (d ++ '/' :: w).reverse.dropWhile (· != '/') = '/' :: d.reverse := by
          have hsplit : (d ++ '/' :: w).reverse = w.reverse ++ '/' :: d.reverse := by simp
          rw [hsplit, List.dropWhile_append_of_pos (by grind)]
          rfl
        have hdir : Watch.literalDir pattern = dirText d := by
          simp only [Watch.literalDir, hmeta, if_true, hstem, hdrop, dirText]
          cases hd' : d.reverse <;> simp_all
        rw [hdir]
        exact isWithin_refl _
  · rw [literalDir_of_plain hmeta, ← String.ofList_toList (s := pattern)]
    exact h.isWithin

lemma Behind.isMatch (h : Behind d r.pattern.toList) (hlit : ∀ c ∈ d, c ∉ special)
    (hg : Glob.compile r.pattern = .ok r.glob) (hm : r.isMatch p) :
    Path.isWithin p (dirText d) := by
  rw [← String.ofList_toList (s := r.pattern)] at hg
  generalize r.pattern.toList = s at h hg
  cases h with
  | self hne =>
    obtain ⟨g, hg', hmatch⟩ := compile_literal hlit
    obtain rfl := Except.ok.inj (hg'.symm.trans hg)
    rw [(hmatch p).1 hm, dirText, if_neg hne]
    exact isWithin_refl _
  | more s =>
    obtain ⟨t, ht⟩ := prefix_of_isMatch hlit hg hm
    have hp : p = String.ofList (d ++ '/' :: t) := by
      rw [← String.toList_inj, String.toList_ofList, ← ht]
      simp
    rw [hp]
    exact isWithin_join d t

/-! ### The watched directory -/

lemma filterMap_segments_dropEndWhile (s : List Char) :
    (segments (Text.dropEndWhile (· == '/') s)).filterMap Component.ofSegment? =
      (segments s).filterMap Component.ofSegment? := by
  induction s using List.reverseRecOn with
  | nil => rfl
  | append_singleton s c ih =>
    by_cases hc : c = '/'
    · subst hc
      rw [Text.dropEndWhile_concat_of_pos (by simp), ih, segments_join, List.filterMap_append]
      simp [segments, Component.ofSegment?]
    · rw [Text.dropEndWhile_concat_of_neg (by simpa using hc)]

/-- The slashes at the end of a directory do not count. -/
lemma components_stem (habs : root.toList.head? = some '/') :
    components (dirText (stem root)) = components root := by
  have hrooted {s : List Char} (hs : s.head? = some '/') :
      components (String.ofList s) = .root :: (segments s).filterMap Component.ofSegment? := by
    obtain ⟨t, rfl⟩ := List.head?_eq_some_iff.1 hs
    have hcons : segments ('/' :: t) = [] :: segments t := segments_join [] t
    rw [components_rooted, hcons, List.filterMap_cons_none rfl]
  have hsame := filterMap_segments_dropEndWhile root.toList
  have hroot := hrooted habs
  rw [String.ofList_toList, ← hsame] at hroot
  rw [hroot, dirText]
  by_cases hnil : stem root = []
  · change Text.dropEndWhile (· == '/') root.toList = [] at hnil
    rw [stem, hnil, if_pos rfl]
    rfl
  · rw [if_neg hnil, hrooted]
    · rfl
    · obtain ⟨u, hu⟩ := isPrefix_dropEndWhile (· == '/') root.toList
      rw [← hu] at habs
      change (stem root ++ u).head? = some '/' at habs
      rwa [List.head?_append_of_ne_nil _ hnil] at habs

/-- The pattern of every rule stands behind the text of the directory. -/
lemma behind_of_ofObserve (hroot : IsPlain root) (hinert : IsInert root)
    (hbelow : ∀ e ∈ observe.entries, ∀ raw ∈ e.2, StaysBelow raw)
    (h : Rule.ofObserve observe active root = .ok rules) (hr : r ∈ rules) :
    Behind (stem root) r.pattern.toList ∧ Glob.compile r.pattern = .ok r.glob := by
  obtain ⟨e, he, raw, hraw, rs, hrs, hr⟩ := mem_ofObserve h hr
  obtain ⟨asg, hasg, hcompile⟩ := mem_ofPattern hrs hr
  obtain ⟨-, hpattern, -, hglob⟩ := Rule.compile_eq_ok.1 hcompile
  refine ⟨?_, hpattern ▸ hglob⟩
  rw [hpattern, toList_fill, ← hinert.tidy]
  refine ((hbelow e he raw hraw).behind hroot).fill (fillChars_eq_self fun a ha hmem => ?_)
  -- the text of the directory has no placeholder of an axis that gets a value
  obtain ⟨v, hv⟩ := Option.ne_none_iff_exists'.1 ha
  have hax : a ≠ .file := (mem_axesOf.1 (mem_of_lookup hasg hv).1).1
  obtain ⟨w, hw, -, hslash⟩ := placeholder_eq a
  have hno : '/' ∉ a.placeholder.toList := by simp [hw, hslash]
  have hin := (infix_tidied root hno ⟨'$', by simp [hw], by decide⟩).1 (hole_mem_pieces.1 hmem)
  have hmem : a ∈ Rule.axesOf root := mem_axesOf.2 ⟨hax, hin⟩
  simp [hinert.unvaried] at hmem

lemma isMeta_of_special {c : Char} (hc : c ∉ special) : ¬ isMeta c := by
  simp only [special, List.mem_cons, List.not_mem_nil, or_false, not_or] at hc
  simp [isMeta, hc]

/-- A target is found below the directory of a rule. -/
lemma exists_rule_of_target (hv : v.Inward) (h : pollingTargets v rules = .ok ts) (hp : p ∈ ts) :
    ∃ r ∈ rules, ∃ ns : List String, components p = components r.rootDir ++ ns.map .name := by
  simp only [pollingTargets, bind, Except.bind] at h
  split at h
  · cases h
  · rename_i found hfound
    obtain rfl := Except.ok.inj h
    have hmem := (dropRepeats_sublist _ _).subset hp
    rw [List.mem_mergeSort, List.mem_filter] at hmem
    obtain ⟨fs, hfs, hmem⟩ := List.mem_flatten.1 hmem.1
    obtain ⟨dir, hdir, hcollect⟩ := mem_of_mapM hfound hfs
    obtain ⟨r, hr, rfl⟩ := exists_rule_of_mem_roots hdir
    cases hwalk : v.walk r.rootDir (v.depth + 1) r.rootDir with
    | error e => simp [View.collect, hwalk, bind, Except.bind] at hcollect
    | ok gs =>
      simp only [View.collect, hwalk, bind, Except.bind, pure, Except.pure,
        Except.ok.injEq] at hcollect
      rw [← hcollect, List.mem_mergeSort] at hmem
      obtain ⟨ns, hns⟩ := hv.mem_walk hwalk hmem
      exact ⟨r, hr, ns, hns⟩

end ChainRunner.Watch
