import Mathlib.Data.List.TakeWhile
import Mathlib.Data.String.Basic
import ChainRunner.Proofs.Glob.Exact
import ChainRunner.Proofs.Glob.Rooted
import ChainRunner.Proofs.Path
import ChainRunner.Watch.Rule

/-!
The root directory of a rule, outside of which it matches nothing.

It is what stands before the last slash before the first metacharacter of the pattern, and the
whole of a pattern without one.
-/

namespace ChainRunner

namespace Glob

variable {w s : List Char} {st : Scan}

/-- A brace is not closed before one is opened. -/
lemma Scan.notMem_special_of_read (hw : ∀ c ∈ w, ¬ Watch.isMeta c ∧ c ≠ '\\')
    {bs : List (List Token)} {ts : List Token} {prev : Option Char}
    (h : (⟨[], bs, ts⟩ : Scan).read prev (w ++ s) = .ok st) : ∀ c ∈ w, c ∉ special := by
  induction w generalizing ts prev with
  | nil => simp
  | cons c w ih =>
    obtain ⟨hc, hw⟩ := List.forall_mem_cons.1 hw
    have hclose : c ≠ '\x7d' := by
      rintro rfl
      rw [List.cons_append, Scan.read] at h
      cases h
    have hspecial : c ∉ special := by
      simp only [Watch.isMeta, Bool.or_eq_true, decide_eq_true_eq, not_or] at hc
      simp [special, hc, hclose]
    rw [List.cons_append, Scan.read_literal hspecial] at h
    exact List.forall_mem_cons.2 ⟨hspecial, ih hw h⟩

lemma notMem_special_of_compile {g : Glob} (hw : ∀ c ∈ w, ¬ Watch.isMeta c ∧ c ≠ '\\')
    (h : compile (String.ofList (w ++ s)) = .ok g) : ∀ c ∈ w, c ∉ special := by
  rw [compile_ofList] at h
  cases hr : ({} : Scan).read none (w ++ s) with
  | error e => rw [hr] at h; cases h
  | ok st => exact Scan.notMem_special_of_read hw hr

end Glob

namespace Watch

open Glob ChainRunner.Path

variable {pattern p chain : String} {s d w : List Char} {r : Rule} {vars : Variables}

/-! ### Paths below a directory -/

lemma isWithin_refl (p : String) : isWithin p p :=
  List.isPrefixOf_iff_prefix.2 (List.prefix_refl _)

lemma isWithin_trans {p q r : String} (h : isWithin p q) (h' : isWithin q r) : isWithin p r :=
  List.isPrefixOf_iff_prefix.2
    ((List.isPrefixOf_iff_prefix.1 h').trans (List.isPrefixOf_iff_prefix.1 h))

lemma components_rooted (s : List Char) : components (String.ofList ('/' :: s)) =
    .root :: (segments s).filterMap Component.ofSegment? := by
  rw [components, String.toList_ofList]
  rfl

lemma components_relative (hs : s.head? ≠ some '/') : components (String.ofList s) =
    (if (segments s).head? = some ['.'] then [.current] else []) ++
      (segments s).filterMap Component.ofSegment? := by
  have hdot : Component.ofSegment? ['.'] = none := rfl
  rw [components, String.toList_ofList]
  split
  · simp at hs
  · split
    · rename_i hseg
      simp [hseg, hdot]
    · rename_i hseg
      rw [if_neg, List.nil_append]
      intro hhead
      obtain ⟨rest, hrest⟩ := List.head?_eq_some_iff.1 hhead
      exact hseg rest hrest

/-- What follows the text of a directory and a slash goes on from the directory, which is the root
if there is no text before the slash. -/
lemma components_join (d s : List Char) : components (String.ofList (d ++ '/' :: s)) =
    components (String.ofList (if d = [] then ['/'] else d)) ++
      (segments s).filterMap Component.ofSegment? := by
  by_cases hd : d = []
  · subst hd
    rw [if_pos rfl, List.nil_append, components_rooted, components_rooted]
    rfl
  rw [if_neg hd]
  by_cases habs : d.head? = some '/'
  · obtain ⟨d, rfl⟩ := List.head?_eq_some_iff.1 habs
    rw [List.cons_append, components_rooted, components_rooted, segments_join,
      List.filterMap_append, List.cons_append]
  · have hjoin : (d ++ '/' :: s).head? ≠ some '/' := by
      rwa [List.head?_append_of_ne_nil _ hd]
    have hne : segments d ≠ [] := List.splitOnP_ne_nil _ d
    rw [components_relative habs, components_relative hjoin, segments_join,
      List.head?_append_of_ne_nil _ hne, List.filterMap_append, ← List.append_assoc]

/-- Whatever follows the text of a directory and a slash lies below the directory. -/
lemma isWithin_join (d s : List Char) : isWithin (String.ofList (d ++ '/' :: s))
    (String.ofList (if d = [] then ['/'] else d)) := by
  rw [isWithin, List.isPrefixOf_iff_prefix, components_join]
  exact List.prefix_append _ _

/-! ### The directory of a pattern -/

lemma literalDir_of_plain (h : ¬ pattern.toList.any isMeta) : literalDir pattern = pattern := by
  simp [literalDir, h]

/-- The directory part before the first metacharacter. -/
lemma literalDir_of_meta (hslash : '/' ∈ pattern.toList.takeWhile (!isMeta ·))
    (h : pattern.toList.any isMeta) :
    ∃ dir rest, pattern.toList = dir ++ '/' :: rest ∧ (∀ c ∈ dir, ¬ isMeta c) ∧
      (literalDir pattern).toList = if dir = [] then ['/'] else dir := by
  set stem := pattern.toList.takeWhile (!isMeta ·) with hstem
  have hsplit : stem ++ pattern.toList.dropWhile (!isMeta ·) = pattern.toList :=
    List.takeWhile_append_dropWhile
  obtain ⟨after, before, hrev, hafter⟩ := List.eq_append_cons_of_mem (List.mem_reverse.2 hslash)
  have hdrop : stem.reverse.dropWhile (· != '/') = '/' :: before := by
    rw [hrev, List.dropWhile_append_of_pos (by grind)]
    rfl
  have hstem' : stem = before.reverse ++ '/' :: after.reverse := by
    simpa using congrArg List.reverse hrev
  refine ⟨before.reverse, after.reverse ++ pattern.toList.dropWhile (!isMeta ·), ?_, ?_, ?_⟩
  · rw [hstem', List.append_assoc, List.cons_append] at hsplit
    exact hsplit.symm
  · intro c hc
    have hmem : c ∈ stem := by rw [hstem']; exact List.mem_append_left _ hc
    simpa using List.mem_takeWhile_imp hmem
  · simp only [literalDir, h, if_true, ← hstem, hdrop]
    cases before <;> simp

/-! ### Rules -/

lemma Rule.compile_eq_ok : Rule.compile chain pattern vars = .ok r ↔
    r.chain = chain ∧ r.pattern = pattern ∧ r.vars = vars ∧ Glob.compile pattern = .ok r.glob := by
  obtain ⟨chain', pattern', vars', glob⟩ := r
  unfold Rule.compile
  cases Glob.compile pattern <;> simp [eq_comm]

/-- A rule compiled from an absolute pattern without backslashes. -/
structure Rule.IsAnchored (r : Rule) : Prop where
  compiled : Rule.compile r.chain r.pattern r.vars = .ok r
  absolute : startsAtRoot r.pattern.toList
  /-- A drive is no wildcard. -/
  drive : ∀ c ∈ r.pattern.toList.head?, ¬ isMeta c
  slashes : '\\' ∉ r.pattern.toList

lemma Rule.isAnchored_of_compile (h : Rule.compile chain pattern vars = .ok r)
    (habs : isAbsolute pattern) (hback : '\\' ∉ pattern.toList) : r.IsAnchored := by
  obtain ⟨rfl, rfl, rfl, -⟩ := Rule.compile_eq_ok.1 h
  obtain ⟨u, hu⟩ := String.startsWith_string_iff.1 habs
  refine ⟨h, ?_, ?_, hback⟩ <;> rw [← hu]
  · rfl
  · intro c hc
    obtain rfl : '/' = c := by simpa using hc
    decide

lemma Rule.IsAnchored.slash_mem_stem (h : r.IsAnchored) :
    '/' ∈ r.pattern.toList.takeWhile (!isMeta ·) := by
  have habs := h.absolute
  have hdrive := h.drive
  generalize r.pattern.toList = s at habs hdrive
  unfold startsAtRoot at habs
  split at habs
  · simp [isMeta]
  · have hc := hdrive _ rfl
    rw [List.takeWhile_cons_of_pos (by simpa using hc)]
    simp [isMeta]
  · cases habs

/-- What stands before the first metacharacter is literal: a closing brace there would be an
error. -/
lemma Rule.IsAnchored.notMem_special (h : r.IsAnchored) (hw : w <+: r.pattern.toList)
    (hmeta : ∀ c ∈ w, ¬ isMeta c) : ∀ c ∈ w, c ∉ special := by
  obtain ⟨-, -, -, hglob⟩ := Rule.compile_eq_ok.1 h.compiled
  obtain ⟨rest, hrest⟩ := hw
  rw [← String.ofList_toList (s := r.pattern), ← hrest] at hglob
  refine notMem_special_of_compile (fun c hc => ⟨hmeta c hc, ?_⟩) hglob
  rintro rfl
  exact h.slashes (hrest ▸ List.mem_append_left _ hc)

/-- **A rule matches nothing outside its root directory.** -/
lemma Rule.IsAnchored.isWithin (h : r.IsAnchored) (hm : r.isMatch p) :
    isWithin p r.rootDir := by
  obtain ⟨-, -, -, hglob⟩ := Rule.compile_eq_ok.1 h.compiled
  by_cases hmeta : r.pattern.toList.any isMeta
  · obtain ⟨d, rest, hsplit, hd, hroot⟩ := literalDir_of_meta h.slash_mem_stem hmeta
    have hspecial := h.notMem_special ⟨_, hsplit.symm⟩ hd
    rw [← String.ofList_toList (s := r.pattern), hsplit] at hglob
    obtain ⟨s, hs⟩ := prefix_of_isMatch hspecial hglob hm
    have hp : p = String.ofList (d ++ '/' :: s) := by
      rw [← String.toList_inj, String.toList_ofList, ← hs]
      simp
    have hdir : r.rootDir = String.ofList (if d = [] then ['/'] else d) := by
      rw [← String.toList_inj, String.toList_ofList, ← hroot, Rule.rootDir]
    rw [hp, hdir]
    exact isWithin_join d s
  · have hnone : ∀ c ∈ r.pattern.toList, ¬ isMeta c := by simpa using hmeta
    obtain ⟨g, hg, hmatch⟩ := compile_literal (h.notMem_special List.prefix_rfl hnone)
    rw [String.ofList_toList, hglob] at hg
    obtain rfl := Except.ok.inj hg
    rw [(hmatch p).1 hm, String.ofList_toList, Rule.rootDir, literalDir_of_plain hmeta]
    exact isWithin_refl _

end Watch

end ChainRunner
