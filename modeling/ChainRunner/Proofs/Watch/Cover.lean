import ChainRunner.Proofs.Watch.Roots

/-!
The watched directories are the outermost root directories.

A path has one plainest text, and the text of a directory stands in front of those of the paths
below it. Resolved patterns and their root directories are texts of this kind, so in string order
every directory comes after those that it lies in.
-/

namespace ChainRunner

namespace Path

variable {cs cs' : List Component} {p q : String}

/-- The segment that is written for a component. -/
def Component.text : Component → List Char
  | .root => []
  | .current => ['.']
  | .parent => ['.', '.']
  | .name s => s.toList

/-- The plainest text of a path. -/
def plainest (cs : List Component) : List Char :=
  if cs = [.root] then ['/'] else ['/'].intercalate (cs.map Component.text)

/-- A text in which nothing can be left out. -/
def IsPlainest (p : String) : Prop := p.toList = plainest (components p)

instance (p : String) : Decidable (IsPlainest p) := inferInstanceAs (Decidable (_ = _))

lemma plainest_root (cs : List Component) :
    plainest (.root :: cs) = '/' :: ['/'].intercalate (cs.map Component.text) := by
  unfold plainest
  by_cases hcs : cs = []
  · simp [hcs]
  · rw [if_neg (by simpa using hcs), List.map_cons,
      List.intercalate_cons_of_ne_nil (by simpa using hcs)]
    rfl

lemma prefix_intercalate {segs segs' : Segments} (h : segs <+: segs') :
    ['/'].intercalate segs <+: ['/'].intercalate segs' := by
  obtain ⟨rest, rfl⟩ := h
  by_cases hsegs : segs = []
  · subst hsegs
    exact List.nil_prefix
  by_cases hrest : rest = []
  · simp [hrest]
  · rw [Watch.intercalate_append hsegs hrest]
    exact List.prefix_append ..

lemma prefix_plainest (h : cs <+: cs') : plainest cs <+: plainest cs' := by
  cases cs with
  | nil => exact List.nil_prefix
  | cons c cs =>
    obtain ⟨rest, rfl⟩ := h
    cases c with
    | root =>
      rw [List.cons_append, plainest_root, plainest_root, List.cons_prefix_cons]
      exact ⟨rfl, prefix_intercalate ((List.prefix_append ..).map _)⟩
    | current | parent | name =>
      rw [plainest, plainest, if_neg (by simp), if_neg (by simp)]
      exact prefix_intercalate ((List.prefix_append ..).map _)

lemma IsPlainest.prefix_toList (hp : IsPlainest p) (hq : IsPlainest q) (h : isWithin p q) :
    q.toList <+: p.toList := by
  rw [hp, hq]
  exact prefix_plainest (List.isPrefixOf_iff_prefix.1 h)

lemma IsPlainest.eq (hp : IsPlainest p) (hq : IsPlainest q) (h : isWithin p q)
    (h' : isWithin q p) : p = q :=
  String.toList_inj.1 ((hq.prefix_toList hp h').eq_of_length_le (hp.prefix_toList hq h).length_le)

/-- A directory comes after those that it lies in. -/
lemma IsPlainest.not_lt (hp : IsPlainest p) (hq : IsPlainest q) (h : isWithin p q) : ¬ p < q := by
  rw [String.lt_iff_toList_lt]
  exact List.not_lt.2 (hp.prefix_toList hq h).le

end Path

namespace Watch

open ChainRunner.Path

variable {segs : Segments} {s t : List Char} {pattern root raw dir dir' : String}
  {rules : List Rule} {r : Rule}

/-! ### Resolved patterns -/

/-- Segments each of which is a step up or down. -/
def Steady (segs : Segments) : Prop := ∀ seg ∈ segs, counts seg ∧ '/' ∉ seg

lemma Steady.map_text (h : Steady segs) :
    (segs.filterMap Component.ofSegment?).map Component.text = segs := by
  induction segs with
  | nil => rfl
  | cons seg segs ih =>
    obtain ⟨hseg, hsegs⟩ := List.forall_mem_cons.1 h
    have hskip : ¬(seg = [] ∨ seg = ['.']) := by simpa [counts] using hseg.1
    have htext : ∃ c, Component.ofSegment? seg = some c ∧ c.text = seg := by
      rw [Component.ofSegment?, if_neg hskip]
      split
      · exact ⟨_, rfl, Eq.symm ‹_›⟩
      · exact ⟨_, rfl, String.toList_ofList⟩
    obtain ⟨c, hc, hct⟩ := htext
    rw [List.filterMap_cons_some hc, List.map_cons, hct, ih hsegs]

lemma Steady.segments_intercalate (h : Steady segs) (hne : segs ≠ []) :
    segments (['/'].intercalate segs) = segs :=
  Path.segments_intercalate (fun seg hseg => (h seg hseg).2) hne

lemma Steady.isPlainest_rooted (h : Steady segs) :
    IsPlainest (String.ofList ('/' :: ['/'].intercalate segs)) := by
  rw [IsPlainest, components_rooted, plainest_root, String.toList_ofList]
  by_cases hne : segs = []
  · subst hne
    rfl
  · rw [h.segments_intercalate hne, h.map_text]

lemma Steady.isPlainest_loose (h : Steady segs) :
    IsPlainest (String.ofList (['/'].intercalate segs)) := by
  cases segs with
  | nil => decide
  | cons seg segs =>
    obtain ⟨⟨hcounts, hslash⟩, -⟩ := List.forall_mem_cons.1 h
    simp only [counts, decide_eq_true_eq] at hcounts
    have hhead : (['/'].intercalate (seg :: segs)).head? ≠ some '/' := by
      obtain ⟨c, w, hw⟩ := List.exists_cons_of_ne_nil hcounts.1
      have hc : c ≠ '/' := by
        rintro rfl
        exact hslash (by simp [hw])
      cases segs <;> simp [hw, List.intercalate_cons_cons, hc]
    have htext := h.map_text
    rw [IsPlainest, components_relative hhead, h.segments_intercalate (by simp), List.head?_cons,
      if_neg (by simpa using hcounts.2), List.nil_append, plainest, if_neg, htext,
      String.toList_ofList]
    -- the root has no segment of its own
    intro hroot
    rw [hroot] at htext
    exact hcounts.1 (List.cons.inj htext).1.symm

/-- What is left of a text when it collapses. -/
lemma steady_keptSegments (s : List Char) : Steady (keptSegments s) := by
  intro seg hseg
  obtain ⟨hmem, hcounts, -⟩ := of_mem_keptSegments hseg
  exact ⟨hcounts, slash_notMem_of_mem_segments hmem⟩

/-! ### Root directories -/

/-- The segments before some slash. -/
lemma Steady.of_slash (h : Steady segs) (heq : ['/'].intercalate segs = s ++ '/' :: t) :
    Steady (segments s) := by
  have hne : segs ≠ [] := by
    rintro rfl
    simp at heq
  have hsegs : segs = segments s ++ segments t := by
    rw [← segments_join, ← heq, h.segments_intercalate hne]
  exact fun seg hseg => h seg (hsegs ▸ List.mem_append_left _ hseg)

lemma Steady.isPlainest_of_rooted (h : Steady segs)
    (heq : '/' :: ['/'].intercalate segs = s ++ '/' :: t) :
    IsPlainest (String.ofList (if s = [] then ['/'] else s)) := by
  cases s with
  | nil => decide
  | cons c s =>
    obtain ⟨rfl, hjoin⟩ := List.cons.inj heq
    rw [if_neg (by simp), ← intercalate_segments s]
    exact (h.of_slash hjoin).isPlainest_rooted

lemma Steady.isPlainest_of_loose (h : Steady segs)
    (heq : ['/'].intercalate segs = s ++ '/' :: t) :
    IsPlainest (String.ofList (if s = [] then ['/'] else s)) := by
  split
  · decide
  · rw [← intercalate_segments s]
    exact (h.of_slash heq).isPlainest_loose

/-- The directory of a pattern before any slash is the working directory. -/
lemma literalDir_of_notMem (hslash : '/' ∉ pattern.toList.takeWhile (!isMeta ·))
    (h : pattern.toList.any isMeta) : literalDir pattern = "." := by
  have hdrop : (pattern.toList.takeWhile (!isMeta ·)).reverse.dropWhile (· != '/') = [] := by
    rw [List.dropWhile_eq_nil_iff]
    intro c hc
    have hmem := List.mem_reverse.1 hc
    simpa using fun heq : c = '/' => hslash (heq ▸ hmem)
  simp [literalDir, h, hdrop]

/-- **The root directory of a resolved pattern is the plainest text of its path.** -/
lemma isPlainest_literalDir (root raw : String) : IsPlainest (literalDir (resolve root raw)) := by
  obtain ⟨s, hs⟩ : ∃ s, (resolve root raw).toList = collapse s := ⟨_, String.toList_ofList⟩
  have hsteady := steady_keptSegments s
  by_cases hmeta : (resolve root raw).toList.any isMeta
  · by_cases hslash : '/' ∈ (resolve root raw).toList.takeWhile (!isMeta ·)
    · obtain ⟨dir, rest, hsplit, -, hdir⟩ := literalDir_of_meta hslash hmeta
      rw [hs] at hsplit
      rw [← String.ofList_toList (s := literalDir _), hdir]
      by_cases habs : s.head? = some '/'
      · exact hsteady.isPlainest_of_rooted (collapse_of_absolute habs ▸ hsplit)
      · exact hsteady.isPlainest_of_loose (collapse_of_relative habs ▸ hsplit)
    · rw [literalDir_of_notMem hslash hmeta]
      decide
  · rw [literalDir_of_plain hmeta, ← String.ofList_toList (s := resolve root raw), hs]
    by_cases habs : s.head? = some '/'
    · exact collapse_of_absolute habs ▸ hsteady.isPlainest_rooted
    · exact collapse_of_relative habs ▸ hsteady.isPlainest_loose

lemma Rule.isPlainest_rootDir (h : ∃ root raw, resolve root raw = r.pattern) :
    IsPlainest r.rootDir := by
  obtain ⟨root, raw, heq⟩ := h
  rw [Rule.rootDir, ← heq]
  exact isPlainest_literalDir root raw

/-! ### The watched directories -/

lemma pairwise_roots (h : ∀ r ∈ rules, IsPlainest r.rootDir) :
    (roots rules).Pairwise fun dir dir' => ¬isWithin dir dir' ∧ ¬isWithin dir' dir := by
  refine (kept_roots rules).apart.imp_of_mem fun {dir dir'} hdir hdir' ⟨hlt, hout⟩ => ⟨?_, hout⟩
  obtain ⟨r, hr, rfl⟩ := exists_rule_of_mem_roots hdir
  obtain ⟨r', hr', rfl⟩ := exists_rule_of_mem_roots hdir'
  exact fun hin => (h r hr).not_lt (h r' hr') hin hlt

/-- No watched directory lies in another one. -/
lemma eq_of_isWithin (h : ∀ r ∈ rules, IsPlainest r.rootDir) (hdir : dir ∈ roots rules)
    (hdir' : dir' ∈ roots rules) (hin : isWithin dir dir') : dir = dir' := by
  have hapart := pairwise_roots h
  exact List.Pairwise.forall_of_forall_of_flip (R := fun d d' => isWithin d d' → d = d')
    (fun _ _ _ => rfl) (hapart.imp fun hout hin => absurd hin hout.1)
    (hapart.imp fun hout hin => absurd hin hout.2) hdir hdir' hin

/-- **The watched directories cover the root directories, and none of them can be spared.** For
patterns as resolving leaves them, with or without a drive, they are the root directories that lie
in no other one, each of them once. -/
theorem roots_cover (h : ∀ r ∈ rules, ∃ root raw, resolve root raw = r.pattern) :
    (∀ r ∈ rules, ∃ dir ∈ roots rules, isWithin r.rootDir dir) ∧
    (∀ dir, dir ∈ roots rules ↔ (∃ r ∈ rules, r.rootDir = dir) ∧
      ∀ r ∈ rules, isWithin dir r.rootDir → r.rootDir = dir) ∧
    (roots rules).Pairwise fun dir dir' => ¬isWithin dir dir' ∧ ¬isWithin dir' dir := by
  have hplain : ∀ r ∈ rules, IsPlainest r.rootDir := fun r hr => Rule.isPlainest_rootDir (h r hr)
  refine ⟨fun r => exists_root, fun dir => ⟨fun hdir => ?_, ?_⟩, pairwise_roots hplain⟩
  · obtain ⟨r, hr, rfl⟩ := exists_rule_of_mem_roots hdir
    refine ⟨⟨r, hr, rfl⟩, fun r' hr' hin => ?_⟩
    obtain ⟨dir', hdir', hin'⟩ := exists_root hr'
    obtain rfl := eq_of_isWithin hplain hdir hdir' (isWithin_trans hin hin')
    exact (hplain r' hr').eq (hplain r hr) hin' hin
  · rintro ⟨⟨r, hr, rfl⟩, hmax⟩
    obtain ⟨dir', hdir', hin⟩ := exists_root hr
    obtain ⟨r', hr', rfl⟩ := exists_rule_of_mem_roots hdir'
    exact hmax r' hr' hin ▸ hdir'

/-- In string order `/p/a-b` stands between `/p/a` and what lies below it. -/
def siblings : List String :=
  ["/p/a/b/*.ts", "C:/w/x/*", "/p/a-b/*", "C:/w/*.ts", "/p/a/**"]

theorem roots_cover_siblings :
    ∃ rules, siblings.mapM (Rule.compile "c" · {}) = .ok rules ∧
      roots rules = ["/p/a", "/p/a-b", "C:/w"] ∧
      (∀ r ∈ rules, ∃ dir ∈ ["/p/a", "/p/a-b", "C:/w"], isWithin r.rootDir dir) ∧
      ["/p/a", "/p/a-b", "C:/w"].Pairwise fun dir dir' =>
        ¬isWithin dir dir' ∧ ¬isWithin dir' dir := by
  have hcomputed : ((siblings.mapM (Rule.compile "c" · {})).toOption.map fun rules =>
      (roots rules, rules.all fun r => resolve "/" r.pattern = r.pattern)) =
      some (["/p/a", "/p/a-b", "C:/w"], true) := by decide +kernel
  cases hrules : siblings.mapM (Rule.compile "c" · {}) with
  | error e => rw [hrules] at hcomputed; cases hcomputed
  | ok rules =>
    rw [hrules] at hcomputed
    obtain ⟨hroots, hresolved⟩ := Prod.mk.inj (Option.some.inj hcomputed)
    have hr : ∀ r ∈ rules, ∃ root raw, resolve root raw = r.pattern := fun r hr =>
      ⟨"/", r.pattern, by simpa using List.all_eq_true.1 hresolved r hr⟩
    obtain ⟨hcover, -, hapart⟩ := roots_cover hr
    rw [hroots] at hcover hapart
    exact ⟨rules, rfl, hroots, hcover, hapart⟩

end Watch

end ChainRunner
