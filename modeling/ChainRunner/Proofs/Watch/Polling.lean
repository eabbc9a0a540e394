import ChainRunner.Proofs.Files.Walk
import ChainRunner.Proofs.Watch.Cover
import ChainRunner.Watch.Polling

/-!
What a set of rules polls, from what its rules poll one by one.

The watched directories are those of the whole set, so a rule may be looked for from a directory
further up; then a directory in between that the walk skips hides its files.
-/

namespace ChainRunner.Watch

open ChainRunner.Path Files

variable {t : Tree} {rules : List Rule} {r : Rule} {p q dir dir' : String}
  {same : String → String → Bool} {xs : List String}

/-! ### Repetitions -/

lemma dropRepeats_sublist (same : String → String → Bool) (xs : List String) :
    (dropRepeats same xs).Sublist xs := by
  fun_induction dropRepeats same xs with
  | case1 => exact .slnil
  | case2 x xs ih => exact (ih.trans (List.dropWhile_sublist _)).cons_cons x

/-- Nothing but repetitions is dropped. -/
lemma mem_dropRepeats (h : ∀ x ∈ xs, ∀ y ∈ xs, same x y → x = y) :
    p ∈ dropRepeats same xs ↔ p ∈ xs := by
  refine ⟨fun hp => (dropRepeats_sublist same xs).subset hp, fun hp => ?_⟩
  fun_induction dropRepeats same xs with
  | case1 => exact hp
  | case2 x xs ih =>
    rcases List.mem_cons.1 hp with rfl | hp
    · exact List.mem_cons_self
    · rw [← List.takeWhile_append_dropWhile (p := same x) (l := xs), List.mem_append] at hp
      rcases hp with hp | hp
      · have hmem := (List.takeWhile_sublist _).subset hp
        have hsame : same x p := List.mem_takeWhile_imp hp
        exact h x (by simp) p (by simp [hmem]) hsame ▸ List.mem_cons_self
      · have hsub := (List.dropWhile_sublist (same x) (l := xs)).subset
        exact List.mem_cons_of_mem _
          (ih (fun a ha b hb => h a (by simp [hsub ha]) b (by simp [hsub hb])) hp)

/-- Without repetitions a sorted list is strictly sorted. -/
lemma pairwise_dropRepeats (h : xs.Pairwise fun p q => (Path.compare p q).isLE)
    (hsame : ∀ p q, same p q ↔ components p = components q) :
    (dropRepeats same xs).Pairwise fun p q => Path.compare p q = .lt := by
  fun_induction dropRepeats same xs with
  | case1 => exact .nil
  | case2 x xs ih =>
    obtain ⟨hx, hxs⟩ := List.pairwise_cons.1 h
    have hrest := hxs.sublist (List.dropWhile_sublist (same x))
    refine List.pairwise_cons.2 ⟨fun y hy => ?_, ih hrest⟩
    have hy := (dropRepeats_sublist _ _).subset hy
    -- the first that is left differs from `x`, and the others come after it
    cases hz : xs.dropWhile (same x) with
    | nil => rw [hz] at hy; cases hy
    | cons z zs =>
      rw [hz] at hy hrest
      have hmem : z ∈ xs := (List.dropWhile_sublist (same x)).subset (hz ▸ List.mem_cons_self)
      have hne : ¬ same x z := by
        have hhead := List.head_dropWhile_not (same x) (l := xs) (by simp [hz])
        simpa [hz] using hhead
      have hlt : Path.compare x z = .lt := by
        have hle := hx z hmem
        have hneq : Path.compare x z ≠ .eq := fun h => hne ((hsame x z).2 (compare_eq_eq.1 h))
        revert hle hneq
        cases Path.compare x z <;> simp
      rcases List.mem_cons.1 hy with rfl | hy
      · exact hlt
      · exact Std.TransCmp.lt_of_lt_of_isLE hlt ((List.pairwise_cons.1 hrest).1 y hy)

/-! ### The targets -/

/-- The file `p` is among the targets of `rules`. -/
def Polled (v : View) (rules : List Rule) (p : String) : Prop :=
  ∃ ts, pollingTargets v rules = .ok ts ∧ p ∈ ts

lemma pollingTargets_spec (hb : t.Built) (hr : ∀ r ∈ rules, r.IsProper) :
    ∃ ts, pollingTargets t.view rules = .ok ts ∧ ts.Pairwise (Path.compare · · = .lt) ∧
      ∀ p, p ∈ ts ↔ (Canonical p ∧ t.view.isFile p ∧ ∃ dir ∈ roots rules, t.view.Clear dir p) ∧
        ∃ r ∈ rules, r.isMatch (toSlash p) := by
  have hcollect : ∀ dir ∈ roots rules, ∃ fs, t.view.collect dir = .ok fs ∧
      ∀ p, p ∈ fs ↔ Canonical p ∧ t.view.isFile p ∧ t.view.Clear dir p := by
    intro dir hdir
    obtain ⟨r, hmem, rfl⟩ := exists_rule_of_mem_roots hdir
    obtain ⟨ns, hns, hroot, -⟩ := (hr r hmem).exists_rootDir
    exact hroot ▸ Tree.mem_collect hb hns
  obtain ⟨found, hfound, hmem⟩ := exists_mapM hcollect
  have hflat : ∀ p, p ∈ found.flatten ↔
      Canonical p ∧ t.view.isFile p ∧ ∃ dir ∈ roots rules, t.view.Clear dir p :=
    fun p => (hmem p).trans (by grind)
  refine ⟨_, by simp only [pollingTargets, bind, Except.bind, hfound]; rfl,
    pairwise_dropRepeats (List.pairwise_mergeSort ?_ ?_ _) (by simp), fun p => ?_⟩
  · exact fun p q s => Std.TransCmp.isLE_trans
  · intro p q
    rw [@Std.OrientedCmp.eq_swap _ Path.compare _ q p]
    cases Path.compare p q <;> rfl
  · rw [mem_dropRepeats, List.mem_mergeSort, List.mem_filter, hflat, List.any_eq_true]
    -- two plain texts of one path are the same
    intro p hp q hq hsame
    simp only [List.mem_mergeSort, List.mem_filter, hflat] at hp hq
    obtain ⟨⟨⟨ns, hns, rfl⟩, -⟩, -⟩ := hp
    obtain ⟨⟨⟨ms, hms, rfl⟩, -⟩, -⟩ := hq
    simp only [decide_eq_true_eq, components_absolute hns, components_absolute hms] at hsame
    rw [steps_inj.1 hsame]

lemma polled_singleton (hb : t.Built) (hr : r.IsProper) : Polled t.view [r] p ↔
    (Canonical p ∧ t.view.isFile p ∧ t.view.Clear r.rootDir p) ∧ r.isMatch (toSlash p) := by
  obtain ⟨ts, hts, -, hmem⟩ := pollingTargets_spec hb (List.forall_mem_singleton.2 hr)
  simp only [roots_singleton, List.mem_singleton, exists_eq_left] at hmem
  rw [← hmem]
  constructor
  · rintro ⟨ts', hts', hp⟩
    obtain rfl := Except.ok.inj (hts.symm.trans hts')
    exact hp
  · exact fun hp => ⟨ts, hts, hp⟩

lemma toSlash_of_notMem (h : '\\' ∉ p.toList) : toSlash p = p := by
  rw [toSlash, slashed_of_notMem h, String.ofList_toList]

/-- What is clear from a directory is clear from one further down. -/
lemma clear_of_isWithin {v : View} (h : v.Clear dir p) (hdir : isWithin dir' dir)
    (hp : isWithin p dir') : v.Clear dir' p := by
  refine ⟨hp, fun q hq hpq hne => ?_⟩
  obtain ⟨hd, hskip⟩ := h.2 q (isWithin_trans hq hdir) hpq hne
  refine ⟨hd, fun hskip' => hskip ?_⟩
  simp only [View.isSkipped, Bool.and_eq_true, bne_iff_ne, ne_eq] at hskip' ⊢
  refine ⟨fun heq => hskip'.1 ?_, hskip'.2⟩
  -- `dir'` lies between `q` and `dir`
  rw [isWithin, List.isPrefixOf_iff_prefix] at hq hdir
  exact (hq.eq_of_length_le (heq ▸ hdir.length_le)).symm

/-- The root directory of a rule that matches `p` lies below the watched one that leads to `p`. -/
lemma isWithin_rootDir (hr : ∀ r ∈ rules, r.IsProper) (hmem : r ∈ rules) (hdir : dir ∈ roots rules)
    (hp : isWithin p dir) (hpr : isWithin p r.rootDir) : isWithin r.rootDir dir := by
  obtain ⟨dir', hdir', hin⟩ := exists_root hmem
  rw [isWithin, List.isPrefixOf_iff_prefix] at hp hpr
  rcases List.prefix_or_prefix_of_prefix hp hpr with h | h
  · exact List.isPrefixOf_iff_prefix.2 h
  · have hnest : isWithin dir dir' := isWithin_trans (List.isPrefixOf_iff_prefix.2 h) hin
    have hplain : ∀ r ∈ rules, IsPlainest r.rootDir := fun r hmem =>
      Rule.isPlainest_rootDir ⟨"/", r.pattern, (hr r hmem).resolved.fixed⟩
    exact eq_of_isWithin hplain hdir hdir' hnest ▸ hin

/-- **What a rule set polls.** The targets of its rules, each listed once and in path order, except
for those that lie behind a directory which the walk from the watched directories skips. -/
theorem pollingTargets_union (hb : t.Built) (hr : ∀ r ∈ rules, r.IsProper) :
    ∃ ts, pollingTargets t.view rules = .ok ts ∧ ts.Pairwise (Path.compare · · = .lt) ∧
      (∀ r ∈ rules, ∀ p, Polled t.view [r] p →
        (p ∈ ts ↔ ∃ dir ∈ roots rules, t.view.Clear dir p)) ∧
      ∀ p ∈ ts, '\\' ∉ p.toList → ∃ r ∈ rules, Polled t.view [r] p := by
  obtain ⟨ts, hts, hsorted, hmem⟩ := pollingTargets_spec hb hr
  refine ⟨ts, hts, hsorted, fun r hrules p hp => ?_, fun p hp hback => ?_⟩
  · obtain ⟨⟨hcanonical, hfile, -⟩, hmatch⟩ := (polled_singleton hb (hr r hrules)).1 hp
    rw [hmem]
    exact ⟨fun h => h.1.2.2, fun h => ⟨⟨hcanonical, hfile, h⟩, r, hrules, hmatch⟩⟩
  · obtain ⟨⟨hcanonical, hfile, dir, hdir, hclear⟩, r, hrules, hmatch⟩ := (hmem p).1 hp
    refine ⟨r, hrules, (polled_singleton hb (hr r hrules)).2 ⟨⟨hcanonical, hfile, ?_⟩, hmatch⟩⟩
    have hpr : isWithin p r.rootDir := by
      obtain ⟨ns, hns, hroot, hwithin⟩ := (hr r hrules).exists_rootDir
      obtain ⟨ms, hms, rfl⟩ := hcanonical
      rw [toSlash_of_notMem hback] at hmatch
      exact hroot ▸ (isWithin_absolute hns hms).2 (hwithin ms hms hmatch)
    exact clear_of_isWithin hclear (isWithin_rootDir hr hrules hdir hclear.1 hpr) hpr

/-- Next to a rule for `/p` the walk starts there, and the file below `node_modules` is lost to the
rule that polls it alone. -/
theorem pollingTargets_union_hidden :
    ∃ outer inner, Rule.compile "c" "/p/**/*.js" {} = .ok outer ∧
      Rule.compile "c" "/p/node_modules/x/*.js" {} = .ok inner ∧
        let v := (({} : Tree).addFile "/p/node_modules/x/a.js").view
        Polled v [inner] "/p/node_modules/x/a.js" ∧
          ∃ ts, pollingTargets v [outer, inner] = .ok ts ∧ "/p/node_modules/x/a.js" ∉ ts := by
  set v := (({} : Tree).addFile "/p/node_modules/x/a.js").view with hv
  have hcomputed : ((Rule.compile "c" "/p/**/*.js" {}).toOption.bind fun outer =>
      (Rule.compile "c" "/p/node_modules/x/*.js" {}).toOption.map fun inner =>
        (roots [outer, inner], (pollingTargets v [inner]).toOption)) =
      some (["/p"], some ["/p/node_modules/x/a.js"]) := by decide +kernel
  cases ho : Rule.compile "c" "/p/**/*.js" {} with
  | error e => rw [ho] at hcomputed; cases hcomputed
  | ok outer =>
  cases hi : Rule.compile "c" "/p/node_modules/x/*.js" {} with
  | error e => rw [ho, hi] at hcomputed; cases hcomputed
  | ok inner =>
  rw [ho, hi] at hcomputed
  obtain ⟨hroots, hown⟩ := Prod.mk.inj (Option.some.inj hcomputed)
  have hpolled : Polled v [inner] "/p/node_modules/x/a.js" := by
    cases hp : pollingTargets v [inner] with
    | error e => rw [hp] at hown; cases hown
    | ok own =>
      rw [hp] at hown
      exact ⟨own, hp, by simp [Option.some.inj hown]⟩
  have hr : ∀ r ∈ [outer, inner], r.IsProper := by
    simpa using ⟨Rule.isProper_of_compile ho (by decide +kernel),
      Rule.isProper_of_compile hi (by decide +kernel)⟩
  have hb : (({} : Tree).addFile "/p/node_modules/x/a.js").Built :=
    .addFile .empty (by decide +kernel)
  obtain ⟨ts, hts, -, hkeeps, -⟩ := pollingTargets_union hb hr
  refine ⟨outer, inner, rfl, rfl, hpolled, ts, hts, fun hmem => ?_⟩
  obtain ⟨dir, hdir, hclear⟩ := (hkeeps inner (by simp) _ hpolled).1 hmem
  obtain rfl : dir = "/p" := by simpa [hroots] using hdir
  exact (hclear.2 "/p/node_modules" (by decide +kernel) (by decide +kernel)
    (by decide +kernel)).2 (by decide +kernel)

end ChainRunner.Watch
