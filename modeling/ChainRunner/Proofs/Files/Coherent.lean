import ChainRunner.Proofs.Files.Collect

/-!
What the directories of a tree list, when files and directories were added by relative paths too.

A lone name lies in no directory but `.`, and is listed there as `./name`, which is another path. So
where there are lone names next to the directory `.`, it lists what is not there.
-/

namespace ChainRunner.Files

open ChainRunner.Path

/-- Whatever a directory lists is there, and whatever is there is listed once by the directory one
step up, if that is one. -/
structure View.Coherent (v : View) : Prop where
  listed : ∀ p ps, v.list p = .ok ps → ∀ q ∈ ps, v.pathExists q
  lists : ∀ p dir, v.pathExists p → parentComponents? (components p) = some (components dir) →
    v.isDir dir → ∃ ps, v.list dir = .ok ps ∧ (ps.map components).count (components p) = 1

/-- Every lone name next to a directory `.` is in that directory, too, and there is none, nor `.`,
where the empty path is a directory. -/
structure View.Tidy (v : View) : Prop where
  here : v.isDir "." → ∀ n, IsName n → v.pathExists n → v.pathExists (join "." n)
  empty : v.isDir "" → ¬v.pathExists "." ∧ ∀ n, IsName n → ¬v.pathExists n

namespace Tree

variable {t : Tree} {adds : List Addition} {key dir : List Component} {p n : String}
  {names : List String}

/-! ### Places of paths without a way up -/

/-- Names, and in front of them the root, or `.`, or nothing. -/
structure Level (key : List Component) : Prop where
  up : .parent ∉ key
  here : .current ∉ key.tail
  names : ∀ n, .name n ∈ key → IsName n

lemma current_notMem_filterMap (segs : Segments) :
    .current ∉ segs.filterMap Component.ofSegment? := by
  intro h
  obtain ⟨seg, -, hseg⟩ := List.mem_filterMap.1 h
  unfold Component.ofSegment? at hseg
  split at hseg
  · cases hseg
  · split at hseg <;> cases hseg

lemma level_components (h : .parent ∉ components p) : Level (components p) := by
  refine ⟨h, ?_, fun _ => isName_of_mem_components⟩
  unfold components
  split
  · exact current_notMem_filterMap _
  · split
    · exact current_notMem_filterMap _
    · exact fun hmem => current_notMem_filterMap _ (List.mem_of_mem_tail hmem)

lemma Level.above (h : Level key) (hp : dir <+: key) : Level dir where
  up hmem := h.up (hp.subset hmem)
  here hmem := by
    obtain ⟨rest, rfl⟩ := hp
    cases dir with
    | nil => cases hmem
    | cons d ds => exact h.here (List.mem_append_left _ hmem)
  names n hn := h.names n (hp.subset hn)

lemma mem_ancestors (h : dir ∈ ancestors key) : dir = [.current] ∨ dir ≠ [] ∧ dir <+: key := by
  cases key with
  | nil => cases h
  | cons d cs =>
    have hbelow (h : dir ∈ (List.range cs.length).reverse.map fun i => d :: cs.take i) :
        dir ≠ [] ∧ dir <+: d :: cs := by
      obtain ⟨i, -, rfl⟩ := List.mem_map.1 h
      exact ⟨by simp, List.cons_prefix_cons.2 ⟨rfl, List.take_prefix ..⟩⟩
    simp only [ancestors] at h
    split at h
    · exact .inr (hbelow h)
    · rcases List.mem_append.1 h with h | h
      · exact .inr (hbelow h)
      · exact .inl (List.mem_singleton.1 h)

lemma Level.ancestors (h : Level key) (hdir : dir ∈ Tree.ancestors key) : Level dir := by
  rcases mem_ancestors hdir with rfl | ⟨-, hp⟩
  · exact ⟨by simp, by simp, by simp⟩
  · exact h.above hp

lemma level_grow (h : ∀ a ∈ adds, .parent ∉ components a.path) : (grow adds).Everywhere Level :=
  everywhere_grow Level.ancestors fun a ha => level_components (h a ha)

/-- Absolute, or from `.` on. -/
def Anchored (key : List Component) : Prop :=
  key.head? = some .root ∨ key.head? = some .current

instance : DecidablePred Anchored := fun _ => inferInstanceAs (Decidable (_ ∨ _))

lemma Anchored.ancestors (h : Anchored key) (hdir : dir ∈ Tree.ancestors key) : Anchored dir := by
  rcases mem_ancestors hdir with rfl | ⟨hne, cs, rfl⟩
  · exact .inr rfl
  · rwa [Anchored, List.head?_append_of_ne_nil _ hne] at h

/-! ### What is listed -/

/-- The entry is there that the directory lists as `n`: it is in the directory, or it is called `n`
alone and the directory is `.`. -/
def Stands (t : Tree) (dir : List Component) (n : String) : Prop :=
  dir ≠ [] ∧ t.Has (dir ++ [.name n]) ∨ dir = [.current] ∧ t.Has [.name n]

lemma isName_of_stands (hl : t.Everywhere Level) (h : t.Stands dir n) : IsName n := by
  rcases h with ⟨-, h⟩ | ⟨-, h⟩
  · exact (hl _ h).names n (by simp)
  · exact (hl _ h).names n (by simp)

/-- A directory lists each name once for which there is an entry. -/
lemma exists_list (hl : t.Everywhere Level) (hh : t.Held []) (hd : t.Distinct)
    (hdir : t.view.isDir p) : ∃ names : List String, t.view.list p = .ok (names.map (join p)) ∧
      (names.map (join p)).map components = names.map (components p ++ [.name ·]) ∧
      names.Nodup ∧ ∀ n, n ∈ names ↔ t.Stands (components p) n := by
  obtain ⟨names, hfind⟩ := isDir_iff.1 hdir
  have hmem (n : String) : n ∈ names ↔ t.Stands (components p) n := hh.mem_names_iff hfind
  refine ⟨names, list_eq_ok.2 ⟨names, hfind, rfl⟩, ?_, hd _ _ hfind, hmem⟩
  rw [List.map_map]
  exact List.map_congr_left fun n hn =>
    components_joined p (isName_of_stands hl ((hmem n).1 hn))

/-! ### Coherence -/

/-- The last step to a place that is in some directory is a name, or the place is `.`. -/
lemma Level.eq_of_parent (h : Level key) (hdir : parentComponents? key = some dir) :
    key = [.current] ∧ dir = [] ∨ ∃ n, key = dir ++ [.name n] := by
  unfold parentComponents? at hdir
  rcases List.eq_nil_or_concat key with rfl | ⟨cs, c, rfl⟩
  · cases hdir
  rw [List.concat_eq_append] at h hdir ⊢
  rw [List.getLast?_concat] at hdir
  cases c with
  | root => cases hdir
  | parent => exact absurd (by simp) h.up
  | name n =>
    obtain rfl : cs = dir := by simpa using hdir
    exact .inr ⟨n, rfl⟩
  | current =>
    cases cs with
    | nil => exact .inl ⟨rfl, by simpa [eq_comm] using hdir⟩
    | cons d ds => exact absurd (by simp) h.here

lemma nodup_places (h : names.Nodup) : (names.map (key ++ [.name ·])).Nodup :=
  h.map fun n m hnm => by simpa using hnm

lemma mem_places : key ++ [.name n] ∈ names.map (key ++ [Component.name ·]) ↔ n ∈ names := by
  simp

lemma components_here : components "." = [.current] := by decide

lemma components_empty : components "" = [] := by decide

lemma stands_iff (hn : IsName n) : t.Stands (components p) n ↔
    components p ≠ [] ∧ t.view.pathExists (join p n) ∨
      components p = [.current] ∧ t.view.pathExists n := by
  rw [Stands, pathExists_iff, pathExists_iff, components_joined p hn, components_of_isName hn]

section

variable (hl : t.Everywhere Level) (hh : t.Held []) (hd : t.Distinct)

include hl hh hd

/-- The empty path lists nothing, also not the paths of one step. -/
lemma not_pathExists_of_coherent (h : t.view.Coherent) (hdir : t.view.isDir "")
    (hp : parentComponents? (components p) = some []) : ¬t.view.pathExists p := by
  intro hex
  obtain ⟨names, hlist, -, -, hmem⟩ := exists_list hl hh hd hdir
  obtain rfl : names = [] := List.eq_nil_iff_forall_not_mem.2 fun n hn => by
    simpa [Stands, components_empty] using (hmem n).1 hn
  obtain ⟨ps, hps, hcount⟩ := h.lists p "" hex (hp.trans (by rw [components_empty])) hdir
  cases hlist.symm.trans hps
  cases hcount

lemma tidy_of_coherent (h : t.view.Coherent) : t.view.Tidy where
  here hdir n hn hex := by
    obtain ⟨names, hlist, -, -, hmem⟩ := exists_list hl hh hd hdir
    have hstands := (stands_iff hn).2 (.inr ⟨components_here, hex⟩)
    exact h.listed "." _ hlist _ (List.mem_map_of_mem ((hmem n).2 hstands))
  empty hdir := by
    refine ⟨not_pathExists_of_coherent hl hh hd h hdir (by rw [components_here]; rfl), ?_⟩
    intro n hn
    exact not_pathExists_of_coherent hl hh hd h hdir (by rw [components_of_isName hn]; rfl)

lemma pathExists_of_mem_list (h : t.view.Tidy) {ps : List String} {q : String}
    (hps : t.view.list p = .ok ps) (hq : q ∈ ps) : t.view.pathExists q := by
  obtain ⟨_, hfind, -⟩ := list_eq_ok.1 hps
  have hdir : t.view.isDir p := isDir_iff.2 ⟨_, hfind⟩
  obtain ⟨names, hlist, -, -, hmem⟩ := exists_list hl hh hd hdir
  cases hps.symm.trans hlist
  obtain ⟨n, hn, rfl⟩ := List.mem_map.1 hq
  have hstands := (hmem n).1 hn
  have hname := isName_of_stands hl hstands
  rcases (stands_iff hname).1 hstands with ⟨-, hex⟩ | ⟨hp, hex⟩
  · exact hex
  · have heq : components p = components "." := hp.trans components_here.symm
    have hex := pathExists_iff.1 (h.here (isDir_congr heq ▸ hdir) n hname hex)
    rw [components_joined _ hname, ← heq, ← components_joined _ hname] at hex
    exact pathExists_iff.2 hex

lemma count_list_eq_one (h : t.view.Tidy) {dir : String} (hex : t.view.pathExists p)
    (hp : parentComponents? (components p) = some (components dir)) (hdir : t.view.isDir dir) :
    ∃ ps, t.view.list dir = .ok ps ∧ (ps.map components).count (components p) = 1 := by
  have hhas := pathExists_iff.1 hex
  have hempty (hnil : components dir = []) :=
    h.empty (isDir_congr (hnil.trans components_empty.symm) ▸ hdir)
  rcases (hl _ hhas).eq_of_parent hp with ⟨hp, hnil⟩ | ⟨n, hp⟩
  · exact absurd (pathExists_iff.2 (by rwa [components_here, ← hp])) (hempty hnil).1
  · have hname : IsName n := (hl _ hhas).names n (by simp [hp])
    have hne : components dir ≠ [] := by
      intro hnil
      rw [hp, hnil, List.nil_append, ← components_of_isName hname] at hhas
      exact (hempty hnil).2 n hname (pathExists_iff.2 hhas)
    obtain ⟨names, hlist, hmap, hnodup, hmem⟩ := exists_list hl hh hd hdir
    have hn : n ∈ names := (hmem n).2 (.inl ⟨hne, hp ▸ hhas⟩)
    refine ⟨_, hlist, ?_⟩
    rw [hmap, hp]
    exact List.count_eq_one_of_mem (nodup_places hnodup) (mem_places.2 hn)

lemma coherent_iff_tidy : t.view.Coherent ↔ t.view.Tidy :=
  ⟨tidy_of_coherent hl hh hd, fun h =>
    ⟨fun _ _ hps _ hq => pathExists_of_mem_list hl hh hd h hps hq,
      fun _ _ hex hp hdir => count_list_eq_one hl hh hd h hex hp hdir⟩⟩

end

lemma tidy_of_anchored (ha : t.Everywhere Anchored) : t.view.Tidy where
  here _ n hn hex := by
    have hno := ha _ (pathExists_iff.1 hex)
    simp [Anchored, components_of_isName hn] at hno
  empty hdir := by
    obtain ⟨names, hfind⟩ := isDir_iff.1 hdir
    have hno := ha _ (has_of_find? hfind)
    simp [Anchored, components_empty] at hno

end Tree

end ChainRunner.Files
