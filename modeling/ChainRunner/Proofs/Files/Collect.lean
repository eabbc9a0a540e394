import Mathlib.Data.Set.List
import ChainRunner.Proofs.Files.Search

/-!
What the walk collects of a tree to which files and directories were added in any order.

Every file is collected to which directories lead that may be entered, each of them once, whatever
the directory at the top is called and however its path is written.
-/

namespace ChainRunner.Files

open ChainRunner.Path Watch

/-- A file or a directory that is added to a tree. -/
inductive Addition
  | file (path : String)
  | dir (path : String)

def Addition.path : Addition → String
  | .file p | .dir p => p

/-- An absolute path that never goes up. -/
def GoesDown (p : String) : Prop := isAbsolute p ∧ .parent ∉ components p

instance (p : String) : Decidable (GoesDown p) := inferInstanceAs (Decidable (_ ∧ _))

/-- Every path from `root` down to the directory of `p` is a directory, and none of them but `root`
itself is called `node_modules` or begins with a dot. -/
structure View.Reaches (v : View) (root p : String) : Prop where
  below : isWithin p root
  dirs : ∀ q, isWithin q root → isWithin p q → components q ≠ components p → v.isDir q
  names : ∀ q, isWithin q root → isWithin p q → components q ≠ components p →
    components q ≠ components root → ∀ n, (components q).getLast? = some (.name n) →
      n ≠ "node_modules" ∧ n.toList.head? ≠ some '.'

lemma View.isSkipped_iff {root q : String} : isSkipped root q ↔ components q ≠ components root ∧
    ∃ n, (components q).getLast? = some (.name n) ∧
      (n = "node_modules" ∨ n.toList.head? = some '.') := by
  rw [isSkipped, fileName?]
  cases hlast : (components q).getLast? with
  | none => simp
  | some c =>
    have hdot (s : List Char) : ['.'] <+: s ↔ s.head? = some '.' := by cases s <;> simp [eq_comm]
    cases c <;> simp [hdot, or_comm]

lemma View.reaches_iff {v : View} {root p : String} : v.Reaches root p ↔ v.Clear root p := by
  constructor
  · rintro ⟨hbelow, hdirs, hnames⟩
    refine ⟨hbelow, fun q hq hp hne => ⟨hdirs q hq hp hne, fun hskip => ?_⟩⟩
    obtain ⟨hroot, n, hn, hname⟩ := isSkipped_iff.1 hskip
    obtain ⟨hmodules, hdot⟩ := hnames q hq hp hne hroot n hn
    exact hname.elim hmodules hdot
  · rintro ⟨hbelow, h⟩
    refine ⟨hbelow, fun q hq hp hne => (h q hq hp hne).1, fun q hq hp hne hroot n hn => ?_⟩
    have hskip := mt isSkipped_iff.2 (h q hq hp hne).2
    exact not_or.1 fun hname => hskip ⟨hroot, n, hn, hname⟩

namespace Tree

def add (t : Tree) : Addition → Tree
  | .file p => t.addFile p
  | .dir p => t.addDir p

/-- The tree after some additions, one after the other. -/
def grow (adds : List Addition) : Tree := adds.foldl add {}

/-- No directory lists an entry twice. -/
def Distinct (t : Tree) : Prop := ∀ dir names, t.find? dir = some (.dir names) → names.Nodup

/-- Nothing in the tree has a way up in its path. -/
def Downward (t : Tree) : Prop := ∀ key, t.Has key → ∃ ns, key = steps ns

variable {t : Tree} {adds : List Addition} {a : Addition} {key dir k : List Component}
  {dirs : List (List Component)} {e : Entry} {p q root root' : String} {top ns ms : List String}
  {m : Nat}

/-! ### Additions -/

/-- What every addition keeps holds in the end. -/
lemma grow_induction {P : Tree → Prop} (hnil : P {})
    (hadd : ∀ a ∈ adds, ∀ t, P t → P (t.add a)) : P (grow adds) := by
  suffices h : ∀ t, P t → P (adds.foldl add t) from h {} hnil
  induction adds with
  | nil => exact fun t h => h
  | cons a adds ih =>
    obtain ⟨ha, hadds⟩ := List.forall_mem_cons.1 hadd
    exact fun t h => ih hadds _ (ha t h)

lemma built_grow (h : ∀ a ∈ adds, isAbsolute a.path) : (grow adds).Built := by
  refine grow_induction .empty fun a ha t ht => ?_
  cases a with
  | file p => exact .addFile ht (h _ ha)
  | dir p => exact .addDir ht (h _ ha)

/-- What is true of a place and of the directories that hold it. -/
lemma everywhere_grow {P : List Component → Prop}
    (hup : ∀ {key dir}, P key → dir ∈ ancestors key → P dir)
    (h : ∀ a ∈ adds, P (components a.path)) : (grow adds).Everywhere P := by
  have hnil : ({} : Tree).Everywhere P := fun key hkey => by simp [Has, find?] at hkey
  refine grow_induction (P := (·.Everywhere P)) hnil fun a ha t ht => ?_
  cases a with
  | file p => exact ht.addFile (h _ ha) fun dir => hup (h _ ha)
  | dir p => exact ht.addDir (h _ ha) fun dir => hup (h _ ha)

lemma held_grow (adds : List Addition) : (grow adds).Held [] := by
  refine grow_induction (P := (Held · [])) held_empty fun a _ t ht => ?_
  cases a with
  | file p => exact ht.addFile p
  | dir p => exact ht.addDir p

/-! ### What no addition changes -/

lemma Distinct.put (h : t.Distinct) (he : ∀ names, e = .dir names → names.Nodup) :
    (t.put key e).Distinct := by
  intro dir names hdir
  rw [find?_put] at hdir
  split at hdir
  · exact he names (Option.some.inj hdir)
  · exact h dir names hdir

lemma Distinct.enlist (h : t.Distinct) : (t.enlist dir key).Distinct := by
  rcases enlist_eq t dir key with he | ⟨names, n, hdir, -, hn, he⟩ <;> rw [he]
  · exact h
  · refine h.put fun names' hnames => ?_
    obtain rfl := Entry.dir.inj hnames
    exact (h dir names hdir).append (List.nodup_singleton n) (by simpa using hn)

lemma Distinct.link (h : t.Distinct) : (t.link key dirs).Distinct := by
  induction dirs generalizing t key with
  | nil => exact h
  | cons dir dirs ih =>
    rw [Tree.link]
    split
    · exact h.enlist
    · exact (ih (h.put fun names hnames => by cases hnames; exact .nil)).enlist

lemma Distinct.add (h : t.Distinct) : (t.add a).Distinct := by
  cases a with
  | file p => exact (h.put fun names hnames => by cases hnames).link
  | dir p =>
    simp only [Tree.add, addDir]
    split
    · exact h
    · exact (h.put fun names hnames => by cases hnames; exact .nil).link

lemma distinct_grow (adds : List Addition) : (grow adds).Distinct := by
  refine grow_induction (fun dir names hdir => ?_) fun a _ t ht => ht.add
  simp [find?] at hdir

lemma exists_steps_of_mem_ancestors (h : dir ∈ ancestors (steps ns)) : ∃ ms, dir = steps ms := by
  simp only [ancestors, steps, true_or, if_true, List.mem_map] at h
  obtain ⟨i, -, rfl⟩ := h
  exact ⟨ns.take i, by rw [steps, List.map_take]⟩

lemma GoesDown.exists_steps (h : GoesDown p) : ∃ ns, components p = steps ns := by
  obtain ⟨habs, hup⟩ := h
  obtain ⟨s, hs⟩ : ['/'] <+: p.toList := String.startsWith_string_iff.1 habs
  have hp : components p = .root :: (segments s).filterMap Component.ofSegment? := by
    rw [← components_rooted, ← List.singleton_append, hs, String.ofList_toList]
  rw [hp] at hup ⊢
  have hnames : (segments s).filterMap Component.ofSegment? ∈ Set.range (List.map .name) := by
    rw [Set.range_list_map]
    intro c hc
    obtain ⟨seg, -, hseg⟩ := List.mem_filterMap.1 hc
    unfold Component.ofSegment? at hseg
    split at hseg
    · cases hseg
    · split at hseg
      · exact absurd (Option.some.inj hseg ▸ List.mem_cons_of_mem _ hc) hup
      · exact ⟨_, Option.some.inj hseg⟩
  obtain ⟨ns, hns⟩ := hnames
  exact ⟨ns, by rw [steps, hns]⟩

lemma downward_grow (h : ∀ a ∈ adds, GoesDown a.path) : (grow adds).Downward :=
  everywhere_grow (fun ⟨_, hkey⟩ hdir => exists_steps_of_mem_ancestors (hkey ▸ hdir))
    fun a ha => GoesDown.exists_steps (h a ha)

/-! ### The walk comes to an end -/

lemma isSkipped_congr_root (h : components root = components root') :
    View.isSkipped root p = View.isSkipped root' p := by
  simp only [View.isSkipped, h]

lemma Leads.concat {n : String} (h : t.Leads top ns ms) (hdir : t.view.isDir (absolute ms))
    (hskip : ¬View.isSkipped (absolute top) (absolute ms)) : t.Leads top ns (ms ++ [n]) := by
  refine ⟨h.1.trans (List.prefix_append ..), fun ds hns hds hne => ?_⟩
  have hds : ds <+: ms := (List.prefix_concat_iff.1 hds).resolve_left hne
  by_cases heq : ds = ms
  · exact heq ▸ ⟨hdir, hskip⟩
  · exact h.2 ds hns hds heq

/-- Directories that lead down can lie no deeper than there are entries. -/
lemma Leads.shallow (hb : t.Built) (h : t.Leads top top ns) (hns : t.Has (steps ns))
    (hroot : components root = steps top) (hp : components p = steps ns)
    (hk : top.length + t.entries.length ≤ ns.length + m) : t.view.Shallow root m p := by
  -- by induction over the levels left: each name on the way is one more entry of the tree
  induction m generalizing ns p with
  | zero => exact absurd (h.length_lt hns (hb.areNames hns)) (by omega)
  | succ m ih =>
    have hnames := hb.areNames hns
    have htop : components root = components (absolute top) := by
      rw [hroot, components_absolute (hnames.above h.1)]
    have hsame : components p = components (absolute ns) := by rw [hp, components_absolute hnames]
    by_cases hdir : t.view.isDir p
    · by_cases hskip : View.isSkipped root p
      · exact .inr (.inr (.inl hskip))
      rw [isDir_congr hsame] at hdir
      rw [isSkipped_congr hsame, isSkipped_congr_root htop] at hskip
      obtain ⟨names, hfind⟩ := (isDir_absolute hnames).1 hdir
      refine .inr (.inr (.inr ⟨names.map (join p), by simp [view, hp, hfind], fun q hq => ?_⟩))
      obtain ⟨n, hn, rfl⟩ := List.mem_map.1 hq
      have hjoin : components (join p n) = steps (ns ++ [n]) := by
        rw [components_joined p (hb.isName hfind hn), hp, steps_append, List.map_singleton]
      have hhas : t.Has (steps (ns ++ [n])) := by
        rw [steps_append]
        exact (hb.mem_names_iff hfind).1 hn
      refine ih (h.concat hdir hskip) hhas hjoin ?_
      rw [List.length_append, List.length_singleton]
      omega
    · exact .inr (.inl hdir)

lemma Downward.shallow (h : t.Downward) (hb : t.Built) (root : String) :
    t.view.Shallow root (t.view.depth + 1) root := by
  by_cases hhas : t.Has (components root)
  · obtain ⟨top, hroot⟩ := h _ hhas
    rw [hroot] at hhas
    exact (leads_iff.2 (.inl rfl)).shallow hb hhas hroot hroot (by simp only [view]; omega)
  · exact .inr (.inl (by simp [view, not_not.1 hhas]))

/-! ### How a path is written makes no difference -/

lemma exists_mapM_congr {α β γ ε : Type} {f g : α → Except ε (List β)} {φ : β → γ} {xs : List α}
    {yss : List (List β)} (h : xs.mapM f = .ok yss)
    (hfg : ∀ x ∈ xs, ∀ ys, f x = .ok ys → ∃ zs, g x = .ok zs ∧ zs.map φ = ys.map φ) :
    ∃ zss, xs.mapM g = .ok zss ∧ zss.flatten.map φ = yss.flatten.map φ := by
  simp only [mapM_eq_ok] at h ⊢
  induction h with
  | nil => exact ⟨[], .nil, rfl⟩
  | @cons x ys xs yss hx _ ih =>
    obtain ⟨hone, hrest⟩ := List.forall_mem_cons.1 hfg
    obtain ⟨zs, hzs, heq⟩ := hone ys hx
    obtain ⟨zss, hzss, hrest⟩ := ih hrest
    exact ⟨zs :: zss, .cons hzs hzss, by simp only [List.flatten_cons, List.map_append, heq, hrest]⟩

lemma walk_congr (hb : t.Built) (hroot : components root = components root')
    (hp : components p = components q) {fs : List String} (h : t.view.walk root m p = .ok fs) :
    ∃ fs', t.view.walk root' m q = .ok fs' ∧ fs'.map components = fs.map components := by
  induction m generalizing p q fs with
  | zero => exact ⟨[], rfl, by cases h; rfl⟩
  | succ m ih =>
    have hfile : t.view.isFile q = t.view.isFile p := by simp only [view, hp]
    have hdir : t.view.isDir q = t.view.isDir p := isDir_congr hp.symm
    have hskip : View.isSkipped root' q = View.isSkipped root p := by
      rw [isSkipped_congr hp.symm, isSkipped_congr_root hroot]
    simp only [View.walk_succ_eq_ok, hfile, hdir, hskip] at h ⊢
    rcases h with ⟨hf, rfl⟩ | ⟨hf, hpass, rfl⟩ | ⟨hf, hd, hs, ps, fss, hlist, hfss, rfl⟩
    · exact ⟨[q], .inl ⟨hf, rfl⟩, by simp [hp]⟩
    · exact ⟨[], .inr (.inl ⟨hf, hpass, rfl⟩), rfl⟩
    · obtain ⟨names, hfind, rfl⟩ := list_eq_ok.1 hlist
      have hjoin : ∀ n ∈ names, components (join p n) = components (join q n) := by
        intro n hn
        have hname := hb.isName hfind hn
        rw [components_joined p hname, components_joined q hname, hp]
      rw [List.mapM_map] at hfss
      obtain ⟨fss', hfss', heq⟩ := exists_mapM_congr (g := t.view.walk root' m ∘ join q) hfss
        fun n hn ys hys => ih (hjoin n hn) hys
      exact ⟨fss'.flatten, .inr (.inr ⟨hf, hd, hs, _, fss', list_eq_ok.2 ⟨names, hp ▸ hfind, rfl⟩,
        by rwa [List.mapM_map], rfl⟩), heq⟩

lemma clear_congr (hroot : components root = components root') (hp : components p = components q) :
    t.view.Clear root p ↔ t.view.Clear root' q := by
  simp only [View.Clear, isWithin, hroot, hp, isSkipped_congr_root hroot]

/-! ### What is collected -/

lemma has_of_isFile (h : t.view.isFile p) : t.Has (components p) :=
  has_of_find? (by simpa [view] using h)

lemma has_of_isDir (h : t.view.isDir p) : t.Has (components p) := by
  intro hnone
  simp [view, hnone] at h

lemma Distinct.nodup_list (h : t.Distinct) (hb : t.Built) {ps : List String}
    (hlist : t.view.list p = .ok ps) : (ps.map components).Nodup := by
  obtain ⟨names, hfind, rfl⟩ := list_eq_ok.1 hlist
  have hjoin : ∀ n ∈ names, components (join p n) = components p ++ [.name n] := fun n hn =>
    components_joined p (hb.isName hfind hn)
  rw [List.map_map]
  refine (h _ names hfind).map_on fun n hn n' hn' heq => ?_
  simpa [hjoin n hn, hjoin n' hn'] using heq

lemma Downward.mem_collect (h : t.Downward) (hb : t.Built) {fs : List String}
    (hfs : t.view.collect root = .ok fs) :
    (∃ f ∈ fs, components f = components p) ↔ t.view.isFile p ∧ t.view.Reaches root p := by
  obtain ⟨found, hfound, rfl⟩ := View.collect_eq_ok.1 hfs
  simp only [List.mem_mergeSort, View.reaches_iff]
  by_cases hhas : t.Has (components root)
  · obtain ⟨top, hroot⟩ := h _ hhas
    have htop : AreNames top := hb.areNames (hroot ▸ hhas)
    rw [← components_absolute htop] at hroot
    -- the plain text of the root is walked alike
    obtain ⟨plain, hplain, heq⟩ := walk_congr hb hroot hroot hfound
    obtain ⟨fs, hfs', hmem⟩ := Tree.mem_collect hb htop
    obtain ⟨plain', hplain', rfl⟩ := View.collect_eq_ok.1 hfs'
    obtain rfl : plain = plain' := Except.ok.inj (hplain.symm.trans hplain')
    simp only [List.mem_mergeSort] at hmem
    rw [← List.mem_map, ← heq, List.mem_map]
    constructor
    · rintro ⟨f, hf, hfp⟩
      obtain ⟨-, hfile, hclear⟩ := (hmem f).1 hf
      rw [clear_congr hroot.symm hfp] at hclear
      exact ⟨by simpa only [view, hfp] using hfile, hclear⟩
    · rintro ⟨hfile, hclear⟩
      obtain ⟨ms, hms⟩ := h _ (has_of_isFile hfile)
      have hnames : AreNames ms := hb.areNames (hms ▸ has_of_isFile hfile)
      rw [← components_absolute hnames] at hms
      refine ⟨absolute ms, (hmem _).2 ⟨⟨ms, hnames, rfl⟩, ?_, ?_⟩, hms.symm⟩
      · simpa only [view, hms] using hfile
      · exact (clear_congr hroot hms).1 hclear
  · -- nothing is found where nothing is
    constructor
    · rintro ⟨f, hf, -⟩
      rcases View.walk_succ_eq_ok.1 hfound with ⟨hfile, -⟩ | ⟨-, -, rfl⟩ | ⟨-, hdir, -⟩
      · exact absurd (has_of_isFile hfile) hhas
      · cases hf
      · exact absurd (has_of_isDir hdir) hhas
    · rintro ⟨hfile, hbelow, hdirs⟩
      by_cases heq : components root = components p
      · exact absurd (heq ▸ has_of_isFile hfile) hhas
      · exact absurd (has_of_isDir (hdirs root (isWithin_refl root) hbelow heq).1) hhas

/-- Files over a directory, below a file and in a hidden directory below a hidden one. -/
def overgrown : List Addition :=
  [.file "/p/.git/HEAD", .file "/p/.git/b/c", .file "/p/.git/b", .dir "/p/.git/HEAD",
    .file "/p/.git/HEAD/d", .file "/p/.git/.x/y", .file "/p/a"]

end Tree

end ChainRunner.Files
