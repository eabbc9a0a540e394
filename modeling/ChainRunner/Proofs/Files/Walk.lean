import Mathlib.Data.List.Nodup
import Mathlib.Data.List.Perm.Subperm
import ChainRunner.Proofs.Files.Tree

/-!
The files that the walk of a tree lists.

A file is found from a directory exactly if every directory on the way is there and is not
skipped. The bound on the depth never cuts a walk short: every directory on the way is an entry.
-/

namespace ChainRunner.Files

open ChainRunner.Path

/-- Every directory from `dir` down to the one that holds `p` is there and may be entered. -/
def View.Clear (v : View) (dir p : String) : Prop :=
  isWithin p dir ∧ ∀ q, isWithin q dir → isWithin p q → components q ≠ components p →
    v.isDir q ∧ ¬ View.isSkipped dir q

lemma exists_mapM {α β ε : Type} {f : α → Except ε (List β)} {P : α → β → Prop} {xs : List α}
    (h : ∀ x ∈ xs, ∃ ys, f x = .ok ys ∧ ∀ y, y ∈ ys ↔ P x y) :
    ∃ yss, xs.mapM f = .ok yss ∧ ∀ y, y ∈ yss.flatten ↔ ∃ x ∈ xs, P x y := by
  induction xs with
  | nil => exact ⟨[], rfl, by simp⟩
  | cons x xs ih =>
    obtain ⟨ys, hys, hy⟩ := h x (by simp)
    obtain ⟨yss, hyss, hyy⟩ := ih fun x hx => h x (by simp [hx])
    refine ⟨ys :: yss, by rw [List.mapM_cons, hys, hyss]; rfl, fun y => ?_⟩
    simp [List.mem_append, hy, hyy]

namespace Tree

variable {t : Tree} {top ns ms ds names : List String} {n p : String} {key : List Component}

/-! ### Looking at one path -/

lemma isFile_absolute (h : AreNames ns) :
    t.view.isFile (absolute ns) ↔ t.find? (steps ns) = some .file := by
  simp [view, components_absolute h]

lemma isDir_absolute (h : AreNames ns) :
    t.view.isDir (absolute ns) ↔ ∃ names, t.find? (steps ns) = some (.dir names) := by
  simp only [view, components_absolute h]
  split <;> simp_all

lemma list_absolute (hb : t.Built) (h : AreNames ns)
    (hdir : t.find? (steps ns) = some (.dir names)) :
    t.view.list (absolute ns) = .ok (names.map fun n => absolute (ns ++ [n])) := by
  simp only [view, components_absolute h, hdir, Except.ok.injEq]
  exact List.map_congr_left fun n hn => join_absolute h (hb.isName hdir hn)

lemma Built.areNames (hb : t.Built) (h : t.Has (steps ns)) : AreNames ns :=
  fun n hn => (hb.proper _ h).names n (by simp [steps, hn])

/-! ### The way down -/

/-- Every directory from `ns` down to the one that holds `ms` is there and may be entered. -/
def Leads (t : Tree) (top ns ms : List String) : Prop :=
  ns <+: ms ∧ ∀ ds, ns <+: ds → ds <+: ms → ds ≠ ms →
    t.view.isDir (absolute ds) ∧ ¬ View.isSkipped (absolute top) (absolute ds)

lemma leads_iff : t.Leads top ns ms ↔ ms = ns ∨
    (t.view.isDir (absolute ns) ∧ ¬ View.isSkipped (absolute top) (absolute ns)) ∧
      ∃ n, t.Leads top (ns ++ [n]) ms := by
  constructor
  · rintro ⟨⟨rest, rfl⟩, h⟩
    cases rest with
    | nil => simp
    | cons n rest =>
      refine .inr ⟨h ns (List.prefix_refl _) (List.prefix_append ..) (by simp), n, ?_, ?_⟩
      · exact ⟨rest, by simp⟩
      · exact fun ds hd => h ds ((List.prefix_append ..).trans hd)
  · rintro (rfl | ⟨hns, n, hp, h⟩)
    · exact ⟨List.prefix_refl _, fun ds h1 h2 hne => absurd (h2.eq_of_length_le h1.length_le) hne⟩
    · refine ⟨(List.prefix_append ..).trans hp, fun ds h1 h2 hne => ?_⟩
      by_cases heq : ds = ns
      · exact heq ▸ hns
      · -- a list between `ns` and `ms` that is not `ns` starts with the same step
        refine h ds (List.prefix_of_prefix_length_le hp h2 ?_) h2 hne
        have hlt : ns.length < ds.length :=
          Nat.lt_of_not_le fun hle => heq (h1.eq_of_length_le hle).symm
        simpa using Nat.succ_le_of_lt hlt

lemma isDir_congr {q : String} (h : components p = components q) :
    t.view.isDir p = t.view.isDir q := by simp only [view, h]

lemma isSkipped_congr {dir q : String} (h : components p = components q) :
    View.isSkipped dir p = View.isSkipped dir q := by
  simp only [View.isSkipped, fileName?, h]

lemma leads_clear (hns : AreNames ns) (hms : AreNames ms) :
    t.Leads ns ns ms ↔ t.view.Clear (absolute ns) (absolute ms) := by
  simp only [Leads, View.Clear, isWithin_absolute hns hms]
  refine and_congr_right fun hpre => ⟨fun h q hq hp hne => ?_, fun h ds h1 h2 hne => ?_⟩
  · rw [isWithin, List.isPrefixOf_iff_prefix, components_absolute hns] at hq
    rw [isWithin, List.isPrefixOf_iff_prefix, components_absolute hms] at hp
    obtain ⟨ds, hds⟩ : ∃ ds, components q = steps ds := by
      obtain ⟨cs, hcs⟩ := hq
      rw [← hcs, steps, List.cons_append, steps, List.cons_prefix_cons] at hp
      obtain ⟨ds, -, heq⟩ := List.prefix_map_iff.1 hp.2
      exact ⟨ds, by rw [← hcs, steps, List.cons_append, heq, steps]⟩
    rw [hds, prefix_steps] at hq hp
    have hnames := hms.above hp
    have hsame : components q = components (absolute ds) := by
      rw [hds, components_absolute hnames]
    rw [isDir_congr hsame, isSkipped_congr hsame]
    exact h ds hq hp (by rwa [hds, components_absolute hms, ne_eq, steps_inj] at hne)
  · have hds : AreNames ds := hms.above h2
    refine h _ ((isWithin_absolute hns hds).2 h1) ((isWithin_absolute hds hms).2 h2) ?_
    rwa [components_absolute hds, components_absolute hms, ne_eq, steps_inj]

/-- The way down from `ns` leads to the file `p`, fewer than `k` steps down. -/
def Found (t : Tree) (top ns : List String) (k : Nat) (p : String) : Prop :=
  ∃ ms, p = absolute ms ∧ t.find? (steps ms) = some .file ∧ ms.length < ns.length + k ∧
    t.Leads top ns ms

lemma not_found_zero : ¬ t.Found top ns 0 p := by
  rintro ⟨ms, -, -, hlen, hlead, -⟩
  exact absurd hlead.length_le (by omega)

lemma found_succ {k : Nat} : t.Found top ns (k + 1) p ↔
    (p = absolute ns ∧ t.find? (steps ns) = some .file) ∨
      (t.view.isDir (absolute ns) ∧ ¬ View.isSkipped (absolute top) (absolute ns)) ∧
        ∃ n, t.Found top (ns ++ [n]) k p := by
  constructor
  · rintro ⟨ms, rfl, hfile, hlen, hlead⟩
    rcases leads_iff.1 hlead with rfl | ⟨h, n, hlead⟩
    · exact .inl ⟨rfl, hfile⟩
    · exact .inr ⟨h, n, ms, rfl, hfile, by grind, hlead⟩
  · rintro (⟨rfl, hfile⟩ | ⟨h, n, ms, rfl, hfile, hlen, hlead⟩)
    · exact ⟨ns, rfl, hfile, by omega, leads_iff.2 (.inl rfl)⟩
    · simp only [List.length_append, List.length_singleton] at hlen
      exact ⟨ms, rfl, hfile, by omega, leads_iff.2 (.inr ⟨h, n, hlead⟩)⟩

/-- Only what a directory lists can be found below it. -/
lemma Found.mem_names {k : Nat} (hb : t.Built) (hdir : t.find? (steps ns) = some (.dir names))
    (h : t.Found top (ns ++ [n]) k p) : n ∈ names := by
  obtain ⟨ms, -, hfile, -, hlead⟩ := h
  rw [hb.mem_names_iff hdir, ← List.map_singleton (f := Component.name), ← steps_append]
  have hms : t.Has (steps ms) := has_of_find? hfile
  rcases leads_iff.1 hlead with rfl | ⟨⟨h, -⟩, -⟩
  · exact hms
  · obtain ⟨names, hn⟩ := (isDir_absolute ((hb.areNames hms).above hlead.1)).1 h
    exact has_of_find? hn

/-- **The walk lists what the way down leads to**, as far as its bound allows. -/
lemma mem_walk (hb : t.Built) (top : List String) (k : Nat) (hns : AreNames ns) :
    ∃ fs, t.view.walk (absolute top) k (absolute ns) = .ok fs ∧
      ∀ p, p ∈ fs ↔ t.Found top ns k p := by
  induction k generalizing ns with
  | zero => exact ⟨[], rfl, fun p => by simp [not_found_zero]⟩
  | succ k ih =>
    simp only [found_succ]
    unfold View.walk
    by_cases hfile : t.find? (steps ns) = some .file
    · have hdir : ¬ t.view.isDir (absolute ns) := by simp [isDir_absolute hns, hfile]
      exact ⟨_, if_pos ((isFile_absolute hns).2 hfile), fun p => by simp [hfile, hdir]⟩
    rw [if_neg (mt (isFile_absolute hns).1 hfile)]
    by_cases henter : t.view.isDir (absolute ns) ∧ ¬ View.isSkipped (absolute top) (absolute ns)
    · -- a directory that is entered: what is found is found in one of its entries
      obtain ⟨names, hdir⟩ := (isDir_absolute hns).1 henter.1
      have hstep : ∀ n ∈ names, ∃ fs,
          t.view.walk (absolute top) k (absolute (ns ++ [n])) = .ok fs ∧
            ∀ p, p ∈ fs ↔ t.Found top (ns ++ [n]) k p :=
        fun n hn => ih (hns.append (List.forall_mem_singleton.2 (hb.isName hdir hn)))
      obtain ⟨fss, hfss, hmem⟩ := exists_mapM hstep
      refine ⟨fss.flatten, ?_, fun p => (hmem p).trans ?_⟩
      · rw [if_neg (by simpa using henter), list_absolute hb hns hdir]
        have hwalks : (names.map fun n => absolute (ns ++ [n])).mapM
            (t.view.walk (absolute top) k) = .ok fss := by rw [List.mapM_map]; exact hfss
        simp only [bind, Except.bind, hwalks]
        rfl
      · rw [or_iff_right (by simp [hfile]), and_iff_right henter]
        exact ⟨fun ⟨n, _, h⟩ => ⟨n, h⟩, fun ⟨n, h⟩ => ⟨n, h.mem_names hb hdir, h⟩⟩
    · refine ⟨[], if_pos (by grind), fun p => ?_⟩
      rw [or_iff_right (by simp [hfile])]
      simp only [henter, false_and, List.not_mem_nil]

lemma has_iff : t.Has key ↔ key ∈ t.entries.map Prod.fst := by
  rw [Has, find?, ne_eq, List.lookup_eq_none_iff, List.mem_map]
  grind

/-- Nothing lies deeper than there are entries: those on the way down differ. -/
lemma Leads.length_lt (h : t.Leads top ns ms) (hms : t.Has (steps ms)) (hnames : AreNames ms) :
    ms.length < ns.length + t.entries.length := by
  obtain ⟨rest, hrest⟩ := h.1
  have hpre (i : Nat) : ns ++ rest.take i <+: ms := by
    rw [← hrest]
    exact (List.prefix_append_right_inj _).2 (List.take_prefix ..)
  have hhas (i : Nat) : t.Has (steps (ns ++ rest.take i)) := by
    by_cases heq : ns ++ rest.take i = ms
    · rwa [heq]
    · obtain ⟨names, hdir⟩ := (isDir_absolute (hnames.above (hpre i))).1
        (h.2 _ (List.prefix_append ..) (hpre i) heq).1
      exact has_of_find? hdir
  let way := (List.range (rest.length + 1)).map fun i => steps (ns ++ rest.take i)
  have hnodup : way.Nodup := by
    refine List.Nodup.map_on (fun i hi j hj heq => ?_) List.nodup_range
    have htake := congrArg List.length (List.append_cancel_left (steps_inj.1 heq))
    simp only [List.mem_range, List.length_take] at hi hj htake
    omega
  have hsub : way ⊆ t.entries.map Prod.fst := fun k hk => by
    obtain ⟨i, -, rfl⟩ := List.mem_map.1 hk
    exact has_iff.1 (hhas i)
  have hlen := (hnodup.subperm hsub).length_le
  simp only [way, List.length_map, List.length_range] at hlen
  simp only [← hrest, List.length_append]
  omega

/-- **What the walk of a tree collects**: the files to which every directory on the way is clear. -/
theorem mem_collect (hb : t.Built) (hns : AreNames ns) :
    ∃ fs, t.view.collect (absolute ns) = .ok fs ∧ ∀ p, p ∈ fs ↔
      Canonical p ∧ t.view.isFile p ∧ t.view.Clear (absolute ns) p := by
  obtain ⟨fs, hfs, hmem⟩ := mem_walk hb ns (t.view.depth + 1) hns
  refine ⟨_, by rw [View.collect, hfs]; rfl, fun p => ?_⟩
  rw [List.mem_mergeSort, hmem]
  constructor
  · rintro ⟨ms, rfl, hfile, -, hlead⟩
    have hms : AreNames ms := hb.areNames (has_of_find? hfile)
    exact ⟨⟨ms, hms, rfl⟩, (isFile_absolute hms).2 hfile, (leads_clear hns hms).1 hlead⟩
  · rintro ⟨⟨ms, hms, rfl⟩, hfile, hclear⟩
    rw [isFile_absolute hms] at hfile
    have hlead := (leads_clear hns hms).2 hclear
    have hlen := hlead.length_lt (has_of_find? hfile) hms
    exact ⟨ms, rfl, hfile, Nat.lt_succ_of_lt hlen, hlead⟩

end Tree

end ChainRunner.Files
