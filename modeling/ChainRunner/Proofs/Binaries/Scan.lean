import Mathlib.Data.Set.Card
import ChainRunner.Binaries
import ChainRunner.Proofs.Files.Inward
import ChainRunner.Proofs.NameMap

/-!
Which path is found for the name of a command.

An earlier directory wins, and whatever has the name in it is taken: the scan does not ask whether
an entry is a file.
-/

namespace ChainRunner.Binaries

open ChainRunner.Path Files

variable {t : Tree} {v : View} {b : Binaries} {d dir h n : String} {dirs paths : List String}

/-- The directory `d` has an entry of the name `h`. -/
def Holds (v : View) (h d : String) : Prop := IsName h ∧ v.isDir d ∧ v.pathExists (join d h)

/-- The directory `d` has a file of the name `h`. -/
def HoldsFile (v : View) (h d : String) : Prop := IsName h ∧ v.isDir d ∧ v.isFile (join d h)

instance (v : View) (h d : String) : Decidable (Holds v h d) :=
  inferInstanceAs (Decidable (_ ∧ _ ∧ _))

instance (v : View) (h d : String) : Decidable (HoldsFile v h d) :=
  inferInstanceAs (Decidable (_ ∧ _ ∧ _))

lemma HoldsFile.holds (hf : HoldsFile v h d) : Holds v h d :=
  ⟨hf.1, hf.2.1, by simp [View.pathExists, hf.2.2]⟩

/-! ### Entries -/

/-- A name that has a path keeps it. -/
lemma get?_add (b : Binaries) (p h : String) :
    (b.add p).get? h = (b.get? h).or (if fileName? p = some h then some p else none) := by
  unfold add
  split
  · rename_i n hn
    by_cases hnew : b.contains n
    · obtain ⟨q, hq⟩ := Option.isSome_iff_exists.1 hnew
      rw [if_pos hnew, hn]
      split
      · rename_i heq
        obtain rfl := Option.some.inj heq
        rw [hq]
        rfl
      · rw [Option.or_none]
    · have hnone : b.get? n = none := by simpa [NameMap.contains] using hnew
      rw [if_neg hnew, NameMap.get?_insert, hn]
      by_cases heq : h = n
      · subst heq
        simp [hnone]
      · rw [if_neg heq, if_neg (by simpa [eq_comm] using heq), Option.or_none]
  · rename_i hnone
    rw [hnone, if_neg (by simp), Option.or_none]

/-- Of several paths with one name the first is taken. -/
lemma get?_foldl_add (b : Binaries) (paths : List String) (h : String) :
    (paths.foldl add b).get? h = (b.get? h).or (paths.find? (fileName? · = some h)) := by
  induction paths generalizing b with
  | nil => simp
  | cons p paths ih =>
    rw [List.foldl_cons, ih, get?_add, Option.or_assoc, List.find?_cons]
    by_cases hp : fileName? p = some h <;> simp [hp]

lemma fileName?_join (p : String) (hn : IsName n) : fileName? (join p n) = some n := by
  simp [fileName?, components_joined p hn]

lemma find?_entries {names : List String} (hnames : AreNames names) :
    (names.map (join d)).find? (fileName? · = some h) =
      if h ∈ names then some (join d h) else none := by
  induction names with
  | nil => simp
  | cons n names ih =>
    obtain ⟨hn, hrest⟩ := List.forall_mem_cons.1 hnames
    rw [List.map_cons, List.find?_cons, fileName?_join d hn, ih hrest]
    by_cases heq : n = h
    · subst heq
      simp
    · simp [heq, Ne.symm heq]

/-! ### Directories -/

lemma mem_names_iff (hb : t.Built) {names : List String}
    (hdir : t.find? (components d) = some (.dir names)) : h ∈ names ↔ Holds t.view h d := by
  have hexists (hname : IsName h) :
      t.view.pathExists (join d h) ↔ t.Has (components d ++ [.name h]) := by
    rw [Tree.pathExists_iff, components_joined d hname]
  constructor
  · intro hmem
    have hname : IsName h := hb.isName hdir hmem
    have hpath := (hexists hname).2 ((hb.mem_names_iff hdir).1 hmem)
    exact ⟨hname, Tree.isDir_iff.2 ⟨names, hdir⟩, hpath⟩
  · rintro ⟨hname, -, hpath⟩
    exact (hb.mem_names_iff hdir).2 ((hexists hname).1 hpath)

lemma isDir_iff : t.view.isDir d ↔ ∃ paths, t.view.list d = .ok paths := by
  simp only [Tree.isDir_iff, Tree.list_eq_ok]
  constructor
  · rintro ⟨names, h⟩
    exact ⟨_, names, h, rfl⟩
  · rintro ⟨-, names, h, -⟩
    exact ⟨names, h⟩

/-- What one directory adds: a path for every entry that has none yet. -/
lemma get?_foldl_list (hb : t.Built) (b : Binaries) (hlist : t.view.list d = .ok paths)
    (h : String) : (paths.foldl add b).get? h =
      (b.get? h).or (if Holds t.view h d then some (join d h) else none) := by
  obtain ⟨names, hdir, rfl⟩ := Tree.list_eq_ok.1 hlist
  have hare : AreNames names := fun n => hb.isName hdir
  rw [get?_foldl_add, find?_entries hare, if_congr (mem_names_iff hb hdir) rfl rfl]

lemma scan_concat (v : View) (dirs : List String) (d : String) : scan v (dirs ++ [d]) = do
    let b ← scan v dirs
    if v.isDir d then return (← v.list d).foldl add b else return b := by
  rw [scan, List.foldlM_append]
  simp [scan]

/-- A directory behind others adds what they do not have; what is none is passed over. -/
lemma scan_eq (hb : t.Built) (dirs : List String) : ∃ b, scan t.view dirs = .ok b ∧
    ∀ h, b.get? h = (dirs.find? (Holds t.view h)).map (join · h) := by
  induction dirs using List.reverseRecOn with
  | nil => exact ⟨NameMap.empty, rfl, fun _ => rfl⟩
  | append_singleton dirs d ih =>
    obtain ⟨b, hscan, hget⟩ := ih
    rw [scan_concat, hscan]
    by_cases hdir : t.view.isDir d
    · obtain ⟨paths, hlist⟩ := isDir_iff.1 hdir
      refine ⟨paths.foldl add b, by simp [hdir, hlist, bind, Except.bind, pure, Except.pure],
        fun h => ?_⟩
      rw [get?_foldl_list hb b hlist, hget, List.find?_append, Option.map_or]
      by_cases hh : Holds t.view h d <;> simp [hh]
    · refine ⟨b, by simp [hdir, bind, Except.bind, pure, Except.pure], fun h => ?_⟩
      have hno : ¬ Holds t.view h d := fun hh => hdir hh.2.1
      rw [hget, List.find?_append, List.find?_cons_of_neg (by simpa using hno), List.find?_nil,
        Option.or_none]

/-! ### The first file -/

/-- As many names as have a path. -/
lemma length_keys (b : Binaries) : b.keys.length = {h | b.get? h ≠ none}.ncard := by
  have hset : {h | b.get? h ≠ none} = (b.keys.toFinset : Set String) := by
    ext h
    rw [Set.mem_ofPred_eq, List.coe_toFinset, Set.mem_ofPred_eq, ← NameMap.contains_iff,
      NameMap.contains, Option.isSome_iff_ne_none]
  rw [hset, Set.ncard_coe_finset, List.toFinset_card_of_nodup b.nodup_keys]

/-- The first file is found exactly if nothing else of its name stands before it. -/
lemma find?_holds_eq_iff : (dirs.find? (Holds v h)).map (join · h) =
      (dirs.find? (HoldsFile v h)).map (join · h) ↔
    ∀ d, dirs.find? (Holds v h) = some d → HoldsFile v h d := by
  constructor
  · intro heq d hd
    rw [hd, Option.map_some, eq_comm, Option.map_eq_some_iff] at heq
    obtain ⟨d', hd', hjoin⟩ := heq
    have hfile : HoldsFile v h d' := by simpa using List.find?_some hd'
    have hholds : Holds v h d := by simpa using List.find?_some hd
    exact ⟨hfile.1, hholds.2.1, hjoin ▸ hfile.2.2⟩
  · intro hfirst
    cases hd : dirs.find? (Holds v h) with
    | none =>
      have hnone : dirs.find? (HoldsFile v h) = none := by
        simp only [List.find?_eq_none, decide_eq_true_eq] at hd ⊢
        exact fun d hmem hfile => hd d hmem hfile.holds
      rw [hnone]
    | some d =>
      have hsome : dirs.find? (HoldsFile v h) = some d := by
        obtain ⟨-, as, bs, rfl, has⟩ := List.find?_eq_some_iff_append.1 hd
        refine List.find?_eq_some_iff_append.2 ⟨by simpa using hfirst d hd, as, bs, rfl, ?_⟩
        intro d' hd'
        have hno : ¬ Holds v h d' := by simpa using has d' hd'
        simpa using fun hfile : HoldsFile v h d' => hno hfile.holds
      rw [hsome]

/-- **The scan finds the first entry of a name.** It goes through every list of directories, and
passes over what is none; it finds a path for each name that some directory has an entry for, in the
first such directory. So it finds the first file of every name exactly if no entry that is no file
stands before it. -/
theorem scan_resolves (hb : t.Built) (dirs : List String) : ∃ b, scan t.view dirs = .ok b ∧
    (∀ h, b.get? h = (dirs.find? (Holds t.view h)).map (join · h)) ∧
    b.keys.length = {h | ∃ d ∈ dirs, Holds t.view h d}.ncard ∧
    ((∀ h, b.get? h = (dirs.find? (HoldsFile t.view h)).map (join · h)) ↔
      ∀ h d, dirs.find? (Holds t.view h) = some d → HoldsFile t.view h d) := by
  obtain ⟨b, hscan, hget⟩ := scan_eq hb dirs
  refine ⟨b, hscan, hget, ?_, ?_⟩
  · have hset : {h | b.get? h ≠ none} = {h | ∃ d ∈ dirs, Holds t.view h d} := by
      ext h
      simp [hget]
    rw [length_keys, hset]
  · exact forall_congr' fun h => by rw [hget, find?_holds_eq_iff]

/-- `tsc` is a directory in the first of the two places where it lies. -/
def shadowed : Tree :=
  (((({} : Tree).addDir "/a/bin/tsc").addFile "/b/bin/tsc").addFile "/b/bin/eslint").addFile "/c"

/-- The directory is taken for the command. -/
theorem scan_resolves_directory :
    let dirs := ["/missing", "/c", "/a/bin", "/b/bin/"]
    shadowed.Built ∧ ∃ b, scan shadowed.view dirs = .ok b ∧
      b.get? "tsc" = some "/a/bin/tsc" ∧ b.get? "eslint" = some "/b/bin/eslint" ∧
      b.get? "make" = none ∧
      dirs.find? (HoldsFile shadowed.view "tsc") = some "/b/bin/" ∧
      ¬ ∀ h, b.get? h = (dirs.find? (HoldsFile shadowed.view h)).map (join · h) := by
  intro dirs
  have hbuilt : shadowed.Built :=
    .addFile (.addFile (.addFile (.addDir .empty (by decide +kernel)) (by decide +kernel))
      (by decide +kernel)) (by decide +kernel)
  obtain ⟨b, hscan, hget, -, hfirst⟩ := scan_resolves hbuilt dirs
  have htsc : dirs.find? (Holds shadowed.view "tsc") = some "/a/bin" := by decide +kernel
  have heslint : dirs.find? (Holds shadowed.view "eslint") = some "/b/bin/" := by decide +kernel
  have hmake : dirs.find? (Holds shadowed.view "make") = none := by decide +kernel
  have hno : ¬ HoldsFile shadowed.view "tsc" "/a/bin" := by decide +kernel
  refine ⟨hbuilt, b, hscan, ?_, ?_, ?_, by decide +kernel, fun hall => ?_⟩
  · rw [hget, htsc]
    decide +kernel
  · rw [hget, heslint]
    decide +kernel
  · rw [hget, hmake]
    rfl
  · exact hno (hfirst.1 hall "tsc" "/a/bin" htsc)

end ChainRunner.Binaries
