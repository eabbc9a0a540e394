import ChainRunner.Files.Disk
import ChainRunner.Proofs.Files.Tree
import ChainRunner.Proofs.Watch.Plan
import ChainRunner.Proofs.Watch.RootDir

/-!
The walk of a directory stays below it, in every file system that lists names.
-/

namespace ChainRunner.Files

open ChainRunner.Path Watch

variable {v : View} {top p q n : String} {k : Nat} {fs : List String}

/-- What a directory lists lies one name below it. -/
def View.Inward (v : View) : Prop :=
  ∀ p qs, v.list p = .ok qs → ∀ q ∈ qs, ∃ n, IsName n ∧ q = join p n

/-! ### Names behind a directory -/

lemma segments_of_isName (h : IsName n) : segments n.toList = [n.toList] := by
  have hone : ['/'].intercalate [n.toList] = n.toList := by simp
  have hslash : ∀ s ∈ [n.toList], '/' ∉ s := List.forall_mem_singleton.2 h.slash
  calc segments n.toList = segments (['/'].intercalate [n.toList]) := by rw [hone]
    _ = [n.toList] := segments_intercalate hslash (by simp)

lemma not_isAbsolute (h : IsName n) : isAbsolute n = false := by
  rw [isAbsolute, String.startsWith_string_eq_false_iff]
  rintro ⟨t, ht⟩
  exact h.slash (by simp [← ht])

lemma components_of_isName (h : IsName n) : components n = [.name n] := by
  have hhead : n.toList.head? ≠ some '/' := by
    intro hhead
    obtain ⟨t, ht⟩ := List.head?_eq_some_iff.1 hhead
    exact h.slash (by simp [ht])
  have hcomponents := components_relative hhead
  rw [String.ofList_toList, segments_of_isName h, if_neg (by simpa using h.here)] at hcomponents
  rw [hcomponents]
  simp [h.ofSegment?]

/-- The name goes on from the directory, however its text ends. -/
lemma components_joined (p : String) (h : IsName n) :
    components (join p n) = components p ++ [.name n] := by
  have hsegment : (segments n.toList).filterMap Component.ofSegment? = [.name n] := by
    simp [segments_of_isName h, h.ofSegment?]
  have hbehind (d : List Char) : components (String.ofList (d ++ '/' :: n.toList)) =
      components (String.ofList (if d = [] then ['/'] else d)) ++ [.name n] := by
    rw [components_join, hsegment]
  rw [join, not_isAbsolute h, if_neg (by simp)]
  -- an empty path, one with a slash at its end, and any other are joined in three ways
  by_cases hempty : p.isEmpty
  · obtain rfl : p = "" := by simpa using hempty
    rw [if_pos (by simp), String.empty_append, components_of_isName h]
    rfl
  by_cases hend : p.endsWith "/"
  · obtain ⟨d, hd⟩ : ['/'] <:+ p.toList := by
      rw [String.endsWith_eq_endsWith_toSlice, String.Slice.endsWith_string_iff,
        String.copy_toSlice] at hend
      exact hend
    have hp : p = String.ofList (d ++ '/' :: []) := by rw [hd, String.ofList_toList]
    have hjoin : p ++ n = String.ofList (d ++ '/' :: n.toList) := by
      rw [← String.toList_inj, String.toList_append, ← hd, String.toList_ofList]
      simp
    rw [if_pos (by simp [hend]), hjoin, hbehind, hp, components_join]
    simp [segments, Component.ofSegment?]
  · have hne : p.toList ≠ [] := by simpa [String.isEmpty_iff] using hempty
    have hjoin : p ++ "/" ++ n = String.ofList (p.toList ++ '/' :: n.toList) := by
      simp [← String.toList_inj]
    rw [if_neg (by simp [hempty, hend]), hjoin, hbehind, if_neg hne, String.ofList_toList]

lemma View.walk_succ_eq_ok : v.walk top (k + 1) p = .ok fs ↔ (v.isFile p ∧ fs = [p]) ∨
    (¬v.isFile p ∧ (¬v.isDir p ∨ isSkipped top p) ∧ fs = []) ∨
    (¬v.isFile p ∧ v.isDir p ∧ ¬isSkipped top p ∧ ∃ ps fss, v.list p = .ok ps ∧
      ps.mapM (v.walk top k) = .ok fss ∧ fs = fss.flatten) := by
  rw [View.walk]
  cases v.isFile p with
  | true => simpa using eq_comm
  | false =>
    cases v.isDir p with
    | false => simp
    | true =>
      cases isSkipped top p with
      | true => simp
      | false =>
        cases v.list p with
        | error e => simp [bind, Except.bind]
        | ok ps =>
          cases hwalks : ps.mapM (v.walk top k) with
          | error e => simp [hwalks, bind, Except.bind]
          | ok fss => simpa [hwalks, bind, Except.bind, pure, Except.pure] using eq_comm

/-- The walk of a directory stays below it, and goes up nowhere. -/
lemma View.Inward.mem_walk (hv : v.Inward) (h : v.walk top k p = .ok fs) (hq : q ∈ fs) :
    ∃ ns : List String, components q = components p ++ ns.map .name := by
  induction k generalizing p fs with
  | zero =>
    cases h
    cases hq
  | succ k ih =>
    rcases walk_succ_eq_ok.1 h with ⟨-, rfl⟩ | ⟨-, -, rfl⟩ | ⟨-, -, -, ps, fss, hlist, hwalks, rfl⟩
    · obtain rfl := List.mem_singleton.1 hq
      exact ⟨[], by simp⟩
    · cases hq
    · obtain ⟨fs, hfs, hq⟩ := List.mem_flatten.1 hq
      obtain ⟨p', hp', hwalk⟩ := mem_of_mapM hwalks hfs
      obtain ⟨n, hn, rfl⟩ := hv p ps hlist p' hp'
      obtain ⟨ns, hns⟩ := ih hwalk hq
      exact ⟨n :: ns, by rw [hns, components_joined p hn]; simp⟩

lemma Tree.list_eq_ok {t : Tree} {ps : List String} : t.view.list p = .ok ps ↔
    ∃ names, t.find? (components p) = some (.dir names) ∧ ps = names.map (join p) := by
  simp only [Tree.view]
  split
  · rename_i names hfind
    simpa [hfind] using eq_comm
  · rename_i hno
    simpa using fun names hfind => absurd hfind (hno names)

lemma Tree.isDir_iff {t : Tree} :
    t.view.isDir p ↔ ∃ names, t.find? (components p) = some (.dir names) := by
  simp only [Tree.view]
  split <;> simp_all

lemma Tree.pathExists_iff {t : Tree} : t.view.pathExists p ↔ t.Has (components p) := by
  simp only [View.pathExists, Tree.view, Tree.Has]
  cases t.find? (components p) with
  | none => simp
  | some e => cases e <;> simp

/-- A tree lists names only. -/
lemma Tree.Built.inward {t : Tree} (hb : t.Built) : t.view.Inward := by
  intro p qs hlist q hq
  obtain ⟨names, hdir, rfl⟩ := Tree.list_eq_ok.1 hlist
  obtain ⟨n, hn, rfl⟩ := List.mem_map.1 hq
  exact ⟨n, hb.isName hdir hn, rfl⟩

/-- A disk does, if its entries have names. -/
lemma Disk.inward {d : Disk} {cwd : Place} (h : ∀ k ∈ d.nodes.keys, AreNames (Disk.names k)) :
    (d.view cwd).Inward := by
  intro p qs hlist q hq
  simp only [Disk.view] at hlist
  split at hlist
  · obtain rfl := Except.ok.inj hlist
    obtain ⟨n, hn, rfl⟩ := List.mem_map.1 hq
    obtain ⟨k, hk, hlast⟩ := List.mem_filterMap.1 hn
    refine ⟨n, h k hk n ?_, rfl⟩
    simp only at hlast
    split at hlast
    · exact List.mem_of_getLast? hlast
    · cases hlast
  · cases hlist

end ChainRunner.Files
