import ChainRunner.Proofs.Files.Inward
import ChainRunner.Proofs.Files.Walk

/-!
The walk of a tree with a stack of paths that are still to be looked at.

`Visits` says turn by turn what such a walk meets. Where no directories lie too deep in one another
it comes to an end, and meets the files that the walk level by level lists.
-/

namespace ChainRunner.Files

open ChainRunner.Path

namespace View

/-- A walk that has the paths of the first list still to look at, the next one in front, meets the
files of the second list until it ends. What a directory lists comes last first. -/
inductive Visits (v : View) (root : String) : List String → List String → Prop
  | done : Visits v root [] []
  | file {p : String} {ahead met : List String} (hfile : v.isFile p)
    (h : Visits v root ahead met) : Visits v root (p :: ahead) (p :: met)
  | pass {p : String} {ahead met : List String} (hfile : ¬v.isFile p)
    (hpass : ¬v.isDir p ∨ isSkipped root p) (h : Visits v root ahead met) :
    Visits v root (p :: ahead) met
  | enter {p : String} {ps ahead met : List String} (hfile : ¬v.isFile p) (hdir : v.isDir p)
    (hskip : ¬isSkipped root p) (hlist : v.list p = .ok ps)
    (h : Visits v root (ps.reverse ++ ahead) met) : Visits v root (p :: ahead) met

/-- Whatever comes behind them, from the paths of `ps` the files of `met` are met. -/
def Meets (v : View) (root : String) (ps met : List String) : Prop :=
  ∀ ahead rest, Visits v root ahead rest → Visits v root (ps ++ ahead) (met ++ rest)

/-- Below `p` directories that may be entered lie less than `k` deep in one another, and can be
listed. -/
def Shallow (v : View) (root : String) : Nat → String → Prop
  | 0, _ => False
  | k + 1, p => v.isFile p ∨ ¬v.isDir p ∨ isSkipped root p ∨
    ∃ ps, v.list p = .ok ps ∧ ∀ q ∈ ps, Shallow v root k q

variable {v : View} {root p q : String} {ps qs met met' fs : List String} {k : Nat}

/-! ### The walk with a stack -/

/-- Only one list of files can be met. -/
lemma Visits.unique (h : v.Visits root ps met) (h' : v.Visits root ps met') : met' = met := by
  induction h generalizing met' with
  | done =>
    cases h'
    rfl
  | file hfile _ ih =>
    cases h' with
    | file _ h' => rw [ih h']
    | pass hno => exact absurd hfile hno
    | enter hno => exact absurd hfile hno
  | pass hno hpass _ ih =>
    cases h' with
    | file hfile => exact absurd hfile hno
    | pass _ _ h' => exact ih h'
    | enter _ hdir hskip => exact absurd hpass (by simp [hdir, hskip])
  | enter hno hdir hskip hlist _ ih =>
    cases h' with
    | file hfile => exact absurd hfile hno
    | pass _ hpass => exact absurd hpass (by simp [hdir, hskip])
    | enter _ _ _ hlist' h' =>
      obtain rfl := Except.ok.inj (hlist.symm.trans hlist')
      exact ih h'

lemma Meets.visits (h : v.Meets root ps met) : Visits v root ps met := by
  simpa using h [] [] .done

lemma Meets.append (h : v.Meets root ps met) (h' : v.Meets root qs met') :
    v.Meets root (ps ++ qs) (met ++ met') := by
  intro ahead rest hrest
  rw [List.append_assoc, List.append_assoc]
  exact h _ _ (h' _ _ hrest)

/-- What a directory lists is met from its last entry to the first. -/
lemma exists_meets (h : ∀ p ∈ ps, ∃ fs met, v.walk root k p = .ok fs ∧ met.Perm fs ∧
    v.Meets root [p] met) : ∃ fss met, ps.mapM (v.walk root k) = .ok fss ∧
      met.Perm fss.flatten ∧ v.Meets root ps.reverse met := by
  induction ps with
  | nil => exact ⟨[], [], rfl, .refl _, fun _ _ hrest => hrest⟩
  | cons p ps ih =>
    obtain ⟨⟨fs, met, hfs, hperm, hmeets⟩, hps⟩ := List.forall_mem_cons.1 h
    obtain ⟨fss, met', hfss, hperm', hmeets'⟩ := ih hps
    refine ⟨fs :: fss, met' ++ met, ?_, ?_, ?_⟩
    · rw [List.mapM_cons, hfs, hfss]
      rfl
    · exact List.perm_append_comm.trans (hperm.append hperm')
    · rw [List.reverse_cons]
      exact hmeets'.append hmeets

/-- **A walk with a stack meets what the walk level by level lists.** -/
lemma Shallow.meets (h : v.Shallow root k p) :
    ∃ fs met, v.walk root k p = .ok fs ∧ met.Perm fs ∧ v.Meets root [p] met := by
  induction k generalizing p with
  | zero => cases h
  | succ k ih =>
    by_cases hfile : v.isFile p
    · exact ⟨[p], [p], walk_succ_eq_ok.2 (.inl ⟨hfile, rfl⟩), .refl _,
        fun _ _ hrest => .file hfile hrest⟩
    by_cases hpass : ¬v.isDir p ∨ isSkipped root p
    · exact ⟨[], [], walk_succ_eq_ok.2 (.inr (.inl ⟨hfile, hpass, rfl⟩)), .refl _,
        fun _ _ hrest => .pass hfile hpass hrest⟩
    · obtain ⟨hdir, hskip⟩ : v.isDir p ∧ ¬isSkipped root p := by simpa [not_or] using hpass
      obtain ⟨ps, hlist, hps⟩ : ∃ ps, v.list p = .ok ps ∧ ∀ q ∈ ps, v.Shallow root k q := by
        simpa [Shallow, hfile, hdir, hskip] using h
      obtain ⟨fss, met, hfss, hperm, hmeets⟩ := exists_meets fun q hq => ih (hps q hq)
      exact ⟨fss.flatten, met,
        walk_succ_eq_ok.2 (.inr (.inr ⟨hfile, hdir, hskip, ps, fss, hlist, hfss, rfl⟩)), hperm,
        fun _ _ hrest => .enter hfile hdir hskip hlist (hmeets _ _ hrest)⟩

/-! ### No file is listed twice -/

/-- Below different entries of one directory different files are listed. -/
lemma Inward.nodup_flatten (hv : v.Inward) {fss : List (List String)} (m : Nat)
    (hfss : List.Forall₂ (fun p fs => v.walk root k p = .ok fs) ps fss)
    (hps : (ps.map components).Nodup) (hm : ∀ p ∈ ps, (components p).length = m)
    (hfs : ∀ fs ∈ fss, (fs.map components).Nodup) : (fss.flatten.map components).Nodup := by
  induction hfss with
  | nil => exact .nil
  | @cons p fs ps fss hwalk hwalks ih =>
    rw [List.forall_mem_cons] at hm hfs
    obtain ⟨hp, hps⟩ := List.nodup_cons.1 hps
    rw [List.flatten_cons, List.map_append]
    refine (hfs.1).append (ih hps hm.2 hfs.2) fun key hx hy => hp ?_
    obtain ⟨x, hx, heq⟩ := List.mem_map.1 hx
    obtain ⟨y, hy, hxy⟩ := List.mem_map.1 hy
    rw [← heq] at hxy
    obtain ⟨fs', hfs', hy⟩ := List.mem_flatten.1 hy
    obtain ⟨p', hp', hwalk'⟩ := mem_of_mapM (mapM_eq_ok.2 hwalks) hfs'
    obtain ⟨ns, hns⟩ := hv.mem_walk hwalk hx
    obtain ⟨ms, hms⟩ := hv.mem_walk hwalk' hy
    have hsame : components p' = components p := by
      rw [hns, hms] at hxy
      exact List.append_inj_left hxy ((hm.2 p' hp').trans hm.1.symm)
    exact hsame ▸ List.mem_map_of_mem hp'

lemma Inward.nodup_walk (hv : v.Inward)
    (hlist : ∀ p ps, v.list p = .ok ps → (ps.map components).Nodup)
    (h : v.walk root k p = .ok fs) : (fs.map components).Nodup := by
  induction k generalizing p fs with
  | zero =>
    cases h
    exact .nil
  | succ k ih =>
    rcases walk_succ_eq_ok.1 h with ⟨-, rfl⟩ | ⟨-, -, rfl⟩ | ⟨-, -, -, ps, fss, hps, hfss, rfl⟩
    · simp
    · exact .nil
    · refine hv.nodup_flatten ((components p).length + 1) (mapM_eq_ok.1 hfss) (hlist p ps hps)
        (fun q hq => ?_) fun fs hfs => ?_
      · obtain ⟨n, hn, rfl⟩ := hv p ps hps q hq
        rw [components_joined p hn, List.length_append, List.length_singleton]
      · obtain ⟨q, hq, hwalk⟩ := mem_of_mapM hfss hfs
        exact ih hwalk

/-! ### In path order -/

lemma collect_eq_ok : v.collect root = .ok fs ↔ ∃ found,
    v.walk root (v.depth + 1) root = .ok found ∧
      fs = found.mergeSort (Path.compare · · |>.isLE) := by
  rw [collect]
  cases v.walk root (v.depth + 1) root <;>
    simp [bind, Except.bind, pure, Except.pure, eq_comm]

lemma pairwise_mergeSort (h : (fs.map components).Nodup) :
    (fs.mergeSort (Path.compare · · |>.isLE)).Pairwise (Path.compare · · = .lt) := by
  have hle : (fs.mergeSort (Path.compare · · |>.isLE)).Pairwise (Path.compare · · |>.isLE) := by
    refine List.pairwise_mergeSort (fun p q r => Std.TransCmp.isLE_trans) (fun p q => ?_) fs
    rw [@Std.OrientedCmp.eq_swap _ Path.compare _ q p]
    cases Path.compare p q <;> rfl
  have hne : (fs.mergeSort (Path.compare · · |>.isLE)).Pairwise (components · ≠ components ·) :=
    List.pairwise_map.1 (((List.mergeSort_perm fs _).map components).nodup_iff.2 h)
  refine (hle.and hne).imp fun {p q} ⟨hle, hne⟩ => ?_
  exact (Ordering.isLE_iff_eq_lt_or_eq_eq.1 hle).resolve_right (mt compare_eq_eq.1 hne)

/-- In whatever order different files are met, they are sorted into one. -/
lemma mergeSort_eq (h : (fs.map components).Nodup) (hperm : met.Perm fs) :
    met.mergeSort (Path.compare · · |>.isLE) = fs.mergeSort (Path.compare · · |>.isLE) := by
  refine List.Perm.eq_of_pairwise (fun p q _ _ hpq hqp => ?_)
    (pairwise_mergeSort ((hperm.map components).nodup_iff.2 h)) (pairwise_mergeSort h)
    ((List.mergeSort_perm met _).trans (hperm.trans (List.mergeSort_perm fs _).symm))
  exact absurd hqp (Std.OrientedCmp.not_lt_of_lt hpq)

end View

end ChainRunner.Files
