import ChainRunner.Files.Tree
import ChainRunner.Proofs.Path

/-!
Trees in memory: what a directory lists is there, and what is there is listed.

An entry is put first and linked afterwards, and so are the directories that appear by
themselves. `Held` says which entries still wait for their link.
-/

namespace ChainRunner.Files.Tree

open ChainRunner.Path

/-- A tree to which files and directories were added by absolute paths, one after the other. -/
inductive Built : Tree → Prop
  | empty : Built {}
  | addFile {t : Tree} {p : String} : Built t → isAbsolute p → Built (t.addFile p)
  | addDir {t : Tree} {p : String} : Built t → isAbsolute p → Built (t.addDir p)

variable {t : Tree} {key dir k : List Component} {dirs late : List (List Component)} {e : Entry}
  {c : Component} {n : String}

/-- Something is at `key`. -/
def Has (t : Tree) (key : List Component) : Prop := t.find? key ≠ none

/-- A directory at `dir` lists `n`. -/
def Lists (t : Tree) (dir : List Component) (n : String) : Prop :=
  ∃ names, t.find? dir = some (.dir names) ∧ n ∈ names

lemma has_of_find? (h : t.find? key = some e) : t.Has key := by simp [Has, h]

/-! ### Single steps -/

lemma find?_put (t : Tree) (key : List Component) (e : Entry) (k : List Component) :
    (t.put key e).find? k = if k = key then some e else t.find? k := by
  unfold put find?
  rw [List.lookup_cons]
  split <;> simp_all

lemma find?_put_self (t : Tree) (key : List Component) (e : Entry) :
    (t.put key e).find? key = some e := by simp [find?_put]

lemma find?_put_of_ne (h : k ≠ key) : (t.put key e).find? k = t.find? k := by
  simp [find?_put, h]

lemma Has.put (h : t.Has k) : (t.put key e).Has k := by
  unfold Has at *
  rw [find?_put]
  split <;> simp [h]

lemma enlist_eq (t : Tree) (dir key : List Component) : t.enlist dir key = t ∨
    ∃ names n, t.find? dir = some (.dir names) ∧ key.getLast? = some (.name n) ∧ n ∉ names ∧
      t.enlist dir key = t.put dir (.dir (names ++ [n])) := by
  unfold enlist
  split
  · rename_i names n hdir hkey
    split
    · exact .inl rfl
    · exact .inr ⟨names, n, hdir, hkey, ‹_›, rfl⟩
  · exact .inl rfl

lemma Has.enlist (h : t.Has k) : (t.enlist dir key).Has k := by
  rcases enlist_eq t dir key with he | ⟨_, _, _, _, _, he⟩ <;> rw [he]
  exacts [h, h.put]

lemma Lists.enlist (h : t.Lists dir n) : (t.enlist k key).Lists dir n := by
  rcases enlist_eq t k key with he | ⟨names, m, hk, -, -, he⟩ <;> rw [he]
  · exact h
  · obtain ⟨names', hdir, hn⟩ := h
    by_cases hkd : dir = k
    · subst hkd
      obtain rfl := Entry.dir.inj (Option.some.inj (hk.symm.trans hdir))
      exact ⟨_, find?_put_self .., by simp [hn]⟩
    · exact ⟨names', by rwa [find?_put_of_ne hkd], hn⟩

lemma lists_enlist (h : t.Has dir) (hkey : key.getLast? = some (.name n)) :
    t.find? dir = some .file ∨ (t.enlist dir key).Lists dir n := by
  cases hdir : t.find? dir with
  | none => exact absurd hdir h
  | some e =>
    cases e with
    | file => exact .inl rfl
    | dir names =>
      right
      simp only [Tree.enlist, hdir, hkey]
      split
      · exact ⟨names, hdir, ‹_›⟩
      · exact ⟨_, find?_put_self .., by simp⟩

lemma find?_enlist_file : (t.enlist dir key).find? k = some .file ↔ t.find? k = some .file := by
  rcases enlist_eq t dir key with he | ⟨names, m, hdir, -, -, he⟩ <;> rw [he]
  rw [find?_put]
  split <;> simp_all

/-! ### Places -/

lemma ancestors_concat (d : Component) (cs : List Component) (c : Component) :
    ancestors (d :: (cs ++ [c])) = (d :: cs) :: ancestors (d :: cs) := by
  have htake : (List.range cs.length).reverse.map (fun i => d :: (cs ++ [c]).take i) =
      (List.range cs.length).reverse.map (fun i => d :: cs.take i) := by
    refine List.map_congr_left fun i hi => ?_
    rw [List.take_append_of_le_length]
    simp only [List.mem_reverse, List.mem_range] at hi
    omega
  simp only [ancestors, List.length_append, List.length_singleton, List.range_succ,
    List.reverse_append, List.reverse_singleton, List.singleton_append, List.map_cons,
    List.take_left, htake]
  split <;> rfl

/-- What holds a directory holds what is in it, too. -/
lemma tail_ancestors (h : ancestors key = dir :: dirs) : dirs = ancestors dir := by
  cases key with
  | nil => cases h
  | cons d cs =>
    rcases List.eq_nil_or_concat cs with rfl | ⟨cs, c, rfl⟩
    · by_cases hd : d = .root ∨ d = .current
      · simp [ancestors, hd] at h
      · obtain ⟨rfl, rfl⟩ : [Component.current] = dir ∧ [] = dirs := by
          simpa [ancestors, hd] using h
        rfl
    · rw [List.concat_eq_append, ancestors_concat] at h
      obtain ⟨rfl, rfl⟩ := List.cons.inj h
      rfl

/-- The directory `dir` is the one to list the entry at `key`, under the name `n`. -/
def Holds (dir key : List Component) (n : String) : Prop :=
  (ancestors key).head? = some dir ∧ key.getLast? = some (.name n)

/-- A name by itself is held by `.`, all others by what stands before them. -/
lemma holds_iff : Holds dir key n ↔
    dir ≠ [] ∧ key = dir ++ [.name n] ∨ dir = [.current] ∧ key = [.name n] := by
  unfold Holds
  rcases List.eq_nil_or_concat key with rfl | ⟨cs, c, rfl⟩
  · simp
  rw [List.concat_eq_append, List.getLast?_concat, Option.some.injEq]
  cases cs with
  | nil =>
    by_cases hc : c = .name n
    · subst hc
      simp [ancestors, eq_comm]
    · have hno : [c] ≠ dir ++ [.name n] := fun h => hc (by simpa using congrArg List.getLast? h)
      simp [hc, hno]
  | cons d cs =>
    rw [List.cons_append, ancestors_concat, List.head?_cons, Option.some.injEq, ← List.cons_append]
    constructor
    · rintro ⟨rfl, rfl⟩
      exact .inl ⟨by simp, rfl⟩
    · rintro (⟨-, h⟩ | ⟨-, h⟩)
      · obtain ⟨h, hc⟩ := List.append_inj' h rfl
        exact ⟨h, by simpa using hc⟩
      · simp at h

lemma has_enlist (h : (t.enlist dir key).Has k) : t.Has k := by
  rcases enlist_eq t dir key with he | ⟨names, n, hdir, -, -, he⟩ <;> rw [he] at h
  · exact h
  · by_cases hk : k = dir
    · exact hk ▸ has_of_find? hdir
    · rwa [Has, find?_put_of_ne hk] at h

/-- What is true of every place in the tree. -/
def Everywhere (t : Tree) (P : List Component → Prop) : Prop := ∀ key, t.Has key → P key

lemma Everywhere.put {P : List Component → Prop} (h : t.Everywhere P) (hkey : P key) :
    (t.put key e).Everywhere P := by
  intro k hk
  by_cases heq : k = key
  · exact heq ▸ hkey
  · exact h k (by rwa [Has, find?_put_of_ne heq] at hk)

lemma Everywhere.link {P : List Component → Prop} (h : t.Everywhere P)
    (hdirs : ∀ dir ∈ dirs, P dir) : (t.link key dirs).Everywhere P := by
  induction dirs generalizing t key with
  | nil => exact h
  | cons dir dirs ih =>
    obtain ⟨hdir, hdirs⟩ := List.forall_mem_cons.1 hdirs
    rw [Tree.link]
    split
    · exact fun k hk => h k (has_enlist hk)
    · exact fun k hk => ih (h.put hdir) hdirs k (has_enlist hk)

lemma Everywhere.addFile {P : List Component → Prop} {p : String} (h : t.Everywhere P)
    (hkey : P (components p)) (hdirs : ∀ dir ∈ ancestors (components p), P dir) :
    (t.addFile p).Everywhere P := (h.put hkey).link hdirs

lemma Everywhere.addDir {P : List Component → Prop} {p : String} (h : t.Everywhere P)
    (hkey : P (components p)) (hdirs : ∀ dir ∈ ancestors (components p), P dir) :
    (t.addDir p).Everywhere P := by
  simp only [Tree.addDir]
  split
  · exact h
  · exact (h.put hkey).link hdirs

/-! ### Links -/

/-- What a directory lists is there, and every entry that is not `late` is listed by the directory
that holds it, if that is one. -/
structure Held (t : Tree) (late : List (List Component)) : Prop where
  listed : ∀ dir n, t.Lists dir n → ∃ key, Holds dir key n ∧ t.Has key
  lists : ∀ key dir n, t.Has key → Holds dir key n → key ∉ late →
    t.find? dir = some .file ∨ t.Lists dir n

lemma Held.put (h : Held t late) (he : e = .file ∨ e = .dir [] ∧ ¬ t.Has key) :
    Held (t.put key e) (key :: late) where
  listed dir n hl := by
    obtain ⟨names, hdir, hn⟩ := hl
    rw [find?_put] at hdir
    split at hdir
    · rcases he with rfl | ⟨rfl, -⟩ <;> simp_all
    · obtain ⟨k, hk, hhas⟩ := h.listed dir n ⟨names, hdir, hn⟩
      exact ⟨k, hk, hhas.put⟩
  lists k dir n hhas hk hlate := by
    obtain ⟨hne, hlate⟩ := List.ne_and_not_mem_of_not_mem_cons hlate
    have hold := h.lists k dir n (by rwa [Has, find?_put_of_ne hne] at hhas) hk hlate
    by_cases hdir : dir = key
    · subst hdir
      -- a directory that was there is overridden by a file only
      have hhas : t.Has dir := by
        rcases hold with hf | ⟨_, hd, _⟩ <;> simp [Has, *]
      rcases he with rfl | ⟨-, hno⟩
      · exact .inl (find?_put_self ..)
      · exact absurd hhas hno
    · simpa [Lists, find?_put_of_ne hdir] using hold

lemma Held.enlist (h : Held t (key :: late)) (hdir : t.Has dir) (hkey : t.Has key)
    (hhead : (ancestors key).head? = some dir) : Held (t.enlist dir key) late where
  listed k n hl := by
    have hold (hl : t.Lists k n) : ∃ key', Holds k key' n ∧ (t.enlist dir key).Has key' := by
      obtain ⟨key', hk, hhas⟩ := h.listed k n hl
      exact ⟨key', hk, hhas.enlist⟩
    rcases enlist_eq t dir key with he | ⟨names, m, hd, hlast, -, he⟩
    · exact hold (he ▸ hl)
    · rw [he] at hl
      obtain ⟨names', hk, hn⟩ := hl
      rw [find?_put] at hk
      split at hk
      · rename_i hkd
        subst hkd
        obtain rfl := Entry.dir.inj (Option.some.inj hk)
        rcases List.mem_append.1 hn with hn | hn
        · exact hold ⟨names, hd, hn⟩
        · -- the name that is new is the last one of `key`
          obtain rfl := List.mem_singleton.1 hn
          exact ⟨key, ⟨hhead, hlast⟩, hkey.enlist⟩
      · exact hold ⟨names', hk, hn⟩
  lists k dir' n hhas hk hlate := by
    rw [find?_enlist_file]
    by_cases heq : k = key
    · subst heq
      obtain rfl := Option.some.inj (hhead.symm.trans hk.1)
      exact lists_enlist hdir hk.2
    · exact (h.lists k dir' n (has_enlist hhas) hk (by simp [heq, hlate])).imp_right Lists.enlist

lemma Has.link (h : t.Has k) : (t.link key dirs).Has k := by
  induction dirs generalizing t key with
  | nil => exact h
  | cons dir dirs ih =>
    rw [Tree.link]
    split
    · exact h.enlist
    · exact (ih h.put).enlist

/-- What is put last is linked. -/
lemma Held.link (h : Held t (key :: late)) (hkey : t.Has key) :
    Held (t.link key (ancestors key)) late := by
  -- from an entry to the directory that holds it, which may be new itself
  induction hdirs : ancestors key generalizing t key late with
  | nil =>
    refine ⟨h.listed, fun k dir n hhas hk hlate => h.lists k dir n hhas hk ?_⟩
    have hne : k ≠ key := by
      rintro rfl
      simp [Holds, hdirs] at hk
    simp [hne, hlate]
  | cons dir dirs ih =>
    have hhead : (ancestors key).head? = some dir := by rw [hdirs, List.head?_cons]
    obtain rfl := tail_ancestors hdirs
    rw [Tree.link]
    cases hdir : t.find? dir with
    | some e => exact h.enlist (has_of_find? hdir) hkey hhead
    | none =>
      have hhas : (t.put dir (.dir [])).Has dir := has_of_find? (find?_put_self ..)
      have hput : Held (t.put dir (.dir [])) (dir :: key :: late) :=
        h.put (.inr ⟨rfl, by simpa [Has] using hdir⟩)
      exact (ih hput hhas rfl).enlist hhas.link hkey.put.link hhead

lemma Held.add (h : Held t []) (he : e = .file ∨ e = .dir [] ∧ ¬ t.Has key) :
    Held ((t.put key e).link key (ancestors key)) [] :=
  (h.put he).link (has_of_find? (find?_put_self ..))

lemma Held.addFile (h : Held t []) (p : String) : Held (t.addFile p) [] := h.add (.inl rfl)

lemma Held.addDir (h : Held t []) (p : String) : Held (t.addDir p) [] := by
  simp only [Tree.addDir]
  split
  · exact h
  · rename_i hnone
    exact h.add (.inr ⟨rfl, by simpa [Has] using hnone⟩)

lemma held_empty : Held {} [] := by
  constructor <;> intros <;> simp_all [Has, Lists, find?]

variable {ns names : List String}

/-- What the directories of a tree list. -/
lemma Held.mem_names_iff (h : Held t []) (hdir : t.find? dir = some (.dir names)) : n ∈ names ↔
    dir ≠ [] ∧ t.Has (dir ++ [.name n]) ∨ dir = [.current] ∧ t.Has [.name n] := by
  have hnames : n ∈ names ↔ ∃ key, Holds dir key n ∧ t.Has key := by
    refine ⟨fun hn => h.listed dir n ⟨names, hdir, hn⟩, fun ⟨key, hk, hhas⟩ => ?_⟩
    rcases h.lists key dir n hhas hk (by simp) with hf | ⟨names', hd, hn⟩
    · rw [hdir] at hf
      cases hf
    · rw [hdir] at hd
      cases hd
      exact hn
  rw [hnames]
  simp only [holds_iff, or_and_right, and_assoc, exists_or, exists_and_left, exists_eq_left]

/-! ### Absolute paths -/

/-- An absolute path none of whose names is empty or holds a slash or dots. -/
structure Proper (key : List Component) : Prop where
  absolute : ∃ cs, key = .root :: cs
  names : ∀ n, .name n ∈ key → IsName n

lemma proper_components {p : String} (hp : isAbsolute p) : Proper (components p) :=
  ⟨components_of_isAbsolute hp, fun _ => isName_of_mem_components⟩

lemma Proper.ancestors (h : Proper key) (hdir : dir ∈ Tree.ancestors key) : Proper dir := by
  obtain ⟨cs, rfl⟩ := h.absolute
  simp only [Tree.ancestors, true_or, if_true, List.mem_map] at hdir
  obtain ⟨i, -, rfl⟩ := hdir
  have habove : .root :: cs.take i <+: .root :: cs :=
    List.cons_prefix_cons.2 ⟨rfl, List.take_prefix ..⟩
  exact ⟨⟨_, rfl⟩, fun n hn => h.names n (habove.subset hn)⟩

lemma Built.held (h : Built t) : Held t [] := by
  induction h with
  | empty => exact held_empty
  | addFile _ _ ih => exact ih.addFile _
  | addDir _ _ ih => exact ih.addDir _

lemma Built.proper (h : Built t) : t.Everywhere Proper := by
  induction h with
  | empty => exact fun key hkey => by simp [Has, find?] at hkey
  | addFile _ hp ih =>
    exact ih.addFile (proper_components hp) fun dir => (proper_components hp).ancestors
  | addDir _ hp ih =>
    exact ih.addDir (proper_components hp) fun dir => (proper_components hp).ancestors

/-- **Every directory of a tree lists exactly what is in it.** -/
theorem Built.mem_names_iff (h : Built t) (hdir : t.find? dir = some (.dir names)) :
    n ∈ names ↔ t.Has (dir ++ [.name n]) := by
  obtain ⟨cs, rfl⟩ := (h.proper dir (has_of_find? hdir)).absolute
  simp [h.held.mem_names_iff hdir]

lemma Built.isName (h : Built t) (hdir : t.find? dir = some (.dir names)) (hn : n ∈ names) :
    IsName n :=
  (h.proper _ ((h.mem_names_iff hdir).1 hn)).names n (by simp)

end ChainRunner.Files.Tree
