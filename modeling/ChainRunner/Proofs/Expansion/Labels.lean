import ChainRunner.Proofs.Expansion.Product

/-!
The names under which the instances of a script are shown.

The labels of an instance are joined by colons. Only the last one may hold colons itself, which is
what a file shows as, so the labels can be read off the name.
-/

namespace ChainRunner

/-- The last name of a path, empty if there is none. -/
def Path.baseName (p : String) : String := (Path.fileName? p).getD ""

/-- Values that can be told apart by what they show as. -/
structure Variables.Tellable (vs : Variables) : Prop where
  flavor : ∀ v ∈ vs.flavor, v ≠ "" ∧ ':' ∉ v.toList
  project : ∀ v ∈ vs.project, v ≠ "" ∧ ':' ∉ v.toList
  file : ∀ v ∈ vs.file, Path.baseName v ≠ ""
  baseNames : (vs.file.map Path.baseName).Nodup

namespace Instance

variable {script body : String} {mode : Mode} {vs : Variables} {axes : List Axis} {a : Axis}
  {v w : String} {t u : List String}

/-! ### Labels -/

lemma label_ne (h : vs.Tellable) (hv : v ∈ vs.values a) : label (a, v) ≠ "" := by
  cases a with
  | flavor => exact (h.flavor v hv).1
  | project => exact (h.project v hv).1
  | file => exact h.file v hv

lemma colon_notMem_label (h : vs.Tellable) (hv : v ∈ vs.values a) (ha : a ≠ .file) :
    ':' ∉ (label (a, v)).toList := by
  cases a with
  | flavor => exact (h.flavor v hv).2
  | project => exact (h.project v hv).2
  | file => exact absurd rfl ha

lemma label_inj (h : vs.Tellable) (hv : v ∈ vs.values a) (hw : w ∈ vs.values a)
    (heq : label (a, v) = label (a, w)) : v = w := by
  cases a with
  | flavor | project => exact heq
  | file => exact List.inj_on_of_nodup_map h.baseNames hv hw heq

/-- What the values of a tuple show as. -/
def labels (axes : List Axis) (t : List String) : List String := (axes.zip t).map label

lemma length_labels (ht : t ∈ vs.tuples axes) : (labels axes t).length = axes.length := by
  have hlength := (Variables.mem_tuples.1 ht).length_eq
  simp [labels, hlength]

lemma ne_of_mem_labels (h : vs.Tellable) (ht : t ∈ vs.tuples axes) {l : String}
    (hl : l ∈ labels axes t) : l ≠ "" := by
  obtain ⟨⟨a, v⟩, hmem, rfl⟩ := List.mem_map.1 hl
  exact label_ne h (List.forall₂_zip (Variables.mem_tuples.1 ht) hmem)

/-- Labels of one tuple are those of no other. -/
lemma labels_inj (h : vs.Tellable) (ht : t ∈ vs.tuples axes) (hu : u ∈ vs.tuples axes)
    (heq : labels axes t = labels axes u) : t = u := by
  rw [Variables.mem_tuples] at ht hu
  induction ht generalizing u with
  | nil => exact (List.forall₂_nil_left_iff.1 hu).symm
  | cons hv _ ih =>
    obtain ⟨w, us, hw, hus, rfl⟩ := List.forall₂_cons_left_iff.1 hu
    obtain ⟨hlabel, hlabels⟩ := List.cons.inj heq
    rw [label_inj h hv hw hlabel, ih hus hlabels]

lemma colon_notMem_labels (h : vs.Tellable) (haxes : ∀ a ∈ axes.dropLast, a ≠ .file)
    (ht : t ∈ vs.tuples axes) : ∀ l ∈ (labels axes t).dropLast, ':' ∉ l.toList := by
  rw [Variables.mem_tuples] at ht
  induction ht with
  | nil => simp [labels]
  | @cons a v axes t hv hrest ih =>
    cases hrest with
    | nil => simp [labels]
    | cons hw hrest =>
      rw [List.dropLast_cons_cons, List.forall_mem_cons] at haxes
      have hlabels := ih haxes.2
      simpa [labels] using ⟨colon_notMem_label h hv haxes.1, by simpa [labels] using hlabels⟩

/-! ### Names -/

/-- A text is cut in one way at the first of some character. -/
lemma append_cons_inj {c : Char} {xs ys ss ts : List Char} (hx : c ∉ xs) (hy : c ∉ ys)
    (heq : xs ++ c :: ss = ys ++ c :: ts) : xs = ys ∧ ss = ts := by
  rcases List.append_eq_append_iff.1 heq with ⟨as, rfl, hs⟩ | ⟨as, rfl, ht⟩
  · cases as with
    | nil => simpa using hs
    | cons a as =>
      obtain ⟨rfl, -⟩ := List.cons.inj hs
      simp at hy
  · cases as with
    | nil => simpa [eq_comm] using ht
    | cons a as =>
      obtain ⟨rfl, -⟩ := List.cons.inj ht
      simp at hx

/-- Texts that are joined are read back if only the last one may hold what joins them. -/
lemma intercalate_inj {c : Char} {xs ys : List (List Char)} (hlength : xs.length = ys.length)
    (hx : ∀ x ∈ xs.dropLast, c ∉ x) (hy : ∀ y ∈ ys.dropLast, c ∉ y)
    (heq : [c].intercalate xs = [c].intercalate ys) : xs = ys := by
  induction xs generalizing ys with
  | nil => exact (List.length_eq_zero_iff.1 hlength.symm).symm
  | cons x xs ih =>
    obtain ⟨y, ys, rfl⟩ := List.exists_cons_of_length_eq_add_one hlength.symm
    cases xs with
    | nil =>
      obtain rfl : ys = [] := List.length_eq_zero_iff.1 (by simpa using hlength.symm)
      simpa using heq
    | cons x' xs =>
      obtain ⟨y', ys, rfl⟩ :=
        List.exists_cons_of_length_eq_add_one (Nat.succ.inj hlength).symm
      rw [List.dropLast_cons_cons, List.forall_mem_cons] at hx hy
      rw [List.intercalate_cons_cons, List.intercalate_cons_cons, List.append_assoc,
        List.append_assoc] at heq
      obtain ⟨rfl, hrest⟩ := append_cons_inj hx.1 hy.1 heq
      rw [ih (Nat.succ.inj hlength) hx.2 hy.2 hrest]

/-- Only the file, the last axis of all, may show colons. -/
lemma ne_file_of_mem_dropLast (p : Axis → Bool) (ha : a ∈ (Axis.all.filter p).dropLast) :
    a ≠ .file := by
  rintro rfl
  revert ha
  simp only [Axis.all, List.filter_cons]
  cases p .flavor <;> cases p .project <;> cases p .file <;> simp

lemma nameFor_zip (h : vs.Tellable) (ht : t ∈ vs.tuples axes) :
    nameFor script (axes.zip t) =
      if axes = [] then script else script ++ "::" ++ ":".intercalate (labels axes t) := by
  have hall : (labels axes t).filter (· ≠ "") = labels axes t :=
    List.filter_eq_self.2 fun l hl => by simpa using ne_of_mem_labels h ht hl
  have hlength := length_labels ht
  rw [nameFor, ← labels, hall]
  split
  · rename_i hnil
    rw [hnil] at hlength
    rw [if_pos (List.length_eq_zero_iff.1 hlength.symm)]
  · rename_i hne
    rw [if_neg]
    rintro rfl
    exact hne (List.length_eq_zero_iff.1 hlength)

lemma nameFor_inj (h : vs.Tellable) (haxes : ∀ a ∈ axes.dropLast, a ≠ .file)
    (ht : t ∈ vs.tuples axes) (hu : u ∈ vs.tuples axes)
    (heq : nameFor script (axes.zip t) = nameFor script (axes.zip u)) : t = u := by
  refine labels_inj h ht hu ?_
  have hlength : (labels axes t).length = (labels axes u).length :=
    (length_labels ht).trans (length_labels hu).symm
  rw [nameFor_zip h ht, nameFor_zip h hu] at heq
  split at heq
  · rename_i hnone
    subst hnone
    rfl
  · rw [String.append_right_inj, ← String.toList_inj, String.toList_intercalate,
      String.toList_intercalate] at heq
    have hchars := intercalate_inj (by simpa using hlength) ?_ ?_ heq
    · exact List.map_injective_iff.2 (fun _ _ => String.toList_inj.1) hchars
    · rw [← List.map_dropLast, List.forall_mem_map]
      exact colon_notMem_labels h haxes ht
    · rw [← List.map_dropLast, List.forall_mem_map]
      exact colon_notMem_labels h haxes hu

/-- **The instances of a script have names of their own**, whichever axes its body mentions, if the
flavors and projects are not empty and without colons and the files have base names of their own. -/
theorem nodup_displayName (script body : String) (mode : Mode) (hvs : vs.Distinct)
    (h : vs.Tellable) : ((expand script body mode vs).map Instance.displayName).Nodup := by
  rw [expand_eq_tuples, List.map_map]
  refine List.Nodup.map_on (fun t ht u hu heq => ?_) (Variables.enumerates_tuples hvs _).nodup
  exact nameFor_inj h (fun a => ne_file_of_mem_dropLast _) ht hu heq

/-- Files that show colons, and a script with colons in its name. -/
def colons : Variables :=
  { flavor := ["b", "b.c"], project := ["c"], file := ["x/c:d", "x/d", "y/d:c"] }

theorem nodup_displayName_colons :
    colons.Distinct ∧ colons.Tellable ∧
    (expand "a::b" "$FILE $FLV" .background colons).map Instance.displayName =
      ["a::b::b:c:d", "a::b::b:d", "a::b::b:d:c",
        "a::b::b.c:c:d", "a::b::b.c:d", "a::b::b.c:d:c"] ∧
    ((expand "a::b" "$FILE $FLV" .background colons).map Instance.displayName).Nodup := by
  have hdistinct : colons.Distinct := fun a => by cases a <;> decide
  have htellable : colons.Tellable := ⟨by decide, by decide, by decide +kernel, by decide +kernel⟩
  exact ⟨hdistinct, htellable, by decide +kernel,
    nodup_displayName "a::b" "$FILE $FLV" .background hdistinct htellable⟩

end Instance

end ChainRunner
