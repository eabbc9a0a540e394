import Mathlib.Data.List.Infix
import ChainRunner.Variables.Template

/-!
Where a text has a placeholder, and what filling does to texts that stand next to each other.
-/

namespace ChainRunner.Template

variable {s t : List Char} {a : Axis} {asg : Assignment} {c : Char}

/-- A character with which no placeholder goes on. -/
def Breaks (c : Char) : Prop := ∀ a : Axis, c ∉ a.placeholder.toList.tail

instance (c : Char) : Decidable (Breaks c) :=
  decidable_of_iff (∀ a ∈ Axis.all, c ∉ a.placeholder.toList.tail)
    ⟨fun h a => h a (Axis.mem_all a), fun h a _ => h a⟩

lemma prefix_of_prefix_append {w : List Char} (hc : c ∉ w) (h : w <+: s ++ c :: t) : w <+: s := by
  rcases Nat.lt_or_ge s.length w.length with hl | hl
  · have hsc : s ++ [c] <+: w :=
      List.prefix_of_prefix_length_le ⟨t, by simp⟩ h (by simpa using Nat.succ_le_of_lt hl)
    exact absurd (hsc.subset (by simp)) hc
  · exact List.prefix_of_prefix_length_le h (List.prefix_append ..) hl

/-- No placeholder stands across the two texts. -/
lemma pieces_append (hc : Breaks c) : pieces (s ++ c :: t) = pieces s ++ pieces (c :: t) := by
  have hF := hc .flavor
  have hP := hc .project
  have hI := hc .file
  simp [Axis.placeholder] at hF hP hI
  fun_induction pieces s with
  | case1 s ih => simpa [pieces] using ih
  | case2 s ih => simpa [pieces] using ih
  | case3 s ih => simpa [pieces] using ih
  | case4 d s h₁ h₂ h₃ ih =>
    have hno : ∀ w : List Char, c ∉ w → (∀ v, d = '$' → s = w ++ v → False) →
        ∀ v, d = '$' → s ++ c :: t = w ++ v → False := by
      intro w hw h v hd hv
      obtain ⟨u, hu⟩ := prefix_of_prefix_append hw ⟨v, hv.symm⟩
      exact h u hd hu.symm
    rw [List.cons_append, pieces, ih, List.cons_append]
    · exact hno ['F', 'L', 'V'] (by simpa using hF) h₁
    · exact hno ['P', 'R', 'O', 'J'] (by simpa using hP) h₂
    · exact hno ['F', 'I', 'L', 'E'] (by simpa using hI) h₃
  | case5 => rfl

lemma pieces_placeholder (a : Axis) (s : List Char) :
    pieces (a.placeholder.toList ++ s) = .hole a :: pieces s := by
  cases a <;> simp [Axis.placeholder, pieces]

lemma placeholder_eq (a : Axis) : ∃ w, a.placeholder.toList = '$' :: w ∧ '$' ∉ w ∧ '/' ∉ w := by
  cases a <;> exact ⟨_, rfl, by decide, by decide⟩

lemma pieces_cons (h : ∀ a : Axis, ¬ a.placeholder.toList <+: c :: s) :
    pieces (c :: s) = .literal c :: pieces s := by
  rw [pieces]
  · rintro u rfl rfl
    exact h .flavor ⟨u, rfl⟩
  · rintro u rfl rfl
    exact h .project ⟨u, rfl⟩
  · rintro u rfl rfl
    exact h .file ⟨u, rfl⟩

/-- A text is empty, or begins with a placeholder, or with a character where none begins. -/
lemma scan_induction {P : List Char → Prop} (nil : P [])
    (hole : ∀ (a : Axis) s, P s → P (a.placeholder.toList ++ s))
    (keep : ∀ c s, (∀ a : Axis, ¬ a.placeholder.toList <+: c :: s) → P s → P (c :: s))
    (s : List Char) : P s := by
  fun_induction pieces s with
  | case1 s ih => exact hole .flavor s ih
  | case2 s ih => exact hole .project s ih
  | case3 s ih => exact hole .file s ih
  | case4 c s h₁ h₂ h₃ ih =>
    refine keep c s ?_ ih
    rintro a ⟨u, hu⟩
    cases a <;> obtain ⟨rfl, rfl⟩ : '$' = c ∧ _ = s := by simpa [Axis.placeholder] using hu
    exacts [h₁ u rfl rfl, h₂ u rfl rfl, h₃ u rfl rfl]
  | case5 => exact nil

/-- A placeholder is found wherever it stands. -/
lemma hole_mem_pieces : .hole a ∈ pieces s ↔ a.placeholder.toList <:+: s := by
  constructor
  · intro h
    obtain ⟨xs, ys, hs⟩ := List.append_of_mem h
    refine ⟨xs.flatMap Piece.text, ys.flatMap Piece.text, ?_⟩
    conv_rhs => rw [← flatMap_text_pieces s, hs]
    simp [Piece.text]
  · rintro ⟨u, v, rfl⟩
    obtain ⟨w, hw, -⟩ := placeholder_eq a
    have h := pieces_placeholder a v
    rw [List.append_assoc, hw, List.cons_append, pieces_append (by decide), ← List.cons_append,
      ← hw, h]
    simp

lemma axesIn_eq_nil {text : String} :
    axesIn text = [] ↔ ∀ a : Axis, ¬ a.placeholder.toList <:+: text.toList := by
  simp [axesIn, hole_mem_pieces, Axis.mem_all]

/-! ### Filling -/

/-- The characters of a filled text. -/
def fillChars (asg : Assignment) (s : List Char) : List Char :=
  (pieces s).flatMap (Piece.fill asg)

lemma toList_fill (asg : Assignment) (text : String) :
    (fill asg text).toList = fillChars asg text.toList := String.toList_ofList

lemma fillChars_join (asg : Assignment) (s t : List Char) :
    fillChars asg (s ++ '/' :: t) = fillChars asg s ++ '/' :: fillChars asg t := by
  rw [fillChars, pieces_append (by decide), List.flatMap_append]
  simp [fillChars, pieces, Piece.fill]

lemma fillChars_slash (asg : Assignment) (s : List Char) :
    fillChars asg ('/' :: s) = '/' :: fillChars asg s :=
  fillChars_join asg [] s

lemma fillChars_intercalate (asg : Assignment) (segs : List (List Char)) :
    fillChars asg (['/'].intercalate segs) =
      ['/'].intercalate (segs.map (fillChars asg)) := by
  induction segs with
  | nil => rfl
  | cons x xs ih =>
    cases xs with
    | nil => simp
    | cons y ys =>
      rw [List.intercalate_cons_cons, List.append_assoc, List.singleton_append, fillChars_join, ih]
      simp

/-- A text without placeholders of the assigned axes stays as it is. -/
lemma fillChars_eq_self (h : ∀ a, asg.lookup a ≠ none → .hole a ∉ pieces s) :
    fillChars asg s = s := by
  conv_rhs => rw [← flatMap_text_pieces s]
  refine List.flatMap_congr fun p hp => ?_
  cases p with
  | literal c => rfl
  | hole a =>
    have ha : asg.lookup a = none := by_contra fun ha => h a ha hp
    simp [Piece.fill, Piece.text, ha]

variable {axes : List Axis} {vs : Variables} {v : String}

/-- A value that is put in stands in the text. -/
lemma infix_fillChars (hv : asg.lookup a = some v) (h : .hole a ∈ pieces s) :
    v.toList <:+: fillChars asg s := by
  obtain ⟨before, after, hs⟩ := List.append_of_mem h
  refine ⟨before.flatMap (Piece.fill asg), after.flatMap (Piece.fill asg), ?_⟩
  simp [fillChars, hs, Piece.fill, hv]

lemma mem_fillChars (h : c ∈ fillChars asg s) :
    c ∈ s ∨ ∃ a v, asg.lookup a = some v ∧ c ∈ v.toList := by
  obtain ⟨p, hp, hc⟩ := List.mem_flatMap.1 h
  have htext : c ∈ p.text → c ∈ s := fun hc => by
    rw [← flatMap_text_pieces s]
    exact List.mem_flatMap.2 ⟨p, hp, hc⟩
  cases p with
  | literal d => exact .inl (htext hc)
  | hole a =>
    cases hv : asg.lookup a with
    | none => exact .inl (htext (by simpa [Piece.fill, Piece.text, hv] using hc))
    | some v => exact .inr ⟨a, v, hv, by simpa [Piece.fill, hv] using hc⟩

/-- The text `s` with the chosen values in the place of their placeholders, all at once: what is
put in is not read again, and all else is kept. -/
inductive Filled (value? : Axis → Option String) : List Char → List Char → Prop
  | nil : Filled value? [] []
  | hole {a : Axis} {v : String} {s t : List Char} (hv : value? a = some v)
    (h : Filled value? s t) : Filled value? (a.placeholder.toList ++ s) (v.toList ++ t)
  | keep {c : Char} {s t : List Char}
    (hc : ∀ a v, value? a = some v → ¬ a.placeholder.toList <+: c :: s) (h : Filled value? s t) :
    Filled value? (c :: s) (c :: t)

lemma fillChars_hole (hv : asg.lookup a = some v) (s : List Char) :
    fillChars asg (a.placeholder.toList ++ s) = v.toList ++ fillChars asg s := by
  rw [fillChars, pieces_placeholder, List.flatMap_cons, Piece.fill, hv]
  rfl

lemma fillChars_keep (hc : ∀ a v, asg.lookup a = some v → ¬ a.placeholder.toList <+: c :: s) :
    fillChars asg (c :: s) = c :: fillChars asg s := by
  by_cases h : ∃ a : Axis, a.placeholder.toList <+: c :: s
  · obtain ⟨a, u, hu⟩ := h
    have hnone : asg.lookup a = none :=
      Option.eq_none_iff_forall_ne_some.2 fun v hv => hc a v hv ⟨u, hu⟩
    rw [fillChars, ← hu, pieces_placeholder]
    cases a <;> obtain ⟨rfl, rfl⟩ : '$' = c ∧ _ = s := by simpa [Axis.placeholder] using hu
    all_goals simp [fillChars, pieces, Piece.fill, hnone, Axis.placeholder]
  · rw [fillChars, pieces_cons (not_exists.1 h)]
    rfl

/-- **Filling a text is putting in the assigned values and nothing else.** -/
theorem filled_iff : Filled (fun a => asg.lookup a) s t ↔ t = fillChars asg s := by
  constructor
  · intro h
    induction h with
    | nil => rfl
    | hole hv _ ih => rw [fillChars_hole hv, ih]
    | keep hc _ ih => rw [fillChars_keep hc, ih]
  · rintro rfl
    -- by induction over the length, as a placeholder is taken off as a whole
    induction hn : s.length using Nat.strong_induction_on generalizing s with
    | _ n ih =>
    subst hn
    by_cases h : ∃ a v, asg.lookup a = some v ∧ a.placeholder.toList <+: s
    · obtain ⟨a, v, hv, u, rfl⟩ := h
      have hlt : u.length < (a.placeholder.toList ++ u).length := by
        obtain ⟨w, hw, -⟩ := placeholder_eq a
        rw [hw, List.length_append, List.length_cons]
        omega
      rw [fillChars_hole hv]
      exact .hole hv (ih _ hlt rfl)
    · cases s with
      | nil => exact .nil
      | cons c s =>
        have hc : ∀ a v, asg.lookup a = some v → ¬ a.placeholder.toList <+: c :: s :=
          fun a v hv hp => h ⟨a, v, hv, hp⟩
        rw [fillChars_keep hc]
        exact .keep hc (ih _ (by simp) rfl)

/-! ### Choices of values -/

lemma combinations_cons (b : Axis) :
    combinations (b :: axes) vs =
      if vs.values b = [] then combinations axes vs
      else (vs.values b).flatMap fun x => (combinations axes vs).map ((b, x) :: ·) := by
  rw [combinations]
  split <;> simp_all

lemma combinations_ne_nil : combinations axes vs ≠ [] := by
  induction axes with
  | nil => simp [combinations]
  | cons b axes ih =>
    rw [combinations_cons]
    split
    · exact ih
    · obtain ⟨x, xs, hx⟩ := List.exists_cons_of_ne_nil ‹vs.values b ≠ []›
      simp [hx, ih]

/-- Only the axes in question are assigned, and to one of their values. -/
lemma mem_of_lookup (h : asg ∈ combinations axes vs) (hv : asg.lookup a = some v) :
    a ∈ axes ∧ v ∈ vs.values a := by
  induction axes generalizing asg with
  | nil => simp_all [combinations]
  | cons b axes ih =>
    rw [combinations_cons] at h
    split at h
    · exact (ih h hv).imp_left (List.mem_cons_of_mem _)
    · obtain ⟨x, hx, rest, hrest, rfl⟩ : ∃ x ∈ vs.values b, ∃ rest ∈ combinations axes vs,
          (b, x) :: rest = asg := by simpa using h
      rw [List.lookup_cons] at hv
      by_cases hab : a = b
      · obtain rfl : x = v := by simpa [hab] using hv
        exact ⟨by simp [hab], hab ▸ hx⟩
      · exact (ih hrest (by simpa [beq_false_of_ne hab] using hv)).imp_left (List.mem_cons_of_mem _)

end ChainRunner.Template
