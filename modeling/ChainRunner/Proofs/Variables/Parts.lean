import ChainRunner.Proofs.Variables.Template

/-!
Texts cut up at their placeholders.

There is one way to cut a text into placeholders and gaps that hold none, and filling the text only
puts values in the place of those placeholders. So nothing depends on what the values look like, and
the axes that occur are those of the cut.
-/

namespace ChainRunner.Template

variable {s : List Char} {a : Axis} {c : Char} {asg : Assignment}

/-- Gaps, each but the last with a placeholder behind it. -/
inductive Parts
  | last (gap : List Char)
  | cut (gap : List Char) (a : Axis) (rest : Parts)

/-- What is put for a placeholder: the first value of its axis, or the placeholder again. -/
def valueOf (asg : Assignment) (a : Axis) : String := (asg.lookup a).getD a.placeholder

/-- No placeholder stands in the text. -/
def Blank (s : List Char) : Prop := ∀ a : Axis, ¬ a.placeholder.toList <:+: s

instance (s : List Char) : Decidable (Blank s) :=
  decidable_of_iff (∀ a ∈ Axis.all, ¬ a.placeholder.toList <:+: s)
    ⟨fun h a => h a (Axis.mem_all a), fun h a _ => h a⟩

namespace Parts

/-- The gaps in order, with what is put for every placeholder between them. -/
def fill (value : Axis → String) : Parts → List Char
  | .last gap => gap
  | .cut gap a rest => gap ++ ((value a).toList ++ rest.fill value)

/-- The text that is cut up. -/
def text (p : Parts) : List Char := p.fill Axis.placeholder

/-- The axes of the placeholders, in the order in which they stand. -/
def axes : Parts → List Axis
  | .last _ => []
  | .cut _ a rest => a :: rest.axes

/-- All placeholders are cut out. -/
def Complete : Parts → Prop
  | .last gap => Blank gap
  | .cut gap _ rest => Blank gap ∧ rest.Complete

instance decidableComplete : (p : Parts) → Decidable p.Complete
  | .last gap => inferInstanceAs (Decidable (Blank gap))
  | .cut gap _ rest =>
    have := decidableComplete rest
    inferInstanceAs (Decidable (Blank gap ∧ rest.Complete))

def pieces : Parts → List Piece
  | .last gap => gap.map .literal
  | .cut gap a rest => gap.map .literal ++ .hole a :: rest.pieces

/-- With one more character in the first gap. -/
def cons (c : Char) : Parts → Parts
  | .last gap => .last (c :: gap)
  | .cut gap a rest => .cut (c :: gap) a rest

/-- Literal characters that stand together make up a gap. -/
def ofPieces : List Piece → Parts
  | [] => .last []
  | .literal c :: ps => (ofPieces ps).cons c
  | .hole a :: ps => .cut [] a (ofPieces ps)

variable {p : Parts}

/-! ### Every text can be cut up -/

lemma text_cons (c : Char) (p : Parts) : (p.cons c).text = c :: p.text := by
  cases p <;> rfl

lemma text_ofPieces (ps : List Piece) : (ofPieces ps).text = ps.flatMap Piece.text := by
  induction ps with
  | nil => rfl
  | cons q ps ih =>
    cases q with
    | literal c => rw [ofPieces, text_cons, ih]; rfl
    | hole a => rw [List.flatMap_cons, ← ih]; rfl

lemma blank_cons (h : Blank s) (hc : ∀ a : Axis, ¬ a.placeholder.toList <+: c :: s) :
    Blank (c :: s) := fun a hin =>
  (List.infix_cons_iff.1 hin).elim (hc a) (h a)

lemma Complete.cons (h : p.Complete) (hc : ∀ a : Axis, ¬ a.placeholder.toList <+: c :: p.text) :
    (p.cons c).Complete := by
  cases p with
  | last gap => exact blank_cons h hc
  | cut gap a rest =>
    refine ⟨blank_cons h.1 fun b hb => hc b (hb.trans ?_), h.2⟩
    exact List.cons_prefix_cons.2 ⟨rfl, List.prefix_append ..⟩

lemma complete_ofPieces (s : List Char) : (ofPieces (Template.pieces s)).Complete := by
  have hnil : Blank [] := by decide
  induction s using scan_induction with
  | nil => exact hnil
  | hole a s ih =>
    rw [pieces_placeholder]
    exact ⟨hnil, ih⟩
  | keep c s hc ih =>
    rw [pieces_cons hc]
    refine ih.cons ?_
    rwa [text_ofPieces, flatMap_text_pieces]

lemma exists_complete (s : List Char) : ∃ p : Parts, p.Complete ∧ p.text = s :=
  ⟨_, complete_ofPieces s, by rw [text_ofPieces, flatMap_text_pieces]⟩

/-! ### There is one way only -/

lemma pieces_of_blank (h : Blank s) : Template.pieces s = s.map .literal := by
  induction s with
  | nil => rfl
  | cons c s ih =>
    rw [pieces_cons fun a ha => h a ha.isInfix, List.map_cons,
      ih fun a ha => h a (ha.trans (List.suffix_cons ..).isInfix)]

lemma Complete.pieces_text (h : p.Complete) : Template.pieces p.text = p.pieces := by
  induction p with
  | last gap => exact pieces_of_blank h
  | cut gap a rest ih =>
    obtain ⟨w, hw, -⟩ := placeholder_eq a
    change Template.pieces (gap ++ (a.placeholder.toList ++ rest.text)) = _
    rw [hw, List.cons_append, pieces_append (by decide), ← List.cons_append, ← hw,
      pieces_placeholder, pieces_of_blank h.1, ih h.2]
    rfl

lemma ofPieces_pieces (p : Parts) : ofPieces p.pieces = p := by
  induction p with
  | last gap =>
    induction gap with
    | nil => rfl
    | cons c gap hgap =>
      change (ofPieces (Parts.last gap).pieces).cons c = _
      rw [hgap]
      rfl
  | cut gap a rest ih =>
    induction gap with
    | nil => rw [pieces, List.map_nil, List.nil_append, ofPieces, ih]
    | cons c gap hgap =>
      change (ofPieces (Parts.cut gap a rest).pieces).cons c = _
      rw [hgap]
      rfl

/-- A text can be cut up in one way only. -/
lemma Complete.eq_ofPieces (h : p.Complete) : p = ofPieces (Template.pieces p.text) := by
  rw [h.pieces_text, ofPieces_pieces]

/-! ### What is filled in -/

lemma Complete.fillChars_text (h : p.Complete) (asg : Assignment) :
    fillChars asg p.text = p.fill (valueOf asg) := by
  have hgap (gap : List Char) : (gap.map Piece.literal).flatMap (Piece.fill asg) = gap := by
    rw [List.flatMap_map]
    exact List.flatMap_singleton' gap
  rw [fillChars, h.pieces_text]
  clear h
  induction p with
  | last gap => exact hgap gap
  | cut gap a rest ih =>
    rw [pieces, List.flatMap_append, List.flatMap_cons, hgap, ih, fill, Piece.fill, valueOf]
    cases asg.lookup a <;> rfl

lemma hole_mem_pieces : .hole a ∈ p.pieces ↔ a ∈ p.axes := by
  induction p with
  | last gap => simp [pieces, axes]
  | cut gap b rest ih => simp [pieces, axes, ih]

end Parts

lemma mem_assignment {v : String} (h : asg.lookup a = some v) : (a, v) ∈ asg := by
  obtain ⟨before, after, rfl, -⟩ := List.lookup_eq_some_iff.1 h
  simp

/-- **A text is filled at its placeholders only, all at once.** It is cut up in one way into
placeholders and gaps without any. The gaps stay, and for each placeholder the first value of its
axis is put in, whatever it looks like; without a value the placeholder stays. The axes that occur
are those of the placeholders, each once and in order, so values for other axes change nothing, and
nor do the placeholders themselves as values. -/
theorem fill_parts (asg : Assignment) (text : String) :
    ∃ p : Parts, (p.Complete ∧ p.text = text.toList ∧
        ∀ q : Parts, q.Complete → q.text = text.toList → q = p) ∧
      (fill asg text).toList = p.fill (valueOf asg) ∧
      (axesIn text).Sublist Axis.all ∧ (∀ a, a ∈ axesIn text ↔ a ∈ p.axes) ∧
      ((∀ v ∈ asg, v.1 ∉ axesIn text) → fill asg text = text) ∧
      ((∀ v ∈ asg, v.2 = v.1.placeholder) → fill asg text = text) := by
  obtain ⟨p, hp, htext⟩ := Parts.exists_complete text.toList
  -- the parts are the pieces that the scan comes to, put together
  have hpieces := hp.pieces_text
  have hfill := hp.fillChars_text asg
  rw [htext] at hpieces hfill
  have hmem (a : Axis) : a ∈ axesIn text ↔ .hole a ∈ pieces text.toList := by
    simp [axesIn, Axis.mem_all]
  refine ⟨p, ⟨hp, htext, fun q hq heq => ?_⟩, ?_, List.filter_sublist, fun a => ?_, fun hout => ?_,
    fun hown => ?_⟩
  · rw [hp.eq_ofPieces, hq.eq_ofPieces, htext, heq]
  · rw [toList_fill, hfill]
  · rw [hmem, hpieces, Parts.hole_mem_pieces]
  · rw [← String.toList_inj, toList_fill, fillChars_eq_self]
    intro a ha hin
    obtain ⟨v, hv⟩ := Option.ne_none_iff_exists'.1 ha
    exact hout (a, v) (mem_assignment hv) ((hmem a).2 hin)
  · have hvalue : valueOf asg = Axis.placeholder := by
      funext a
      unfold valueOf
      cases hv : asg.lookup a with
      | none => rfl
      | some v => exact hown (a, v) (mem_assignment hv)
    rw [← String.toList_inj, toList_fill, hfill, hvalue, ← htext]
    rfl

/-- A placeholder behind a dollar sign, one that is cut short, and values that look like
placeholders. -/
theorem fill_parts_doubled :
    fill [(.flavor, "$FILE$1"), (.flavor, "x")] "a$$FLV$PRO$FILE$F" = "a$$FILE$1$PRO$FILE$F" ∧
      axesIn "a$$FLV$PRO$FILE$F" = [.flavor, .file] ∧
      fill [(.project, "x")] "a$$FLV$PRO$FILE$F" = "a$$FLV$PRO$FILE$F" ∧
      fill (Axis.all.map fun a => (a, a.placeholder)) "a$$FLV$PRO$FILE$F" =
        "a$$FLV$PRO$FILE$F" := by
  obtain ⟨p, ⟨-, -, hunique⟩, hfill, -⟩ :=
    fill_parts [(.flavor, "$FILE$1"), (.flavor, "x")] "a$$FLV$PRO$FILE$F"
  obtain ⟨-, -, -, -, -, hout, -⟩ := fill_parts [(.project, "x")] "a$$FLV$PRO$FILE$F"
  obtain ⟨-, -, -, -, -, -, hown⟩ :=
    fill_parts (Axis.all.map fun a => (a, a.placeholder)) "a$$FLV$PRO$FILE$F"
  have hp := hunique (.cut "a$".toList .flavor (.cut "$PRO".toList .file (.last "$F".toList)))
    (by decide) (by decide)
  refine ⟨?_, by decide, hout (by decide), hown (by decide)⟩
  rw [← String.toList_inj, hfill, ← hp]
  decide

end ChainRunner.Template
