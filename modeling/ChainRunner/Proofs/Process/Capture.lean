import ChainRunner.Process.Capture
import ChainRunner.Proofs.Text.Blank
import ChainRunner.Proofs.Text.Utf8

/-!
The lines of a whole stream, and that a capture gives them however the stream arrives.

A capture that has met some of a stream has given the lines of the pieces that are complete and
keeps the last one. Where the chunks are cut leaves no trace in it.
-/

namespace ChainRunner.Capture

open Text

def lineFeed : UInt8 := 10

/-! ### The lines of a stream -/

/-- What a stream holds between its line feeds. -/
def pieces (stream : Bytes) : List Bytes := stream.splitOn lineFeed

/-- A piece of whitespace only. -/
def Blank (piece : Bytes) : Prop := ∀ c ∈ (decodeLossy piece).toList, isBlank c

instance (piece : Bytes) : Decidable (Blank piece) :=
  decidable_of_iff ((decodeLossy piece).toList.all isBlank) List.all_eq_true

/-- The text of a piece, decoded and without its line end. -/
def textOf (piece : Bytes) : String :=
  String.ofList (dropEndWhile (fun c => c = '\n' || c = '\r') (decodeLossy piece).toList)

/-- The lines of a stream: its pieces in their order, except the blank ones. -/
def linesOf (stream : Bytes) : List String :=
  ((pieces stream).filter fun piece => ¬ Blank piece).map textOf

variable {stream s t piece : Bytes} {c : Capture} {lines : List String}

lemma lineOf?_eq (piece : Bytes) :
    lineOf? piece = if Blank piece then none else some (textOf piece) := by
  have hends (c : Char) (hc : c = '\n' || c = '\r') : isBlank c := by
    rcases (by simpa using hc : c = '\n' ∨ c = '\r') with rfl | rfl <;> decide
  refine if_congr ?_ rfl rfl
  rw [all_dropEndWhile hends, List.all_eq_true, Blank]

/-- The line feed behind a piece does not count. -/
lemma lineOf?_concat (piece : Bytes) : lineOf? (piece ++ [lineFeed]) = lineOf? piece := by
  have hlast : (decodeLossy (piece ++ [lineFeed])).toList = (decodeLossy piece).toList ++ ['\n'] :=
    decodeLossy_concat piece (by decide)
  unfold lineOf?
  rw [hlast, dropEndWhile_concat_of_pos rfl]

lemma linesOf_eq (stream : Bytes) : linesOf stream = (pieces stream).filterMap lineOf? := by
  unfold linesOf
  induction pieces stream with
  | nil => rfl
  | cons piece rest ih =>
    have hline := lineOf?_eq piece
    split at hline <;> rename_i hb
    · rw [List.filterMap_cons_none hline, ← ih, List.filter_cons_of_neg (by simpa using hb)]
    · rw [List.filterMap_cons_some hline, ← ih, List.filter_cons_of_pos (by simpa using hb),
        List.map_cons]

/-- A line feed parts the lines before it from those behind. -/
lemma linesOf_append (s t : Bytes) : linesOf (s ++ lineFeed :: t) = linesOf s ++ linesOf t := by
  have hpieces : pieces (s ++ lineFeed :: t) = pieces s ++ pieces t := by
    simp only [pieces, List.splitOn_eq_splitOnP]
    exact List.splitOnP_append_cons s t (by simp)
  simp only [linesOf_eq, hpieces, List.filterMap_append]

lemma linesOf_piece (h : lineFeed ∉ piece) : linesOf piece = (lineOf? piece).toList := by
  have hpieces : pieces piece = [piece] := by
    rw [pieces, List.splitOn_eq_splitOnP, List.splitOnP_eq_singleton (by grind)]
  rw [linesOf_eq, hpieces]
  cases hline : lineOf? piece <;> simp [hline]

/-! ### What a capture has met -/

/-- The capture has met `stream` and given `lines`. -/
structure Caught (stream : Bytes) (c : Capture) (lines : List String) : Prop where
  piece : lineFeed ∉ c.piece
  lines : ∀ rest, linesOf (stream ++ rest) = lines ++ linesOf (c.piece ++ rest)

lemma caught_nil : Caught [] {} [] := ⟨by simp, fun _ => rfl⟩

lemma Caught.step (h : Caught stream c lines) (b : UInt8) :
    Caught (stream ++ [b]) (c.step b).1 (lines ++ (c.step b).2) := by
  unfold Capture.step
  split <;> rename_i hb
  · refine ⟨by simp, fun rest => ?_⟩
    rw [List.append_assoc, List.singleton_append, h.lines, hb]
    have hline : lineOf? (c.piece ++ [10]) = lineOf? c.piece := lineOf?_concat c.piece
    rw [hline, List.append_assoc, ← linesOf_piece h.piece]
    exact congrArg (lines ++ ·) (linesOf_append c.piece rest)
  · have hne : lineFeed ≠ b := fun heq => hb heq.symm
    refine ⟨by simp [h.piece, hne], fun rest => ?_⟩
    rw [List.append_assoc, h.lines]
    simp

lemma Caught.feed (h : Caught stream c lines) (chunk : Bytes) :
    Caught (stream ++ chunk) (c.feed chunk).1 (lines ++ (c.feed chunk).2) := by
  induction chunk using List.reverseRecOn with
  | nil => simpa [Capture.feed] using h
  | append_singleton chunk b ih =>
    have hstep := ih.step b
    unfold Capture.feed at hstep ⊢
    simpa [List.foldl_append] using hstep

/-- **At its end a capture has given the lines of the whole stream.** -/
theorem Caught.finish (h : Caught stream c lines) : lines ++ c.finish = linesOf stream := by
  have hlines := h.lines []
  simp only [List.append_nil] at hlines
  rw [hlines, linesOf_piece h.piece, Capture.finish]

end ChainRunner.Capture
