import ChainRunner.Variables.Basic

/-!
Texts with placeholders.

A text splits into literal characters and placeholders in one scan from the left; filling it
replaces the placeholders all at once and leaves the rest as it is, so a value that was put in
is never read again.
-/

namespace ChainRunner.Template

inductive Piece
  | literal (c : Char)
  | hole (a : Axis)
deriving DecidableEq, Repr

def pieces : List Char → List Piece
  | '$' :: 'F' :: 'L' :: 'V' :: s => .hole .flavor :: pieces s
  | '$' :: 'P' :: 'R' :: 'O' :: 'J' :: s => .hole .project :: pieces s
  | '$' :: 'F' :: 'I' :: 'L' :: 'E' :: s => .hole .file :: pieces s
  | c :: s => .literal c :: pieces s
  | [] => []

/-- The piece as it is written in a text. -/
def Piece.text : Piece → List Char
  | .literal c => [c]
  | .hole a => a.placeholder.toList

/-- Values chosen for some axes; the first pair of an axis counts. -/
abbrev Assignment := List (Axis × String)

def Piece.fill (asg : Assignment) : Piece → List Char
  | .literal c => [c]
  | .hole a =>
    match asg.lookup a with
    | some v => v.toList
    | none => a.placeholder.toList

/-- The axes whose placeholder occurs, in axis order. -/
def axesIn (text : String) : List Axis :=
  Axis.all.filter (fun a => .hole a ∈ pieces text.toList)

/-- Replace every placeholder of an assigned axis by its value. -/
def fill (asg : Assignment) (text : String) : String :=
  String.ofList ((pieces text.toList).flatMap (Piece.fill asg))

/-- Every way to choose one value per axis, the first axis varying slowest. An axis without
values is left unassigned. -/
def combinations (axes : List Axis) (vs : Variables) : List Assignment :=
  match axes with
  | [] => [[]]
  | a :: axes =>
    match vs.values a with
    | [] => combinations axes vs
    | xs => xs.flatMap (fun x => (combinations axes vs).map ((a, x) :: ·))

theorem flatMap_text_pieces (s : List Char) : (pieces s).flatMap Piece.text = s := by
  fun_induction pieces s <;> simp_all [Piece.text, Axis.placeholder]

end ChainRunner.Template
