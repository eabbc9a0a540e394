import ChainRunner.Chain.Basic
import ChainRunner.Text.Blank

/-!
Reading and writing chain expressions.

An expression is a list of words. A bracket standing alone is decoration, a word that starts
with `-` is a pause whatever follows, a word that starts with `+` names a background step, and
any other word names a sequential step. A `+` that names nothing is skipped.
-/

namespace ChainRunner.Chain

open Text

/-- The step a word stands for, if any. -/
def stepOfWord? (w : List Char) : Option Step :=
  if w = ['['] ∨ w = [']'] then none
  else
    match w with
    | '-' :: _ => some .pause
    | '+' :: rest =>
      match rest.dropWhile (· == '+') with
      | [] => none
      | name => some (.background (String.ofList name))
    | _ => some (.sequential (String.ofList w))

/-- The steps of an expression, in order. -/
def parse (expr : String) : List Step := (words expr.toList).filterMap stepOfWord?

/-- The batches of an expression, in order. -/
def batches (expr : String) : List Batch := Batch.ofSteps (parse expr)

/-- A step as a word. -/
def renderStep : Step → String
  | .sequential t => t
  | .background t => "+" ++ t
  | .pause => "-"

/-- Steps as an expression, one space between two words. -/
def render (steps : List Step) : String := " ".intercalate (steps.map renderStep)

end ChainRunner.Chain
