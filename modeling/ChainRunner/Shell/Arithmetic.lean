import ChainRunner.Text.Reader
import ChainRunner.Shell.Token

/-!
Arithmetic on whole numbers, as it stands between double brackets.

Operators bind as usual: products before sums before comparisons before logic. A name counts as
its number, and as 0 when it has none.
-/

namespace ChainRunner.Shell.Arithmetic

open Text

def space : Reader Unit := do discard (Reader.takeWhile fun c => c = ' ' || c = '\t' || c = '\n')

def sign (s : String) : Reader Unit := do space; Reader.text s

/-- The first of some signs that stands here, longer ones first. -/
def oneOf : List String → Reader String
  | [] => failure
  | s :: ss => (do sign s; return s) <|> oneOf ss

def ofBool (b : Bool) : Int := if b then 1 else 0

/-- The value of an operation; there is no division by zero. -/
def apply (op : String) (a b : Int) : Option Int :=
  match op with
  | "*" => some (a * b)
  | "/" => if b = 0 then none else some (a.tdiv b)
  | "%" => if b = 0 then none else some (a.tmod b)
  | "+" => some (a + b)
  | "-" => some (a - b)
  | "<=" => some (ofBool (a ≤ b))
  | ">=" => some (ofBool (b ≤ a))
  | "<" => some (ofBool (a < b))
  | ">" => some (ofBool (b < a))
  | "==" => some (ofBool (a = b))
  | "!=" => some (ofBool (a ≠ b))
  | "&&" => some (ofBool (a ≠ 0 && b ≠ 0))
  | "||" => some (ofBool (a ≠ 0 || b ≠ 0))
  | _ => none

/-- Operators that bind equally, the loosest first. -/
def levels : List (List String) :=
  [["||"], ["&&"], ["==", "!="], ["<=", ">=", "<", ">"], ["+", "-"], ["*", "/", "%"]]

/-- Operands with the operators of one level between them, taken from the left. -/
def chain (ops : List String) (operand : Reader Int) : Reader Int := do
  let first ← operand
  let rest ← Reader.many (do let op ← oneOf ops; return (op, ← operand))
  rest.foldlM (fun a p => fun s => (apply p.1 a p.2).map fun v => (v, s)) first

/-- A number, a name, or an expression in brackets, nested at most so deep. -/
def atom (value : String → Int) : Nat → Reader Int
  | 0 => failure
  | depth + 1 => do
    space
    match ← Reader.peek? with
    | some '(' => do
      sign "("
      let v ← levels.foldr chain (atom value depth)
      sign ")"
      return v
    | some '-' => do sign "-"; return -(← atom value depth)
    | some '+' => do sign "+"; atom value depth
    | some '!' => do sign "!"; return ofBool ((← atom value depth) = 0)
    | some '$' => do sign "$"; atom value depth
    | some c =>
      if c.isDigit then do return (number 10 (← Reader.takeWhile Char.isDigit) : Nat)
      else do
        let name ← Reader.takeWhile1 isNameChar
        return value (String.ofList name)
    | none => failure

/-- The value of an expression, if it has one. -/
def eval (value : String → Int) (expr : String) : Option Int :=
  (do let v ← levels.foldr chain (atom value (expr.length + 1)); space; return v :
    Reader Int).run? expr

end ChainRunner.Shell.Arithmetic
