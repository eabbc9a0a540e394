import ChainRunner.Document.Toml.Quoted
import ChainRunner.Document.Toml.Scalar
import ChainRunner.Document.Toml.Table

/-!
Reading TOML documents.

Line ends, comments and a last comma are fine inside brackets of both kinds, but no key goes over
a line end.
-/

namespace ChainRunner.Document.Toml

open Text

def comment : Reader Unit := do
  Reader.char '#'
  discard (Reader.takeWhile isPlain)

/-- White space, comments and line ends. -/
def blank : Reader Unit := do
  discard (Reader.many (discard (Reader.takeWhile1 isSpace) <|> newline <|> do comment; newline))

/-- Brackets may nest this deep, and so may the tables of one key. -/
def maxDepth : Nat := 80

def keyPath : Reader KeyPath := do
  let ks ← key
  if maxDepth < ks.length then failure
  match KeyPath.ofList? ks with
  | some p => return p
  | none => failure

/-- Items between brackets, with commas between two and maybe after the last. -/
def items {α : Type} (opening closing : Char) (r : Reader α) : Reader (List α) := do
  Reader.char opening
  blank
  let xs ← (do
    let xs ← Reader.sepBy1 r (do blank; Reader.char ','; blank)
    blank
    Reader.optional (do Reader.char ','; blank)
    return xs) <|> pure []
  Reader.char closing
  return xs

/-- A value with brackets nested at most `depth` levels. -/
def value (depth : Nat) : Reader Value := do
  match ← Reader.peek? with
  | some '"' => return .text (← string)
  | some '\'' => return .text (← string)
  | some '[' =>
    match depth with
    | 0 => failure
    | depth + 1 => return .list false (← items '[' ']' (value depth))
  | some '\x7b' =>
    match depth with
    | 0 => failure
    | depth + 1 =>
      let entry : Reader (KeyPath × Value) := do
        let p ← keyPath
        blank
        Reader.char '='
        blank
        return (p, ← value depth)
      match inlineTable? (← items '\x7b' '\x7d' entry) with
      | some t => return t
      | none => failure
  | _ => scalar

def bracketed (r : Reader α) : Reader α := do
  Reader.char '['
  let a ← r
  Reader.char ']'
  return a

def spaced (r : Reader α) : Reader α := do
  space
  let a ← r
  space
  return a

def statement : Reader Statement :=
  (do return .element (← bracketed (bracketed (spaced keyPath))))
    <|> (do return .table (← bracketed (spaced keyPath)))
    <|> (do
      let p ← keyPath
      space
      Reader.char '='
      space
      return .entry p (← value maxDepth))

/-- A line with a statement or without, its end left where it is. -/
def line : Reader (Option Statement) := do
  space
  let s ← (do return some (← statement)) <|> pure none
  space
  Reader.optional comment
  return s

/-- The document a text holds, if it is one. A byte order mark in front is skipped. -/
def read? (s : String) : Option Value := do
  let lines : Reader (List (Option Statement)) := do
    Reader.optional (Reader.char '\uFEFF')
    Reader.sepBy1 line newline
  build? ((← lines.run? s).filterMap id)

end ChainRunner.Document.Toml
