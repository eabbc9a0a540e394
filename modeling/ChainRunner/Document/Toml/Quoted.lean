import ChainRunner.Text.Reader

/-!
Strings and keys of TOML.
-/

namespace ChainRunner.Document.Toml

open Text

def isSpace (c : Char) : Bool := c = ' ' || c = '\t'

/-- Characters that may stand as they are in comments and literal strings. -/
def isPlain (c : Char) : Bool := c = '\t' || (0x20 ≤ c.toNat && c.toNat ≠ 0x7F)

def space : Reader Unit := do discard (Reader.takeWhile isSpace)

def newline : Reader Unit := Reader.char '\n' <|> Reader.text "\r\n"

def hexCode (count : Nat) : Reader Char := do
  let ds ← (List.replicate count ()).mapM fun _ => Reader.satisfy (isDigit 16)
  match charOfCode? (number 16 ds) with
  | some c => return c
  | none => failure

/-- The character of an escape, its backslash read. -/
def escaped : Reader Char := do
  match ← Reader.satisfy (fun _ => true) with
  | 'b' => return '\x08'
  | 't' => return '\t'
  | 'n' => return '\n'
  | 'f' => return '\x0c'
  | 'r' => return '\r'
  | 'e' => return '\x1b'
  | '"' => return '"'
  | '\\' => return '\\'
  | 'x' => hexCode 2
  | 'u' => hexCode 4
  | 'U' => hexCode 8
  | _ => failure

def escapedPiece : Reader (List Char) := do
  Reader.char '\\'
  return [← escaped]

def plainPiece (quote : Char) : Reader (List Char) := do
  return [← Reader.satisfy fun c => isPlain c && c ≠ quote && !(quote = '"' && c = '\\')]

/-- A line end, kept as it is written. -/
def newlinePiece : Reader (List Char) :=
  (do Reader.char '\n'; return ['\n']) <|> (do Reader.text "\r\n"; return ['\r', '\n'])

/-- A backslash at the end of a line takes the white space behind it along. -/
def continuationPiece : Reader (List Char) := do
  Reader.char '\\'
  space
  newline
  discard (Reader.many (discard (Reader.takeWhile1 isSpace) <|> newline))
  return []

/-- A quote that does not start the closing three. -/
def quotePiece (quote : Char) : Reader (List Char) := fun s =>
  if [quote, quote, quote].isPrefixOf s then none
  else (do Reader.char quote; return [quote] : Reader (List Char)) s

/-- The closing three quotes, with one or two that belong to the text before them. -/
def closing (quote : Char) : Reader (List Char) := do
  let three := do Reader.char quote; Reader.char quote; Reader.char quote
  (do Reader.char quote; Reader.char quote; three; return [quote, quote])
    <|> (do Reader.char quote; three; return [quote])
    <|> (do three; return [])

def singleLine (quote : Char) (piece : Reader (List Char)) : Reader String := do
  Reader.char quote
  let ps ← Reader.many piece
  Reader.char quote
  return String.ofList ps.flatten

def multiLine (quote : Char) (piece : Reader (List Char)) : Reader String := do
  Reader.char quote
  Reader.char quote
  Reader.char quote
  Reader.optional newline
  let ps ← Reader.many (quotePiece quote <|> newlinePiece <|> piece)
  let last ← closing quote
  return String.ofList (ps.flatten ++ last)

def basicString : Reader String := singleLine '"' (escapedPiece <|> plainPiece '"')

def literalString : Reader String := singleLine '\'' (plainPiece '\'')

/-- Any string. One that opens with three quotes may run over several lines. -/
def string : Reader String :=
  multiLine '"' (continuationPiece <|> escapedPiece <|> plainPiece '"')
    <|> multiLine '\'' (plainPiece '\'')
    <|> basicString <|> literalString

def isBareKeyChar (c : Char) : Bool := (c.toNat < 0x80 && c.isAlphanum) || c = '_' || c = '-'

def simpleKey : Reader String :=
  basicString <|> literalString <|> (do return String.ofList (← Reader.takeWhile1 isBareKeyChar))

/-- Simple keys with dots between two. -/
def key : Reader (List String) :=
  Reader.sepBy1 simpleKey (do space; Reader.char '.'; space)

end ChainRunner.Document.Toml
