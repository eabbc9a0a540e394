import ChainRunner.Document.Value
import ChainRunner.Text.Reader

/-!
Reading JSON documents.

Keys may repeat and all entries are kept. A text with an escape that is half of a surrogate pair
is well-formed but has no value, so it does no harm where nobody looks.
-/

namespace ChainRunner.Document.Json

open Text

def isSpace (c : Char) : Bool := c = ' ' || c = '\n' || c = '\t' || c = '\r'

def space : Reader Unit := do discard (Reader.takeWhile isSpace)

def symbol (c : Char) : Reader Unit := do space; Reader.char c

/-- A character of a string, or the UTF-16 unit of a `\u` escape. -/
inductive Unit16
  | char (c : Char)
  | unit (n : Nat)

def hexUnit : Reader Unit16 := do
  let ds ← [0, 1, 2, 3].mapM fun _ => Reader.satisfy (isDigit 16)
  return .unit (number 16 ds)

def escape : Reader Unit16 := do
  match ← Reader.satisfy (fun _ => true) with
  | '"' => return .char '"'
  | '\\' => return .char '\\'
  | '/' => return .char '/'
  | 'b' => return .char '\x08'
  | 'f' => return .char '\x0c'
  | 'n' => return .char '\n'
  | 'r' => return .char '\r'
  | 't' => return .char '\t'
  | 'u' => hexUnit
  | _ => failure

def unit16 : Reader Unit16 := do
  let c ← Reader.satisfy (fun c => c ≠ '"' && 0x20 ≤ c.toNat)
  if c = '\\' then escape else return .char c

def isHigh (n : Nat) : Bool := 0xD800 ≤ n && n ≤ 0xDBFF

def isLow (n : Nat) : Bool := 0xDC00 ≤ n && n ≤ 0xDFFF

/-- The characters of a string, if every surrogate has its partner. -/
def decode : List Unit16 → Option (List Char)
  | [] => some []
  | .char c :: us => (c :: ·) <$> decode us
  | .unit n :: .unit m :: us =>
    if isHigh n then
      if isLow m then
        (Char.ofNat (0x10000 + 0x400 * (n - 0xD800) + (m - 0xDC00)) :: ·) <$> decode us
      else none
    else do return (← charOfCode? n) :: (← decode (.unit m :: us))
  | .unit n :: us => do return (← charOfCode? n) :: (← decode us)

def string : Reader (Option String) := do
  Reader.char '"'
  let us ← Reader.many unit16
  Reader.char '"'
  return (decode us).map String.ofList

def digits : Reader (List Char) := Reader.takeWhile1 (isDigit 10)

/-- Digits without a leading zero. -/
def natural : Reader (List Char) := do
  let ds ← digits
  if ds.length > 1 ∧ ds.head? = some '0' then failure else return ds

/-- A number. Only one written as a plain integer counts as such, and `-0` does not. -/
def numeral : Reader Value := do
  let minus ← (do Reader.char '-'; return true) <|> pure false
  let ds ← natural
  let fraction ← (do Reader.char '.'; discard digits; return true) <|> pure false
  let exponent ← (do
    discard (Reader.satisfy fun c => c = 'e' || c = 'E')
    Reader.optional (discard (Reader.satisfy fun c => c = '+' || c = '-'))
    discard digits
    return true) <|> pure false
  let n := number 10 ds
  if fraction || exponent || (minus && n == 0) then return .other
  return .integer (if minus then -n else n)

/-- Nothing may follow a number that would have belonged to it. -/
def endOfNumber : Reader Unit := do
  match ← Reader.peek? with
  | some c => if isDigit 10 c || c = '.' || c = 'e' || c = 'E' then failure else return ()
  | none => return ()

/-- Members between brackets, with commas between two. -/
def members {α : Type} (opening closing : Char) (r : Reader α) : Reader (List α) := do
  Reader.char opening
  let ms ← Reader.sepBy1 r (symbol ',') <|> pure []
  symbol closing
  return ms

/-- A value with brackets nested less than `depth` levels. -/
def value : Nat → Reader Value
  | 0 => failure
  | depth + 1 => do
    space
    match ← Reader.peek? with
    | some '"' => return (← string).elim .other .text
    | some '[' => return .list false (← members '[' ']' (value depth))
    | some '\x7b' =>
      let member : Reader (Option String × Value) := do
        space
        let k ← string
        symbol ':'
        return (k, ← value depth)
      return .table .sealed (← members '\x7b' '\x7d' member)
    | some 't' => Reader.text "true"; return .other
    | some 'f' => Reader.text "false"; return .other
    | some 'n' => Reader.text "null"; return .other
    | _ => do
      let v ← numeral
      endOfNumber
      return v

/-- The document a text holds, if it is one. -/
def read? (s : String) : Option Value :=
  (do let v ← value (s.length + 1); space; return v : Reader Value).run? s

end ChainRunner.Document.Json
