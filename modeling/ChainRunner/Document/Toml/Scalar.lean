import ChainRunner.Document.Toml.Moment
import ChainRunner.Document.Value

/-!
Unquoted values of TOML: booleans, numbers, dates and times.

Such a value is one word; what it means is decided by its whole text.
-/

namespace ChainRunner.Document.Toml

open Text

/-- Digits with single underscores between two of them, the underscores taken out. -/
def plainDigits? (base : Nat) (s : List Char) : Option (List Char) :=
  let groups := s.splitOnP (· == '_')
  if groups.all (fun g => !g.isEmpty && g.all (isDigit base)) then some groups.flatten else none

/-- Whether decimal digits start with a zero that counts nothing. -/
def hasLeadingZero (ds : List Char) : Bool := ds.length > 1 && ds.head? = some '0'

def splitSign : List Char → Bool × List Char
  | '-' :: s => (true, s)
  | '+' :: s => (false, s)
  | s => (false, s)

def integer? (s : List Char) : Option Int :=
  match s with
  | '0' :: 'x' :: ds => (plainDigits? 16 ds).map fun ds => number 16 ds
  | '0' :: 'o' :: ds => (plainDigits? 8 ds).map fun ds => number 8 ds
  | '0' :: 'b' :: ds => (plainDigits? 2 ds).map fun ds => number 2 ds
  | _ => do
    let (minus, ds) := splitSign s
    let ds ← plainDigits? 10 ds
    if hasLeadingZero ds then none
    return if minus then -(number 10 ds : Int) else number 10 ds

/-- Integers that can be read: those of 128 bits, signed or not. -/
def isStorable (n : Int) : Bool := -(Nat.pow 2 127 : Nat) ≤ n && n < (Nat.pow 2 128 : Nat)

/-- Whether `m` times ten to the power `e` rounds to a double-precision number. -/
def isFinite (m : Nat) (e : Int) : Bool :=
  let limit := Nat.pow 2 1024 - Nat.pow 2 970
  let size := (Nat.toDigits 10 m).length + e
  if m = 0 ∨ size < 300 then true
  else if 320 < size then false
  else if 0 ≤ e then m * Nat.pow 10 e.toNat < limit
  else m < limit * Nat.pow 10 (-e).toNat

/-- For a decimal number with a fraction or an exponent, whether its size is moderate. -/
def floatIsFinite? (s : List Char) : Option Bool :=
  let (_, s) := splitSign s
  if s = ['i', 'n', 'f'] ∨ s = ['n', 'a', 'n'] then some true
  else
    let isE := fun c : Char => c = 'e' || c = 'E'
    let mantissa := s.takeWhile (!isE ·)
    let whole := mantissa.takeWhile (· != '.')
    let fraction := (mantissa.dropWhile (· != '.')).drop 1
    let exponent := (s.dropWhile (!isE ·)).drop 1
    let hasFraction := mantissa.contains '.'
    let hasExponent := s.any isE
    if !hasFraction && !hasExponent then none
    else do
      let w ← plainDigits? 10 whole
      let f ← if hasFraction then plainDigits? 10 fraction else some []
      let (minus, ds) := splitSign exponent
      let x ← if hasExponent then plainDigits? 10 ds else some []
      let e : Int := if minus then -(number 10 x : Int) else number 10 x
      if hasLeadingZero w then none else return isFinite (number 10 (w ++ f)) (e - f.length)

/-- The key that a date or a time has its text under. -/
def momentKey : String := "$__toml_private_datetime"

/-- A date or a time reads as a complete table of one entry. -/
def Moment.toValue (m : Moment) : Value := .table .sealed [(some momentKey, .text m.text)]

def isScalarChar (c : Char) : Bool :=
  (c.toNat < 0x80 && c.isAlphanum) || c = '_' || c = '+' || c = '-' || c = '.' || c = ':'

/-- A word; a time that follows a date after one space belongs to it. -/
def scalarWord : Reader (List Char) := do
  let w ← Reader.takeWhile1 isScalarChar
  if (Date.ofChars? w).isSome then
    (do
      Reader.char ' '
      let t ← Reader.takeWhile1 isScalarChar
      if t.head?.any (isDigit 10) then return w ++ ' ' :: t else failure) <|> pure w
  else return w

def scalar : Reader Value := do
  let w ← scalarWord
  if w = "true".toList ∨ w = "false".toList then return .other
  match integer? w, floatIsFinite? w, Moment.ofChars? w with
  | some n, _, _ => return if isStorable n then .integer n else .oversized
  | none, some finite, _ => return if finite then .other else .oversized
  | none, none, some m => return m.toValue
  | none, none, none => failure

end ChainRunner.Document.Toml
