/-!
Readers: functions that take something off the front of a text or fail.

A choice goes back to where it started when its first reader fails. `many` stops where its reader
fails or takes nothing, so every reader built from these ends.
-/

namespace ChainRunner.Text

abbrev Reader (α : Type) : Type := StateT (List Char) Option α

namespace Reader

variable {α β : Type}

/-- The next character, left where it is. -/
def peek? : Reader (Option Char) := fun s => some (s.head?, s)

def satisfy (p : Char → Bool) : Reader Char
  | c :: s => if p c then some (c, s) else none
  | [] => none

def char (c : Char) : Reader Unit := do discard (satisfy (· == c))

/-- Exactly this text. -/
def text (t : String) : Reader Unit := fun s => (t.toList.isPrefixOf? s).map fun s => ((), s)

def takeWhile (p : Char → Bool) : Reader (List Char) := fun s => some (s.takeWhile p, s.dropWhile p)

def takeWhile1 (p : Char → Bool) : Reader (List Char) := do
  let cs ← takeWhile p
  if cs.isEmpty then failure else return cs

def eof : Reader Unit
  | [] => some ((), [])
  | _ :: _ => none

/-- As often as `r` takes something. -/
def many (r : Reader α) : Reader (List α) := fun s => some (go s)
where
  go (s : List Char) : List α × List Char :=
    match r s with
    | none => ([], s)
    | some (a, s') =>
      if s'.length < s.length then
        let p := go s'
        (a :: p.1, p.2)
      else ([], s)
  termination_by s.length

def optional (r : Reader Unit) : Reader Unit := r <|> pure ()

/-- One or more, with `sep` between two. -/
def sepBy1 (r : Reader α) (sep : Reader Unit) : Reader (List α) := do
  let a ← r
  let as ← many (do sep; r)
  return a :: as

/-- What `r` makes of a whole text. -/
def run? (r : Reader α) (s : String) : Option α :=
  ((do let a ← r; eof; return a : Reader α) s.toList).map (·.1)

end Reader

/-- The value of a digit in a base up to 36; letters count in both cases. -/
def digit? (base : Nat) (c : Char) : Option Nat :=
  let n := c.toNat
  let d :=
    if 0x30 ≤ n ∧ n ≤ 0x39 then n - 0x30
    else if 0x61 ≤ n ∧ n ≤ 0x7A then n - 0x61 + 10
    else if 0x41 ≤ n ∧ n ≤ 0x5A then n - 0x41 + 10
    else 36
  if d < base then some d else none

def isDigit (base : Nat) (c : Char) : Bool := (digit? base c).isSome

/-- The number that digits stand for; other characters count nothing. -/
def number (base : Nat) (ds : List Char) : Nat :=
  (ds.filterMap (digit? base)).foldl (fun n d => base * n + d) 0

/-- The character with a code point, unless it is a surrogate or too large. -/
def charOfCode? (n : Nat) : Option Char := if n.isValidChar then some (Char.ofNat n) else none

end ChainRunner.Text
