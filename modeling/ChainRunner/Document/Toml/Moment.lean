import ChainRunner.Text.Reader

/-!
Dates and times of TOML: reading them, and the one text of each.

The text names the seconds even where they were left out, and their fraction only down to its last
digit that is not zero.
-/

namespace ChainRunner.Document.Toml

open Text

structure Date where
  year : Nat
  month : Nat
  day : Nat
deriving DecidableEq, Repr

structure TimeOfDay where
  hour : Nat
  minute : Nat
  second : Nat
  nanosecond : Nat
deriving DecidableEq, Repr

inductive Zone
  | utc
  /-- So many minutes ahead of UTC. -/
  | ahead (minutes : Int)
deriving DecidableEq, Repr

inductive Moment
  | date (d : Date)
  | time (t : TimeOfDay)
  | both (d : Date) (t : TimeOfDay) (zone : Option Zone)
deriving DecidableEq, Repr

/-- The number that exactly `count` decimal digits stand for. -/
def fixed? (count : Nat) (s : List Char) : Option Nat :=
  if s.length = count ∧ s.all (isDigit 10) then some (number 10 s) else none

def isLeap (year : Nat) : Bool := year % 4 == 0 && (year % 100 != 0 || year % 400 == 0)

def daysIn (year month : Nat) : Nat :=
  if month = 2 then (if isLeap year then 29 else 28)
  else if month = 4 ∨ month = 6 ∨ month = 9 ∨ month = 11 then 30
  else 31

def Date.ofChars? (s : List Char) : Option Date :=
  match s.splitOnP (· == '-') with
  | [y, m, d] => do
    let y ← fixed? 4 y
    let m ← fixed? 2 m
    let d ← fixed? 2 d
    if 1 ≤ m ∧ m ≤ 12 ∧ 1 ≤ d ∧ d ≤ daysIn y m then some ⟨y, m, d⟩ else none
  | _ => none

/-- Hours and minutes. -/
def clock? (h m : List Char) : Option (Nat × Nat) := do
  let h ← fixed? 2 h
  let m ← fixed? 2 m
  if h ≤ 23 ∧ m ≤ 59 then some (h, m) else none

/-- Seconds up to a leap second, and nanoseconds; a fraction may be finer, to no effect. -/
def seconds? (s : List Char) : Option (Nat × Nat) :=
  match s.splitOnP (· == '.') with
  | [w] => do return (← whole? w, 0)
  | [w, f] => do
    let w ← whole? w
    if !f.isEmpty && f.all (isDigit 10) then
      some (w, number 10 ((f ++ List.replicate 9 '0').take 9))
    else none
  | _ => none
where
  whole? (w : List Char) : Option Nat := (fixed? 2 w).filter (· ≤ 60)

def TimeOfDay.ofChars? (s : List Char) : Option TimeOfDay :=
  match s.splitOnP (· == ':') with
  | [h, m] => do
    let (h, m) ← clock? h m
    return ⟨h, m, 0, 0⟩
  | [h, m, x] => do
    let (h, m) ← clock? h m
    let (x, n) ← seconds? x
    return ⟨h, m, x, n⟩
  | _ => none

/-- A distance from UTC, its sign read. -/
def Zone.ofChars? (behind : Bool) (s : List Char) : Option Zone :=
  match s.splitOnP (· == ':') with
  | [h, m] => do
    let (h, m) ← clock? h m
    let n : Int := 60 * h + m
    return .ahead (if behind then -n else n)
  | _ => none

/-- A time, and after it maybe its zone. -/
def zonedTime? (s : List Char) : Option (TimeOfDay × Option Zone) :=
  if s.getLast?.any fun c => c = 'Z' || c = 'z' then do
    return (← TimeOfDay.ofChars? s.dropLast, some .utc)
  else do
    let isSign := fun c : Char => c = '+' || c = '-'
    let t ← TimeOfDay.ofChars? (s.takeWhile (!isSign ·))
    match s.dropWhile (!isSign ·) with
    | [] => return (t, none)
    | sign :: offset => return (t, some (← Zone.ofChars? (sign = '-') offset))

def Moment.ofChars? (s : List Char) : Option Moment :=
  (Date.ofChars? s).map .date <|> (TimeOfDay.ofChars? s).map .time <|> do
    let d ← Date.ofChars? (s.take 10)
    match s.drop 10 with
    | c :: rest =>
      if c = 'T' ∨ c = 't' ∨ c = ' ' then do
        let (t, zone) ← zonedTime? rest
        return .both d t zone
      else none
    | [] => none

/-- A number in decimal with zeros in front up to `width` digits. -/
def digits (width n : Nat) : List Char := (Nat.toDigits 10 n).leftpad width '0'

def Date.chars (d : Date) : List Char :=
  digits 4 d.year ++ '-' :: digits 2 d.month ++ '-' :: digits 2 d.day

def TimeOfDay.chars (t : TimeOfDay) : List Char :=
  let fraction := ((digits 9 t.nanosecond).reverse.dropWhile (· == '0')).reverse
  digits 2 t.hour ++ ':' :: digits 2 t.minute ++ ':' :: digits 2 t.second ++
    if fraction.isEmpty then [] else '.' :: fraction

def Zone.chars : Zone → List Char
  | .utc => ['Z']
  | .ahead m =>
    let n := m.natAbs
    (if m < 0 then '-' else '+') :: digits 2 (n / 60) ++ ':' :: digits 2 (n % 60)

def Moment.chars : Moment → List Char
  | .date d => d.chars
  | .time t => t.chars
  | .both d t none => d.chars ++ 'T' :: t.chars
  | .both d t (some z) => d.chars ++ 'T' :: t.chars ++ z.chars

def Moment.text (m : Moment) : String := String.ofList m.chars

end ChainRunner.Document.Toml
