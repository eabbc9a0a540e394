/-!
UTF-8, with a mark in the place of what is not UTF-8.

The decoder reads one byte at a time. The bytes that begin a character but are not continued as
it must be become one mark together; any other stray byte becomes a mark of its own.
-/

namespace ChainRunner.Text

abbrev Bytes := List UInt8

def encode (s : String) : Bytes := s.toList.flatMap String.utf8EncodeChar

/-- The character that stands for bytes that are none. -/
def mark : Char := '\uFFFD'

/-- What a first byte says: the bits of it that count, and the ranges of the bytes to follow. -/
def lead? (b : Nat) : Option (Nat × List (Nat × Nat)) :=
  let tail := (0x80, 0xBF)
  if b < 0x80 then some (b, [])
  else if b < 0xC2 then none
  else if b < 0xE0 then some (b - 0xC0, [tail])
  else if b = 0xE0 then some (0, [(0xA0, 0xBF), tail])
  else if b = 0xED then some (0xD, [(0x80, 0x9F), tail])
  else if b < 0xF0 then some (b - 0xE0, [tail, tail])
  else if b = 0xF0 then some (0, [(0x90, 0xBF), tail, tail])
  else if b < 0xF4 then some (b - 0xF0, [tail, tail, tail])
  else if b = 0xF4 then some (4, [(0x80, 0x8F), tail, tail])
  else none

structure Decoder where
  /-- The bits of the character that has begun. -/
  value : Nat := 0
  /-- The ranges of the bytes it still needs; none between two characters. -/
  needs : List (Nat × Nat) := []
  read : List Char := []
  /-- Some bytes were no character. -/
  broken : Bool := false

namespace Decoder

def emit (d : Decoder) (c : Char) : Decoder := { d with needs := [], read := d.read ++ [c] }

def emitMark (d : Decoder) : Decoder := { d.emit mark with broken := true }

/-- Begin a character. -/
def begin (d : Decoder) (b : Nat) : Decoder :=
  match lead? b with
  | none => d.emitMark
  | some (n, []) => d.emit (Char.ofNat n)
  | some (n, needs) => { d with value := n, needs }

def step (d : Decoder) (byte : UInt8) : Decoder :=
  let b := byte.toNat
  match d.needs with
  | [] => d.begin b
  | (lo, hi) :: more =>
    if lo ≤ b ∧ b ≤ hi then
      let n := d.value * 64 + (b - 0x80)
      if more.isEmpty then d.emit (Char.ofNat n) else { d with value := n, needs := more }
    else d.emitMark.begin b

/-- The end of the bytes. -/
def finish (d : Decoder) : Decoder := if d.needs.isEmpty then d else d.emitMark

def run (d : Decoder) (bs : Bytes) : Decoder := bs.foldl step d

@[simp] theorem run_nil (d : Decoder) : d.run [] = d := rfl

@[simp] theorem run_cons (d : Decoder) (b : UInt8) (bs : Bytes) :
    d.run (b :: bs) = (d.step b).run bs := rfl

theorem run_append (d : Decoder) (as bs : Bytes) : d.run (as ++ bs) = (d.run as).run bs := by
  simp [run, List.foldl_append]

end Decoder

/-- The bytes as a text, marks in the place of what is no UTF-8. -/
def decodeLossy (bs : Bytes) : String :=
  String.ofList (({} : Decoder).run bs).finish.read

/-- The bytes as a text, if they are UTF-8. -/
def decode? (bs : Bytes) : Option String :=
  let d := (({} : Decoder).run bs).finish
  if d.broken then none else some (String.ofList d.read)

end ChainRunner.Text
