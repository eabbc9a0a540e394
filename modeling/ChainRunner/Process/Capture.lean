import ChainRunner.Text.Blank
import ChainRunner.Text.Utf8

/-!
The lines that a process writes to one of its streams.

Bytes come in chunks of any size. A piece ends with a line feed or with the stream; it makes a
line unless it is blank.
-/

namespace ChainRunner

open Text

structure Capture where
  /-- The piece that has begun. -/
  piece : Bytes := []
deriving DecidableEq, Repr, Inhabited

namespace Capture

/-- A piece as a line: decoded, and without the line end. -/
def lineOf? (piece : Bytes) : Option String :=
  let line := dropEndWhile (fun c => c = '\n' || c = '\r') (decodeLossy piece).toList
  if line.all isBlank then none else some (String.ofList line)

/-- One byte: the lines it completes. -/
def step (c : Capture) (b : UInt8) : Capture × List String :=
  if b = 10 then ({}, (lineOf? (c.piece ++ [b])).toList) else (⟨c.piece ++ [b]⟩, [])

/-- One chunk. -/
def feed (c : Capture) (chunk : Bytes) : Capture × List String :=
  chunk.foldl
    (fun (c, lines) b =>
      let r := c.step b
      (r.1, lines ++ r.2))
    (c, [])

/-- The end of the stream. -/
def finish (c : Capture) : List String := (lineOf? c.piece).toList

end Capture

end ChainRunner
