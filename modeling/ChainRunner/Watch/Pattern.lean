import ChainRunner.Text.Blank

/-!
Watch patterns as absolute slash-separated texts.

A pattern is resolved against the watched directory by text alone: backslashes become slashes,
empty and `.` segments go, and `..` takes the nearest kept segment away.
-/

namespace ChainRunner.Watch

open Text

def slashed (s : List Char) : List Char := s.map fun c => if c = '\\' then '/' else c

/-- The text with forward slashes only. -/
def toSlash (s : String) : String := String.ofList (slashed s.toList)

/-- Starts at the root, or at a drive named by one ASCII character. -/
def startsAtRoot : List Char → Bool
  | '/' :: _ => true
  | c :: ':' :: '/' :: _ => c.toNat < 0x80
  | _ => false

/-- The kept segments, last first, after one more. -/
def collapseStep (absolute : Bool) (kept : List (List Char)) (seg : List Char) :
    List (List Char) :=
  if seg = [] ∨ seg = ['.'] then kept
  else if seg = ['.', '.'] then
    match kept with
    | [] => if absolute then [] else [seg]
    | s :: rest => if s = ['.', '.'] then (if absolute then kept else seg :: kept) else rest
  else seg :: kept

/-- Without empty, `.` and, where possible, `..` segments. -/
def collapse (s : List Char) : List Char :=
  let absolute := s.head? = some '/'
  let kept := ((s.splitOnP (· == '/')).foldl (collapseStep absolute) []).reverse
  let joined := ['/'].intercalate kept
  if absolute then '/' :: joined else joined

/-- The pattern `raw` as seen from the directory `root`. -/
def resolve (root raw : String) : String :=
  let raw := slashed raw.toList
  let joined :=
    if startsAtRoot raw then raw
    else dropEndWhile (· == '/') (slashed root.toList) ++ '/' :: raw
  String.ofList (collapse joined)

def isMeta (c : Char) : Bool := c = '*' || c = '?' || c = '[' || c = '\x7b'

/-- The directory part of a pattern before its first metacharacter; a pattern without one is
returned as it is. -/
def literalDir (pattern : String) : String :=
  let stem := pattern.toList.takeWhile (!isMeta ·)
  if pattern.toList.any isMeta then
    match stem.reverse.dropWhile (· != '/') with
    | [] => "."
    | ['/'] => "/"
    | _ :: dir => String.ofList dir.reverse
  else pattern

end ChainRunner.Watch
