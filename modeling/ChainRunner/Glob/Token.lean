import ChainRunner.Glob.Expr

/-!
The tokens of a glob and the byte expressions they stand for.

Globs are read by characters and match by bytes: `?` is one byte, and a member of a class counts
as the bytes of its UTF-8 form. Only `**`, classes and literals get across a slash.
-/

namespace ChainRunner.Glob

inductive Token
  | literal (c : Char)
  /-- Any byte but a slash. -/
  | any
  /-- Any bytes but slashes. -/
  | star
  /-- A leading `**`: nothing, or anything that ends in a slash. -/
  | leading
  /-- A trailing `**`: a slash and anything. -/
  | trailing
  /-- A `**` between slashes: a slash, or two with anything between. -/
  | between
  | class (negated : Bool) (ranges : List (Char × Char))
  /-- Alternatives; without an expression when all of them are empty. -/
  | group (e : Option Expr)
deriving DecidableEq, Repr

/-- The bytes of a character in UTF-8. -/
def utf8 (c : Char) : List UInt8 := String.utf8EncodeChar c

/-- A range of characters as ranges of bytes: the range runs from the last byte of its start to
the first byte of its end, the other bytes stand for themselves. -/
def byteRanges (r : Char × Char) : List (UInt8 × UInt8) :=
  let single := fun b : UInt8 => (b, b)
  if r.1 = r.2 then (utf8 r.1).map single
  else
    match (utf8 r.1).reverse, utf8 r.2 with
    | lo :: before, hi :: after => before.reverse.map single ++ (lo, hi) :: after.map single
    | _, _ => []

def slash : Expr := .byte (.only ByteClass.slash)

def anything : Expr := .many .all

namespace Token

/-- The expression of a token; a group of empty alternatives has none. -/
def expr? : Token → Option Expr
  | .literal c => some (.ofBytes (utf8 c))
  | .any => some (.byte .notSlash)
  | .star => some (.many .notSlash)
  | .leading => some (.alt (.alt .empty slash) (.seq anything slash))
  | .trailing => some (.seq slash anything)
  | .between => some (.alt slash (.seq slash (.seq anything slash)))
  | .class negated ranges => some (.byte ⟨negated, ranges.flatMap byteRanges⟩)
  | .group e => e

/-- The expression of a branch; without one when the branch is empty. -/
def branchExpr? (ts : List Token) : Option Expr :=
  match ts.filterMap expr? with
  | [] => none
  | xs => some (Expr.concat xs)

/-- Branches as one token. Empty branches are left out. -/
def ofBranches (bs : List (List Token)) : Token :=
  match bs.filterMap branchExpr? with
  | [] => .group none
  | x :: xs => .group (some (xs.foldl .alt x))

end Token

end ChainRunner.Glob
