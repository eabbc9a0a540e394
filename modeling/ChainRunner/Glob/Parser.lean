import ChainRunner.Glob.Token

/-!
Reading globs.

`{a,b}` nests; `\` makes the next character literal; in a class neither has a meaning. A `**`
takes the slash after it along, and the token before it as well unless it stands at the start of
its branch.
-/

namespace ChainRunner

namespace Glob

inductive SyntaxError
  | unclosedClass
  | invalidRange (lo hi : Char)
  | unopenedGroup
  | unclosedGroup
  | danglingEscape
deriving DecidableEq, Repr

def SyntaxError.message : SyntaxError → String
  | .unclosedClass => "unclosed character class; missing ']'"
  | .invalidRange lo hi => s!"invalid range; '{lo}' > '{hi}'"
  | .unopenedGroup =>
    "unopened alternate group; missing '\x7b' (maybe escape '\x7d' with '[\x7d]'?)"
  | .unclosedGroup =>
    "unclosed alternate group; missing '\x7d' (maybe escape '\x7b' with '[\x7b]'?)"
  | .danglingEscape => "dangling '\\'"

/-! ### Classes -/

/-- How far the members of a class have been read, the last range first. -/
structure ClassScan where
  first : Bool := true
  /-- A `-` waits for the end of the last range. -/
  pending : Bool := false
  ranges : List (Char × Char) := []

/-- The class after its opening bracket and negation sign, and the text behind it. -/
def readMembers (negated : Bool) (st : ClassScan) :
    List Char → Except SyntaxError (Token × List Char)
  | [] => .error .unclosedClass
  | c :: s =>
    if st.first then readMembers negated { ranges := (c, c) :: st.ranges, first := false } s
    else if c = ']' then
      let ranges := if st.pending then ('-', '-') :: st.ranges else st.ranges
      .ok (.class negated ranges.reverse, s)
    else if st.pending then
      match st.ranges with
      | (lo, _) :: rs =>
        if c < lo then .error (.invalidRange lo c)
        else readMembers negated { ranges := (lo, c) :: rs, first := false } s
      | [] => readMembers negated { ranges := [(c, c)], first := false } s
    else if c = '-' then readMembers negated { st with pending := true } s
    else readMembers negated { st with ranges := (c, c) :: st.ranges } s

def readClass : List Char → Except SyntaxError (Token × List Char)
  | '!' :: s => readMembers true {} s
  | '^' :: s => readMembers true {} s
  | s => readMembers false {} s

theorem length_of_readMembers {negated : Bool} {st : ClassScan} {s : List Char}
    {t : Token × List Char} (h : readMembers negated st s = .ok t) : t.2.length < s.length := by
  fun_induction readMembers negated st s <;> grind

theorem length_of_readClass {s : List Char} {t : Token × List Char}
    (h : readClass s = .ok t) : t.2.length < s.length := by
  unfold readClass at h
  split at h <;> have := length_of_readMembers h <;> grind

/-! ### Whole globs -/

/-- What has been read of a glob: the branches of every open group, innermost first, and the
tokens of the innermost branch, last first. -/
structure Scan where
  outer : List (List (List Token) × List Token) := []
  branches : List (List Token) := []
  tokens : List Token := []

namespace Scan

def inGroup (st : Scan) : Bool := !st.outer.isEmpty

def push (st : Scan) (t : Token) : Scan := { st with tokens := t :: st.tokens }

/-- Put a `**` token in the place of the last token, which is kept if it spans directories. -/
def replaceLast (st : Scan) (t : Token) : Scan :=
  match st.tokens with
  | .leading :: _ => st
  | .trailing :: _ => st
  | _ :: ts => { st with tokens := t :: ts }
  | [] => st.push t

def openGroup (st : Scan) : Scan :=
  { outer := (st.branches, st.tokens) :: st.outer, branches := [], tokens := [] }

def nextBranch (st : Scan) : Scan :=
  { st with branches := st.tokens.reverse :: st.branches, tokens := [] }

def closeGroup (st : Scan) : Except SyntaxError Scan :=
  match st.outer with
  | [] => .error .unopenedGroup
  | (branches, tokens) :: outer =>
    let group := Token.ofBranches (st.nextBranch.branches.reverse)
    .ok { outer, branches, tokens := group :: tokens }

/-- Read a `**` that stands behind `prev` and before `s`. -/
def readSpan (st : Scan) (prev : Option Char) (s : List Char) : Scan × List Char :=
  let plain := ((st.push .star).push .star, s)
  if st.tokens = [] then
    match s with
    | [] => (st.push .leading, [])
    | '/' :: s => (st.push .leading, s)
    | _ => plain
  else if prev = some '/' ∨ st.inGroup ∧ (prev = some ',' ∨ prev = some '\x7b') then
    match s with
    | [] => (st.replaceLast .trailing, [])
    | '/' :: s => (st.replaceLast .between, s)
    | c :: _ => if st.inGroup ∧ (c = ',' ∨ c = '\x7d') then (st.replaceLast .trailing, s) else plain
  else plain

theorem length_readSpan (st : Scan) (prev : Option Char) (s : List Char) :
    (st.readSpan prev s).2.length ≤ s.length := by
  unfold readSpan
  grind

/-- Read on behind the character `prev`. -/
def read (st : Scan) (prev : Option Char) : List Char → Except SyntaxError Scan
  | [] => if st.inGroup then .error .unclosedGroup else .ok st
  | '?' :: s => (st.push .any).read (some '?') s
  | '*' :: '*' :: s =>
    let r := st.readSpan prev s
    have : (st.readSpan prev s).2.length ≤ s.length := length_readSpan st prev s
    r.1.read (some (if r.2.length < s.length then '/' else '*')) r.2
  | '*' :: s => (st.push .star).read (some '*') s
  | '[' :: s =>
    match h : readClass s with
    | .error e => .error e
    | .ok (t, s') =>
      have : s'.length < s.length := length_of_readClass h
      (st.push t).read (some ']') s'
  | '\x7b' :: s => st.openGroup.read (some '\x7b') s
  | '\x7d' :: s =>
    match st.closeGroup with
    | .error e => .error e
    | .ok st => st.read (some '\x7d') s
  | ',' :: s =>
    if st.inGroup then st.nextBranch.read (some ',') s
    else (st.push (.literal ',')).read (some ',') s
  | ['\\'] => .error .danglingEscape
  | '\\' :: c :: s => (st.push (.literal c)).read (some c) s
  | c :: s => (st.push (.literal c)).read (some c) s
termination_by s => s.length
decreasing_by all_goals grind

end Scan

/-- The tokens of a glob. -/
def parse (pattern : String) : Except SyntaxError (List Token) :=
  (({} : Scan).read none pattern.toList).map (·.tokens.reverse)

/-- The expression of a glob's tokens. A glob that is a leading `**` alone matches everything. -/
def exprOf : List Token → Expr
  | [.leading] => anything
  | ts => (Token.branchExpr? ts).getD .empty

end Glob

/-- A text that has been read as a glob. -/
structure Glob where
  tokens : List Glob.Token
  expr : Glob.Expr := Glob.exprOf tokens
deriving DecidableEq, Repr

namespace Glob

def compile (pattern : String) : Except SyntaxError Glob :=
  (parse pattern).map fun ts => { tokens := ts }

/-- Whether the glob describes the whole of a path text. -/
def isMatch (g : Glob) (path : String) : Bool := g.expr.test (path.toList.flatMap utf8)

end Glob

end ChainRunner
