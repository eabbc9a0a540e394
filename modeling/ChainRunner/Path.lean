/-!
Slash-separated path texts.

A path text stands for its components: empty segments do not count, a `.` counts only at the
very start of a relative path, and `..` is kept. Two texts with the same components are the same
path; paths are ordered component by component.
-/

namespace ChainRunner.Path

inductive Component
  | root
  | current
  | parent
  | name (s : String)
deriving DecidableEq, Repr, Inhabited

def Component.rank : Component → Nat
  | .root => 0
  | .current => 1
  | .parent => 2
  | .name _ => 3

/-- Root before `.` before `..` before names, names by code point. -/
def Component.compare : Component → Component → Ordering
  | .name s, .name t => Ord.compare s t
  | x, y => Ord.compare x.rank y.rank

abbrev Segments := List (List Char)

/-- The texts between the slashes. -/
def segments (s : List Char) : Segments := s.splitOnP (· == '/')

def Component.ofSegment? (s : List Char) : Option Component :=
  if s = [] ∨ s = ['.'] then none
  else if s = ['.', '.'] then some .parent
  else some (.name (String.ofList s))

/-- The components a path text stands for. -/
def components (p : String) : List Component :=
  match p.toList with
  | '/' :: rest => .root :: (segments rest).filterMap Component.ofSegment?
  | s =>
    match segments s with
    | ['.'] :: rest => .current :: rest.filterMap Component.ofSegment?
    | segs => segs.filterMap Component.ofSegment?

def compareComponents : List Component → List Component → Ordering
  | [], [] => .eq
  | [], _ :: _ => .lt
  | _ :: _, [] => .gt
  | x :: xs, y :: ys => (x.compare y).then (compareComponents xs ys)

/-- The order of paths, component by component. -/
def compare (p q : String) : Ordering := compareComponents (components p) (components q)

def isAbsolute (p : String) : Bool := p.startsWith "/"

/-- The last component, when it is a name. -/
def fileName? (p : String) : Option String :=
  match (components p).getLast? with
  | some (.name s) => some s
  | _ => none

/-- `q` seen from the directory `p`; an absolute `q` stays as it is. -/
def join (p q : String) : String :=
  if isAbsolute q then q
  else if p.isEmpty || p.endsWith "/" then p ++ q
  else p ++ "/" ++ q

/-- Whether `p` is `dir` or lies below it. -/
def isWithin (p dir : String) : Bool := (components dir).isPrefixOf (components p)

/-- The components of the directory that holds a path; the root and the empty path have none. -/
def parentComponents? (cs : List Component) : Option (List Component) :=
  match cs.getLast? with
  | none => none
  | some .root => none
  | some _ => some cs.dropLast

/-- The text of the directory that holds `p`: its last component and the slashes and inner dots
before that are cut off. -/
def parent? (p : String) : Option String :=
  (parentComponents? (components p)).map fun _ =>
    String.ofList (cutTail (dropName (cutTail p.toList.reverse))).reverse
where
  /-- A reversed text without the slashes and lone dots it starts with. A slash or dot with
  nothing behind it starts the path and stays. -/
  cutTail : List Char → List Char
    | '/' :: c :: r => cutTail (c :: r)
    | '.' :: '/' :: c :: r => cutTail (c :: r)
    | ['.', '/'] => ['/']
    | s => s
  dropName (s : List Char) : List Char := s.dropWhile (· != '/')

/-- What follows the last dot of the file name, unless that dot starts the name. -/
def extension? (p : String) : Option String :=
  (fileName? p).bind fun n =>
    let after := n.toList.reverse.takeWhile (· != '.')
    let before := n.toList.reverse.dropWhile (· != '.')
    if before.length ≤ 1 then none else some (String.ofList after.reverse)

end ChainRunner.Path
