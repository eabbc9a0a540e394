import ChainRunner.Shell.Arithmetic
import ChainRunner.Shell.State

/-!
Words as the fields that a command gets.

A value that is not quoted is cut at blanks; what is quoted stays whole, even when it is empty.
-/

namespace ChainRunner.Shell

/-- Fields that are complete, and the one that has begun. -/
structure Fields where
  complete : List String := []
  current : Option String := none

namespace Fields

def add (f : Fields) (s : String) : Fields := { f with current := some (f.current.getD "" ++ s) }

def close (f : Fields) : Fields := ⟨f.complete ++ f.current.toList, none⟩

def isGap (c : Char) : Bool := c = ' ' || c = '\t' || c = '\n'

/-- Add a value that is not quoted. -/
def addCut (f : Fields) (s : String) : Fields :=
  s.toList.foldl (fun f c => if isGap c then f.close else f.add c.toString) f

/-- Add each value as a field of its own. -/
def addEach (f : Fields) : List String → Fields
  | [] => f
  | [s] => f.add s
  | s :: ss => addEach (f.add s).close ss

def toList (f : Fields) : List String := f.close.complete

end Fields

namespace State

/-- A number for arithmetic. -/
def numberOf (s : State) (name : String) : Int := ((s.value name).toInt?).getD 0

def addPart (s : State) (f : Fields) : Part → Fields
  | .text t => f.add t
  | .quoted t => f.add t
  | .value t => f.addCut t
  | .variable "@" true => f.addEach s.env.params
  | .variable name true => f.add (s.value name)
  | .variable name false => f.addCut (s.value name)
  | .arithmetic e _ =>
    match Arithmetic.eval s.numberOf e with
    | some v => f.add (toString v)
    | none => f
  | .output _ _ => f

def fields (s : State) (w : Word) : List String := (w.foldl s.addPart {}).toList

/-- A word that gives one text, whatever blanks are in it. -/
def textOf (s : State) (w : Word) : String :=
  " ".intercalate (s.fields (w.map fun p =>
    match p with
    | .variable n _ => .variable (if n = "@" then "*" else n) true
    | .value t => .quoted t
    | p => p))

end State

/-- The command whose output the first such part stands for. -/
def Word.captured? (w : Word) : Option String :=
  w.findSome? fun p =>
    match p with
    | .output source _ => some source
    | _ => none

/-- The first part that stands for an output, replaced by it; says whether there was one. -/
def Word.fill (text : String) : Word → Word × Bool
  | [] => ([], false)
  | .output _ true :: ps => (.quoted text :: ps, true)
  | .output _ false :: ps => (.value text :: ps, true)
  | p :: ps =>
    let r := Word.fill text ps
    (p :: r.1, r.2)

/-- The same in the first of some words that has such a part. -/
def fillWords (text : String) : List Word → List Word × Bool
  | [] => ([], false)
  | w :: ws =>
    match Word.fill text w with
    | (w, true) => (w :: ws, true)
    | (w, false) =>
      let r := fillWords text ws
      (w :: r.1, r.2)

/-- The words that are expanded when a command starts. -/
def Command.words : Command → List Word
  | .simple assigns words redirects =>
    words ++ assigns.map (·.2) ++ redirects.map Redirect.target
  | .each _ words _ => words
  | _ => []

/-- The command with other such words. -/
def Command.setWords (c : Command) (ws : List Word) : Command :=
  match c with
  | .simple assigns words redirects =>
    let n := words.length
    let m := assigns.length
    .simple (assigns.zipWith (fun a w => (a.1, w)) ((ws.drop n).take m)) (ws.take n)
      (redirects.zipWith (fun r w => { r with target := w }) (ws.drop (n + m)))
  | .each name _ body => .each name ws body
  | c => c

end ChainRunner.Shell
