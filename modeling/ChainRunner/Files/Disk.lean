import ChainRunner.Files.Errno
import ChainRunner.Files.View
import ChainRunner.NameMap
import ChainRunner.Text.Quoted
import ChainRunner.Text.Utf8

/-!
A disk: files with contents, directories and symbolic links.

Every entry is kept under its place, the names from the root down joined by slashes; the root
itself is no entry. A path is followed name by name, through links and over `..`, to the place
that it leads to.
-/

namespace ChainRunner.Files

open Text

inductive Node
  | file (content : Bytes) (executable : Bool)
  | link (target : String)
  | dir
deriving DecidableEq, Repr

/-- The names on the way from the root to an entry. -/
abbrev Place := List String

def Place.key (p : Place) : String := "/".intercalate p

/-- The absolute path of a place. -/
def Place.path (p : Place) : String := "/" ++ Place.key p

structure Disk where
  nodes : NameMap Node := .empty
  /-- The places that were written to, made or removed, in order. -/
  touched : List Place := []

namespace Disk

def node? (d : Disk) (p : Place) : Option Node :=
  if p.isEmpty then some .dir else d.nodes.get? p.key

/-- The names between the slashes of a path. -/
def names (path : String) : List String := (Path.segments path.toList).map String.ofList

/-- Follow names from a place. A name that is missing is found only at the very end. A link at
the end is followed if `last`; no more than `hops` links are. -/
def walk (d : Disk) (last : Bool) (hops : Nat) (here : Place) (todo : List String) :
    Except Errno Place :=
  match todo with
  | [] => .ok here
  | n :: rest =>
    if d.node? here ≠ some .dir then .error .notDirectory
    else if n = "" ∨ n = "." then walk d last hops here rest
    else if n = ".." then walk d last hops here.dropLast rest
    else
      match d.node? (here ++ [n]) with
      | none => if rest.all (· = "") then .ok (here ++ [n]) else .error .noEntry
      | some (.link target) =>
        if rest.isEmpty && !last then .ok (here ++ [n])
        else
          match hops with
          | 0 => .error .tooManyLinks
          | hops + 1 =>
            walk d last hops (if Path.isAbsolute target then [] else here) (names target ++ rest)
      | some _ => walk d last hops (here ++ [n]) rest
termination_by (hops, todo.length)

/-- The most links on one way. -/
def maxHops : Nat := 40

/-- The place that a path leads to, seen from a working directory. -/
def locate (d : Disk) (cwd : Place) (path : String) (last : Bool) : Except Errno Place :=
  if path.isEmpty then .error .noEntry
  else d.walk last maxHops (if Path.isAbsolute path then [] else cwd) (names path)

/-- The entry that a path leads to, and its place. -/
def find (d : Disk) (cwd : Place) (path : String) : Except Errno (Place × Node) := do
  let p ← d.locate cwd path true
  match d.node? p with
  | some n => return (p, n)
  | none => .error .noEntry

def read (d : Disk) (cwd : Place) (path : String) : Except Errno Bytes := do
  match ← d.find cwd path with
  | (_, .file content _) => return content
  | (_, _) => .error .isDirectory

/-- The names in a directory, in name order. -/
def children (d : Disk) (dir : Place) : List String :=
  d.nodes.keys.filterMap fun k =>
    let p := names k
    if p.dropLast = dir then p.getLast? else none

def put (d : Disk) (p : Place) (n : Node) : Disk :=
  { d with nodes := d.nodes.insert p.key n, touched := d.touched ++ [p] }

/-- Open a file for writing; it is made if there is none. -/
def openFile (d : Disk) (cwd : Place) (path : String) (truncate : Bool) :
    Except Errno (Place × Disk) := do
  let p ← d.locate cwd path true
  match d.node? p with
  | some (.file _ x) => return (p, if truncate then d.put p (.file [] x) else d)
  | some _ => .error .isDirectory
  | none => return (p, d.put p (.file [] false))

/-- Take an entry away, and all that is below it. -/
def remove (d : Disk) (p : Place) : Disk :=
  { nodes := d.nodes.filter fun k _ => !p.isPrefixOf (names k)
    touched := d.touched ++ [p] }

/-- Make the directories on the way to a place. -/
def prepare (d : Disk) (p : Place) : Disk :=
  (List.range p.length).foldl
    (fun d n =>
      let q : Place := p.take n
      if (d.node? q).isSome then d else { d with nodes := d.nodes.insert (Place.key q) .dir })
    d

/-- Lay an entry down, with the directories on the way to it. -/
def lay (d : Disk) (p : Place) (n : Node) : Disk :=
  { d.prepare p with nodes := (d.prepare p).nodes.insert p.key n }

/-- What the program sees of the disk from a working directory. -/
def view (d : Disk) (cwd : Place) : View where
  isFile p :=
    match d.find cwd p with
    | .ok (_, .file _ _) => true
    | _ => false
  isDir p :=
    match d.find cwd p with
    | .ok (_, .dir) => true
    | _ => false
  list p :=
    match d.find cwd p with
    | .ok (place, .dir) => .ok ((d.children place).map (Path.join p))
    | _ => .error ("reading dir " ++ quotePath p)
  depth := (d.nodes.keys.length + 1) * (maxHops + 1)

end Disk

end ChainRunner.Files
