import ChainRunner.Path

/-!
What the program asks of a file system, and the walk that lists the files below a directory.
-/

namespace ChainRunner.Files

/-- A read-only look at some file system. Listing a directory gives full paths. -/
structure View where
  isFile : String → Bool
  isDir : String → Bool
  list : String → Except String (List String)
  /-- No more directories than this lie inside one another. -/
  depth : Nat

namespace View

def pathExists (v : View) (p : String) : Bool := v.isFile p || v.isDir p

/-- Directories the walk does not enter unless it starts there. -/
def isSkipped (root p : String) : Bool :=
  Path.components p != Path.components root &&
    match Path.fileName? p with
    | some n => n.startsWith "." || n = "node_modules"
    | none => false

/-- The files at `p` and below, at most so many levels down. -/
def walk (v : View) (root : String) : Nat → String → Except String (List String)
  | 0, _ => .ok []
  | n + 1, p =>
    if v.isFile p then .ok [p]
    else if !v.isDir p || isSkipped root p then .ok []
    else do return (← (← v.list p).mapM (walk v root n)).flatten

/-- The files at `root` and below, in path order. -/
def collect (v : View) (root : String) : Except String (List String) := do
  return (← v.walk root (v.depth + 1) root).mergeSort (Path.compare · · |>.isLE)

end View

end ChainRunner.Files
