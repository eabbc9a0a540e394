import ChainRunner.Files.View
import ChainRunner.Text.Quoted

/-!
A file tree in memory. Files and directories are added one by one, and the directories that
hold them appear by themselves.

Every directory lists the names of its entries. A relative path without a directory lies in `.`.
-/

namespace ChainRunner.Files

open ChainRunner.Path

inductive Entry
  | file
  | dir (names : List String)
deriving DecidableEq, Repr

structure Tree where
  /-- The entries, the one added last in front. -/
  entries : List (List Component × Entry) := []
deriving Repr

namespace Tree

def find? (t : Tree) (key : List Component) : Option Entry := t.entries.lookup key

def put (t : Tree) (key : List Component) (e : Entry) : Tree := ⟨(key, e) :: t.entries⟩

/-- The directories that hold a path, the nearest first. -/
def ancestors (key : List Component) : List (List Component) :=
  match key with
  | [] => []
  | c :: rest =>
    let below := (List.range rest.length).reverse.map fun n => c :: rest.take n
    if c = .root ∨ c = .current then below else below ++ [[.current]]

/-- List the last component of `key` in the directory `dir`. Only names are listed, and a file
lists nothing. -/
def enlist (t : Tree) (dir key : List Component) : Tree :=
  match t.find? dir, key.getLast? with
  | some (.dir names), some (.name n) => if n ∈ names then t else t.put dir (.dir (names ++ [n]))
  | _, _ => t

/-- Enlist `key` in the nearest of its `dirs`; directories that are not there are made. -/
def link (t : Tree) (key : List Component) : List (List Component) → Tree
  | [] => t
  | dir :: dirs =>
    match t.find? dir with
    | some _ => t.enlist dir key
    | none => ((t.put dir (.dir [])).link dir dirs).enlist dir key

def addFile (t : Tree) (path : String) : Tree :=
  let key := components path
  (t.put key .file).link key (ancestors key)

/-- What is there already stays as it is. -/
def addDir (t : Tree) (path : String) : Tree :=
  let key := components path
  match t.find? key with
  | some _ => t
  | none => (t.put key (.dir [])).link key (ancestors key)

def view (t : Tree) : View where
  isFile p := t.find? (components p) = some .file
  isDir p :=
    match t.find? (components p) with
    | some (.dir _) => true
    | _ => false
  list p :=
    match t.find? (components p) with
    | some (.dir names) => .ok (names.map (Path.join p))
    | _ => .error ("Not a directory or not found: " ++ Text.quotePath p)
  depth := t.entries.length

end Tree

end ChainRunner.Files
