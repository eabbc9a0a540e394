import ChainRunner.Files.View
import ChainRunner.NameMap
import ChainRunner.Text.Blank

/-!
Local executables: the files of some directories by name, and the command lines they start.
-/

namespace ChainRunner

/-- The path found for each command name. -/
abbrev Binaries := NameMap String

namespace Binaries

/-- An earlier path of a name stays. -/
def add (b : Binaries) (path : String) : Binaries :=
  match Path.fileName? path with
  | some n => if NameMap.contains b n then b else NameMap.insert b n path
  | none => b

/-- The entries of `dirs`, earlier directories first. What is no directory is passed over. -/
def scan (v : Files.View) (dirs : List String) : Except String Binaries :=
  dirs.foldlM
    (fun b dir =>
      if v.isDir dir then do return (← v.list dir).foldl add b else return b)
    NameMap.empty

/-- Put the path found for the first word of a command in its place; the rest is kept as it is.
A path with a space is put in double quotes. -/
def resolveCommand (lookup : String → Option String) (command : String) : String :=
  let body := Text.trimStart command.toList
  let head := String.ofList (body.takeWhile (!Text.isBlank ·))
  let rest := String.ofList (body.dropWhile (!Text.isBlank ·))
  match lookup head with
  | some path => if path.toList.contains ' ' then "\"" ++ path ++ "\"" ++ rest else path ++ rest
  | none => command

end Binaries

end ChainRunner
