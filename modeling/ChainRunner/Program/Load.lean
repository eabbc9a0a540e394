import ChainRunner.Files.Disk
import ChainRunner.Manifest.Basic

/-!
Finding and reading the manifest of a directory.
-/

namespace ChainRunner.Program

open Files

/-- Why a manifest cannot be used. -/
inductive LoadError
  | unreadable (e : Errno)
  /-- The file is not UTF-8. -/
  | noText
  | malformed (how : Notation)
  | refused (e : ManifestError)
deriving DecidableEq, Repr

namespace LoadError

/-- What is wrong, from the outside in: each text names the cause of the one before it. -/
def causes : LoadError → List String
  | .unreadable e => [s!"IO error: {e.message}", e.message]
  | .noText => ["IO error: " ++ noText, noText]
  | .malformed .toml => ["TOML parsing error"]
  | .malformed .json => ["JSON parsing error"]
  | .refused e =>
    match e with
    | .badPattern p => [e.message, p.cause]
    | e => [e.message]
where
  noText := "stream did not contain valid UTF-8"

def message (e : LoadError) : String := e.causes.headD ""

end LoadError

/-- The manifest of a directory, unless there is only the other one. -/
def manifestName : String := "Runna.toml"

def otherManifestName : String := "package.json"

def defaultManifest (v : View) (dir : String) : String :=
  let own := Path.join dir manifestName
  let other := Path.join dir otherManifestName
  if !v.pathExists own && v.pathExists other then other else own

def lowerAscii (s : String) : String := s.map Char.toLower

/-- Files that end in `.json`, in whatever case, hold JSON; all others TOML. -/
def notationOf (path : String) : Notation :=
  if (Path.extension? path).map lowerAscii = some "json" then .json else .toml

def load (d : Disk) (cwd : Place) (path : String) : Except LoadError Manifest := do
  let bytes ← (d.read cwd path).mapError .unreadable
  match Text.decode? bytes with
  | none => .error .noText
  | some text =>
    match Draft.read? (notationOf path) text with
    | none => .error (.malformed (notationOf path))
    | some draft => (Manifest.ofDraft draft).mapError .refused

end ChainRunner.Program
