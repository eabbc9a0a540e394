import ChainRunner.Document.Json
import ChainRunner.Document.Toml.Parser
import ChainRunner.NameMap

/-!
Manifests as they are written, before anything is checked.
-/

namespace ChainRunner

structure Settings where
  /-- Milliseconds between two dispatch cycles, and between two polls. -/
  watchPollMs : Nat := 300
  /-- Directories of local executables, relative to the manifest. -/
  binDirs : List String := ["node_modules/.bin"]
deriving DecidableEq, Repr, Inhabited

/-- The tables of a manifest file. -/
structure Draft where
  scripts : NameMap String := .empty
  chains : NameMap String := .empty
  observe : NameMap (List String) := .empty
  flavors : List String := []
  projects : List String := []
  settings : Settings := {}
deriving Inhabited

/-- The two ways to write a manifest. -/
inductive Notation
  | toml
  | json
deriving DecidableEq, Repr

namespace Draft

open Document

/-- A field that may be left out. -/
def field? {α : Type} (read : Value → Option α) (default : α) : Option Value → Option α
  | none => some default
  | some v => read v

def map? {α : Type} (read : Value → Option α) (v : Value) : Option (NameMap α) := do
  return NameMap.ofList (← (← v.entries?).mapM fun e => (read e.2).map fun x => (e.1, x))

/-- A number of 64 bits. -/
def word? (v : Value) : Option Nat :=
  v.integer?.bind fun n => if 0 ≤ n ∧ n < (Nat.pow 2 64 : Nat) then some n.toNat else none

def settings? (longer : Bool) (v : Value) : Option Settings := do
  match ← v.fields? ["watch_poll_ms", "bin_dirs"] longer with
  | [ms, dirs] =>
    return ⟨← field? word? 300 ms, ← field? Value.texts? ["node_modules/.bin"] dirs⟩
  | _ => none

/-- A document as a manifest. Unknown fields are passed over. A list in the place of `settings`
may be too long if `longer`. -/
def ofValue? (longer : Bool) (v : Value) : Option Draft := do
  match ← v.fields? ["scripts", "chains", "observe", "flavors", "projects", "settings"] false with
  | [scripts, chains, observe, flavors, projects, settings] =>
    return {
      scripts := ← field? (map? Value.text?) .empty scripts
      chains := ← field? (map? Value.text?) .empty chains
      observe := ← field? (map? Value.texts?) .empty observe
      flavors := ← field? Value.texts? [] flavors
      projects := ← field? Value.texts? [] projects
      settings := ← field? (settings? longer) {} settings }
  | _ => none

/-- One more pattern that triggers a chain. -/
def addPattern (d : Draft) (chain pattern : String) : Draft :=
  { d with observe := d.observe.modifyD chain [] (· ++ [pattern]) }

/-- The manifest that a text holds in some notation. -/
def read? : Notation → String → Option Draft
  | .toml, s => (Toml.read? s).bind (ofValue? true)
  | .json, s => (Json.read? s).bind (ofValue? false)

end Draft

end ChainRunner
