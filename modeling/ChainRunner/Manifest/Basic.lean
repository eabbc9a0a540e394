import ChainRunner.Manifest.Draft
import ChainRunner.Manifest.References
import ChainRunner.Watch.Rule

/-!
Manifests that have been checked: names can be written in a chain, watch patterns are globs, and
no chain leads back to itself.
-/

namespace ChainRunner

inductive ManifestError
  | noScripts
  | emptyName
  | blankInName (name : String)
  | markedName (name : String)
  | scriptAndChain (name : String)
  | noPatterns (chain : String)
  | badPattern (e : PatternError)
  | selfReference (chain : String)
  | circle (chain : String)
deriving DecidableEq, Repr

def ManifestError.message : ManifestError → String
  | .noScripts => "Configuration error: manifest must define at least one script"
  | .emptyName => "Configuration error: script and chain names must not be empty"
  | .blankInName n => s!"Configuration error: name '{n}' must not contain whitespace"
  | .markedName n => s!"Configuration error: name '{n}' must not start with '+' or '-'"
  | .scriptAndChain n =>
    s!"Configuration error: '{n}' is defined both as a script and as a chain"
  | .noPatterns c => s!"Configuration error: observe entry '{c}' has no patterns"
  | .badPattern e => e.message
  | .selfReference n => s!"Cycle detected in chains: chain '{n}' refers to itself"
  | .circle n => s!"Cycle detected in chains: cycle detected in chains involving '{n}'"

namespace Draft

/-- Checks run in order; the first that fails counts. -/
abbrev Check := Except ManifestError Unit

def checkName (n : String) : Check :=
  match n.toList with
  | [] => .error .emptyName
  | c :: _ =>
    if n.toList.any Text.isBlank then .error (.blankInName n)
    else if c = '+' ∨ c = '-' then .error (.markedName n)
    else .ok ()

def checkNames (d : Draft) : Check := do
  (d.scripts.keys ++ d.chains.keys).forM checkName
  d.chains.keys.forM fun n => if d.scripts.contains n then .error (.scriptAndChain n) else .ok ()

/-- A pattern must be a glob with every placeholder replaced by `x`. -/
def checkPattern (pattern : String) : Check :=
  let sample := Template.fill (Axis.all.map fun a => (a, "x")) pattern
  match Glob.compile sample with
  | .error reason => .error (.badPattern ⟨pattern, sample, reason⟩)
  | .ok _ => .ok ()

def checkObserve (d : Draft) : Check :=
  d.observe.entries.forM fun e =>
    if e.2.isEmpty then .error (.noPatterns e.1) else e.2.forM checkPattern

def checkChains (d : Draft) : Check :=
  match References.selfReference? d.chains with
  | some n => .error (.selfReference n)
  | none =>
    match (References.ofChains d.chains).onCircle? with
    | some n => .error (.circle n)
    | none => .ok ()

def check (d : Draft) : Check := do
  if d.scripts.isEmpty then .error .noScripts
  d.checkNames
  d.checkObserve
  d.checkChains

end Draft

/-- What a name in a chain stands for. -/
inductive Target
  | script (body : String)
  | chain (expr : String)
  | unknown
deriving DecidableEq, Repr

/-- A manifest that passed every check. -/
structure Manifest extends Draft where
  checked : toDraft.check = .ok ()

namespace Manifest

def ofDraft (d : Draft) : Except ManifestError Manifest :=
  match h : d.check with
  | .ok () => .ok ⟨d, h⟩
  | .error e => .error e

def script? (m : Manifest) (name : String) : Option String := m.scripts.get? name

def chain? (m : Manifest) (name : String) : Option String := m.chains.get? name

def resolve (m : Manifest) (name : String) : Target :=
  match m.script? name with
  | some body => .script body
  | none =>
    match m.chain? name with
    | some expr => .chain expr
    | none => .unknown

def variablesOf (flavors projects : List String) : Variables :=
  (Variables.empty.pushAll .flavor flavors).pushAll .project projects

def defaultVariables (m : Manifest) : Variables := variablesOf m.flavors m.projects

/-- The values asked for; on an axis where none are, those of the manifest. -/
def activeVariables (m : Manifest) (flavors projects : List String) : Variables :=
  variablesOf (if flavors.isEmpty then m.flavors else flavors)
    (if projects.isEmpty then m.projects else projects)

end Manifest

end ChainRunner
