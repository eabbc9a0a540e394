/-!
The options of the command line and how a token names one.

A token names an option by the part before its first `=`, in the long or in the short spelling.
-/

namespace ChainRunner.CommandLine

inductive Key
  | projects
  | flavors
  | watch
  | config
  | logLevel
  | polling
  | verbose
  | dryRun
  | help
  | version
deriving DecidableEq, Repr

namespace Key

def all : List Key :=
  [.projects, .flavors, .watch, .config, .logLevel, .polling, .verbose, .dryRun, .help, .version]

theorem mem_all (k : Key) : k ∈ all := by cases k <;> decide

/-- The spelling after two hyphens. -/
def long : Key → String
  | .projects => "projects"
  | .flavors => "flavors"
  | .watch => "watch"
  | .config => "config"
  | .logLevel => "log-level"
  | .polling => "polling"
  | .verbose => "verbose"
  | .dryRun => "dry-run"
  | .help => "help"
  | .version => "version"

/-- The letter after one hyphen. -/
def short? : Key → Option Char
  | .projects => some 'p'
  | .flavors => some 'f'
  | .watch => some 'w'
  | .config => some 'c'
  | .logLevel => none
  | .polling => some 'o'
  | .verbose => some 'v'
  | .dryRun => none
  | .help => some 'h'
  | .version => some 'V'

def takesValue : Key → Bool
  | .projects | .flavors | .watch | .config | .logLevel => true
  | .polling | .verbose | .dryRun | .help | .version => false

def ofLong? (name : List Char) : Option Key := all.find? fun k => k.long.toList = name

def ofShort? (c : Char) : Option Key := all.find? fun k => k.short? = some c

end Key

/-- The part of a token before its first `=`. -/
def tokenName (token : String) : List Char := token.toList.takeWhile (· != '=')

/-- The part of a token after its first `=`, if there is one. -/
def tokenValue? (token : String) : Option String :=
  match token.toList.dropWhile (· != '=') with
  | [] => none
  | _ :: v => some (String.ofList v)

/-- The option a token names. -/
def Key.ofToken? (token : String) : Option Key :=
  match tokenName token with
  | '-' :: '-' :: name => ofLong? name
  | ['-', c] => ofShort? c
  | _ => none

end ChainRunner.CommandLine
