import ChainRunner.CommandLine.Sorted
import ChainRunner.Text.Blank

/-!
What a command line asks for.

Options are read from the left. One that lacks its value waits for it: the next token is taken
unless it is itself an option, and whether the option is in order is settled when the next one
comes or the options end. The first token that is neither an option nor a value begins the chain,
and everything after it belongs to the chain.
-/

namespace ChainRunner

inductive Level
  | error
  | warn
  | info
  | debug
  | trace
deriving DecidableEq, Repr, Inhabited

namespace Level

def name : Level → String
  | .error => "error"
  | .warn => "warn"
  | .info => "info"
  | .debug => "debug"
  | .trace => "trace"

/-- Larger for levels that let more through. -/
def rank : Level → Nat
  | .error => 0
  | .warn => 1
  | .info => 2
  | .debug => 3
  | .trace => 4

def ofName? : String → Option Level
  | "error" => some .error
  | "warn" => some .warn
  | "warning" => some .warn
  | "info" => some .info
  | "debug" => some .debug
  | "trace" => some .trace
  | _ => none

end Level

namespace CommandLine

structure Arguments where
  chain : List String := []
  projects : List String := []
  flavors : List String := []
  watch : Option String := none
  config : Option String := none
  logLevel : Option Level := none
  polling : Bool := false
  verbose : Bool := false
  dryRun : Bool := false
deriving Repr

namespace Arguments

/-- The chain words as one expression. -/
def expression (a : Arguments) : String := Text.trimString (" ".intercalate a.chain)

/-- The level asked for; a level by name goes before the short form. -/
def level? (a : Arguments) : Option Level :=
  a.logLevel.or (if a.verbose then some .debug else none)

end Arguments

/-- Why the options cannot be used, or what is asked for in their place. -/
inductive Refusal
  | invalidValue
  | repeated
  | unwantedValue
  | help
  | version
deriving DecidableEq, Repr

abbrev Reading := Except Refusal Arguments

def splitList (v : String) : List String :=
  (v.toList.splitOnP (· == ',')).map String.ofList

/-- Settle an option that takes a value. -/
def Arguments.assign (a : Arguments) (k : Key) (v : Option String) : Reading :=
  match k, v with
  | .projects, some v => .ok { a with projects := a.projects ++ splitList v }
  | .flavors, some v => .ok { a with flavors := a.flavors ++ splitList v }
  | .watch, v =>
    if a.watch.isSome then .error .repeated else .ok { a with watch := some (v.getD ".") }
  | .config, some v =>
    if a.config.isSome then .error .repeated else .ok { a with config := some v }
  | .logLevel, some v =>
    if a.logLevel.isSome then .error .repeated
    else
      match Level.ofName? v with
      | some l => .ok { a with logLevel := some l }
      | none => .error .invalidValue
  | _, _ => .error .invalidValue

/-- Set a flag. -/
def Arguments.raise (a : Arguments) : Key → Reading
  | .polling => if a.polling then .error .repeated else .ok { a with polling := true }
  | .verbose => if a.verbose then .error .repeated else .ok { a with verbose := true }
  | .dryRun => if a.dryRun then .error .repeated else .ok { a with dryRun := true }
  | .help => .error .help
  | .version => .error .version
  | _ => .error .invalidValue

/-- An option that is not settled, with its value, if that has come. -/
abbrev Waiting := Option (Key × Option String)

def Arguments.resolve (a : Arguments) : Waiting → Reading
  | none => .ok a
  | some (k, v) => a.assign k v

/-- Letters behind one hyphen, each an option. The rest behind one that takes a value is its
value. -/
def readLetters (a : Arguments) (w : Waiting) : List Key → List Char →
    Except Refusal (Arguments × Waiting)
  | [], _ => .ok (a, w)
  | k :: ks, cs => do
    let a ← a.resolve w
    let tail := cs.drop 1
    if k.takesValue then
      if tail.isEmpty then return (a, some (k, none))
      else return (← a.assign k (some (String.ofList tail)), none)
    else readLetters (← a.raise k) none ks tail

/-- How a token can be read. -/
inductive Reads
  | long (k : Key) (value : Option String)
  | letters (ks : List Key) (cs : List Char)
  | plain

def readsOf (token : String) : Reads :=
  match token.toList with
  | '-' :: '-' :: _ =>
    match Key.ofLong? ((tokenName token).drop 2) with
    | some k => .long k (tokenValue? token)
    | none => .plain
  | '-' :: c :: cs =>
    match (c :: cs).mapM Key.ofShort? with
    | some ks => .letters ks (c :: cs)
    | none => .plain
  | _ => .plain

/-- Read the tokens from the left. -/
def read (a : Arguments) (w : Waiting) : List String → Reading
  | [] => a.resolve w
  | t :: rest =>
    if t = "--" then do return { ← a.resolve w with chain := rest }
    else
      match readsOf t with
      | .long k (some v) =>
        if k.takesValue then do read (← (← a.resolve w).assign k (some v)) none rest
        else .error .unwantedValue
      | .long k none =>
        if k.takesValue then do read (← a.resolve w) (some (k, none)) rest
        else do read (← (← a.resolve w).raise k) none rest
      | .letters ks cs => do
        let r ← readLetters a w ks cs
        read r.1 r.2 rest
      | .plain =>
        match w with
        | some (k, none) => read a (some (k, some t)) rest
        | w => do return { ← a.resolve w with chain := t :: rest }

/-- What a command line asks for, the program's name in front. -/
def parse (argv : List String) : Reading := read {} none ((sorted argv).drop 1)

end CommandLine

end ChainRunner
