import ChainRunner.Glob.Parser
import ChainRunner.NameMap
import ChainRunner.Path
import ChainRunner.Variables.Template
import ChainRunner.Watch.Pattern

/-!
Watch rules: which chain runs, with which variables, when a path changes.

A pattern of the observe table is resolved against the watched directory and then varied along
the axes it mentions; each choice of values gives one rule that carries just these values.
-/

namespace ChainRunner

/-- A text that is not a glob. -/
structure PatternError where
  pattern : String
  glob : String
  reason : Glob.SyntaxError
deriving DecidableEq, Repr

def PatternError.cause (e : PatternError) : String :=
  s!"error parsing glob '{e.glob}': {e.reason.message}"

def PatternError.message (e : PatternError) : String :=
  s!"Invalid watch pattern '{e.pattern}': {e.cause}"

namespace Watch

/-- The observe table: for every chain the patterns that trigger it. -/
abbrev Observe := NameMap (List String)

structure Rule where
  chain : String
  pattern : String
  vars : Variables
  glob : Glob
deriving DecidableEq, Repr

namespace Rule

def compile (chain pattern : String) (vars : Variables) : Except PatternError Rule :=
  match Glob.compile pattern with
  | .error reason => .error ⟨pattern, pattern, reason⟩
  | .ok glob => .ok { chain, pattern, vars, glob }

def isMatch (r : Rule) (path : String) : Bool := r.glob.isMatch path

/-- The directory outside of which the rule matches nothing. -/
def rootDir (r : Rule) : String := literalDir r.pattern

/-- The variables of a rule whose pattern got the values of `asg`. -/
def scope (active : Variables) (asg : Template.Assignment) : Variables :=
  asg.foldl (fun vs p => vs.set p.1 [p.2]) (active.without .file)

/-- The axes along which a pattern is varied. A file placeholder is left as it is. -/
def axesOf (pattern : String) : List Axis := (Template.axesIn pattern).filter (· ≠ .file)

/-- The rules of one raw pattern; none when an axis of it has no active value. -/
def ofPattern (active : Variables) (root chain raw : String) : Except PatternError (List Rule) :=
  let pattern := resolve root raw
  let axes := axesOf pattern
  if axes.any (fun a => (active.values a).isEmpty) then .ok []
  else
    (Template.combinations axes active).mapM fun asg =>
      compile chain (Template.fill asg pattern) (scope active asg)

/-- The rules of an observe table, chain by chain and pattern by pattern. -/
def ofObserve (observe : Observe) (active : Variables) (root : String) :
    Except PatternError (List Rule) :=
  (observe.entries.flatMap fun e => e.2.map fun raw => (e.1, raw)).mapM
    (fun p => ofPattern active root p.1 p.2) |>.map List.flatten

end Rule

/-- The directories to watch for `rules`: the root directories in name order, without those
below another one. -/
def roots (rules : List Rule) : List String :=
  (NameMap.ofList (rules.map fun r => (r.rootDir, ()))).keys.foldl
    (fun kept dir => if kept.any (Path.isWithin dir ·) then kept else kept ++ [dir]) []

/-- The chains that `paths` trigger, each with the variables of its matching rules and the
matched paths as files. -/
def planDispatch (paths : List String) (rules : List Rule) : NameMap Variables :=
  rules.foldl
    (fun plan r =>
      match paths.filter r.isMatch with
      | [] => plan
      | hits => plan.modifyD r.chain .empty fun vs => (vs.merge r.vars).pushAll .file hits)
    .empty

/-- The rules compiled last, with the variables and the directory they were compiled for. -/
structure RuleCache where
  entry : Option ((Variables × String) × List Rule) := none

namespace RuleCache

/-- The cached rules, if they are those of `active` and `root`. -/
def find? (c : RuleCache) (active : Variables) (root : String) : Option (List Rule) :=
  match c.entry with
  | some (key, rules) =>
    if key.1 = active ∧ Path.components key.2 = Path.components root then some rules else none
  | none => none

/-- The rules for `active` and `root`, compiled unless they are at hand. A table that does not
compile leaves the cache as it is. -/
def get (c : RuleCache) (observe : Observe) (active : Variables) (root : String) :
    Except PatternError (List Rule) × RuleCache :=
  match c.find? active root with
  | some rules => (.ok rules, c)
  | none =>
    match Rule.ofObserve observe active root with
    | .error e => (.error e, c)
    | .ok rules => (.ok rules, ⟨some ((active, root), rules)⟩)

end RuleCache

end Watch

end ChainRunner
