import ChainRunner.Run.Machine

/-!
Letting the machine run until no task is ready.

Chains do not lead back to themselves, so the runs that can be nested below a task form a tree
no deeper than there are chains, and a node of it has no more members than its expression has
words, each as often as there are values to choose. That bounds the turns that lie ahead.
-/

namespace ChainRunner.Run.State

def runs (s : State) : List Course :=
  s.tasks.filterMap fun o =>
    match o with
    | some ⟨.run r _, _⟩ => some r
    | _ => none

/-- The expressions that a run may start from. -/
def expressions (cfg : Setting) (s : State) : List String :=
  cfg.manifest.chains.entries.map (·.2) ++ cfg.rules.map Watch.Rule.chain ++
    s.runs.map Course.chain

/-- The variables that a run may see. -/
def scopes (cfg : Setting) (s : State) : List Variables :=
  { file := s.pending.toList } :: (cfg.rules.map Watch.Rule.vars ++ s.runs.map Course.vars)

def total (xs : List Nat) : Nat := xs.foldl (· + ·) 0

/-- No body has more instances. -/
def instanceBound (vss : List Variables) : Nat :=
  (total (vss.map (·.flavor.length)) + 1) * (total (vss.map (·.project.length)) + 1) *
    (total (vss.map (·.file.length)) + 1)

/-- No more turns lie ahead. -/
def turnBound (cfg : Setting) (s : State) : Nat :=
  let members := total ((s.expressions cfg).map String.length) * instanceBound (s.scopes cfg)
  Nat.pow (s.tasks.length + s.ready.length + members + 4) (cfg.manifest.chains.keys.length + 4)

/-- Give turns until no task is ready. -/
def settle (cfg : Setting) (s : State) : State := stepN cfg (s.turnBound cfg) s

end ChainRunner.Run.State
