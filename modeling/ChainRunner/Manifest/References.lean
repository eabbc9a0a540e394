import ChainRunner.Chain.Parser
import ChainRunner.NameMap

/-!
Which chains name which, and the search for a chain that comes back to itself.

The search lists the chains so that each stands before those it names, as far as that is possible,
and then walks the references backwards from each in turn. A walk that meets a second chain has
met a circle.
-/

namespace ChainRunner

/-- References between chains, in the order in which they are written. -/
structure References where
  names : List String
  edges : List (String × String)
deriving Repr

namespace References

/-- The chains that an expression names. -/
def targets (chains : NameMap String) (expr : String) : List String :=
  ((Chain.parse expr).filterMap Step.target?).filter chains.contains

def ofChains (chains : NameMap String) : References where
  names := chains.keys
  edges := (chains.entries.flatMap fun e => (targets chains e.2).map fun t => (e.1, t)).eraseDups

def successors (g : References) (x : String) : List String :=
  (g.edges.filter (·.1 = x)).map (·.2)

def predecessors (g : References) (x : String) : List String :=
  (g.edges.filter (·.2 = x)).map (·.1)

/-- Names still to be discovered, and the finished ones, last first. -/
structure Search where
  fresh : List String
  finished : List String := []

/-- Walk on from the top of the stack. A name is finished once all behind it are. -/
def visit (next : String → List String) (fresh finished stack : List String) : Search :=
  match stack with
  | [] => ⟨fresh, finished⟩
  | x :: rest =>
    if x ∈ fresh then
      let fresh' := fresh.erase x
      visit next fresh' finished (((next x).filter (· ∈ fresh')).reverse ++ x :: rest)
    else visit next fresh (if x ∈ finished then finished else x :: finished) rest
termination_by (fresh.length, stack.length)
decreasing_by
  · have := List.length_erase_of_mem ‹x ∈ fresh›
    have := List.length_pos_of_mem ‹x ∈ fresh›
    exact Prod.Lex.left _ _ (by grind)
  · exact Prod.Lex.right _ (by grind)

/-- Every name, those that others refer to last. -/
def order (g : References) : List String :=
  (g.names.foldl
    (fun st x => if x ∈ st.fresh then visit g.successors st.fresh st.finished [x] else st)
    (⟨g.names, []⟩ : Search)).finished

/-- The names met on a walk from the top of the stack, in order, and those not met. -/
def explore (next : String → List String) (fresh stack : List String) :
    List String × List String :=
  match stack with
  | [] => ([], fresh)
  | x :: rest =>
    if x ∈ fresh then
      let fresh' := fresh.erase x
      let r := explore next fresh' (((next x).filter (· ∈ fresh')).reverse ++ rest)
      (x :: r.1, r.2)
    else explore next fresh rest
termination_by (fresh.length, stack.length)
decreasing_by
  · have := List.length_erase_of_mem ‹x ∈ fresh›
    have := List.length_pos_of_mem ‹x ∈ fresh›
    exact Prod.Lex.left _ _ (by grind)
  · exact Prod.Lex.right _ (by grind)

/-- The second name met on one of the backward walks. -/
def secondMet (g : References) (fresh : List String) : List String → Option String
  | [] => none
  | x :: xs =>
    match explore g.predecessors fresh [x] with
    | (_ :: y :: _, _) => some y
    | (_, fresh) => secondMet g fresh xs

/-- A chain on a circle of references, if there is one. -/
def onCircle? (g : References) : Option String := secondMet g g.names g.order

/-- The first chain that names itself. -/
def selfReference? (chains : NameMap String) : Option String :=
  (chains.entries.find? fun e => (Chain.parse e.2).any fun s => s.target? = some e.1).map (·.1)

end References

end ChainRunner
