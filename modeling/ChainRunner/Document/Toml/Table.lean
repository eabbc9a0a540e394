import ChainRunner.Document.Value

/-!
Putting the statements of a TOML document together.

A table is written once: a header opens it, or a value closes it, or dotted keys add to it from
one place. Headers may pass through tables and through the last of a growing list.
-/

namespace ChainRunner.Document.Toml

/-- What a key path names, its last key apart. -/
structure KeyPath where
  init : List String
  last : String
deriving Repr

def KeyPath.ofList? (ks : List String) : Option KeyPath :=
  ks.getLast?.map fun k => ⟨ks.dropLast, k⟩

abbrev Entries := List (Option String × Value)

def find? (k : String) (es : Entries) : Option Value := es.lookup (some k)

/-- The entries with the value of `k` exchanged. -/
def exchange (k : String) (v : Value) (es : Entries) : Entries :=
  es.map fun e => if e.1 = some k then (e.1, v) else e

/-- Change the table that a path leads to; tables on the way that are not there are made. Dotted
keys do not pass tables that were opened elsewhere. -/
def atPath (dotted : Bool) (f : Value → Option Value) : List String → Value → Option Value
  | [], t => f t
  | k :: ks, .table form es =>
    match find? k es with
    | none => do
      let v ← atPath dotted f ks (.table (if dotted then .dotted else .implied) [])
      return .table form (es ++ [(some k, v)])
    | some (.list true xs) => do
      let v ← atPath dotted f ks (← xs.getLast?)
      return .table form (exchange k (.list true (xs.dropLast ++ [v])) es)
    | some (.table .sealed _) => none
    | some (.table g fs) =>
      if dotted ∧ g = .declared then none
      else do return .table form (exchange k (← atPath dotted f ks (.table g fs)) es)
    | some _ => none
  | _ :: _, _ => none

/-- Add an entry. The tables of dotted keys and those of plain keys do not mix. -/
def addEntry (dotted : Bool) (k : String) (v : Value) : Value → Option Value
  | .table form es =>
    if dotted != decide (form = .dotted) || (find? k es).isSome then none
    else some (.table form (es ++ [(some k, v)]))
  | _ => none

def insert (p : KeyPath) (v : Value) : Value → Option Value :=
  atPath true (addEntry (!p.init.isEmpty) p.last v) p.init

/-- Open the table `k`; one that was only passed through may still be opened. -/
def openTable (k : String) : Value → Option Value
  | .table form es =>
    match find? k es with
    | none => some (.table form (es ++ [(some k, .table .declared [])]))
    | some (.table .implied fs) => some (.table form (exchange k (.table .declared fs) es))
    | some _ => none
  | _ => none

/-- Add one more table to the growing list `k`. -/
def openElement (k : String) : Value → Option Value
  | .table form es =>
    match find? k es with
    | none => some (.table form (es ++ [(some k, .list true [.table .declared []])]))
    | some (.list true xs) =>
      some (.table form (exchange k (.list true (xs ++ [.table .declared []])) es))
    | some _ => none
  | _ => none

/-- An inline table with these entries. -/
def inlineTable? (es : List (KeyPath × Value)) : Option Value := do
  match ← es.foldlM (fun t e => insert e.1 e.2 t) (.table .declared []) with
  | .table _ fs => some (.table .sealed fs)
  | _ => none

inductive Statement
  | entry (path : KeyPath) (value : Value)
  | table (path : KeyPath)
  | element (path : KeyPath)

/-- The document so far and the path of the table that was opened last. -/
structure Building where
  root : Value := .table .declared []
  current : List String := []

def Building.add (b : Building) : Statement → Option Building
  | .entry p v => do return { b with root := ← atPath false (insert p v) b.current b.root }
  | .table p => do return ⟨← atPath false (openTable p.last) p.init b.root, p.init ++ [p.last]⟩
  | .element p => do
    return ⟨← atPath false (openElement p.last) p.init b.root, p.init ++ [p.last]⟩

def build? (ss : List Statement) : Option Value :=
  (ss.foldlM Building.add ({} : Building)).map (·.root)

end ChainRunner.Document.Toml
