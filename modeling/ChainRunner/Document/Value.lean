/-!
What a manifest file holds before it is read as a manifest.
-/

namespace ChainRunner.Document

/-- How a table came about, which decides what may still be added to it. -/
inductive Form
  /-- Written out as a value; complete. -/
  | sealed
  /-- Made on the way to a table below it. -/
  | implied
  /-- Made by a dotted key. -/
  | dotted
  /-- Opened by a header of its own. -/
  | declared
deriving DecidableEq, Repr

inductive Value
  | text (s : String)
  | integer (n : Int)
  /-- Any other scalar. -/
  | other
  /-- A number beyond all bounds, which may stand only where nobody reads it. -/
  | oversized
  /-- A list; an open one grows by the headers that name it. -/
  | list (growing : Bool) (xs : List Value)
  /-- Entries in the order written. A key without a text cannot be looked up. -/
  | table (form : Form) (entries : List (Option String × Value))

namespace Value

def text? : Value → Option String
  | .text s => some s
  | _ => none

def integer? : Value → Option Int
  | .integer n => some n
  | _ => none

def list? : Value → Option (List Value)
  | .list _ xs => some xs
  | _ => none

def texts? (v : Value) : Option (List String) := v.list?.bind (·.mapM text?)

/-- The entries of a table all of whose keys have a text. -/
def entries? : Value → Option (List (String × Value))
  | .table _ es => es.mapM fun e => e.1.map fun k => (k, e.2)
  | _ => none

mutual

/-- Whether all of a value can be read, even if only to pass over it. -/
def isReadable : Value → Bool
  | .oversized => false
  | .list _ xs => areReadable xs
  | .table _ es => entriesReadable es
  | _ => true

def areReadable : List Value → Bool
  | [] => true
  | v :: vs => v.isReadable && areReadable vs

def entriesReadable : List (Option String × Value) → Bool
  | [] => true
  | (_, v) :: es => v.isReadable && entriesReadable es

end

/-- The values of the fields `names`. A table gives them by key, and no named key may be written
twice; other keys are read and passed over. A list gives them by position, and may run on if
`longer`, unread. -/
def fields? (names : List String) (longer : Bool) : Value → Option (List (Option Value))
  | .list _ xs =>
    if longer || xs.length ≤ names.length then some (names.zipIdx.map fun p => xs[p.2]?) else none
  | v@(.table _ _) => v.entries?.bind fun es =>
    if es.any fun e => !names.contains e.1 && !e.2.isReadable then none
    else names.mapM fun n =>
      match es.filter (·.1 = n) with
      | [] => some none
      | [e] => some (some e.2)
      | _ => none
  | _ => none

end Value

end ChainRunner.Document
