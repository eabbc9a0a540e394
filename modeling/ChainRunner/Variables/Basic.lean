import ChainRunner.Variables.Axis

/-!
Variable sets: on every axis an ordered list of values, none of them twice.

Values only enter through `push`, which passes over a value that is there already. `merge` is
the ordered union on every axis.
-/

namespace ChainRunner

structure Variables where
  flavor : List String := []
  project : List String := []
  file : List String := []
deriving DecidableEq, Repr, Inhabited

namespace Variables

def empty : Variables := {}

def values (vs : Variables) : Axis → List String
  | .flavor => vs.flavor
  | .project => vs.project
  | .file => vs.file

/-- The set with the values of one axis replaced as they are. -/
def setValues (vs : Variables) (a : Axis) (xs : List String) : Variables :=
  match a with
  | .flavor => { vs with flavor := xs }
  | .project => { vs with project := xs }
  | .file => { vs with file := xs }

@[simp] theorem values_setValues_same (vs : Variables) (a : Axis) (xs : List String) :
    (vs.setValues a xs).values a = xs := by cases a <;> rfl

theorem values_setValues_of_ne (vs : Variables) {a b : Axis} (h : b ≠ a) (xs : List String) :
    (vs.setValues a xs).values b = vs.values b := by
  cases a <;> cases b <;> simp_all [setValues, values]

theorem ext_values {vs ws : Variables} (h : ∀ a, vs.values a = ws.values a) : vs = ws := by
  obtain ⟨f, p, x⟩ := vs
  obtain ⟨g, q, y⟩ := ws
  have hf := h .flavor
  have hp := h .project
  have hx := h .file
  simp only [values] at hf hp hx
  rw [hf, hp, hx]

/-- A list with `x` at its end, unless it is in the list already. -/
def addNew (xs : List String) (x : String) : List String :=
  if x ∈ xs then xs else xs ++ [x]

def push (vs : Variables) (a : Axis) (x : String) : Variables :=
  vs.setValues a (addNew (vs.values a) x)

/-- Push several values of one axis in order. -/
def pushAll (vs : Variables) (a : Axis) (xs : List String) : Variables :=
  xs.foldl (fun vs x => vs.push a x) vs

/-- The values of one axis become `xs`, repetitions left out. -/
def set (vs : Variables) (a : Axis) (xs : List String) : Variables :=
  (vs.setValues a []).pushAll a xs

def without (vs : Variables) (a : Axis) : Variables := vs.setValues a []

/-- The values of `vs`, then those of `ws` that are new, on every axis. -/
def merge (vs ws : Variables) : Variables :=
  Axis.all.foldl (fun vs a => vs.pushAll a (ws.values a)) vs

def isEmpty (vs : Variables) : Bool := Axis.all.all (fun a => (vs.values a).isEmpty)

end Variables

end ChainRunner
