/-!
Expressions over bytes and the one-pass test whether one describes a whole text.

The test carries a set of expressions along the text: after each byte those that describe what
may still follow. A text is described when one of the last set allows nothing more to follow.
-/

namespace ChainRunner.Glob

/-- Bytes of some closed ranges, or all other bytes. -/
structure ByteClass where
  negated : Bool
  ranges : List (UInt8 × UInt8)
deriving DecidableEq, Repr

namespace ByteClass

def contains (s : ByteClass) (b : UInt8) : Bool :=
  s.ranges.any (fun r => r.1 ≤ b && b ≤ r.2) != s.negated

def all : ByteClass := ⟨true, []⟩

def only (b : UInt8) : ByteClass := ⟨false, [(b, b)]⟩

def slash : UInt8 := 0x2F

def notSlash : ByteClass := ⟨true, [(slash, slash)]⟩

end ByteClass

inductive Expr
  | empty
  | byte (s : ByteClass)
  | many (s : ByteClass)
  | seq (x y : Expr)
  | alt (x y : Expr)
deriving DecidableEq, Repr

namespace Expr

/-- The texts that an expression describes. -/
inductive Describes : Expr → List UInt8 → Prop
  | empty : Describes .empty []
  | byte {s b} : s.contains b → Describes (.byte s) [b]
  | many {s w} : (∀ b ∈ w, s.contains b) → Describes (.many s) w
  | seq {x y u v} : Describes x u → Describes y v → Describes (.seq x y) (u ++ v)
  | altLeft {x y w} : Describes x w → Describes (.alt x y) w
  | altRight {x y w} : Describes y w → Describes (.alt x y) w

def nullable : Expr → Bool
  | .empty => true
  | .byte _ => false
  | .many _ => true
  | .seq x y => x.nullable && y.nullable
  | .alt x y => x.nullable || y.nullable

/-- One expression after another, nothing kept of a finished one. -/
def andThen (x y : Expr) : Expr := if x = .empty then y else .seq x y

/-- The expressions for what may follow a first byte `b`. -/
def residuals (b : UInt8) : Expr → List Expr
  | .empty => []
  | .byte s => if s.contains b then [.empty] else []
  | .many s => if s.contains b then [.many s] else []
  | .seq x y => (x.residuals b).map (·.andThen y) ++ if x.nullable then y.residuals b else []
  | .alt x y => x.residuals b ++ y.residuals b

def step (xs : List Expr) (b : UInt8) : List Expr := (xs.flatMap (residuals b)).eraseDups

def run (xs : List Expr) (w : List UInt8) : List Expr := w.foldl step xs

def test (x : Expr) (w : List UInt8) : Bool := (run [x] w).any nullable

@[simp] theorem run_nil (xs : List Expr) : run xs [] = xs := rfl

@[simp] theorem run_cons (xs : List Expr) (b : UInt8) (w : List UInt8) :
    run xs (b :: w) = run (step xs b) w := rfl

theorem run_append (xs : List Expr) (u v : List UInt8) :
    run xs (u ++ v) = run (run xs u) v := by simp [run, List.foldl_append]

def ofBytes : List UInt8 → Expr
  | [] => .empty
  | b :: w => (Expr.byte (.only b)).andThen (ofBytes w)

/-- One after the other. -/
def concat (xs : List Expr) : Expr := xs.foldr andThen .empty

end Expr

end ChainRunner.Glob
