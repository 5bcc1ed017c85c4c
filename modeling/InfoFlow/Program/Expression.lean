import InfoFlow.Program.Value
import InfoFlow.Scalar.Basic

namespace InfoFlow

/-- Functions of one number. -/
inductive UnaryFunction where
  | neg
  | abs
  | floor
  | sqrt
  | ln
  | exp
  deriving Repr, DecidableEq

/-- Functions of two numbers; comparisons give 1 or 0. -/
inductive BinaryFunction where
  | add
  | sub
  | mul
  | div
  | mod
  | lt
  | le
  | eq
  deriving Repr, DecidableEq

/-- Numbers that sum up a value. -/
inductive Aggregate where
  | length
  | sum
  /-- The largest element that is not a NaN. -/
  | greatest
  /-- The smallest element that is not a NaN. -/
  | least
  deriving Repr, DecidableEq

inductive Expression (α : Type) where
  | literal (x : α)
  | argument (i : Nat)
  /-- The elements of all values, one after the other. -/
  | vector (es : List (Expression α))
  /-- The first branch where the condition is not 0, else the second one. -/
  | branch (condition whenTrue whenFalse : Expression α)
  | failure (reason : String)
  | element (e : Expression α) (i : Nat)
  | aggregate (f : Aggregate) (e : Expression α)
  | unary (f : UnaryFunction) (e : Expression α)
  | binary (f : BinaryFunction) (a b : Expression α)

variable {α : Type} [Scalar α]

def UnaryFunction.apply (f : UnaryFunction) (x : α) : α :=
  match f with
  | neg => -x
  | abs => Scalar.abs x
  | floor => Scalar.floor x
  | sqrt => Scalar.sqrt x
  | ln => Scalar.log x
  | exp => Scalar.exp x

/-- The number for a truth value. -/
def ofTruth (b : Bool) : α := if b then 1 else 0

def BinaryFunction.apply (f : BinaryFunction) (x y : α) : α :=
  match f with
  | add => x + y
  | sub => x - y
  | mul => x * y
  | div => x / y
  | mod => Scalar.remainder x y
  | lt => ofTruth (x < y)
  | le => ofTruth (x ≤ y)
  | eq => ofTruth (x == y)

def Aggregate.apply (f : Aggregate) (xs : List α) : α :=
  match f with
  | length => Scalar.ofNat xs.length
  | sum => Scalar.sum xs
  | greatest => xs.foldl Scalar.max (-Scalar.infinity)
  | least => xs.foldl Scalar.min Scalar.infinity

namespace Expression

mutual

/-- The value of an expression at some arguments. Operands are evaluated from left to right, and the
first failure is the failure of the whole. -/
def eval (arguments : List (Value α)) : Expression α → Except String (Value α)
  | literal x => .ok (.scalar x)
  | argument i => match arguments[i]? with
    | some v => .ok v
    | none => .error "no such input"
  | vector es => return .vector (← evalAll arguments es)
  | branch condition whenTrue whenFalse => do
    let c ← (← condition.eval arguments).scalar?
    if c == 0 then whenFalse.eval arguments else whenTrue.eval arguments
  | failure reason => .error reason
  | element e i => do
    match (← e.eval arguments).elements[i]? with
    | some x => return .scalar x
    | none => throw "index out of range"
  | aggregate f e => return .scalar (f.apply (← e.eval arguments).elements)
  | unary f e => return .scalar (f.apply (← (← e.eval arguments).scalar?))
  | binary f a b => do
    let x ← (← a.eval arguments).scalar?
    let y ← (← b.eval arguments).scalar?
    return .scalar (f.apply x y)

/-- The elements of the values of several expressions. -/
def evalAll (arguments : List (Value α)) : List (Expression α) → Except String (List α)
  | [] => .ok []
  | e :: es => do
    let v ← e.eval arguments
    return v.elements ++ (← evalAll arguments es)

end

/-- The transformation that returns the values of some expressions. -/
def transformation (body : List (Expression α)) : Transformation α := fun arguments =>
  body.mapM fun e => e.eval arguments

end Expression

end InfoFlow
