import InfoFlow.Document.Basic
import InfoFlow.Program.Expression

namespace InfoFlow.Expression

variable {α : Type} [Scalar α]

def unaryFunctions : List (String × UnaryFunction) :=
  [("neg", .neg), ("abs", .abs), ("floor", .floor), ("sqrt", .sqrt), ("ln", .ln), ("exp", .exp)]

def binaryFunctions : List (String × BinaryFunction) :=
  [("add", .add), ("sub", .sub), ("mul", .mul), ("div", .div), ("mod", .mod), ("lt", .lt),
    ("le", .le), ("eq", .eq)]

def aggregates : List (String × Aggregate) :=
  [("len", .length), ("sum", .sum), ("greatest", .greatest), ("least", .least)]

/-- The call of a function of numbers, or of an aggregate. -/
def ofFunction (name : String) (operand : Nat → Expression α) : Expression α :=
  match unaryFunctions.lookup name, binaryFunctions.lookup name, aggregates.lookup name with
  | some f, _, _ => .unary f (operand 0)
  | _, some f, _ => .binary f (operand 0) (operand 1)
  | _, _, some f => .aggregate f (operand 0)
  | none, none, none => .failure s!"unknown function {name}"

/-- A call, from its operands as they are stored and as expressions. -/
def ofCall (name : String) (stored : List Document) (operands : List (Expression α)) :
    Expression α :=
  let operand (i : Nat) : Expression α := operands.getD i (.literal Scalar.nan)
  let index (i : Nat) : Nat := (stored[i]? >>= Document.natural?).getD 0
  match name with
  | "in" => .argument (index 0)
  | "vec" => .vector operands
  | "if" => .branch (operand 0) (operand 1) (operand 2)
  | "fail" => .failure ((stored[0]? >>= Document.text?).getD "")
  | "at" => .element (operand 0) (index 1)
  | name => ofFunction name operand

mutual

/-- An expression: a call is a list of the name of a function and its operands, and anything else is
a number. A function that is not known is an expression that fails. -/
def ofDocument : Document → Expression α
  | .list items =>
    ofCall ((items.head? >>= Document.text?).getD "") items.tail (ofDocuments items).tail
  | d => .literal (d.scalar?.getD Scalar.nan)

def ofDocuments : List Document → List (Expression α)
  | [] => []
  | d :: ds => ofDocument d :: ofDocuments ds

end

end InfoFlow.Expression
