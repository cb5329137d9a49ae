import ShaderGraph.BuildError

/-!
# Operators

Unary and binary operators, the operators of augmented assignments, and the
types they take and give. Arithmetic joins equal types or a scalar with
anything of its kind, and multiplies matrices with vectors of their size.
-/

namespace ShaderGraph

inductive UnaryOp where
  | neg
  | not
  deriving DecidableEq, Repr

namespace UnaryOp

def symbol : UnaryOp → String
  | neg => "-"
  | not => "!"

/-- What an operator takes; its result has the type of the operand. -/
def operandClass : UnaryOp → TypeClass
  | neg => .arithmetic
  | not => .bool

def resultType (op : UnaryOp) (a : ValueType) : Except BuildError ValueType :=
  match op.operandClass.expect op.symbol "operand" a with
  | .ok () => .ok a
  | .error e => .error e

end UnaryOp

inductive BinaryOp where
  | add
  | sub
  | mul
  | div
  | rem
  | eq
  | ne
  | lt
  | le
  | gt
  | ge
  | and
  | or
  | xor
  deriving DecidableEq, Repr

/-- Whether an operator computes, compares sizes, compares for equality or joins conditions. -/
inductive OperatorFamily where
  | arithmetic
  | order
  | equality
  | logic
  deriving DecidableEq, Repr

namespace BinaryOp

def symbol : BinaryOp → String
  | add => "+"
  | sub => "-"
  | mul => "*"
  | div => "/"
  | rem => "%"
  | eq => "=="
  | ne => "!="
  | lt => "<"
  | le => "<="
  | gt => ">"
  | ge => ">="
  | and => "&&"
  | or => "||"
  | xor => "^^"

def all : List BinaryOp := [add, sub, mul, div, rem, eq, ne, lt, le, gt, ge, and, or, xor]

def ofSymbol? (s : String) : Option BinaryOp := all.find? (fun op ↦ op.symbol == s)

def family : BinaryOp → OperatorFamily
  | add | sub | mul | div | rem => .arithmetic
  | lt | le | gt | ge => .order
  | eq | ne => .equality
  | and | or | xor => .logic

/-- The type of an arithmetic operation on operands of the same kind. -/
def arithmeticType (op : BinaryOp) (a b : ValueType) : Option ValueType :=
  if a = b ∨ b.isScalar then some a
  else if a.isScalar then some b
  else if op ≠ mul then none
  else
    match a.prim, b.prim with
    | .matrix m, .vector .float d => if m.column = d then some b else none
    | .vector .float d, .matrix m => if m.column = d then some a else none
    | _, _ => none

def arithmeticResult (op : BinaryOp) (a b : ValueType) : Except BuildError ValueType := do
  let operands : TypeClass := if op = rem then .numeric else .arithmetic
  operands.expect op.symbol "left operand" a
  operands.expect op.symbol "right operand" b
  if a.scalarKind ≠ b.scalarKind then
    throw (.typeMismatch op.symbol "right operand" ("of the same base kind as " ++ a.text) b.text)
  match op.arithmeticType a b with
  | some t => return t
  | none => throw (.typeMismatch op.symbol "right operand" ("compatible with " ++ a.text) b.text)

def resultType (op : BinaryOp) (a b : ValueType) : Except BuildError ValueType :=
  match op.family with
  | .arithmetic => op.arithmeticResult a b
  | .order => do
    TypeClass.numericScalar.expect op.symbol "left operand" a
    a.expect op.symbol "right operand" b
    return .bool
  | .equality => do
    unless TypeClass.vector.accepts a || TypeClass.matrix.accepts a do
      throw (.typeMismatch op.symbol "left operand" "scalar, vector or matrix" a.text)
    a.expect op.symbol "right operand" b
    return .bool
  | .logic => do
    TypeClass.bool.expect op.symbol "left operand" a
    TypeClass.bool.expect op.symbol "right operand" b
    return .bool

end BinaryOp

inductive AugmentOp where
  | add
  | sub
  | mul
  | div
  | rem
  deriving DecidableEq, Repr

namespace AugmentOp

def binary : AugmentOp → BinaryOp
  | add => .add
  | sub => .sub
  | mul => .mul
  | div => .div
  | rem => .rem

def symbol : AugmentOp → String
  | add => "+="
  | sub => "-="
  | mul => "*="
  | div => "/="
  | rem => "%="

def ofSymbol? (s : String) : Option AugmentOp :=
  [add, sub, mul, div, rem].find? (fun op ↦ op.symbol == s)

end AugmentOp

end ShaderGraph
