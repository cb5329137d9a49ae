import ShaderGraph.Callee
import ShaderGraph.Literal
import ShaderGraph.Operator
import ShaderGraph.Swizzle
import ShaderGraph.Variable.Set

/-!
# Expressions

Expressions are trees over literals and variables. Every node knows its type.
The functions named for the nodes (`Expr.negate`, `Expr.join`, …) check their
operands; the nodes themselves can be put together without a check.
-/

namespace ShaderGraph

/-- An expression. Nodes whose type does not follow from their parts record it. -/
inductive Expr where
  | lit (value : Literal)
  | var (v : Variable)
  | unary (op : UnaryOp) (a : Expr)
  | binary (type : ValueType) (op : BinaryOp) (a b : Expr)
  | call (type : ValueType) (callee : Callee) (args : List Expr)
  | swizzle (type : ValueType) (source : Expr) (mask : Swizzle)
  | lookup (type : ValueType) (object index : Expr)

namespace Expr

def type : Expr → ValueType
  | lit value => value.type
  | var v => v.type
  | unary _ a => a.type
  | binary t .. => t
  | call t .. => t
  | swizzle t .. => t
  | lookup t .. => t

mutual

def addReads (s : VarSet) : Expr → VarSet
  | lit _ => s
  | var v => s.insert v
  | unary _ a => a.addReads s
  | binary _ _ a b => b.addReads (a.addReads s)
  | call _ _ args => addReadsOfList s args
  | swizzle _ source _ => source.addReads s
  | lookup _ object index => index.addReads (object.addReads s)

def addReadsOfList (s : VarSet) : List Expr → VarSet
  | [] => s
  | e :: rest => addReadsOfList (e.addReads s) rest

end

def reads (e : Expr) : VarSet := e.addReads .empty

/-- The variable that an assignment to an expression writes. Variables can be assigned to, and
elements, columns and distinct components of what can be. -/
def root? : Expr → Option Variable
  | var v => some v
  | swizzle _ source mask => if mask.assignable then source.root? else none
  | lookup _ object _ => object.root?
  | lit _ | unary .. | binary .. | call .. => none

def whole? : Expr → Option Variable
  | var v => some v
  | _ => none

def lookupType? (object : ValueType) : Option (ValueType × Nat) :=
  match object with
  | ⟨prim, some n⟩ => some (⟨prim, none⟩, n)
  | ⟨.matrix dim, none⟩ => some (.float dim.column, dim.size)
  | _ => none

/-- The number shown for a constant index that is negative, and so no index at all. -/
def noIndex : Nat := UInt64.size - 1

def checkIndex (index : Expr) (length : Nat) : Except BuildError Unit :=
  match index with
  | lit value =>
    match value.toInt? with
    | some (.ofNat i) => if i < length then .ok () else .error (.indexOutOfRange "[]" i length)
    | _ => .error (.indexOutOfRange "[]" noIndex length)
  | _ => .ok ()

def apply (op : UnaryOp) (a : Expr) : Except BuildError Expr :=
  match op.resultType a.type with
  | .ok _ => .ok (unary op a)
  | .error e => .error e

def join (op : BinaryOp) (a b : Expr) : Except BuildError Expr :=
  match op.resultType a.type b.type with
  | .ok t => .ok (binary t op a b)
  | .error e => .error e

def invoke (callee : Callee) (args : List Expr) : Except BuildError Expr :=
  match callee.resultType (args.map type) with
  | .ok t => .ok (call t callee args)
  | .error e => .error e

def select (source : Expr) (mask : Swizzle) : Except BuildError Expr :=
  match mask.resultType source.type with
  | .ok t => .ok (swizzle t source mask)
  | .error e => .error e

def element (object index : Expr) : Except BuildError Expr := do
  TypeClass.index.expect "[]" "index" index.type
  match lookupType? object.type with
  | none => throw (.typeMismatch "[]" "indexed operand" "array or matrix" object.type.text)
  | some (t, length) =>
    checkIndex index length
    return lookup t object index

/-- Takes an expression for one of a given type, which it has to have. -/
def convert (expected : ValueType) (e : Expr) : Except BuildError Expr :=
  if e.type = expected then .ok e
  else .error (.typeMismatch "typed conversion" "expression" expected.text e.type.text)

@[simp] theorem type_lit (value : Literal) : (lit value).type = value.type := rfl

@[simp] theorem type_var (v : Variable) : (var v).type = v.type := rfl

theorem convert_eq_ok {t : ValueType} {e e' : Expr} :
    convert t e = .ok e' ↔ e' = e ∧ e.type = t := by
  unfold convert
  split <;> simp_all [eq_comm]

end Expr

end ShaderGraph
