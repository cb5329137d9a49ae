import ShaderGraph.Script

/-!
# Evaluation of terms

A term is evaluated from the bindings of its handles. Operands go first, left
to right, and the first error is the error of the whole.
-/

namespace ShaderGraph

namespace Term

def weightOf (d : DataBlock) (which : WeightChoice) : Except BuildError Expr :=
  match d, which with
  | .morphWeights data, .registerA => .ok (.var data.weightsA)
  | .morphWeights data, .registerB => .ok (.var data.weightsB)
  | .morphWeights data, .single i => data.weight i
  | .armature _, _ => .error (.illFormed "an armature has no weights")

def jointOf (d : DataBlock) (index : Expr) : Except BuildError Expr :=
  match d with
  | .armature data => data.jointTransform index
  | .morphWeights _ => .error (.illFormed "morph weights have no joints")

mutual

def eval (l : Ledger) : Term → Except BuildError Expr
  | lit value => .ok (.lit value)
  | var h => l.expr h
  | unary op a => do
    let a ← a.eval l
    Expr.apply op a
  | binary op a b => do
    let a ← a.eval l
    let b ← b.eval l
    Expr.join op a b
  | call callee args => do
    let args ← evalAll l args
    Expr.invoke callee args
  | callHandle h args => do
    let args ← evalAll l args
    let f ← l.function h
    Expr.invoke (.user f) args
  | select source mask => do
    let source ← source.eval l
    let mask ← Swizzle.ofMask mask
    Expr.select source mask
  | element object index => do
    let object ← object.eval l
    let index ← index.eval l
    Expr.element object index
  | joint h index => do
    let index ← index.eval l
    let index ← index.convert (.int .one)
    let d ← l.data h
    jointOf d index
  | weight h which => do
    let d ← l.data h
    weightOf d which
  | convert type a => do
    let a ← a.eval l
    a.convert type
  | typed op args => do
    let args ← evalAll l args
    op.build args
  | typedCall h args => do
    let args ← evalAll l args
    let f ← l.function h
    TypedOp.build (.call f) args
  | typedSwizzle source mask => do
    let source ← source.eval l
    let mask ← Swizzle.ofMask mask
    TypedOp.build (.swizzle mask) [source]
  | typedSelect source mask type => do
    let source ← source.eval l
    let mask ← Swizzle.ofMask mask
    let selected ← Expr.select source mask
    selected.convert type

def evalAll (l : Ledger) : List Term → Except BuildError (List Expr)
  | [] => .ok []
  | a :: rest => do
    let a ← a.eval l
    let rest ← evalAll l rest
    return a :: rest

end

def evalAs (l : Ledger) (type : ValueType) (a : Term) : Except BuildError Expr := do
  let a ← a.eval l
  a.convert type

def evalOptional (l : Ledger) : Option Term → Except BuildError (Option Expr)
  | none => .ok none
  | some a => do
    let a ← a.eval l
    return some a

def evalOptionalAs (l : Ledger) (type : ValueType) : Option Term → Except BuildError (Option Expr)
  | none => .ok none
  | some a => do
    let a ← a.evalAs l type
    return some a

end Term

end ShaderGraph
