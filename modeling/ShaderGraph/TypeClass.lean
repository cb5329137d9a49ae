import ShaderGraph.ValueType

/-!
# Type classes of operands

An operation says which types it takes by naming a class. No class but
`array` and `exactly` takes an array.
-/

namespace ShaderGraph

/-- A set of value types that an operand may have. -/
inductive TypeClass where
  | float
  | floatVector
  | floatScalar
  | numeric
  | arithmetic
  | numericScalar
  | signed
  | index
  | bool
  | boolVector
  | matrix
  | vector
  | sampler
  | depthSampler
  | array
  | exactly (type : ValueType)
  deriving DecidableEq, Repr

namespace TypeClass

def plain : List TypeClass :=
  [float, floatVector, floatScalar, numeric, arithmetic, numericScalar, signed, index, bool,
    boolVector, matrix, vector, sampler, depthSampler, array]

def acceptsPrim : TypeClass → PrimType → Bool
  | float, .vector .float _ => true
  | floatVector, .vector .float dim => dim != .one
  | floatScalar, .vector .float .one => true
  | numeric, .vector kind _ => kind != .bool
  | arithmetic, .vector kind _ => kind != .bool
  | arithmetic, .matrix _ => true
  | numericScalar, .vector kind .one => kind != .bool
  | signed, .vector .float _ | signed, .vector .int _ => true
  | index, .vector .int .one | index, .vector .uint .one => true
  | bool, .vector .bool .one => true
  | boolVector, .vector .bool dim => dim != .one
  | matrix, .matrix _ => true
  | vector, .vector _ _ => true
  | sampler, .sampler _ => true
  | depthSampler, .depthSampler _ => true
  | exactly type, prim => type == ⟨prim, none⟩
  | _, _ => false

def accepts (c : TypeClass) (t : ValueType) : Bool :=
  match c, t.length with
  | array, length => length.isSome
  | exactly type, _ => type == t
  | c, none => c.acceptsPrim t.prim
  | _, some _ => false

def text : TypeClass → String
  | float => "float scalar or vector"
  | floatVector => "float vector"
  | floatScalar => "float1"
  | numeric => "numeric scalar or vector"
  | arithmetic => "numeric scalar, vector or matrix"
  | numericScalar => "numeric scalar"
  | signed => "float or int scalar or vector"
  | index => "int1 or uint1"
  | bool => "bool1"
  | boolVector => "bool vector"
  | matrix => "square matrix"
  | vector => "scalar or vector"
  | sampler => "color sampler"
  | depthSampler => "depth sampler"
  | array => "array"
  | exactly type => type.text

@[simp] theorem accepts_exactly (t u : ValueType) : (exactly t).accepts u = true ↔ t = u := by
  simp [accepts]

end TypeClass

end ShaderGraph
