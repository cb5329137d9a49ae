import ShaderGraph.Expr

/-!
# Typed operations

A typed operation exists only for operands of certain types, which
`TypedOp.signature?` lists together with the type of the result. Its operands
are converted to those types and its node is then put together as it stands:
no rule of the checked constructors is asked.
-/

namespace ShaderGraph

/-- The operations of the typed interface. Functions with a reference value, such as `step`,
take the value they work on first here. -/
inductive TypedOp where
  | unary (op : UnaryOp)
  | binary (op : BinaryOp)
  | builtin (f : Builtin)
  | call (f : Signature)
  /-- An array element; constant indices are not compared with the length. -/
  | element
  /-- A matrix column; constant indices are not compared with the size. -/
  | column
  /-- One of the components or leading parts that a vector of the operand's size has. -/
  | part (mask : Swizzle)
  /-- Any selection of no more components than the operand has; which they are is not asked. -/
  | swizzle (mask : Swizzle)
  deriving DecidableEq

structure OperationType where
  operands : List ValueType
  result : ValueType
  deriving DecidableEq

namespace TypedOp

def isFloat : ValueType → Bool
  | ⟨.vector .float _, none⟩ => true
  | _ => false

/-- Arithmetic between a type and another: equal numbers, vectors with their scalar, and
matrices with themselves, a float or a vector of their size. -/
def arithmetic? (op : BinaryOp) (a b : ValueType) : Option OperationType :=
  match a, b with
  | ⟨.vector kind d, none⟩, ⟨.vector kind' d', none⟩ =>
    if kind = kind' ∧ kind ≠ .bool ∧ (d' = d ∨ d' = .one) then some ⟨[a, b], a⟩ else none
  | ⟨.matrix m, none⟩, ⟨.matrix m', none⟩ =>
    if m = m' ∧ (op = .add ∨ op = .sub ∨ op = .mul) then some ⟨[a, b], a⟩ else none
  | ⟨.matrix m, none⟩, ⟨.vector .float d, none⟩ =>
    if op ≠ .mul then none
    else if d = .one then some ⟨[a, b], a⟩
    else if d = m.column then some ⟨[a, b], b⟩
    else none
  | ⟨.vector .float d, none⟩, ⟨.matrix m, none⟩ =>
    if op = .mul ∧ d = m.column then some ⟨[a, b], a⟩ else none
  | _, _ => none

def binary? (op : BinaryOp) (a b : ValueType) : Option OperationType :=
  match op.family with
  | .arithmetic => arithmetic? op a b
  | .equality => some ⟨[a, a], .bool⟩
  | .order =>
    match a with
    | ⟨.vector kind .one, none⟩ => if kind = .bool then none else some ⟨[a, a], .bool⟩
    | _ => none
  | .logic => if a = .bool then some ⟨[a, a], .bool⟩ else none

/-- The type of a bound or factor: the scalar of the value's kind if it is given one, and the
value's own type otherwise. -/
def boundType (a given : ValueType) : ValueType :=
  match a with
  | ⟨.vector kind _, none⟩ => if given = .scalar kind then given else a
  | _ => a

def bounded? (a given : ValueType) (bounds : Nat) : Option OperationType :=
  match a with
  | ⟨.vector kind _, none⟩ =>
    if kind = .bool then none else some ⟨a :: List.replicate bounds (boundType a given), a⟩
  | _ => none

/-- Operands from which a vector is made, starting with the given one: a scalar repeated, all
scalars, or vectors filled up. -/
def vector? (dim : MatrixDim) (first : ValueType) (count : Nat) : Option OperationType :=
  match first with
  | ⟨.vector kind d, none⟩ =>
    let one := ValueType.scalar kind
    let result := ValueType.vector kind dim.column
    match dim, d, count with
    | _, .one, 1 => some ⟨[one], result⟩
    | .two, .one, 2 => some ⟨[one, one], result⟩
    | .three, .one, 3 => some ⟨[one, one, one], result⟩
    | .four, .one, 4 => some ⟨[one, one, one, one], result⟩
    | .three, .two, 2 => some ⟨[first, one], result⟩
    | .four, .three, 2 => some ⟨[first, one], result⟩
    | .four, .two, 2 => some ⟨[first, first], result⟩
    | .four, .two, 3 => some ⟨[first, one, one], result⟩
    | _, _, _ => none
  | _ => none

def conversion? (kind : ScalarKind) : ValueType → Option OperationType
  | a@⟨.vector _ d, none⟩ => some ⟨[a], .vector kind d⟩
  | _ => none

def floats? (a : ValueType) (count : Nat) (result : ValueType) : Option OperationType :=
  if isFloat a then some ⟨List.replicate count a, result⟩ else none

def builtin? (f : Builtin) (args : List ValueType) : Option OperationType :=
  match f, args with
  | .vec dim, a :: rest => vector? dim a (rest.length + 1)
  | .mat dim, args =>
    if args.length = dim.size then
      some ⟨List.replicate dim.size (.float dim.column), .matrix dim⟩
    else none
  | .toFloat, [a] => conversion? .float a
  | .toInt, [a] => conversion? .int a
  | .toUint, [a] => conversion? .uint a
  | .apply _, [a] => floats? a 1 a
  | .atan2, [a, _] | .pow, [a, _] | .reflect, [a, _] => floats? a 2 a
  | .fma, [a, _, _] | .faceForward, [a, _, _] => floats? a 3 a
  | .abs, [a] | .sign, [a] =>
    match a with
    | ⟨.vector .float _, none⟩ | ⟨.vector .int _, none⟩ => some ⟨[a], a⟩
    | _ => none
  | .min, [a, b] | .max, [a, b] => bounded? a b 1
  | .clamp, [a, b, _] => bounded? a b 2
  | .mix, [a, _, factor] => if isFloat a then some ⟨[a, a, boundType a factor], a⟩ else none
  | .step, [a, edge] => if isFloat a then some ⟨[a, boundType a edge], a⟩ else none
  | .smoothStep, [a, edge, _] =>
    if isFloat a then some ⟨[a, boundType a edge, boundType a edge], a⟩ else none
  | .isNan, [a] | .isInf, [a] =>
    match a with
    | ⟨.vector .float d, none⟩ => some ⟨[a], .vector .bool d⟩
    | _ => none
  | .length, [a] => floats? a 1 (.float .one)
  | .distance, [a, _] | .dot, [a, _] => floats? a 2 (.float .one)
  | .cross, [a, _] => if a = .float .three then some ⟨[a, a], a⟩ else none
  | .refract, [a, _, _] => if isFloat a then some ⟨[a, a, .float .one], a⟩ else none
  | .determinant, [a] => if a.isMatrix then some ⟨[a], .float .one⟩ else none
  | .transpose, [a] | .inverse, [a] => if a.isMatrix then some ⟨[a], a⟩ else none
  | .any, [a] | .all, [a] =>
    match a with
    | ⟨.vector .bool d, none⟩ => if d = .one then none else some ⟨[a], .bool⟩
    | _ => none
  | .sample, [a, _] =>
    match a with
    | ⟨.sampler dim, none⟩ => some ⟨[a, .float dim.coord], .float .four⟩
    | _ => none
  | .sampleLod, [a, _, _] =>
    match a with
    | ⟨.sampler dim, none⟩ => some ⟨[a, .float dim.coord, .float .one], .float .four⟩
    | _ => none
  | .texelFetch, [a, _, _] =>
    match a with
    | ⟨.sampler dim, none⟩ => some ⟨[a, .int dim.texel, .int .one], .float .four⟩
    | _ => none
  | .textureSize, [a, _] =>
    match a with
    | ⟨.sampler dim, none⟩ => some ⟨[a, .int .one], .int dim.texel⟩
    | _ => none
  | .sampleDepth, [a, _] =>
    match a with
    | ⟨.depthSampler .flat, none⟩ => some ⟨[a, .float .three], .float .one⟩
    | ⟨.depthSampler .cube, none⟩ => some ⟨[a, .float .four], .float .one⟩
    | _ => none
  | _, _ => none

/-- Whether a vector of `d` components has a part of its own name: one of its components, its
first two of three or four, or its first three of four. -/
def hasPart (d : Dim) : Swizzle → Bool
  | .one a => d != .one && decide (a.index < d.count)
  | .two .x .y => d == .three || d == .four
  | .three .x .y .z => d == .four
  | _ => false

/-- The types that an operation takes and gives for operands of given types, if it exists for
them. Operands after the first may have other types than it takes: they are then refused when
they are converted. -/
def signature? (op : TypedOp) (args : List ValueType) : Option OperationType :=
  match op, args with
  | unary .neg, [a] =>
    match a with
    | ⟨.vector .float _, none⟩ | ⟨.vector .int _, none⟩ | ⟨.matrix _, none⟩ => some ⟨[a], a⟩
    | _ => none
  | unary .not, [a] => if a = .bool then some ⟨[a], a⟩ else none
  | binary op, [a, b] => binary? op a b
  | builtin f, args => builtin? f args
  | call f, args =>
    if args.length = f.params.length then f.result.map (OperationType.mk f.params) else none
  | element, [a, _] =>
    match a with
    | ⟨prim, some _⟩ => some ⟨[a, .int .one], ⟨prim, none⟩⟩
    | _ => none
  | column, [a, _] =>
    match a with
    | ⟨.matrix dim, none⟩ => some ⟨[a, .int .one], .float dim.column⟩
    | _ => none
  | part mask, [a] =>
    match a with
    | ⟨.vector kind d, none⟩ => if hasPart d mask then some ⟨[a], .vector kind mask.dim⟩ else none
    | _ => none
  | swizzle mask, [a] =>
    match a with
    | ⟨.vector kind d, none⟩ =>
      if d ≠ .one ∧ mask.dim.count ≤ d.count then some ⟨[a], .vector kind mask.dim⟩ else none
    | _ => none
  | _, _ => none

def node (op : TypedOp) (result : ValueType) (args : List Expr) : Option Expr :=
  match op, args with
  | unary op, [a] => some (.unary op a)
  | binary op, [a, b] => some (.binary result op a b)
  | builtin .step, [a, edge] => some (.call result (.builtin .step) [edge, a])
  | builtin .smoothStep, [a, low, high] => some (.call result (.builtin .smoothStep) [low, high, a])
  | builtin f, args => some (.call result (.builtin f) args)
  | call f, args => some (.call result (.user f) args)
  | element, [a, i] | column, [a, i] => some (.lookup result a i)
  | part mask, [a] | swizzle mask, [a] => some (.swizzle result a mask)
  | _, _ => none

def convertEach : List ValueType → List Expr → Except BuildError Unit
  | t :: ts, e :: es =>
    match e.convert t with
    | .ok _ => convertEach ts es
    | .error err => .error err
  | _, _ => .ok ()

def unknown : BuildError := .illFormed "no such typed operation"

/-- A typed operation on operands: they are converted in order, and nothing else is checked. -/
def build (op : TypedOp) (args : List Expr) : Except BuildError Expr :=
  match op.signature? (args.map Expr.type) with
  | none => .error unknown
  | some types =>
    match convertEach types.operands args with
    | .error e => .error e
    | .ok () =>
      match op.node types.result args with
      | some e => .ok e
      | none => .error unknown

end TypedOp

end ShaderGraph
