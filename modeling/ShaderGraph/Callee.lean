import ShaderGraph.BuildError

/-!
# Callees

What an expression can call: the built-in functions of the shading language
and the functions that a stage defines. A callee decides from the types of
the arguments whether a call is allowed and which type it has.
-/

namespace ShaderGraph

inductive FloatFunction where
  | radians
  | degrees
  | sin
  | cos
  | tan
  | asin
  | acos
  | atan
  | sinh
  | cosh
  | tanh
  | asinh
  | acosh
  | atanh
  | exp
  | exp2
  | log
  | log2
  | sqrt
  | inverseSqrt
  | floor
  | trunc
  | round
  | ceil
  | fract
  | normalize
  deriving DecidableEq, Repr

namespace FloatFunction

def name : FloatFunction → String
  | radians => "radians"
  | degrees => "degrees"
  | sin => "sin"
  | cos => "cos"
  | tan => "tan"
  | asin => "asin"
  | acos => "acos"
  | atan => "atan"
  | sinh => "sinh"
  | cosh => "cosh"
  | tanh => "tanh"
  | asinh => "asinh"
  | acosh => "acosh"
  | atanh => "atanh"
  | exp => "exp"
  | exp2 => "exp2"
  | log => "log"
  | log2 => "log2"
  | sqrt => "sqrt"
  | inverseSqrt => "inverseSqrt"
  | floor => "floor"
  | trunc => "trunc"
  | round => "round"
  | ceil => "ceil"
  | fract => "fract"
  | normalize => "normalize"

def all : List FloatFunction :=
  [radians, degrees, sin, cos, tan, asin, acos, atan, sinh, cosh, tanh, asinh, acosh, atanh, exp,
    exp2, log, log2, sqrt, inverseSqrt, floor, trunc, round, ceil, fract, normalize]

end FloatFunction

inductive Builtin where
  | vec (dim : MatrixDim)
  | mat (dim : MatrixDim)
  | toFloat
  | toInt
  | toUint
  | apply (f : FloatFunction)
  | atan2
  | pow
  | reflect
  | fma
  | faceForward
  | abs
  | sign
  | min
  | max
  | clamp
  | mix
  /-- Takes the edge first. -/
  | step
  /-- Takes both edges first. -/
  | smoothStep
  | isNan
  | isInf
  | length
  | distance
  | dot
  | cross
  | refract
  | determinant
  | transpose
  | inverse
  | any
  | all
  | sample
  | sampleLod
  /-- Takes the depth to compare with as the last component of the coordinates. -/
  | sampleDepth
  | texelFetch
  | textureSize
  deriving DecidableEq, Repr

structure Signature where
  name : String
  params : List ValueType
  /-- The type of the returned value; a function without one returns nothing. -/
  result : Option ValueType
  deriving DecidableEq, Repr

inductive Callee where
  | builtin (f : Builtin)
  | user (f : Signature)
  deriving DecidableEq, Repr

namespace Builtin

def name : Builtin → String
  | vec dim => "vec" ++ toString dim.size
  | mat dim => "mat" ++ toString dim.size
  | toFloat => "float"
  | toInt => "int"
  | toUint => "uint"
  | apply f => f.name
  | atan2 => "atan2"
  | pow => "pow"
  | reflect => "reflect"
  | fma => "fma"
  | faceForward => "faceForward"
  | abs => "abs"
  | sign => "sign"
  | min => "min"
  | max => "max"
  | clamp => "clamp"
  | mix => "mix"
  | step => "step"
  | smoothStep => "smoothStep"
  | isNan => "isNan"
  | isInf => "isInf"
  | length => "length"
  | distance => "distance"
  | dot => "dot"
  | cross => "cross"
  | refract => "refract"
  | determinant => "determinant"
  | transpose => "transpose"
  | inverse => "inverse"
  | any => "any"
  | all => "all"
  | sample => "sampleTexture"
  | sampleLod => "sampleTextureLod"
  | sampleDepth => "sampleDepthTexture"
  | texelFetch => "texelFetch"
  | textureSize => "textureSize"

def every : List Builtin :=
  let dims := [MatrixDim.two, .three, .four]
  dims.map vec ++ dims.map mat ++ [toFloat, toInt, toUint] ++ FloatFunction.all.map apply ++
    [atan2, pow, reflect, fma, faceForward, abs, sign, min, max, clamp, mix, step, smoothStep,
      isNan, isInf, length, distance, dot, cross, refract, determinant, transpose, inverse, any,
      all, sample, sampleLod, sampleDepth, texelFetch, textureSize]

def ofName? (s : String) : Option Builtin := every.find? (fun f ↦ f.name == s)

end Builtin

namespace Callee

def name : Callee → String
  | builtin f => f.name
  | user f => f.name

def argument (i : Nat) : String := "argument " ++ toString i

def wrongCount (name : String) (expected : Nat) (args : List ValueType) : BuildError :=
  .typeMismatch name "argument list" (toString expected ++ " arguments")
    (toString args.length ++ " arguments")

/-- Compares arguments one by one with the types they should have, counting from `i`. -/
def expectEach (name : String) : Nat → List ValueType → List ValueType → Except BuildError Unit
  | i, t :: ts, a :: as =>
    match t.expect name (argument i) a with
    | .ok () => expectEach name (i + 1) ts as
    | .error e => .error e
  | _, _, _ => .ok ()

/-- A call with `n` arguments of one type out of a class; the result has that type too. -/
def sameTypes (name : String) (n : Nat) (operands : TypeClass) (args : List ValueType) :
    Except BuildError ValueType :=
  match args with
  | a :: rest =>
    if args.length ≠ n then .error (wrongCount name n args)
    else do
      operands.expect name (argument 0) a
      expectEach name 1 (rest.map fun _ ↦ a) rest
      return a
  | [] => .error (wrongCount name n args)

/-- Takes the type of another argument, or the scalar of its kind. -/
def sameOrScalar (name : String) (i : Nat) (reference a : ValueType) : Except BuildError Unit :=
  if a = reference ∨ some a = reference.component? then .ok ()
  else .error (.typeMismatch name (argument i) (reference.text ++ " or its scalar") a.text)

def colorSampler (name : String) (a : ValueType) : Except BuildError SamplerDim :=
  match a with
  | ⟨.sampler dim, none⟩ => .ok dim
  | _ => .error (.typeMismatch name (argument 0) TypeClass.sampler.text a.text)

def countComponents (name : String) (kind : ScalarKind) :
    Nat → List ValueType → Except BuildError Nat
  | _, [] => .ok 0
  | i, a :: rest =>
    match a with
    | ⟨.vector k dim, none⟩ =>
      if k = kind then
        match countComponents name kind (i + 1) rest with
        | .ok n => .ok (dim.count + n)
        | .error e => .error e
      else .error (.typeMismatch name (argument i)
        ((ValueType.scalar kind).text ++ " scalar or vector") a.text)
    | _ => .error (.typeMismatch name (argument i)
        ((ValueType.scalar kind).text ++ " scalar or vector") a.text)

/-- Makes a vector of as many components as the arguments have together, or of one scalar
repeated. -/
def vectorOf (name : String) (dim : Dim) (args : List ValueType) : Except BuildError ValueType :=
  match args with
  | [] => .error (.typeMismatch name "argument list" "at least one argument" "none")
  | first :: rest =>
    match first with
    | ⟨.vector kind _, none⟩ => do
      let count ← countComponents name kind 0 args
      unless (rest.isEmpty && first.isScalar) || count == dim.count do
        throw (.typeMismatch name "argument list" (toString dim.count ++ " components")
          (toString count ++ " components"))
      return .vector kind dim
    | _ => .error (.typeMismatch name (argument 0) TypeClass.vector.text first.text)

def expectColumns (name : String) (column : ValueType) :
    Nat → List ValueType → Except BuildError Unit
  | _, [] => .ok ()
  | i, a :: rest =>
    match column.expect name ("column " ++ toString i) a with
    | .ok () => expectColumns name column (i + 1) rest
    | .error e => .error e

def matrixOf (name : String) (dim : MatrixDim) (args : List ValueType) :
    Except BuildError ValueType :=
  if args.length ≠ dim.size then .error (wrongCount name dim.size args)
  else do
    expectColumns name (.float dim.column) 0 args
    return .matrix dim

def conversion (name : String) (kind : ScalarKind) (args : List ValueType) :
    Except BuildError ValueType :=
  match args with
  | [a] =>
    match a with
    | ⟨.vector _ dim, none⟩ => .ok (.vector kind dim)
    | _ => .error (.typeMismatch name (argument 0) TypeClass.vector.text a.text)
  | _ => .error (wrongCount name 1 args)

/-- The coordinates of a depth sampler: those of its texture and one component more. -/
def depthCoord : SamplerDim → Dim
  | .flat => .three
  | .volume | .cube | .layered => .four

end Callee

open Callee in
def Builtin.resultType (f : Builtin) (args : List ValueType) : Except BuildError ValueType :=
  let name := f.name
  match f with
  | .vec dim => vectorOf name dim.column args
  | .mat dim => matrixOf name dim args
  | .toFloat => conversion name .float args
  | .toInt => conversion name .int args
  | .toUint => conversion name .uint args
  | .apply _ => sameTypes name 1 .float args
  | .atan2 | .pow | .reflect => sameTypes name 2 .float args
  | .fma | .faceForward => sameTypes name 3 .float args
  | .abs | .sign => sameTypes name 1 .signed args
  | .min | .max =>
    match args with
    | [a, b] => do
      TypeClass.numeric.expect name (argument 0) a
      sameOrScalar name 1 a b
      return a
    | _ => .error (wrongCount name 2 args)
  | .clamp =>
    match args with
    | [a, low, high] => do
      TypeClass.numeric.expect name (argument 0) a
      sameOrScalar name 1 a low
      sameOrScalar name 2 a high
      return a
    | _ => .error (wrongCount name 3 args)
  | .mix =>
    match args with
    | [a, b, factor] => do
      TypeClass.float.expect name (argument 0) a
      a.expect name (argument 1) b
      sameOrScalar name 2 a factor
      return a
    | _ => .error (wrongCount name 3 args)
  | .step =>
    match args with
    | [edge, a] => do
      TypeClass.float.expect name (argument 1) a
      sameOrScalar name 0 a edge
      return a
    | _ => .error (wrongCount name 2 args)
  | .smoothStep =>
    match args with
    | [low, high, a] => do
      TypeClass.float.expect name (argument 2) a
      sameOrScalar name 0 a low
      sameOrScalar name 1 a high
      return a
    | _ => .error (wrongCount name 3 args)
  | .isNan | .isInf =>
    match args with
    | [a] => do
      TypeClass.float.expect name (argument 0) a
      return .vector .bool (a.dim.getD .one)
    | _ => .error (wrongCount name 1 args)
  | .length =>
    match args with
    | [a] => do
      TypeClass.float.expect name (argument 0) a
      return .float .one
    | _ => .error (wrongCount name 1 args)
  | .distance | .dot => do
    let _ ← sameTypes name 2 .float args
    return .float .one
  | .cross => sameTypes name 2 (.exactly (.float .three)) args
  | .refract =>
    match args with
    | [a, normal, eta] => do
      TypeClass.float.expect name (argument 0) a
      a.expect name (argument 1) normal
      TypeClass.floatScalar.expect name (argument 2) eta
      return a
    | _ => .error (wrongCount name 3 args)
  | .determinant =>
    match args with
    | [a] => do
      TypeClass.matrix.expect name (argument 0) a
      return .float .one
    | _ => .error (wrongCount name 1 args)
  | .transpose | .inverse => sameTypes name 1 .matrix args
  | .any | .all =>
    match args with
    | [a] => do
      TypeClass.boolVector.expect name (argument 0) a
      return .bool
    | _ => .error (wrongCount name 1 args)
  | .sample =>
    match args with
    | [a, coord] => do
      let dim ← colorSampler name a
      (ValueType.float dim.coord).expect name (argument 1) coord
      return .float .four
    | _ => .error (wrongCount name 2 args)
  | .sampleLod =>
    match args with
    | [a, coord, lod] => do
      let dim ← colorSampler name a
      (ValueType.float dim.coord).expect name (argument 1) coord
      TypeClass.floatScalar.expect name (argument 2) lod
      return .float .four
    | _ => .error (wrongCount name 3 args)
  | .sampleDepth =>
    match args with
    | [a, coord] =>
      match a with
      | ⟨.depthSampler dim, none⟩ => do
        (ValueType.float (depthCoord dim)).expect name (argument 1) coord
        return .float .one
      | _ => .error (.typeMismatch name (argument 0) TypeClass.depthSampler.text a.text)
    | _ => .error (wrongCount name 2 args)
  | .texelFetch =>
    match args with
    | [a, texel, lod] => do
      let dim ← colorSampler name a
      (ValueType.int dim.texel).expect name (argument 1) texel
      (ValueType.int .one).expect name (argument 2) lod
      return .float .four
    | _ => .error (wrongCount name 3 args)
  | .textureSize =>
    match args with
    | [a, lod] =>
      match a with
      | ⟨.sampler dim, none⟩ | ⟨.depthSampler dim, none⟩ => do
        (ValueType.int .one).expect name (argument 1) lod
        return .int dim.texel
      | _ => .error (.typeMismatch name (argument 0) "sampler" a.text)
    | _ => .error (wrongCount name 2 args)

def Signature.checkArgs (f : Signature) (args : List ValueType) : Except BuildError Unit :=
  if args.length ≠ f.params.length then
    .error (Callee.wrongCount f.name f.params.length args)
  else Callee.expectEach f.name 0 f.params args

def Signature.resultType (f : Signature) (args : List ValueType) :
    Except BuildError ValueType := do
  f.checkArgs args
  match f.result with
  | some t => return t
  | none => throw (.typeMismatch f.name "return value" "a value-returning function" "void")

def Callee.resultType : Callee → List ValueType → Except BuildError ValueType
  | .builtin f, args => f.resultType args
  | .user f, args => f.resultType args

end ShaderGraph
