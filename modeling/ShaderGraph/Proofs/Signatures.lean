import ShaderGraph.Proofs.Callee.Taking

/-!
# Checks of calls

A call is checked against what its callee takes, whatever the list of arguments is.
The check comes to an end, and read by places it stays inside of the list: places
are read after the number of arguments is known only. What it accepts is known
exactly, for the functions of the language as for those of clients.
-/

namespace ShaderGraph

variable {name : String} {i n : Nat} {kind : ScalarKind} {args : List ValueType} {a t : ValueType}

namespace Callee

/-- A check that reads the arguments by their places. Nothing comes out of it if it reads a place
that the list does not have. -/
abbrev PlaceCheck (α : Type) := ExceptT BuildError Option α

/-- The argument at a place. -/
def place (args : List ValueType) (i : Nat) : PlaceCheck ValueType := ExceptT.lift args[i]?

def countCheck (name : String) (n : Nat) (args : List ValueType) : Except BuildError Unit :=
  if args.length = n then .ok () else .error (wrongCount name n args)

def sameTypesByPlace (name : String) (n : Nat) (operands : TypeClass) (args : List ValueType) :
    PlaceCheck ValueType := do
  countCheck name n args
  operands.expect name (argument 0) (← place args 0)
  let first ← place args 0
  expectEach name 1 (args.tail.map fun _ ↦ first) args.tail
  return first

/-- Whether there is a single argument, and that is a scalar. -/
def splatByPlace (args : List ValueType) : PlaceCheck Bool :=
  if args.length = 1 then do
    return (← place args 0).isScalar
  else pure false

def vectorByPlace (name : String) (dim : Dim) (args : List ValueType) : PlaceCheck ValueType :=
  match args.head? with
  | none => throw (.typeMismatch name "argument list" "at least one argument" "none")
  | some first =>
    match first.scalarKind, first.dim with
    | some kind, some _ => do
      let count ← (countComponents name kind 0 args : Except BuildError Nat)
      if (← splatByPlace args) || count == dim.count then return .vector kind dim
      else
        throw (.typeMismatch name "argument list" (toString dim.count ++ " components")
          (toString count ++ " components"))
    | _, _ => do
      throw (.typeMismatch name (argument 0) TypeClass.vector.text (← place args 0).text)

def conversionByPlace (name : String) (kind : ScalarKind) (args : List ValueType) :
    PlaceCheck ValueType := do
  countCheck name 1 args
  TypeClass.vector.expect name (argument 0) (← place args 0)
  return .vector kind ((← place args 0).dim.getD .one)

end Callee

open Callee in
/-- Checks a call like `Builtin.resultType`, but reads the arguments by their places. -/
def Builtin.resultByPlace (f : Builtin) (args : List ValueType) : PlaceCheck ValueType :=
  let name := f.name
  match f with
  | .vec dim => vectorByPlace name dim.column args
  | .mat dim => do
    countCheck name dim.size args
    expectColumns name (.float dim.column) 0 args
    return .matrix dim
  | .toFloat => conversionByPlace name .float args
  | .toInt => conversionByPlace name .int args
  | .toUint => conversionByPlace name .uint args
  | .apply _ => sameTypesByPlace name 1 .float args
  | .atan2 | .pow | .reflect => sameTypesByPlace name 2 .float args
  | .fma | .faceForward => sameTypesByPlace name 3 .float args
  | .abs | .sign => sameTypesByPlace name 1 .signed args
  | .min | .max => do
    countCheck name 2 args
    TypeClass.numeric.expect name (argument 0) (← place args 0)
    sameOrScalar name 1 (← place args 0) (← place args 1)
    place args 0
  | .clamp => do
    countCheck name 3 args
    TypeClass.numeric.expect name (argument 0) (← place args 0)
    sameOrScalar name 1 (← place args 0) (← place args 1)
    sameOrScalar name 2 (← place args 0) (← place args 2)
    place args 0
  | .mix => do
    countCheck name 3 args
    TypeClass.float.expect name (argument 0) (← place args 0)
    (← place args 0).expect name (argument 1) (← place args 1)
    sameOrScalar name 2 (← place args 0) (← place args 2)
    place args 0
  | .step => do
    countCheck name 2 args
    TypeClass.float.expect name (argument 1) (← place args 1)
    sameOrScalar name 0 (← place args 1) (← place args 0)
    place args 1
  | .smoothStep => do
    countCheck name 3 args
    TypeClass.float.expect name (argument 2) (← place args 2)
    sameOrScalar name 0 (← place args 2) (← place args 0)
    sameOrScalar name 1 (← place args 2) (← place args 1)
    place args 2
  | .isNan | .isInf => do
    countCheck name 1 args
    TypeClass.float.expect name (argument 0) (← place args 0)
    return .vector .bool ((← place args 0).dim.getD .one)
  | .length => do
    countCheck name 1 args
    TypeClass.float.expect name (argument 0) (← place args 0)
    return .float .one
  | .distance | .dot => do
    let _ ← sameTypesByPlace name 2 .float args
    return .float .one
  | .cross => sameTypesByPlace name 2 (.exactly (.float .three)) args
  | .refract => do
    countCheck name 3 args
    TypeClass.float.expect name (argument 0) (← place args 0)
    (← place args 0).expect name (argument 1) (← place args 1)
    TypeClass.floatScalar.expect name (argument 2) (← place args 2)
    place args 0
  | .determinant => do
    countCheck name 1 args
    TypeClass.matrix.expect name (argument 0) (← place args 0)
    return .float .one
  | .transpose | .inverse => sameTypesByPlace name 1 .matrix args
  | .any | .all => do
    countCheck name 1 args
    TypeClass.boolVector.expect name (argument 0) (← place args 0)
    return .bool
  | .sample => do
    countCheck name 2 args
    let dim ← (colorSampler name (← place args 0) : Except BuildError SamplerDim)
    (ValueType.float dim.coord).expect name (argument 1) (← place args 1)
    return .float .four
  | .sampleLod => do
    countCheck name 3 args
    let dim ← (colorSampler name (← place args 0) : Except BuildError SamplerDim)
    (ValueType.float dim.coord).expect name (argument 1) (← place args 1)
    TypeClass.floatScalar.expect name (argument 2) (← place args 2)
    return .float .four
  | .sampleDepth => do
    countCheck name 2 args
    match ← place args 0 with
    | ⟨.depthSampler dim, none⟩ =>
      (ValueType.float (depthCoord dim)).expect name (argument 1) (← place args 1)
      return .float .one
    | _ =>
      throw (.typeMismatch name (argument 0) TypeClass.depthSampler.text (← place args 0).text)
  | .texelFetch => do
    countCheck name 3 args
    let dim ← (colorSampler name (← place args 0) : Except BuildError SamplerDim)
    (ValueType.int dim.texel).expect name (argument 1) (← place args 1)
    (ValueType.int .one).expect name (argument 2) (← place args 2)
    return .float .four
  | .textureSize => do
    countCheck name 2 args
    match ← place args 0 with
    | ⟨.sampler dim, none⟩ | ⟨.depthSampler dim, none⟩ =>
      (ValueType.int .one).expect name (argument 1) (← place args 1)
      return .int dim.texel
    | _ => throw (.typeMismatch name (argument 0) "sampler" (← place args 0).text)

namespace Callee

theorem place_zero : place (a :: args) 0 = pure a := rfl

theorem place_succ : place (a :: args) (i + 1) = place args i := rfl

variable {α β : Type}

theorem lift_bind (x : Except BuildError α) (f : α → Except BuildError β) :
    (liftM (x >>= f) : PlaceCheck β) = liftM x >>= fun a ↦ liftM (f a) := by
  cases x <;> rfl

theorem lift_pure (a : α) : (liftM (pure a : Except BuildError α) : PlaceCheck α) = pure a := rfl

theorem countCheck_eq_ok (h : args.length = n) : countCheck name n args = .ok () := if_pos h

theorem countCheck_eq_error (h : args.length ≠ n) :
    countCheck name n args = .error (wrongCount name n args) := if_neg h

theorem sameTypesByPlace_eq {operands : TypeClass} :
    sameTypesByPlace name (n + 1) operands args =
      liftM (sameTypes name (n + 1) operands args) := by
  rcases args with _ | ⟨a, rest⟩
  · rfl
  · by_cases h : (a :: rest).length = n + 1
    · rw [sameTypesByPlace, sameTypes, countCheck_eq_ok h, if_neg (not_not.mpr h)]
      simp only [place_zero, lift_bind, lift_pure, List.tail_cons]
      rfl
    · rw [sameTypesByPlace, sameTypes, countCheck_eq_error h, if_pos h]
      rfl

theorem splatByPlace_cons {rest : List ValueType} :
    splatByPlace (a :: rest) = pure (rest.isEmpty && a.isScalar) := by
  rcases rest with _ | ⟨b, rest⟩ <;> rfl

theorem vectorByPlace_eq {dim : Dim} :
    vectorByPlace name dim args = liftM (vectorOf name dim args) := by
  rcases args with _ | ⟨⟨_ | _ | _ | _, _ | _⟩, rest⟩
  case cons.vector.none kind d =>
    simp only [vectorByPlace, vectorOf, List.head?_cons, ValueType.scalarKind, ValueType.dim,
      PrimType.scalarKind, PrimType.dim, splatByPlace_cons, lift_bind, pure_bind]
    congr 1
    funext count
    split
    · rfl
    · rfl
  all_goals rfl

theorem conversionByPlace_eq :
    conversionByPlace name kind args = liftM (conversion name kind args) := by
  rcases args with _ | ⟨a, _ | ⟨b, rest⟩⟩
  · rfl
  · obtain ⟨_ | _ | _ | _, _ | _⟩ := a <;> rfl
  · rfl

end Callee

namespace Builtin

open Callee

theorem resultByPlace_eq (f : Builtin) (args : List ValueType) :
    f.resultByPlace args = liftM (f.resultType args) := by
  cases f with
  | vec dim => exact vectorByPlace_eq
  | mat dim =>
    by_cases h : args.length = dim.size
    · rw [resultByPlace, resultType, matrixOf, countCheck_eq_ok h, if_neg (not_not.mpr h),
        lift_bind]
      rfl
    · rw [resultByPlace, resultType, matrixOf, countCheck_eq_error h, if_pos h]
      rfl
  | toFloat | toInt | toUint => exact conversionByPlace_eq
  | apply _ | atan2 | pow | reflect | fma | faceForward | abs | sign | cross | transpose
  | inverse => exact sameTypesByPlace_eq
  | distance | dot =>
    rw [resultByPlace, resultType, sameTypesByPlace_eq, lift_bind]
    rfl
  | isNan | isInf | length | determinant | any | all =>
    rcases args with _ | ⟨a, _ | ⟨b, rest⟩⟩
    · rfl
    · simp only [resultByPlace, resultType, place_zero, lift_bind, lift_pure]
      rfl
    · rfl
  | min | max | step | sample =>
    rcases args with _ | ⟨a, _ | ⟨b, _ | ⟨c, rest⟩⟩⟩
    · rfl
    · rfl
    · simp only [resultByPlace, resultType, place_zero, place_succ, lift_bind, lift_pure]
      rfl
    · rfl
  | sampleDepth | textureSize =>
    rcases args with _ | ⟨a, _ | ⟨b, _ | ⟨c, rest⟩⟩⟩
    · rfl
    · rfl
    · obtain ⟨_ | _ | _ | _, _ | _⟩ := a <;>
        simp only [resultByPlace, resultType, place_zero, place_succ, lift_bind, lift_pure] <;> rfl
    · rfl
  | clamp | mix | smoothStep | refract | sampleLod | texelFetch =>
    rcases args with _ | ⟨a, _ | ⟨b, _ | ⟨c, _ | ⟨d, rest⟩⟩⟩⟩
    · rfl
    · rfl
    · rfl
    · simp only [resultByPlace, resultType, place_zero, place_succ, lift_bind, lift_pure]
      rfl
    · rfl

end Builtin

/-! ## What calls take -/

namespace Signature

theorem resultType_eq_ok_iff {f : Signature} :
    f.resultType args = .ok t ↔ args = f.params ∧ f.result = some t := by
  rw [resultType, unit_bind_eq_ok, checkArgs_eq_ok]
  apply and_congr_right
  intro hargs
  cases f.result with
  | none =>
    constructor
    · intro h
      cases h
    · intro h
      cases h
  | some u =>
    constructor
    · intro h
      cases h
      rfl
    · intro h
      cases h
      rfl

end Signature

namespace Callee

/-- Checks a call of anything, reading places for functions of the language only: arguments of
other functions are compared with the parameters one by one. -/
def resultByPlace : Callee → List ValueType → PlaceCheck ValueType
  | builtin f, args => f.resultByPlace args
  | user f, args => liftM (f.resultType args)

theorem resultByPlace_eq (c : Callee) (args : List ValueType) :
    c.resultByPlace args = liftM (c.resultType args) := by
  cases c with
  | builtin f => exact f.resultByPlace_eq args
  | user f => rfl

/-- Checks of calls are total and exact. Whatever is called with whatever arguments, the check
reads no place outside of the list. A function of the language accepts what it takes and nothing
else, arrays never: vectors are made of one or more scalars and vectors of one kind, which have
as many components together or are one scalar, and any other function takes one number of
arguments. A function of a client accepts its parameters, as a value if it returns one and as a
statement always. -/
theorem resultType_exact :
    (∀ (c : Callee) (args : List ValueType),
      (c.resultByPlace args).run = some (c.resultType args)) ∧
    (∀ (f : Builtin) (args : List ValueType) (t : ValueType),
      (builtin f).resultType args = .ok t ↔ f.Takes args t) ∧
    (∀ (f : Builtin) (args : List ValueType) (t : ValueType),
      (builtin f).resultType args = .ok t → ∀ a ∈ args, a.isArray = false) ∧
    (∀ (dim : MatrixDim) (args : List ValueType) (t : ValueType),
      (builtin (.vec dim)).resultType args = .ok t ↔
        ∃ kind parts, dim.column.MadeOf parts ∧ args = parts.map (.vector kind) ∧
          t = .vector kind dim.column) ∧
    (∀ f : Builtin, (∀ dim, f ≠ .vec dim) → ∃ n, f.argumentCount? = some n ∧
      ∀ (args : List ValueType) (t : ValueType), (builtin f).resultType args = .ok t →
        args.length = n) ∧
    (∀ (f : Signature) (args : List ValueType) (t : ValueType),
      (user f).resultType args = .ok t ↔ args = f.params ∧ f.result = some t) ∧
    (∀ (f : Signature) (args : List ValueType), f.checkArgs args = .ok () ↔ args = f.params) := by
  refine ⟨?_, ?_, ?_, ?_, ?_, ?_, ?_⟩
  · intro c args
    rw [resultByPlace_eq]
    cases c.resultType args <;> rfl
  · intro f args t
    exact Builtin.resultType_eq_ok_iff
  · intro f args t h
    apply Builtin.Takes.isArray_eq_false
    exact Builtin.takes_of_resultType h
  · intro dim args t
    exact vectorOf_eq_ok
  · intro f hf
    rcases hcount : f.argumentCount? with _ | n
    · obtain ⟨dim, rfl⟩ := Builtin.argumentCount?_eq_none_iff.mp hcount
      exact absurd rfl (hf dim)
    · refine ⟨n, rfl, ?_⟩
      intro args t h
      exact (Builtin.takes_of_resultType h).length_eq hcount
  · intro f args t
    exact Signature.resultType_eq_ok_iff
  · intro f args
    exact Signature.checkArgs_eq_ok

/-- A vector of two components and a scalar make one of three, one scalar does as well, and four
components do not; a matrix takes as many columns as it has. -/
theorem resultType_exact_instance :
    (builtin (.vec .three)).resultType [.vector .int .two, .scalar .int] =
        .ok (.vector .int .three) ∧
      (builtin (.vec .three)).resultType [.scalar .int] = .ok (.vector .int .three) ∧
      (¬ ∃ t, (builtin (.vec .three)).resultType [.vector .int .two, .vector .int .two] = .ok t) ∧
      ∃ n, Builtin.argumentCount? (.mat .two) = some n ∧
        ∀ (args : List ValueType) (t : ValueType),
          (builtin (.mat .two)).resultType args = .ok t → args.length = n := by
  obtain ⟨-, -, -, hvector, hcount, -, -⟩ := resultType_exact
  refine ⟨?_, ?_, ?_, ?_⟩
  · apply (hvector .three _ _).mpr
    exact ⟨.int, [.two, .one], ⟨by decide, .inl rfl⟩, rfl, rfl⟩
  · apply (hvector .three _ _).mpr
    exact ⟨.int, [.one], ⟨by decide, .inr rfl⟩, rfl, rfl⟩
  · rintro ⟨t, h⟩
    cases h
  · exact hcount (.mat .two) nofun

end Callee

end ShaderGraph
