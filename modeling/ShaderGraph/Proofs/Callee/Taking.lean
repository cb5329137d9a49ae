import Mathlib.Algebra.GroupWithZero.Nat
import ShaderGraph.Proofs.Expr.Typed

/-!
# What built-in functions take

A built-in function takes an argument list if the list is of a certain form, in
which only some sizes and kinds are open. This relation says so function by
function, without checks; the check accepts a list exactly if the relation
holds. No list of such a form has an array in it, and only vectors are made of
any number of arguments.
-/

namespace ShaderGraph

variable {name : String} {i n : Nat} {kind : ScalarKind} {args : List ValueType}
  {a t : ValueType}

namespace TypeClass

theorem float_accepts_iff : TypeClass.float.accepts t = true ↔ ∃ d, t = .float d := by
  constructor
  · intro h
    obtain ⟨⟨_ | _ | _ | _, d⟩ | _ | _ | _, _ | _⟩ := t <;> first | exact ⟨d, rfl⟩ | cases h
  · rintro ⟨d, rfl⟩
    rfl

theorem numeric_accepts_iff :
    TypeClass.numeric.accepts t = true ↔ ∃ kind d, kind ≠ .bool ∧ t = .vector kind d := by
  constructor
  · intro h
    obtain ⟨⟨_ | _ | _ | _, d⟩ | _ | _ | _, _ | _⟩ := t <;>
      first | exact ⟨_, d, by decide, rfl⟩ | cases h
  · rintro ⟨kind, d, hkind, rfl⟩
    cases kind with
    | bool => exact absurd rfl hkind
    | float | int | uint => rfl

theorem signed_accepts_iff : TypeClass.signed.accepts t = true ↔
    ∃ kind d, (kind = .float ∨ kind = .int) ∧ t = .vector kind d := by
  constructor
  · intro h
    obtain ⟨⟨_ | _ | _ | _, d⟩ | _ | _ | _, _ | _⟩ := t <;>
      first | exact ⟨_, d, .inl rfl, rfl⟩ | exact ⟨_, d, .inr rfl, rfl⟩ | cases h
  · rintro ⟨kind, d, rfl | rfl, rfl⟩ <;> rfl

theorem floatScalar_accepts_iff : TypeClass.floatScalar.accepts t = true ↔ t = .float .one := by
  constructor
  · intro h
    obtain ⟨⟨_ | _ | _ | _, _ | _ | _ | _⟩ | _ | _ | _, _ | _⟩ := t <;> first | rfl | cases h
  · rintro rfl
    rfl

theorem matrix_accepts_iff : TypeClass.matrix.accepts t = true ↔ ∃ dim, t = .matrix dim := by
  constructor
  · intro h
    obtain ⟨_ | dim | _ | _, _ | _⟩ := t <;> first | exact ⟨dim, rfl⟩ | cases h
  · rintro ⟨dim, rfl⟩
    rfl

theorem boolVector_accepts_iff :
    TypeClass.boolVector.accepts t = true ↔ ∃ d, d ≠ .one ∧ t = .vector .bool d := by
  constructor
  · intro h
    obtain ⟨⟨_ | _ | _ | _, _ | _ | _ | _⟩ | _ | _ | _, _ | _⟩ := t <;>
      first | exact ⟨_, by decide, rfl⟩ | cases h
  · rintro ⟨d, hd, rfl⟩
    cases d with
    | one => exact absurd rfl hd
    | two | three | four => rfl

end TypeClass

/-- A vector of a size can be made of parts: together they have as many components, or there is
one scalar, which fills all of it. -/
def Dim.MadeOf (dim : Dim) (parts : List Dim) : Prop :=
  parts ≠ [] ∧ ((parts.map count).sum = dim.count ∨ parts = [.one])

/-- A bound or a factor goes with operands of a size if it has that size, or is a scalar. -/
def Dim.GoesWith (part dim : Dim) : Prop := part = dim ∨ part = .one

/-! ## What the checks of arguments accept -/

namespace Callee

theorem sameOrScalar_vector_eq_ok {d : Dim} : sameOrScalar name i (.vector kind d) a = .ok () ↔
    ∃ part, part.GoesWith d ∧ a = .vector kind part := by
  rw [sameOrScalar_eq_ok]
  constructor
  · rintro (rfl | h)
    · exact ⟨d, .inl rfl, rfl⟩
    · exact ⟨.one, .inr rfl, Option.some.inj h⟩
  · rintro ⟨part, rfl | rfl, rfl⟩
    · exact .inl rfl
    · exact .inr rfl

theorem sameTypes_eq_ok {c : TypeClass} : sameTypes name (n + 1) c args = .ok t ↔
    c.accepts t = true ∧ args = List.replicate (n + 1) t := by
  constructor
  · intro h
    rcases args with _ | ⟨a, rest⟩
    · cases h
    · rw [sameTypes] at h
      split at h
      · cases h
      · next hcount =>
        rw [unit_bind_eq_ok, unit_bind_eq_ok, TypeClass.expect_eq_ok,
          expectEach_eq_ok (by simp)] at h
        obtain ⟨haccepts, hrest, ht⟩ := h
        cases ht
        have hlength : rest.length = n := by simpa using hcount
        refine ⟨haccepts, ?_⟩
        rw [List.replicate_succ, hrest, List.map_const', hlength]
  · rintro ⟨haccepts, rfl⟩
    exact sameTypes_replicate name haccepts

theorem colorSampler_eq_ok {dim : SamplerDim} :
    colorSampler name a = .ok dim ↔ a = .sampler dim := by
  constructor
  · intro h
    unfold colorSampler at h
    split at h
    · cases h
      rfl
    · cases h
  · rintro rfl
    rfl

theorem countComponents_eq_ok : countComponents name kind i args = .ok n ↔
    ∃ parts : List Dim, args = parts.map (.vector kind) ∧ n = (parts.map Dim.count).sum := by
  induction args generalizing i n with
  | nil =>
    constructor
    · intro h
      cases h
      exact ⟨[], rfl, rfl⟩
    · rintro ⟨parts, hparts, rfl⟩
      obtain rfl := List.map_eq_nil_iff.mp hparts.symm
      rfl
  | cons a rest ih =>
    constructor
    · intro h
      simp only [countComponents] at h
      split at h
      · next k dim =>
        split at h
        · next hk =>
          subst hk
          split at h
          · next m hrest =>
            cases h
            obtain ⟨parts, rfl, rfl⟩ := ih.mp hrest
            exact ⟨dim :: parts, rfl, rfl⟩
          · cases h
        · cases h
      · cases h
    · rintro ⟨_ | ⟨dim, parts⟩, h, rfl⟩
      · cases h
      · cases h
        have hrest := (ih (i := i + 1)).mpr ⟨parts, rfl, rfl⟩
        simp only [countComponents, ValueType.vector, if_true]
        rw [hrest]
        rfl

/-- The test of sizes is that a vector can be made of the parts. -/
theorem madeOf_test {dim d : Dim} {parts : List Dim} :
    (((parts.map (ValueType.vector kind)).isEmpty && (ValueType.vector kind d).isScalar ||
      ((d :: parts).map Dim.count).sum == dim.count) = true) ↔ dim.MadeOf (d :: parts) := by
  have hscalar : (ValueType.vector kind d).isScalar = true ↔ d = .one := by
    cases d <;> simp [ValueType.isScalar, ValueType.dim, ValueType.vector, PrimType.dim]
  have hsplat : parts = [] ∧ d = .one ↔ d :: parts = [.one] := by
    rw [List.cons.injEq, and_comm]
  rw [Bool.or_eq_true, Bool.and_eq_true, List.isEmpty_iff, List.map_eq_nil_iff, beq_iff_eq,
    hscalar, hsplat, or_comm]
  exact (and_iff_right (List.cons_ne_nil d parts)).symm

theorem vectorOf_eq_ok {dim : Dim} : vectorOf name dim args = .ok t ↔
    ∃ kind parts, dim.MadeOf parts ∧ args = parts.map (.vector kind) ∧ t = .vector kind dim := by
  constructor
  · intro h
    rcases args with _ | ⟨first, rest⟩
    · cases h
    simp only [vectorOf] at h
    split at h
    · next kind d =>
      obtain ⟨count, hcount, h⟩ := bind_eq_ok.mp h
      obtain ⟨_ | ⟨d', parts⟩, hparts, rfl⟩ := countComponents_eq_ok.mp hcount
      · cases hparts
      cases hparts
      split at h
      · next hsize =>
        cases h
        exact ⟨kind, d :: parts, madeOf_test.mp hsize, rfl, rfl⟩
      · cases h
    · cases h
  · rintro ⟨kind, parts, hsize, rfl, rfl⟩
    obtain ⟨d, parts, rfl⟩ := List.exists_cons_of_ne_nil hsize.1
    have hcount : countComponents name kind 0 ((d :: parts).map (.vector kind)) =
        .ok ((d :: parts).map Dim.count).sum := countComponents_eq_ok.mpr ⟨_, rfl, rfl⟩
    exact bind_eq_ok.mpr ⟨_, hcount, if_pos (madeOf_test.mpr hsize)⟩

theorem expectColumns_eq_ok {column : ValueType} : expectColumns name column i args = .ok () ↔
    args = List.replicate args.length column := by
  induction args generalizing i with
  | nil => simp [expectColumns]
  | cons a rest ih =>
    rw [expectColumns, List.length_cons, List.replicate_succ, List.cons.injEq, ← ih (i := i + 1)]
    split
    · next h => simp [← ValueType.expect_eq_ok.mp h]
    · next e h =>
      have hne : a ≠ column := fun heq ↦ by
        rw [ValueType.expect_eq_ok.mpr heq.symm] at h
        cases h
      simp [hne]

theorem matrixOf_eq_ok {dim : MatrixDim} : matrixOf name dim args = .ok t ↔
    args = List.replicate dim.size (.float dim.column) ∧ t = .matrix dim := by
  constructor
  · intro h
    rw [matrixOf] at h
    split at h
    · cases h
    · next hcount =>
      obtain ⟨hcolumns, ht⟩ := unit_bind_eq_ok.mp h
      cases ht
      refine ⟨?_, rfl⟩
      rw [← not_not.mp hcount]
      exact expectColumns_eq_ok.mp hcolumns
  · rintro ⟨rfl, rfl⟩
    rw [matrixOf, if_neg (by simp), expectColumns_replicate]
    rfl

theorem conversion_eq_ok : conversion name kind args = .ok t ↔
    ∃ k d, args = [.vector k d] ∧ t = .vector kind d := by
  constructor
  · intro h
    unfold conversion at h
    split at h
    · split at h
      · next k d =>
        cases h
        exact ⟨k, d, rfl, rfl⟩
      · cases h
    · cases h
  · rintro ⟨k, d, rfl, rfl⟩
    rfl

end Callee

namespace Builtin

/-- A function takes a list of arguments and gives a result. -/
def Takes : Builtin → List ValueType → ValueType → Prop
  | vec dim, args, t => ∃ kind parts, dim.column.MadeOf parts ∧
      args = parts.map (.vector kind) ∧ t = .vector kind dim.column
  | mat dim, args, t => args = List.replicate dim.size (.float dim.column) ∧ t = .matrix dim
  | toFloat, args, t => ∃ kind d, args = [.vector kind d] ∧ t = .vector .float d
  | toInt, args, t => ∃ kind d, args = [.vector kind d] ∧ t = .vector .int d
  | toUint, args, t => ∃ kind d, args = [.vector kind d] ∧ t = .vector .uint d
  | apply _, args, t => ∃ d, args = [.float d] ∧ t = .float d
  | atan2, args, t | pow, args, t | reflect, args, t =>
    ∃ d, args = [.float d, .float d] ∧ t = .float d
  | fma, args, t | faceForward, args, t =>
    ∃ d, args = [.float d, .float d, .float d] ∧ t = .float d
  | abs, args, t | sign, args, t => ∃ kind d, (kind = .float ∨ kind = .int) ∧
      args = [.vector kind d] ∧ t = .vector kind d
  | min, args, t | max, args, t => ∃ kind d b, kind ≠ .bool ∧ b.GoesWith d ∧
      args = [.vector kind d, .vector kind b] ∧ t = .vector kind d
  | clamp, args, t => ∃ kind d low high, kind ≠ .bool ∧ (low.GoesWith d ∧ high.GoesWith d) ∧
      args = [.vector kind d, .vector kind low, .vector kind high] ∧ t = .vector kind d
  | mix, args, t => ∃ d factor, factor.GoesWith d ∧
      args = [.float d, .float d, .float factor] ∧ t = .float d
  | step, args, t => ∃ d edge, edge.GoesWith d ∧ args = [.float edge, .float d] ∧ t = .float d
  | smoothStep, args, t => ∃ d low high, (low.GoesWith d ∧ high.GoesWith d) ∧
      args = [.float low, .float high, .float d] ∧ t = .float d
  | isNan, args, t | isInf, args, t => ∃ d, args = [.float d] ∧ t = .vector .bool d
  | length, args, t => (∃ d, args = [.float d]) ∧ t = .float .one
  | distance, args, t | dot, args, t => (∃ d, args = [.float d, .float d]) ∧ t = .float .one
  | cross, args, t => args = [.float .three, .float .three] ∧ t = .float .three
  | refract, args, t => ∃ d, args = [.float d, .float d, .float .one] ∧ t = .float d
  | determinant, args, t => (∃ dim, args = [.matrix dim]) ∧ t = .float .one
  | transpose, args, t | inverse, args, t => ∃ dim, args = [.matrix dim] ∧ t = .matrix dim
  | any, args, t | all, args, t => (∃ d, d ≠ .one ∧ args = [.vector .bool d]) ∧ t = .bool
  | sample, args, t => (∃ dim, args = [.sampler dim, .float dim.coord]) ∧ t = .float .four
  | sampleLod, args, t =>
    (∃ dim, args = [.sampler dim, .float dim.coord, .float .one]) ∧ t = .float .four
  | sampleDepth, args, t =>
    (∃ dim, args = [⟨.depthSampler dim, none⟩, .float (Callee.depthCoord dim)]) ∧ t = .float .one
  | texelFetch, args, t =>
    (∃ dim, args = [.sampler dim, .int dim.texel, .int .one]) ∧ t = .float .four
  | textureSize, args, t => ∃ dim sampler, (sampler = .sampler dim ∨ sampler = .depthSampler dim) ∧
      args = [⟨sampler, none⟩, .int .one] ∧ t = .int dim.texel

/-- The number of arguments of a function, if it is settled. -/
def argumentCount? : Builtin → Option Nat
  | vec _ => none
  | mat dim => some dim.size
  | toFloat | toInt | toUint | apply _ | abs | sign | isNan | isInf | length | determinant
  | transpose | inverse | any | all => some 1
  | atan2 | pow | reflect | min | max | step | distance | dot | cross | sample | sampleDepth
  | textureSize => some 2
  | fma | faceForward | clamp | mix | smoothStep | refract | sampleLod | texelFetch => some 3

theorem argumentCount?_eq_none_iff {f : Builtin} :
    f.argumentCount? = none ↔ ∃ dim, f = vec dim := by
  cases f <;> simp [argumentCount?]

open Callee

theorem Takes.resultType_eq_ok {f : Builtin} (h : f.Takes args t) : f.resultType args = .ok t := by
  cases f with
  | vec dim => exact vectorOf_eq_ok.mpr h
  | mat dim => exact matrixOf_eq_ok.mpr h
  | toFloat | toInt | toUint => exact conversion_eq_ok.mpr h
  | apply f =>
    obtain ⟨d, rfl, rfl⟩ := h
    rw [resultType, sameTypes_eq_ok]
    exact ⟨rfl, rfl⟩
  | atan2 | pow | reflect =>
    obtain ⟨d, rfl, rfl⟩ := h
    rw [resultType, sameTypes_eq_ok]
    exact ⟨rfl, rfl⟩
  | fma | faceForward =>
    obtain ⟨d, rfl, rfl⟩ := h
    rw [resultType, sameTypes_eq_ok]
    exact ⟨rfl, rfl⟩
  | abs | sign =>
    obtain ⟨kind, d, hkind, rfl, rfl⟩ := h
    rw [resultType, sameTypes_eq_ok, TypeClass.signed_accepts_iff]
    exact ⟨⟨kind, d, hkind, rfl⟩, rfl⟩
  | min | max =>
    obtain ⟨kind, d, b, hkind, hb, rfl, rfl⟩ := h
    rw [resultType, unit_bind_eq_ok, unit_bind_eq_ok, TypeClass.expect_eq_ok,
      TypeClass.numeric_accepts_iff, sameOrScalar_vector_eq_ok]
    exact ⟨⟨kind, d, hkind, rfl⟩, ⟨b, hb, rfl⟩, rfl⟩
  | clamp =>
    obtain ⟨kind, d, low, high, hkind, ⟨hlow, hhigh⟩, rfl, rfl⟩ := h
    rw [resultType, unit_bind_eq_ok, unit_bind_eq_ok, unit_bind_eq_ok, TypeClass.expect_eq_ok,
      TypeClass.numeric_accepts_iff, sameOrScalar_vector_eq_ok, sameOrScalar_vector_eq_ok]
    exact ⟨⟨kind, d, hkind, rfl⟩, ⟨low, hlow, rfl⟩, ⟨high, hhigh, rfl⟩, rfl⟩
  | mix =>
    obtain ⟨d, factor, hfactor, rfl, rfl⟩ := h
    rw [resultType, unit_bind_eq_ok, unit_bind_eq_ok, unit_bind_eq_ok, TypeClass.expect_eq_ok,
      ValueType.expect_eq_ok, ValueType.float, ValueType.float, sameOrScalar_vector_eq_ok]
    exact ⟨rfl, rfl, ⟨factor, hfactor, rfl⟩, rfl⟩
  | step =>
    obtain ⟨d, edge, hedge, rfl, rfl⟩ := h
    rw [resultType, unit_bind_eq_ok, unit_bind_eq_ok, TypeClass.expect_eq_ok, ValueType.float,
      ValueType.float, sameOrScalar_vector_eq_ok]
    exact ⟨rfl, ⟨edge, hedge, rfl⟩, rfl⟩
  | smoothStep =>
    obtain ⟨d, low, high, ⟨hlow, hhigh⟩, rfl, rfl⟩ := h
    rw [resultType, unit_bind_eq_ok, unit_bind_eq_ok, unit_bind_eq_ok, TypeClass.expect_eq_ok,
      ValueType.float, ValueType.float, ValueType.float, sameOrScalar_vector_eq_ok,
      sameOrScalar_vector_eq_ok]
    exact ⟨rfl, ⟨low, hlow, rfl⟩, ⟨high, hhigh, rfl⟩, rfl⟩
  | isNan | isInf =>
    obtain ⟨d, rfl, rfl⟩ := h
    rfl
  | length =>
    obtain ⟨⟨d, rfl⟩, rfl⟩ := h
    rfl
  | distance | dot =>
    obtain ⟨⟨d, rfl⟩, rfl⟩ := h
    exact bind_eq_ok.mpr ⟨.float d, sameTypes_replicate _ rfl, rfl⟩
  | cross =>
    obtain ⟨rfl, rfl⟩ := h
    rw [resultType, sameTypes_eq_ok]
    exact ⟨rfl, rfl⟩
  | refract =>
    obtain ⟨d, rfl, rfl⟩ := h
    rw [resultType, unit_bind_eq_ok, unit_bind_eq_ok, unit_bind_eq_ok, TypeClass.expect_eq_ok,
      ValueType.expect_eq_ok, TypeClass.expect_eq_ok]
    exact ⟨rfl, rfl, rfl, rfl⟩
  | determinant =>
    obtain ⟨⟨dim, rfl⟩, rfl⟩ := h
    rfl
  | transpose | inverse =>
    obtain ⟨dim, rfl, rfl⟩ := h
    rw [resultType, sameTypes_eq_ok]
    exact ⟨rfl, rfl⟩
  | any | all =>
    obtain ⟨⟨d, hd, rfl⟩, rfl⟩ := h
    rw [resultType, unit_bind_eq_ok, TypeClass.expect_eq_ok, TypeClass.boolVector_accepts_iff]
    exact ⟨⟨d, hd, rfl⟩, rfl⟩
  | sample =>
    obtain ⟨⟨dim, rfl⟩, rfl⟩ := h
    cases dim <;> rfl
  | sampleLod =>
    obtain ⟨⟨dim, rfl⟩, rfl⟩ := h
    cases dim <;> rfl
  | sampleDepth =>
    obtain ⟨⟨dim, rfl⟩, rfl⟩ := h
    cases dim <;> rfl
  | texelFetch =>
    obtain ⟨⟨dim, rfl⟩, rfl⟩ := h
    cases dim <;> rfl
  | textureSize =>
    obtain ⟨dim, sampler, rfl | rfl, rfl, rfl⟩ := h
    · rfl
    · rfl

theorem takes_of_resultType {f : Builtin} (h : f.resultType args = .ok t) : f.Takes args t := by
  cases f with
  | vec dim => exact vectorOf_eq_ok.mp h
  | mat dim => exact matrixOf_eq_ok.mp h
  | toFloat | toInt | toUint => exact conversion_eq_ok.mp h
  | apply _ | atan2 | pow | reflect | fma | faceForward =>
    rw [resultType, sameTypes_eq_ok, TypeClass.float_accepts_iff] at h
    obtain ⟨⟨d, rfl⟩, rfl⟩ := h
    exact ⟨d, rfl, rfl⟩
  | abs | sign =>
    rw [resultType, sameTypes_eq_ok, TypeClass.signed_accepts_iff] at h
    obtain ⟨⟨kind, d, hkind, rfl⟩, rfl⟩ := h
    exact ⟨kind, d, hkind, rfl, rfl⟩
  | min | max =>
    simp only [resultType] at h
    split at h
    · rw [unit_bind_eq_ok, unit_bind_eq_ok, TypeClass.expect_eq_ok,
        TypeClass.numeric_accepts_iff] at h
      obtain ⟨⟨kind, d, hkind, rfl⟩, hb, ht⟩ := h
      cases ht
      obtain ⟨b, b_goes, rfl⟩ := sameOrScalar_vector_eq_ok.mp hb
      exact ⟨kind, d, b, hkind, b_goes, rfl, rfl⟩
    · cases h
  | clamp =>
    simp only [resultType] at h
    split at h
    · rw [unit_bind_eq_ok, unit_bind_eq_ok, unit_bind_eq_ok, TypeClass.expect_eq_ok,
        TypeClass.numeric_accepts_iff] at h
      obtain ⟨⟨kind, d, hkind, rfl⟩, hlow, hhigh, ht⟩ := h
      cases ht
      obtain ⟨low, low_goes, rfl⟩ := sameOrScalar_vector_eq_ok.mp hlow
      obtain ⟨high, high_goes, rfl⟩ := sameOrScalar_vector_eq_ok.mp hhigh
      exact ⟨kind, d, low, high, hkind, ⟨low_goes, high_goes⟩, rfl, rfl⟩
    · cases h
  | mix =>
    simp only [resultType] at h
    split at h
    · rw [unit_bind_eq_ok, unit_bind_eq_ok, unit_bind_eq_ok, TypeClass.expect_eq_ok,
        TypeClass.float_accepts_iff, ValueType.expect_eq_ok] at h
      obtain ⟨⟨d, rfl⟩, rfl, hfactor, ht⟩ := h
      cases ht
      obtain ⟨factor, factor_goes, rfl⟩ := sameOrScalar_vector_eq_ok.mp hfactor
      exact ⟨d, factor, factor_goes, rfl, rfl⟩
    · cases h
  | step =>
    simp only [resultType] at h
    split at h
    · rw [unit_bind_eq_ok, unit_bind_eq_ok, TypeClass.expect_eq_ok,
        TypeClass.float_accepts_iff] at h
      obtain ⟨⟨d, rfl⟩, hedge, ht⟩ := h
      cases ht
      obtain ⟨edge, edge_goes, rfl⟩ := sameOrScalar_vector_eq_ok.mp hedge
      exact ⟨d, edge, edge_goes, rfl, rfl⟩
    · cases h
  | smoothStep =>
    simp only [resultType] at h
    split at h
    · rw [unit_bind_eq_ok, unit_bind_eq_ok, unit_bind_eq_ok, TypeClass.expect_eq_ok,
        TypeClass.float_accepts_iff] at h
      obtain ⟨⟨d, rfl⟩, hlow, hhigh, ht⟩ := h
      cases ht
      obtain ⟨low, low_goes, rfl⟩ := sameOrScalar_vector_eq_ok.mp hlow
      obtain ⟨high, high_goes, rfl⟩ := sameOrScalar_vector_eq_ok.mp hhigh
      exact ⟨d, low, high, ⟨low_goes, high_goes⟩, rfl, rfl⟩
    · cases h
  | isNan | isInf =>
    simp only [resultType] at h
    split at h
    · rw [unit_bind_eq_ok, TypeClass.expect_eq_ok, TypeClass.float_accepts_iff] at h
      obtain ⟨⟨d, rfl⟩, ht⟩ := h
      cases ht
      exact ⟨d, rfl, rfl⟩
    · cases h
  | length =>
    simp only [resultType] at h
    split at h
    · rw [unit_bind_eq_ok, TypeClass.expect_eq_ok, TypeClass.float_accepts_iff] at h
      obtain ⟨⟨d, rfl⟩, ht⟩ := h
      cases ht
      exact ⟨⟨d, rfl⟩, rfl⟩
    · cases h
  | distance | dot =>
    obtain ⟨a, ha, ht⟩ := bind_eq_ok.mp h
    cases ht
    obtain ⟨hfloat, rfl⟩ := sameTypes_eq_ok.mp ha
    obtain ⟨d, rfl⟩ := TypeClass.float_accepts_iff.mp hfloat
    exact ⟨⟨d, rfl⟩, rfl⟩
  | cross =>
    rw [resultType, sameTypes_eq_ok, TypeClass.accepts, beq_iff_eq] at h
    obtain ⟨rfl, rfl⟩ := h
    exact ⟨rfl, rfl⟩
  | refract =>
    simp only [resultType] at h
    split at h
    · rw [unit_bind_eq_ok, unit_bind_eq_ok, unit_bind_eq_ok, TypeClass.expect_eq_ok,
        TypeClass.float_accepts_iff, ValueType.expect_eq_ok, TypeClass.expect_eq_ok,
        TypeClass.floatScalar_accepts_iff] at h
      obtain ⟨⟨d, rfl⟩, rfl, rfl, ht⟩ := h
      cases ht
      exact ⟨d, rfl, rfl⟩
    · cases h
  | determinant =>
    simp only [resultType] at h
    split at h
    · rw [unit_bind_eq_ok, TypeClass.expect_eq_ok, TypeClass.matrix_accepts_iff] at h
      obtain ⟨⟨dim, rfl⟩, ht⟩ := h
      cases ht
      exact ⟨⟨dim, rfl⟩, rfl⟩
    · cases h
  | transpose | inverse =>
    rw [resultType, sameTypes_eq_ok, TypeClass.matrix_accepts_iff] at h
    obtain ⟨⟨dim, rfl⟩, rfl⟩ := h
    exact ⟨dim, rfl, rfl⟩
  | any | all =>
    simp only [resultType] at h
    split at h
    · rw [unit_bind_eq_ok, TypeClass.expect_eq_ok, TypeClass.boolVector_accepts_iff] at h
      obtain ⟨⟨d, hd, rfl⟩, ht⟩ := h
      cases ht
      exact ⟨⟨d, hd, rfl⟩, rfl⟩
    · cases h
  | sample =>
    simp only [resultType] at h
    split at h
    · obtain ⟨dim, hdim, hrest⟩ := bind_eq_ok.mp h
      obtain rfl := colorSampler_eq_ok.mp hdim
      rw [unit_bind_eq_ok, ValueType.expect_eq_ok] at hrest
      obtain ⟨rfl, ht⟩ := hrest
      cases ht
      exact ⟨⟨dim, rfl⟩, rfl⟩
    · cases h
  | sampleLod =>
    simp only [resultType] at h
    split at h
    · obtain ⟨dim, hdim, hrest⟩ := bind_eq_ok.mp h
      obtain rfl := colorSampler_eq_ok.mp hdim
      rw [unit_bind_eq_ok, unit_bind_eq_ok, ValueType.expect_eq_ok, TypeClass.expect_eq_ok,
        TypeClass.floatScalar_accepts_iff] at hrest
      obtain ⟨rfl, rfl, ht⟩ := hrest
      cases ht
      exact ⟨⟨dim, rfl⟩, rfl⟩
    · cases h
  | sampleDepth =>
    simp only [resultType] at h
    split at h
    · split at h
      · next dim =>
        rw [unit_bind_eq_ok, ValueType.expect_eq_ok] at h
        obtain ⟨rfl, ht⟩ := h
        cases ht
        exact ⟨⟨dim, rfl⟩, rfl⟩
      · cases h
    · cases h
  | texelFetch =>
    simp only [resultType] at h
    split at h
    · obtain ⟨dim, hdim, hrest⟩ := bind_eq_ok.mp h
      obtain rfl := colorSampler_eq_ok.mp hdim
      rw [unit_bind_eq_ok, unit_bind_eq_ok, ValueType.expect_eq_ok, ValueType.expect_eq_ok] at hrest
      obtain ⟨rfl, rfl, ht⟩ := hrest
      cases ht
      exact ⟨⟨dim, rfl⟩, rfl⟩
    · cases h
  | textureSize =>
    simp only [resultType] at h
    split at h
    · split at h
      · next dim =>
        rw [unit_bind_eq_ok, ValueType.expect_eq_ok] at h
        obtain ⟨rfl, ht⟩ := h
        cases ht
        exact ⟨dim, .sampler dim, .inl rfl, rfl, rfl⟩
      · next dim =>
        rw [unit_bind_eq_ok, ValueType.expect_eq_ok] at h
        obtain ⟨rfl, ht⟩ := h
        cases ht
        exact ⟨dim, .depthSampler dim, .inr rfl, rfl, rfl⟩
      · cases h
    · cases h

/-- The check accepts a list of arguments exactly if the function takes it. -/
theorem resultType_eq_ok_iff {f : Builtin} : f.resultType args = .ok t ↔ f.Takes args t :=
  ⟨takes_of_resultType, Takes.resultType_eq_ok⟩

/-- No function takes an array. -/
theorem Takes.isArray_eq_false {f : Builtin} (h : f.Takes args t) :
    ∀ a ∈ args, a.isArray = false := by
  cases f with
  | vec dim =>
    obtain ⟨kind, parts, -, rfl, -⟩ := h
    intro a ha
    obtain ⟨d, -, rfl⟩ := List.mem_map.mp ha
    rfl
  | mat dim =>
    obtain ⟨rfl, -⟩ := h
    intro a ha
    obtain rfl := List.eq_of_mem_replicate ha
    rfl
  | _ =>
    simp only [Takes] at h
    grind [ValueType.isArray, ValueType.vector, ValueType.float, ValueType.int, ValueType.matrix,
      ValueType.sampler]

theorem Takes.length_eq {f : Builtin} (h : f.Takes args t) (hn : f.argumentCount? = some n) :
    args.length = n := by
  cases f with
  | vec dim => cases hn
  | mat dim =>
    cases hn
    rw [h.1, List.length_replicate]
  | _ =>
    cases hn
    simp only [Takes] at h
    grind

end Builtin

end ShaderGraph
