import Mathlib.Data.List.Basic
import ShaderGraph.Proofs.Expr.Known

/-!
# Typed operations against checks

Which operands a typed operation takes and which type it gives are listed in
tables; the checked constructors have rules for this. The tables agree with the
rules: an operation that exists for operands of some types passes the check of
its constructor on them, which gives the same type. This leaves out operations
that ask for less than their constructor does.
-/

namespace ShaderGraph

/-- Equality is for scalars, vectors and matrices: for what has components. -/
theorem ValueType.comparable_iff (t : ValueType) :
    (TypeClass.vector.accepts t || TypeClass.matrix.accepts t) = t.scalarKind.isSome := by
  obtain ⟨_ | _ | _ | _, _ | _⟩ := t <;> rfl

theorem Callee.sameOrScalar_eq_ok {name : String} {i : Nat} {reference a : ValueType} :
    sameOrScalar name i reference a = .ok () ↔ a = reference ∨ some a = reference.component? := by
  unfold sameOrScalar
  split <;> simp_all

theorem Callee.expectEach_eq_ok {name : String} {ts as : List ValueType} {i : Nat}
    (hlength : as.length = ts.length) : expectEach name i ts as = .ok () ↔ as = ts := by
  induction ts generalizing as i with
  | nil => simp [expectEach, List.length_eq_zero_iff.mp hlength]
  | cons t ts ih =>
    obtain ⟨a, as, rfl⟩ := List.exists_cons_of_length_eq_add_one hlength
    have hrest := ih (i := i + 1) (Nat.succ.inj hlength)
    rw [expectEach]
    split
    · next h =>
      obtain rfl := ValueType.expect_eq_ok.mp h
      simpa using hrest
    · next e h =>
      have hne : t ≠ a := fun heq ↦ by
        rw [ValueType.expect_eq_ok.mpr heq] at h
        cases h
      simp [Ne.symm hne]

theorem Signature.checkArgs_eq_ok {f : Signature} {args : List ValueType} :
    f.checkArgs args = .ok () ↔ args = f.params := by
  unfold checkArgs
  split
  · next hlength => exact ⟨nofun, fun h ↦ (hlength (congrArg List.length h)).elim⟩
  · next hlength => exact Callee.expectEach_eq_ok (not_not.mp hlength)

/-- As many operands of one accepted type as a function takes pass. -/
theorem Callee.sameTypes_replicate (name : String) {n : Nat} {c : TypeClass} {a : ValueType}
    (ha : c.accepts a = true) : sameTypes name (n + 1) c (List.replicate (n + 1) a) = .ok a := by
  have hfirst : c.expect name (argument 0) a = .ok () := TypeClass.expect_eq_ok.mpr ha
  have hrest : expectEach name 1 ((List.replicate n a).map fun _ ↦ a) (List.replicate n a) =
      .ok () := (expectEach_eq_ok (by simp)).mpr (by simp)
  rw [List.replicate_succ, sameTypes, if_neg (by simp), hfirst]
  simp only [hrest]
  rfl

theorem Callee.expectColumns_replicate (name : String) (column : ValueType) (n i : Nat) :
    expectColumns name column i (List.replicate n column) = .ok () := by
  induction n generalizing i with
  | zero => rfl
  | succ n ih =>
    have hfirst : column.expect name ("column " ++ toString i) column = .ok () :=
      ValueType.expect_eq_ok.mpr rfl
    rw [List.replicate_succ, expectColumns, hfirst]
    exact ih (i + 1)

namespace Expr

mutual

/-- An expression and all expressions that it is made of. -/
def nodes : Expr → List Expr
  | e@(lit _) | e@(var _) => [e]
  | e@(unary _ a) => e :: a.nodes
  | e@(binary _ _ a b) => e :: (a.nodes ++ b.nodes)
  | e@(call _ _ args) => e :: nodesOfList args
  | e@(swizzle _ source _) => e :: source.nodes
  | e@(lookup _ object index) => e :: (object.nodes ++ index.nodes)

def nodesOfList : List Expr → List Expr
  | [] => []
  | e :: rest => e.nodes ++ nodesOfList rest

end

theorem nodesOfList_eq_flatMap (es : List Expr) : nodesOfList es = es.flatMap nodes := by
  induction es with
  | nil => rfl
  | cons e es ih => rw [nodesOfList, ih, List.flatMap_cons]

/-- What the checked constructor of a node gives for the node's children. -/
def recheck : Expr → Except BuildError Expr
  | e@(lit _) | e@(var _) => .ok e
  | unary op a => apply op a
  | binary _ op a b => join op a b
  | call _ callee args => invoke callee args
  | swizzle _ source mask => select source mask
  | lookup _ object index => element object index

end Expr

namespace TypedOp

/-- Operations that leave nothing for the checked constructor of their node to refuse. Equality
is checked for types with components only, and which elements, columns or components are there
is not a matter of types. -/
def Settles (op : TypedOp) (args : List ValueType) : Prop :=
  match op with
  | binary op => op.family = .equality → ∀ a ∈ args, a.scalarKind.isSome = true
  | element | column | swizzle _ => False
  | unary _ | builtin _ | call _ | part _ => True

/-- The type that the constructor of an operation's node gives to operands of such types. -/
def resultType (op : TypedOp) (args : List ValueType) : Except BuildError ValueType :=
  match op, args with
  | unary op, [a] => op.resultType a
  | binary op, [a, b] => op.resultType a b
  | builtin .step, [a, edge] => Builtin.step.resultType [edge, a]
  | builtin .smoothStep, [a, low, high] => Builtin.smoothStep.resultType [low, high, a]
  | builtin f, args => f.resultType args
  | call f, args => f.resultType args
  | part mask, [a] | swizzle mask, [a] => mask.resultType a
  | _, _ => .error unknown

/-! ## Operators -/

theorem resultType_unary {op : UnaryOp} {a : ValueType} {types : OperationType}
    (h : signature? (unary op) [a] = some types) : op.resultType a = .ok types.result := by
  cases op with
  | neg =>
    simp only [signature?] at h
    split at h <;> cases h <;> rfl
  | not =>
    simp only [signature?] at h
    split at h
    · next ha =>
      subst ha
      cases h
      rfl
    · cases h

theorem arithmeticResult_of_type {op : BinaryOp} {a b t : ValueType}
    (ha : (if op = .rem then TypeClass.numeric else .arithmetic).accepts a = true)
    (hb : (if op = .rem then TypeClass.numeric else .arithmetic).accepts b = true)
    (hkind : a.scalarKind = b.scalarKind) (htype : op.arithmeticType a b = some t) :
    op.arithmeticResult a b = .ok t := by
  unfold BinaryOp.arithmeticResult
  rw [unit_bind_eq_ok, unit_bind_eq_ok, TypeClass.expect_eq_ok, TypeClass.expect_eq_ok]
  refine ⟨ha, hb, ?_⟩
  simp [hkind, htype]
  rfl

theorem resultType_arithmetic {op : BinaryOp} {a b : ValueType} {types : OperationType}
    (h : arithmetic? op a b = some types) : op.arithmeticResult a b = .ok types.result := by
  unfold arithmetic? at h
  split at h
  · next kind d kind' d' =>
    split at h
    · next hkind =>
      obtain ⟨rfl, hbool, hdim⟩ := hkind
      cases h
      apply arithmeticResult_of_type
      · cases op <;> cases kind <;> first | rfl | exact absurd rfl hbool
      · cases op <;> cases kind <;> first | rfl | exact absurd rfl hbool
      · rfl
      · rcases hdim with rfl | rfl
        · exact if_pos (.inl rfl)
        · exact if_pos (.inr rfl)
    · cases h
  · next m m' =>
    split at h
    · next hop =>
      obtain ⟨rfl, hop⟩ := hop
      cases h
      rcases hop with rfl | rfl | rfl <;> cases m <;> rfl
    · cases h
  · next m d =>
    split at h
    · cases h
    · next hop =>
      obtain rfl := not_not.mp hop
      split at h
      · next hd =>
        subst hd
        cases h
        cases m <;> rfl
      · split at h
        · next hd =>
          subst hd
          cases h
          cases m <;> rfl
        · cases h
  · next d m =>
    split at h
    · next hop =>
      obtain ⟨rfl, rfl⟩ := hop
      cases h
      cases m <;> rfl
    · cases h
  · cases h

theorem resultType_binary {op : BinaryOp} {a b : ValueType} {types : OperationType}
    (h : binary? op a b = some types) (hab : [a, b] = types.operands)
    (hsettles : (binary op).Settles [a, b]) : op.resultType a b = .ok types.result := by
  unfold binary? at h
  unfold BinaryOp.resultType
  split at h
  · next hfamily =>
    rw [hfamily]
    exact resultType_arithmetic h
  · next hfamily =>
    cases h
    obtain rfl : b = a := by simpa using hab
    rw [hfamily]
    have hkind : b.scalarKind.isSome = true := hsettles hfamily b (by simp)
    simp only [ValueType.comparable_iff, hkind, ValueType.expect_eq_ok.mpr]
    rfl
  · next hfamily =>
    rw [hfamily]
    split at h
    · next kind =>
      split at h
      · cases h
      · next hbool =>
        cases h
        obtain rfl : b = ⟨.vector kind .one, none⟩ := by simpa using hab
        cases kind with
        | bool => exact absurd rfl hbool
        | float | int | uint => rfl
    · cases h
  · next hfamily =>
    rw [hfamily]
    split at h
    · next ha =>
      subst ha
      cases h
      obtain rfl : b = .bool := by simpa using hab
      rfl
    · cases h

/-! ## Built-in functions -/

theorem isFloat_iff {a : ValueType} : isFloat a = true ↔ ∃ d, a = .float d := by
  constructor
  · intro h
    unfold isFloat at h
    split at h
    · exact ⟨_, rfl⟩
    · cases h
  · rintro ⟨d, rfl⟩
    rfl

theorem isMatrix_iff {a : ValueType} : a.isMatrix = true ↔ ∃ dim, a = .matrix dim := by
  constructor
  · intro h
    unfold ValueType.isMatrix at h
    split at h
    · exact ⟨_, rfl⟩
    · cases h
  · rintro ⟨dim, rfl⟩
    rfl

theorem floats?_eq_some {a t : ValueType} {n : Nat} {types : OperationType}
    (h : floats? a n t = some types) :
    (∃ d, a = .float d) ∧ types = ⟨List.replicate n a, t⟩ := by
  unfold floats? at h
  split at h
  · next ha => exact ⟨isFloat_iff.mp ha, (Option.some.inj h).symm⟩
  · cases h

theorem vectorOf_of_vector? {name : String} {dim : MatrixDim} {a : ValueType}
    {rest : List ValueType} {types : OperationType}
    (h : vector? dim a (rest.length + 1) = some types) (hargs : a :: rest = types.operands) :
    Callee.vectorOf name dim.column (a :: rest) = .ok types.result := by
  unfold vector? at h
  split at h
  · next kind d =>
    dsimp only at h
    split at h <;> cases h <;> rw [hargs] <;> cases kind <;> rfl
  · cases h

theorem conversion_of_conversion? {name : String} {kind : ScalarKind} {a : ValueType}
    {types : OperationType} (h : conversion? kind a = some types) :
    Callee.conversion name kind [a] = .ok types.result := by
  unfold conversion? at h
  split at h <;> cases h
  rfl

theorem sameOrScalar_of_boundType {name : String} {i : Nat} {a b given : ValueType}
    (h : b = boundType a given) : Callee.sameOrScalar name i a b = .ok () := by
  rw [Callee.sameOrScalar_eq_ok, h]
  unfold boundType
  split
  · next kind d =>
    split
    · next hgiven => exact .inr (congrArg some hgiven)
    · exact .inl rfl
  · exact .inl rfl

theorem bounded?_eq_some {a given : ValueType} {n : Nat} {types : OperationType}
    (h : bounded? a given n = some types) :
    TypeClass.numeric.accepts a = true ∧
      types = ⟨a :: List.replicate n (boundType a given), a⟩ := by
  unfold bounded? at h
  split at h
  · next kind d =>
    split at h
    · cases h
    · next hbool =>
      refine ⟨?_, (Option.some.inj h).symm⟩
      cases kind with
      | bool => exact absurd rfl hbool
      | float | int | uint => rfl
  · cases h

theorem sameTypes_of_floats? (name : String) {a t : ValueType} {n : Nat} {args : List ValueType}
    {types : OperationType} (h : floats? a (n + 1) t = some types) (hargs : args = types.operands) :
    Callee.sameTypes name (n + 1) .float args = .ok a ∧ types.result = t := by
  obtain ⟨⟨d, rfl⟩, rfl⟩ := floats?_eq_some h
  subst hargs
  exact ⟨Callee.sameTypes_replicate name rfl, rfl⟩

theorem resultType_floats (f : Builtin) {a : ValueType} {n : Nat} {args : List ValueType}
    {types : OperationType} (hf : f.resultType args = Callee.sameTypes f.name (n + 1) .float args)
    (h : floats? a (n + 1) a = some types) (hargs : args = types.operands) :
    f.resultType args = .ok types.result := by
  obtain ⟨hsame, hresult⟩ := sameTypes_of_floats? f.name h hargs
  rw [hf, hsame, hresult]

theorem resultType_bounded {f : Builtin} {a b : ValueType} {types : OperationType}
    (hf : f = .min ∨ f = .max) (h : bounded? a b 1 = some types) (hargs : [a, b] = types.operands) :
    f.resultType [a, b] = .ok types.result := by
  obtain ⟨hnumeric, rfl⟩ := bounded?_eq_some h
  have hb : b = boundType a b := by simpa using hargs
  rcases hf with rfl | rfl
  all_goals
    refine unit_bind_eq_ok.mpr ⟨TypeClass.expect_eq_ok.mpr hnumeric, ?_⟩
    exact unit_bind_eq_ok.mpr ⟨sameOrScalar_of_boundType hb, rfl⟩

theorem resultType_clamp {a low high : ValueType} {types : OperationType}
    (h : bounded? a low 2 = some types) (hargs : [a, low, high] = types.operands) :
    Builtin.clamp.resultType [a, low, high] = .ok types.result := by
  obtain ⟨hnumeric, rfl⟩ := bounded?_eq_some h
  obtain ⟨hlow, hhigh⟩ : low = boundType a low ∧ high = boundType a low := by
    simpa [List.replicate] using hargs
  refine unit_bind_eq_ok.mpr ⟨TypeClass.expect_eq_ok.mpr hnumeric, ?_⟩
  refine unit_bind_eq_ok.mpr ⟨sameOrScalar_of_boundType hlow, ?_⟩
  exact unit_bind_eq_ok.mpr ⟨sameOrScalar_of_boundType hhigh, rfl⟩

theorem resultType_mix {a b factor : ValueType} {types : OperationType}
    (h : (if isFloat a then some ⟨[a, a, boundType a factor], a⟩ else none) = some types)
    (hargs : [a, b, factor] = types.operands) :
    Builtin.mix.resultType [a, b, factor] = .ok types.result := by
  obtain ⟨ha, h⟩ := Option.ite_none_right_eq_some.mp h
  obtain ⟨d, rfl⟩ := isFloat_iff.mp ha
  cases h
  obtain ⟨rfl, hfactor⟩ : b = .float d ∧ factor = boundType (.float d) factor := by
    simpa using hargs
  have hfloat : TypeClass.float.accepts (.float d) = true := rfl
  refine unit_bind_eq_ok.mpr ⟨TypeClass.expect_eq_ok.mpr hfloat, ?_⟩
  refine unit_bind_eq_ok.mpr ⟨ValueType.expect_eq_ok.mpr rfl, ?_⟩
  exact unit_bind_eq_ok.mpr ⟨sameOrScalar_of_boundType hfactor, rfl⟩

theorem resultType_step {a edge : ValueType} {types : OperationType}
    (h : (if isFloat a then some ⟨[a, boundType a edge], a⟩ else none) = some types)
    (hargs : [a, edge] = types.operands) :
    Builtin.step.resultType [edge, a] = .ok types.result := by
  obtain ⟨ha, h⟩ := Option.ite_none_right_eq_some.mp h
  obtain ⟨d, rfl⟩ := isFloat_iff.mp ha
  cases h
  have hedge : edge = boundType (.float d) edge := by simpa using hargs
  have hfloat : TypeClass.float.accepts (.float d) = true := rfl
  refine unit_bind_eq_ok.mpr ⟨TypeClass.expect_eq_ok.mpr hfloat, ?_⟩
  exact unit_bind_eq_ok.mpr ⟨sameOrScalar_of_boundType hedge, rfl⟩

theorem resultType_smoothStep {a low high : ValueType} {types : OperationType}
    (h : (if isFloat a then some ⟨[a, boundType a low, boundType a low], a⟩ else none) = some types)
    (hargs : [a, low, high] = types.operands) :
    Builtin.smoothStep.resultType [low, high, a] = .ok types.result := by
  obtain ⟨ha, h⟩ := Option.ite_none_right_eq_some.mp h
  obtain ⟨d, rfl⟩ := isFloat_iff.mp ha
  cases h
  obtain ⟨hlow, hhigh⟩ : low = boundType (.float d) low ∧ high = boundType (.float d) low := by
    simpa using hargs
  have hfloat : TypeClass.float.accepts (.float d) = true := rfl
  refine unit_bind_eq_ok.mpr ⟨TypeClass.expect_eq_ok.mpr hfloat, ?_⟩
  refine unit_bind_eq_ok.mpr ⟨sameOrScalar_of_boundType hlow, ?_⟩
  exact unit_bind_eq_ok.mpr ⟨sameOrScalar_of_boundType hhigh, rfl⟩

theorem resultType_determinant {a : ValueType} {types : OperationType}
    (h : (if a.isMatrix then some ⟨[a], .float .one⟩ else none) = some types) :
    Builtin.determinant.resultType [a] = .ok types.result := by
  obtain ⟨ha, h⟩ := Option.ite_none_right_eq_some.mp h
  obtain ⟨dim, rfl⟩ := isMatrix_iff.mp ha
  cases h
  rfl

theorem resultType_sameMatrix {f : Builtin} {a : ValueType} {types : OperationType}
    (hf : f = .transpose ∨ f = .inverse)
    (h : (if a.isMatrix then some ⟨[a], a⟩ else none) = some types) :
    f.resultType [a] = .ok types.result := by
  obtain ⟨ha, h⟩ := Option.ite_none_right_eq_some.mp h
  obtain ⟨dim, rfl⟩ := isMatrix_iff.mp ha
  cases h
  rcases hf with rfl | rfl <;> rfl

theorem resultType_reduction {f : Builtin} {a : ValueType} {types : OperationType}
    (hf : f = .any ∨ f = .all)
    (h : (match a with
      | ⟨.vector .bool d, none⟩ => if d = .one then none else some ⟨[a], .bool⟩
      | _ => none) = some types) :
    f.resultType [a] = .ok types.result := by
  split at h
  · next d =>
    obtain ⟨hd, h⟩ := Option.ite_none_left_eq_some.mp h
    cases h
    cases d with
    | one => exact absurd rfl hd
    | two | three | four => rcases hf with rfl | rfl <;> rfl
  · cases h

theorem resultType_mat {dim : MatrixDim} {args : List ValueType} {types : OperationType}
    (h : (if args.length = dim.size then
        some ⟨List.replicate dim.size (.float dim.column), .matrix dim⟩
      else none) = some types)
    (hargs : args = types.operands) :
    (Builtin.mat dim).resultType args = .ok types.result := by
  obtain ⟨-, h⟩ := Option.ite_none_right_eq_some.mp h
  cases h
  subst hargs
  have hcolumns := Callee.expectColumns_replicate (Builtin.mat dim).name (.float dim.column)
    dim.size 0
  cases dim <;> exact bind_eq_ok.mpr ⟨(), hcolumns, rfl⟩

theorem resultType_builtin {f : Builtin} {args : List ValueType} {types : OperationType}
    (h : builtin? f args = some types) (hargs : args = types.operands) :
    (builtin f).resultType args = .ok types.result := by
  unfold builtin? at h
  split at h
  -- Constructors and conversions.
  · exact vectorOf_of_vector? h hargs
  · exact resultType_mat h hargs
  · exact conversion_of_conversion? h
  · exact conversion_of_conversion? h
  · exact conversion_of_conversion? h
  -- Functions of floats of one type, which is also that of the result.
  · exact resultType_floats (.apply _) rfl h hargs
  · exact resultType_floats .atan2 rfl h hargs
  · exact resultType_floats .pow rfl h hargs
  · exact resultType_floats .reflect rfl h hargs
  · exact resultType_floats .fma rfl h hargs
  · exact resultType_floats .faceForward rfl h hargs
  · split at h <;> cases h <;> rfl
  · split at h <;> cases h <;> rfl
  -- Functions with bounds, a factor or edges.
  · exact resultType_bounded (.inl rfl) h hargs
  · exact resultType_bounded (.inr rfl) h hargs
  · exact resultType_clamp h hargs
  · exact resultType_mix h hargs
  · exact resultType_step h hargs
  · exact resultType_smoothStep h hargs
  -- Tests and geometry.
  · split at h <;> cases h
    rfl
  · split at h <;> cases h
    rfl
  · obtain ⟨⟨d, rfl⟩, rfl⟩ := floats?_eq_some h
    rfl
  · obtain ⟨hsame, hresult⟩ := sameTypes_of_floats? Builtin.distance.name h hargs
    exact bind_eq_ok.mpr ⟨_, hsame, congrArg _ hresult.symm⟩
  · obtain ⟨hsame, hresult⟩ := sameTypes_of_floats? Builtin.dot.name h hargs
    exact bind_eq_ok.mpr ⟨_, hsame, congrArg _ hresult.symm⟩
  · obtain ⟨rfl, h⟩ := Option.ite_none_right_eq_some.mp h
    cases h
    rw [hargs]
    rfl
  · obtain ⟨ha, h⟩ := Option.ite_none_right_eq_some.mp h
    obtain ⟨d, rfl⟩ := isFloat_iff.mp ha
    cases h
    rw [hargs]
    cases d <;> rfl
  -- Matrices and truth values.
  · exact resultType_determinant h
  · exact resultType_sameMatrix (.inl rfl) h
  · exact resultType_sameMatrix (.inr rfl) h
  · exact resultType_reduction (.inl rfl) h
  · exact resultType_reduction (.inr rfl) h
  -- Textures.
  · split at h <;> cases h
    next dim =>
    rw [hargs]
    cases dim <;> rfl
  · split at h <;> cases h
    next dim =>
    rw [hargs]
    cases dim <;> rfl
  · split at h <;> cases h
    next dim =>
    rw [hargs]
    cases dim <;> rfl
  · split at h <;> cases h
    rw [hargs]
    rfl
  · split at h <;> cases h <;> (rw [hargs]; rfl)
  · cases h

theorem resultType_part {kind : ScalarKind} {d : Dim} {mask : Swizzle} (h : hasPart d mask = true) :
    mask.resultType (.vector kind d) = .ok (.vector kind mask.dim) := by
  unfold hasPart at h
  split at h
  · next a => cases d <;> cases a <;> first | rfl | cases h
  · cases d <;> first | rfl | cases h
  · cases d <;> first | rfl | cases h
  · cases h

/-- The tables agree with the rules of the checked constructors. -/
theorem resultType_of_signature? {op : TypedOp} {args : List ValueType} {types : OperationType}
    (h : op.signature? args = some types) (hargs : args = types.operands)
    (hsettles : op.Settles args) : op.resultType args = .ok types.result := by
  have htypes := h
  unfold signature? at h
  split at h
  · exact resultType_unary htypes
  · exact resultType_unary htypes
  · exact resultType_binary h hargs hsettles
  · exact resultType_builtin h hargs
  · next f =>
    obtain ⟨-, h⟩ := Option.ite_none_right_eq_some.mp h
    obtain ⟨t, ht, rfl⟩ := Option.map_eq_some_iff.mp h
    have hcheck : f.checkArgs args = .ok () := Signature.checkArgs_eq_ok.mpr hargs
    simp only [resultType, Signature.resultType, hcheck, ht]
    rfl
  · exact hsettles.elim
  · exact hsettles.elim
  · split at h
    · obtain ⟨hpart, h⟩ := Option.ite_none_right_eq_some.mp h
      cases h
      exact resultType_part hpart
    · cases h
  · exact hsettles.elim
  · cases h

theorem length_operands_vector? {dim : MatrixDim} {a : ValueType} {n : Nat} {types : OperationType}
    (h : vector? dim a n = some types) : types.operands.length = n := by
  unfold vector? at h
  split at h
  · dsimp only at h
    split at h <;> cases h <;> rfl
  · cases h

theorem length_operands_conversion? {kind : ScalarKind} {a : ValueType} {types : OperationType}
    (h : conversion? kind a = some types) : types.operands.length = 1 := by
  unfold conversion? at h
  split at h <;> cases h
  rfl

theorem length_operands_floats? {a t : ValueType} {n : Nat} {types : OperationType}
    (h : floats? a n t = some types) : types.operands.length = n := by
  obtain ⟨-, rfl⟩ := floats?_eq_some h
  exact List.length_replicate

theorem length_operands_bounded? {a given : ValueType} {n : Nat} {types : OperationType}
    (h : bounded? a given n = some types) : types.operands.length = n + 1 := by
  obtain ⟨-, rfl⟩ := bounded?_eq_some h
  exact congrArg (· + 1) List.length_replicate

theorem length_operands_arithmetic? {op : BinaryOp} {a b : ValueType} {types : OperationType}
    (h : arithmetic? op a b = some types) : types.operands.length = 2 := by
  unfold arithmetic? at h
  (repeat' split at h) <;> cases h <;> rfl

theorem length_operands_builtin? {f : Builtin} {args : List ValueType} {types : OperationType}
    (h : builtin? f args = some types) : types.operands.length = args.length := by
  unfold builtin? at h
  split at h
  · exact length_operands_vector? h
  · obtain ⟨hlength, h⟩ := Option.ite_none_right_eq_some.mp h
    cases h
    exact List.length_replicate.trans hlength.symm
  all_goals first
    | exact length_operands_conversion? h
    | exact length_operands_floats? h
    | exact length_operands_bounded? h
    | (repeat' split at h) <;> cases h <;> rfl

/-- An operation takes as many operands as it is given. -/
theorem length_operands {op : TypedOp} {args : List ValueType} {types : OperationType}
    (h : op.signature? args = some types) : types.operands.length = args.length := by
  unfold signature? at h
  split at h
  · split at h <;> cases h <;> rfl
  · split at h <;> cases h
    rfl
  · unfold binary? at h
    split at h
    · exact length_operands_arithmetic? h
    · cases h
      rfl
    · (repeat' split at h) <;> cases h
      rfl
    · split at h <;> cases h
      rfl
  · exact length_operands_builtin? h
  · obtain ⟨hlength, h⟩ := Option.ite_none_right_eq_some.mp h
    obtain ⟨t, -, rfl⟩ := Option.map_eq_some_iff.mp h
    exact hlength.symm
  all_goals (repeat' split at h) <;> cases h <;> rfl

theorem convertEach_eq_ok {types : List ValueType} {args : List Expr}
    (hlength : types.length = args.length) :
    convertEach types args = .ok () ↔ args.map Expr.type = types := by
  induction types generalizing args with
  | nil => simp [convertEach, List.length_eq_zero_iff.mp hlength.symm]
  | cons t types ih =>
    obtain ⟨a, args, rfl⟩ := List.exists_cons_of_length_eq_add_one hlength.symm
    have hrest := ih (Nat.succ.inj hlength)
    rw [convertEach]
    split
    · next h =>
      obtain ⟨-, htype⟩ := Expr.convert_eq_ok.mp h
      simpa [htype] using hrest
    · next e h =>
      have hne : a.type ≠ t := fun htype ↦ by
        rw [Expr.convert_eq_ok.mpr ⟨rfl, htype⟩] at h
        cases h
      simp [hne]

theorem exists_of_build {op : TypedOp} {args : List Expr} {e : Expr} (h : op.build args = .ok e) :
    ∃ types, op.signature? (args.map Expr.type) = some types ∧
      args.map Expr.type = types.operands ∧ op.node types.result args = some e := by
  unfold build at h
  split at h
  · cases h
  · next types htypes =>
    have hlength := length_operands htypes
    rw [List.length_map] at hlength
    split at h
    · cases h
    · next hconvert =>
      split at h
      · next hnode =>
        cases h
        exact ⟨types, htypes, (convertEach_eq_ok hlength).mp hconvert, hnode⟩
      · cases h

theorem recheck_call {callee : Callee} {t : ValueType} {args : List Expr}
    (h : callee.resultType (args.map Expr.type) = .ok t) :
    (Expr.call t callee args).recheck = .ok (.call t callee args) := by
  simp only [Expr.recheck, Expr.invoke, h]

theorem recheck_swizzle {mask : Swizzle} {t : ValueType} {a : Expr}
    (h : mask.resultType a.type = .ok t) :
    (Expr.swizzle t a mask).recheck = .ok (.swizzle t a mask) := by
  simp only [Expr.recheck, Expr.select, h]

theorem resultType_builtin_eq {f : Builtin} {args : List ValueType}
    (hstep : ∀ a edge, f = .step → args ≠ [a, edge])
    (hsmoothStep : ∀ a low high, f = .smoothStep → args ≠ [a, low, high]) :
    (builtin f).resultType args = f.resultType args := by
  unfold resultType
  split <;> simp_all

/-- The node of an operation is what its constructor gives, if that gives the same type. -/
theorem recheck_node {op : TypedOp} {t : ValueType} {args : List Expr} {e : Expr}
    (h : op.node t args = some e) (htype : op.resultType (args.map Expr.type) = .ok t) :
    e.recheck = .ok e := by
  unfold node at h
  split at h <;> cases h
  · next op a =>
    have hop : op.resultType a.type = .ok t := htype
    simp only [Expr.recheck, Expr.apply, hop]
  · next op a b =>
    have hop : op.resultType a.type b.type = .ok t := htype
    simp only [Expr.recheck, Expr.join, hop]
  · exact recheck_call htype
  · exact recheck_call htype
  · next f hstep hsmoothStep =>
    rw [resultType_builtin_eq] at htype
    · exact recheck_call htype
    · intro a edge hf hmap
      have hlength : args.length = 2 := by simpa using congrArg List.length hmap
      obtain ⟨x, y, rfl⟩ := List.length_eq_two.mp hlength
      exact hstep x y rfl hf
    · intro a low high hf hmap
      have hlength : args.length = 3 := by simpa using congrArg List.length hmap
      obtain ⟨x, y, z, rfl⟩ := List.length_eq_three.mp hlength
      exact hsmoothStep x y z rfl hf
  · exact recheck_call htype
  · cases htype
  · cases htype
  · exact recheck_swizzle htype
  · exact recheck_swizzle htype

/-- What an operation makes of operands that it leaves settled, its checked constructor makes of
them too. -/
theorem recheck_of_build {op : TypedOp} {args : List Expr} {e : Expr} (h : op.build args = .ok e)
    (hsettles : op.Settles (args.map Expr.type)) : e.recheck = .ok e := by
  obtain ⟨types, htypes, hargs, hnode⟩ := exists_of_build h
  exact recheck_node hnode (resultType_of_signature? htypes hargs hsettles)

/-- Equality of what has no components is refused by the checked constructor. -/
theorem recheck_ne_of_equality {op : BinaryOp} {a b e : Expr} (hop : op.family = .equality)
    (ha : a.type.scalarKind = none) (h : (binary op).build [a, b] = .ok e) :
    e.recheck ≠ .ok e := by
  obtain ⟨types, -, -, hnode⟩ := exists_of_build h
  obtain rfl := Option.some.inj hnode
  intro hrecheck
  simp only [Expr.recheck, Expr.join, BinaryOp.resultType, hop, ValueType.comparable_iff, ha]
    at hrecheck
  cases hrecheck

theorem mem_nodes_of_node {op : TypedOp} {t : ValueType} {args : List Expr} {e n : Expr}
    (h : op.node t args = some e) (hn : n ∈ e.nodes) : n = e ∨ ∃ a ∈ args, n ∈ a.nodes := by
  have hcall (callee : Callee) (args' : List Expr) (hsub : args' ⊆ args)
      (hn : n ∈ (Expr.call t callee args').nodes) :
      n = .call t callee args' ∨ ∃ a ∈ args, n ∈ a.nodes := by
    rw [Expr.nodes, Expr.nodesOfList_eq_flatMap, List.mem_cons, List.mem_flatMap] at hn
    exact hn.imp_right fun ⟨a, ha, hna⟩ ↦ ⟨a, hsub ha, hna⟩
  unfold node at h
  split at h <;> cases h
  · exact (List.mem_cons.mp hn).imp_right fun hn ↦ ⟨_, List.mem_cons_self, hn⟩
  · next op a b =>
    rcases List.mem_cons.mp hn with rfl | hn
    · exact .inl rfl
    · rcases List.mem_append.mp hn with hn | hn
      · exact .inr ⟨a, by simp, hn⟩
      · exact .inr ⟨b, by simp, hn⟩
  · exact hcall _ _ (by simp) hn
  · exact hcall _ _ (by simp) hn
  · exact hcall _ _ (List.Subset.refl args) hn
  · exact hcall _ _ (List.Subset.refl args) hn
  · next a i =>
    rcases List.mem_cons.mp hn with rfl | hn
    · exact .inl rfl
    · rcases List.mem_append.mp hn with hn | hn
      · exact .inr ⟨a, by simp, hn⟩
      · exact .inr ⟨i, by simp, hn⟩
  · next a i =>
    rcases List.mem_cons.mp hn with rfl | hn
    · exact .inl rfl
    · rcases List.mem_append.mp hn with hn | hn
      · exact .inr ⟨a, by simp, hn⟩
      · exact .inr ⟨i, by simp, hn⟩
  · exact (List.mem_cons.mp hn).imp_right fun hn ↦ ⟨_, List.mem_cons_self, hn⟩
  · exact (List.mem_cons.mp hn).imp_right fun hn ↦ ⟨_, List.mem_cons_self, hn⟩

end TypedOp

end ShaderGraph
