import ShaderGraph.Expr.Text
import ShaderGraph.Proofs.Expr.Known
import ShaderGraph.Proofs.Literal

/-!
# Shapes of expressions

The text of an expression is that of its shape. If variables and functions have
names that can be told from numbers, and if only vectors, matrices and arrays
are selected from, then the shape is legible.
-/

namespace ShaderGraph

namespace Expr

mutual

def shape : Expr → Shape
  | lit value => value.shape
  | var v => .word v.name.toList
  | unary op a => .unary op a.shape
  | binary _ op a b => .binary op a.shape b.shape
  | call _ callee args => .call callee.name.toList (shapesOfList args)
  | swizzle _ source mask => .swizzle source.shape (mask.selectors.map Selector.letter)
  | lookup _ object index => .lookup object.shape index.shape

def shapesOfList : List Expr → List Shape
  | [] => []
  | e :: rest => e.shape :: shapesOfList rest

end

mutual

/-- The expression with all floats standing for those that are written like them. -/
def canonical : Expr → Expr
  | lit value => lit value.canonical
  | var v => var v
  | unary op a => unary op a.canonical
  | binary t op a b => binary t op a.canonical b.canonical
  | call t callee args => call t callee (canonicalOfList args)
  | swizzle t source mask => swizzle t source.canonical mask
  | lookup t object index => lookup t object.canonical index.canonical

def canonicalOfList : List Expr → List Expr
  | [] => []
  | e :: rest => e.canonical :: canonicalOfList rest

end

theorem shapesOfList_eq_map (es : List Expr) : shapesOfList es = es.map shape := by
  induction es with
  | nil => rfl
  | cons e es ih => rw [shapesOfList, ih, List.map_cons]

theorem canonicalOfList_eq_map (es : List Expr) : canonicalOfList es = es.map canonical := by
  induction es with
  | nil => rfl
  | cons e es ih => rw [canonicalOfList, ih, List.map_cons]

theorem type_canonical (e : Expr) : e.canonical.type = e.type :=
  match e with
  | lit value => value.type_canonical
  | unary _ a => type_canonical a
  | var _ | binary .. | call .. | swizzle .. | lookup .. => rfl

mutual

theorem toList_text (e : Expr) : e.text.toList = e.shape.chars :=
  match e with
  | lit value => value.toList_text
  | var _ => rfl
  | unary op a => by simp [text, shape, Shape.chars, toList_text a]
  | binary _ op a b => by simp [text, shape, Shape.chars, toList_text a, toList_text b]
  | call _ callee args => by
    simp [text, shape, Shape.chars, Literal.toList_commaSeparated (toList_textsOfList args)]
  | swizzle _ source mask => by simp [text, shape, Shape.chars, Swizzle.text, toList_text source]
  | lookup _ object index => by
    simp [text, shape, Shape.chars, toList_text object, toList_text index]

theorem toList_textsOfList (es : List Expr) :
    (textsOfList es).map String.toList = (shapesOfList es).map Shape.chars :=
  match es with
  | [] => rfl
  | e :: rest => by
    rw [textsOfList, shapesOfList, List.map_cons, List.map_cons, toList_text e,
      toList_textsOfList rest]

end

end Expr

namespace Builtin

theorem mem_every (f : Builtin) : f ∈ every := by
  cases f with
  | vec dim | mat dim => cases dim <;> decide
  | apply f => cases f <;> decide
  | _ => decide

theorem name_injective : Function.Injective Builtin.name := by
  have hall : ∀ f ∈ every, ∀ g ∈ every, f.name = g.name → f = g := by decide +kernel
  exact fun f g ↦ hall f f.mem_every g g.mem_every

theorem isName_name (f : Builtin) : IsName f.name.toList := by
  have hall : ∀ f ∈ every, IsName f.name.toList := by decide +kernel
  exact hall f f.mem_every

end Builtin

/-- The names that vectors and matrices are written with. -/
def Literal.constructors : List String :=
  [ScalarKind.int, .uint, .bool, .float].flatMap (fun kind ↦
    [Dim.two, .three, .four].map fun dim ↦ (ValueType.vector kind dim).text) ++
  [MatrixDim.two, .three, .four].map fun dim ↦ (ValueType.matrix dim).text

/-- The names that clients see can be told apart, also from what literals and built-in functions
are written with. -/
structure Registry.Legible (R : Registry) : Prop where
  isName_variable : ∀ v ∈ R.vars, IsName v.name.toList
  variable_not_reserved : ∀ v ∈ R.vars, v.name ∉ Literal.reserved
  variable_inj : ∀ v ∈ R.vars, ∀ w ∈ R.vars, v.name = w.name → v = w
  isName_function : ∀ f ∈ R.signatures, IsName f.name.toList
  function_ne_builtin : ∀ f ∈ R.signatures, ∀ g : Builtin, f.name ≠ g.name
  function_ne_constructor : ∀ f ∈ R.signatures, f.name ∉ Literal.constructors
  function_inj : ∀ f ∈ R.signatures, ∀ g ∈ R.signatures, f.name = g.name → f = g

namespace Expr

variable {R : Registry} {e a b : Expr} {t : ValueType}

theorem resultType_of_join {op : BinaryOp} (h : join op a b = .ok (binary t op a b)) :
    op.resultType a.type b.type = .ok t := by
  unfold join at h
  split at h
  · next h' =>
    cases h
    exact h'
  · cases h

theorem resultType_of_invoke {callee : Callee} {args : List Expr}
    (h : invoke callee args = .ok (call t callee args)) :
    callee.resultType (args.map type) = .ok t := by
  unfold invoke at h
  split at h
  · next h' =>
    cases h
    exact h'
  · cases h

theorem resultType_of_select {mask : Swizzle} (h : select a mask = .ok (swizzle t a mask)) :
    mask.resultType a.type = .ok t := by
  unfold select at h
  split at h
  · next h' =>
    cases h
    exact h'
  · cases h

theorem lookupType?_of_element (h : element a b = .ok (lookup t a b)) :
    ∃ length, lookupType? a.type = some (t, length) := by
  obtain ⟨-, h⟩ := unit_bind_eq_ok.mp h
  split at h
  · cases h
  · next t' length hlookup =>
    obtain ⟨-, h⟩ := unit_bind_eq_ok.mp h
    cases h
    exact ⟨length, hlookup⟩

theorem not_isScalar_of_swizzle {mask : Swizzle} {source : ValueType}
    (h : mask.resultType source = .ok t) : source.isScalar = false := by
  unfold Swizzle.resultType at h
  split at h
  · next kind dim =>
    split at h
    · cases h
    · cases dim <;> first | rfl | contradiction
  · cases h

theorem not_isScalar_of_lookup {object : ValueType} {length : Nat}
    (h : lookupType? object = some (t, length)) : object.isScalar = false := by
  unfold lookupType? at h
  split at h
  · rfl
  · rfl
  · cases h

/-! ## Shapes are legible -/

/-- What is not a scalar is not written as a number. -/
theorem opens_shape (hR : R.Legible) (he : e.Known R) (htype : e.type.isScalar = false) :
    e.shape.opens = true := by
  cases he with
  | lit value =>
    have hwords : value.words.length ≠ 1 := fun h ↦ by
      rw [type, value.isScalar_type_iff.mpr h] at htype
      cases htype
    rw [shape, Literal.shape, Literal.shapeOf_of_length hwords]
    rfl
  | var hv => exact Shape.opens_of_name (hR.isName_variable _ hv)
  | unary | binary | call | swizzle | lookup => rfl

theorem isName_callee (hR : R.Legible) {callee : Callee}
    (hcallee : ∀ f, callee = .user f → f ∈ R.signatures) : IsName callee.name.toList := by
  cases callee with
  | builtin f => exact f.isName_name
  | user f => exact hR.isName_function f (hcallee f rfl)

theorem legible_shape (hR : R.Legible) (hchecked : R.checked) (he : e.Known R) :
    e.shape.Legible := by
  induction he with
  | lit value => exact value.legible_shape
  | var hv => exact .name (hR.isName_variable _ hv)
  | unary _ _ ih => exact .unary ih
  | binary _ _ _ iha ihb => exact .binary iha ihb
  | call hcallee _ _ ih =>
    rw [shape, shapesOfList_eq_map]
    refine .call (isName_callee hR hcallee) fun s hs ↦ ?_
    obtain ⟨a, ha, rfl⟩ := List.mem_map.mp hs
    exact ih a ha
  | @swizzle _ _ mask hs hnode ih =>
    have htype := not_isScalar_of_swizzle (resultType_of_select (hnode hchecked))
    refine .swizzle ih (opens_shape hR hs htype) fun c hc ↦ ?_
    obtain ⟨s, -, rfl⟩ := List.mem_map.mp hc
    cases s <;> decide
  | lookup ho _ hnode iho ihi =>
    obtain ⟨_, hlookup⟩ := lookupType?_of_element (hnode hchecked)
    exact .lookup iho (opens_shape hR ho (not_isScalar_of_lookup hlookup)) ihi

end Expr

end ShaderGraph
