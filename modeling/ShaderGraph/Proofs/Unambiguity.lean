import ShaderGraph.Proofs.Expr.Shape

/-!
# Texts are unambiguous

Expressions that clients put together by checked constructors are known from
their texts. Texts give shapes, and shapes give the nodes: the words of
literals are no names, the constructors of vectors and matrices are no
functions with as many arguments, and the types of nodes follow from what the
nodes are made of.
-/

namespace ShaderGraph

namespace Literal

theorem text_type_mem_constructors {l : Literal} (h : l.words.length ≠ 1) :
    l.type.text ∈ constructors := by
  have hvector {kind : ScalarKind} {dim : Dim} (hdim : dim.count ≠ 1) :
      (ValueType.vector kind dim).text ∈ constructors := by
    revert hdim
    cases kind <;> cases dim <;> decide
  have hmatrix (dim : MatrixDim) : (ValueType.matrix dim).text ∈ constructors := by
    cases dim <;> decide
  rw [length_words] at h
  cases l with
  | int | uint | float | bool => exact hvector h
  | matrix m => exact hmatrix m.dim

theorem shape_cases (l : Literal) :
    (∃ w, l.shape = .word w) ∨ ∃ name args, l.shape = .call name args := by
  by_cases hlength : l.words.length = 1
  · obtain ⟨w, hw⟩ := List.length_eq_one_iff.mp hlength
    exact .inl ⟨w, by rw [shape, hw]; rfl⟩
  · exact .inr ⟨_, _, shapeOf_of_length hlength⟩

/-- What is written as a call, and is none, is a vector or matrix. -/
theorem shape_eq_call {l : Literal} {name : List Char} {args : List Shape}
    (h : l.shape = .call name args) :
    name = l.type.text.toList ∧ l.type.text ∈ constructors ∧ args.length = l.words.length := by
  have hwords : l.words.length ≠ 1 := by
    intro hlength
    obtain ⟨w, hw⟩ := List.length_eq_one_iff.mp hlength
    rw [shape, hw] at h
    cases h
  rw [shape, shapeOf_of_length hwords] at h
  obtain ⟨rfl, rfl⟩ := Shape.call.inj h
  exact ⟨rfl, text_type_mem_constructors hwords, List.length_map _⟩

theorem shape_eq_word {l : Literal} {w : List Char} (h : l.shape = .word w) : w ∈ l.words := by
  by_cases hlength : l.words.length = 1
  · obtain ⟨w', hw⟩ := List.length_eq_one_iff.mp hlength
    rw [shape, hw] at h
    obtain rfl := Shape.word.inj h
    rw [hw]
    exact List.mem_singleton_self _
  · rw [shape, shapeOf_of_length hlength] at h
    cases h

end Literal

theorem not_isNumber_of_isName {w : List Char} (h : IsName w) : ¬IsNumber w := by
  rintro ⟨c, cs, rfl, hc, -⟩
  obtain ⟨_, _, hw, hletter, -⟩ := h
  cases hw
  rw [hc] at hletter
  cases hletter

namespace Builtin

/-- Matrices are the only literals that are written like calls of a built-in function. -/
theorem eq_mat_of_name {f : Builtin} (h : f.name ∈ Literal.constructors) :
    ∃ dim, f = mat dim := by
  have hall : ∀ f ∈ every, f.name ∈ Literal.constructors → ∃ dim ∈ [MatrixDim.two, .three, .four],
      f = mat dim := by decide +kernel
  obtain ⟨dim, -, hf⟩ := hall f f.mem_every h
  exact ⟨dim, hf⟩

/-- A matrix is made of as many arguments as it has columns. -/
theorem length_of_mat {dim : MatrixDim} {args : List ValueType} {t : ValueType}
    (h : (mat dim).resultType args = .ok t) : args.length = dim.size := by
  simp only [resultType, Callee.matrixOf] at h
  split at h
  · cases h
  · next hlength => exact not_not.mp hlength

end Builtin

namespace Expr

variable {R : Registry}

theorem var_shape_ne_lit (hR : R.Legible) {v : Variable} (hv : v ∈ R.vars) (l : Literal) :
    (var v).shape ≠ (lit l).shape := by
  intro h
  rcases Literal.isNumber_or_reserved (Literal.shape_eq_word h.symm) with hnumber | hreserved
  · exact not_isNumber_of_isName (hR.isName_variable v hv) hnumber
  · obtain ⟨s, hs, hname⟩ := List.mem_map.mp hreserved
    obtain rfl := String.toList_inj.mp hname
    exact hR.variable_not_reserved v hv hs

theorem call_shape_ne_lit (hR : R.Legible) {callee : Callee}
    (hcallee : ∀ f, callee = .user f → f ∈ R.signatures) {args : List Expr} {t : ValueType}
    (hnode : callee.resultType (args.map type) = .ok t) (l : Literal) :
    (call t callee args).shape ≠ (lit l).shape := by
  intro h
  obtain ⟨hname, hmem, hlength⟩ := Literal.shape_eq_call h.symm
  have hname : callee.name = l.type.text := String.toList_inj.mp hname
  rw [← hname] at hmem
  cases callee with
  | user f => exact hR.function_ne_constructor f (hcallee f rfl) hmem
  | builtin f =>
    obtain ⟨dim, rfl⟩ := Builtin.eq_mat_of_name hmem
    have hargs := Builtin.length_of_mat hnode
    have htype : ValueType.matrix dim = l.type := ValueType.text_inj rfl l.length_type hname
    rw [shapesOfList_eq_map, List.length_map, Literal.length_words] at hlength
    rw [List.length_map, hlength] at hargs
    cases l with
    | int | uint | float | bool => cases htype
    | matrix m =>
      have hdim {d d' : MatrixDim} (h : ValueType.matrix d = .matrix d') : d = d' := by
        cases h
        rfl
      have hsquare (d : MatrixDim) : d.size * d.size ≠ d.size := by cases d <;> decide
      obtain rfl := hdim htype
      exact hsquare m.dim hargs

theorem callee_eq_of_name (hR : R.Legible) {callee callee' : Callee}
    (hcallee : ∀ f, callee = .user f → f ∈ R.signatures)
    (hcallee' : ∀ f, callee' = .user f → f ∈ R.signatures) (h : callee.name = callee'.name) :
    callee = callee' := by
  cases callee with
  | builtin f =>
    cases callee' with
    | builtin g => exact congrArg Callee.builtin (Builtin.name_injective h)
    | user g => exact absurd h.symm (hR.function_ne_builtin g (hcallee' g rfl) f)
  | user f =>
    cases callee' with
    | builtin g => exact absurd h (hR.function_ne_builtin f (hcallee f rfl) g)
    | user g => exact congrArg Callee.user (hR.function_inj f (hcallee f rfl) g (hcallee' g rfl) h)

theorem type_eq_of_canonical {e e' : Expr} (h : e.canonical = e'.canonical) : e.type = e'.type := by
  rw [← e.type_canonical, h, e'.type_canonical]

theorem mask_inj {m m' : Swizzle}
    (h : m.selectors.map Selector.letter = m'.selectors.map Selector.letter) : m = m' := by
  have hletter : Function.Injective Selector.letter := by
    intro a b
    cases a <;> cases b <;> decide
  have hmask := congrArg Swizzle.ofSelectors? (hletter.list_map h)
  rw [Swizzle.ofSelectors?_selectors, Swizzle.ofSelectors?_selectors] at hmask
  exact Option.some.inj hmask

theorem Known.eq_lit_of_shape (hR : R.Legible) (hchecked : R.checked) {e : Expr}
    (he : e.Known R) {l : Literal} (h : e.shape = (Expr.lit l).shape) :
    ∃ l', e = Expr.lit l' := by
  cases he with
  | lit l' => exact ⟨l', rfl⟩
  | var hv => exact absurd h (var_shape_ne_lit hR hv l)
  | call hcallee _ hnode =>
    exact absurd h (call_shape_ne_lit hR hcallee (resultType_of_invoke (hnode hchecked)) l)
  | unary | binary | swizzle | lookup =>
    change _ = l.shape at h
    rcases l.shape_cases with ⟨w, hword⟩ | ⟨name, args, hcall⟩
    · rw [hword] at h
      cases h
    · rw [hcall] at h
      cases h

/-- Expressions of one shape are one expression, as far as literals are told apart. Types follow
from the children, which the induction makes equal. -/
theorem Known.canonical_eq_of_shape (hR : R.Legible) (hchecked : R.checked) {e e' : Expr}
    (he : e.Known R) (he' : e'.Known R) (h : e.shape = e'.shape) : e.canonical = e'.canonical := by
  induction he generalizing e' with
  | lit l =>
    obtain ⟨l', rfl⟩ := he'.eq_lit_of_shape hR hchecked h.symm
    exact congrArg Expr.lit (Literal.canonical_eq_of_shape h)
  | @var v hv =>
    cases he' with
    | lit l => exact absurd h (var_shape_ne_lit hR hv l)
    | @var w hw => rw [hR.variable_inj v hv w hw (String.toList_inj.mp (Shape.word.inj h))]
    | _ => cases h
  | unary ha hnode ih =>
    cases he' with
    | lit l =>
      obtain ⟨_, hlit⟩ := (Known.unary ha hnode).eq_lit_of_shape hR hchecked h
      cases hlit
    | unary ha' _ =>
      obtain ⟨rfl, hshape⟩ := Shape.unary.inj h
      rw [canonical, canonical, ih ha' hshape]
    | _ => cases h
  | binary ha hb hnode iha ihb =>
    cases he' with
    | lit l =>
      obtain ⟨_, hlit⟩ := (Known.binary ha hb hnode).eq_lit_of_shape hR hchecked h
      cases hlit
    | binary ha' hb' hnode' =>
      obtain ⟨rfl, hleft, hright⟩ := Shape.binary.inj h
      have hca := iha ha' hleft
      have hcb := ihb hb' hright
      have htype := resultType_of_join (hnode hchecked)
      rw [type_eq_of_canonical hca, type_eq_of_canonical hcb,
        resultType_of_join (hnode' hchecked)] at htype
      rw [canonical, canonical, hca, hcb, Except.ok.inj htype]
    | _ => cases h
  | @call t callee args hcallee hargs hnode ih =>
    cases he' with
    | lit l =>
      exact absurd h (call_shape_ne_lit hR hcallee (resultType_of_invoke (hnode hchecked)) l)
    | @call t' callee' args' hcallee' hargs' hnode' =>
      obtain ⟨hname, hshapes⟩ := Shape.call.inj h
      obtain rfl := callee_eq_of_name hR hcallee hcallee' (String.toList_inj.mp hname)
      rw [shapesOfList_eq_map, shapesOfList_eq_map] at hshapes
      have hall := map_eq_of_map_eq (fun a ha a' ha' h ↦ ih a ha (hargs' a' ha') h) hshapes
      have htypes := map_eq_of_map_eq (fun _ _ _ _ h ↦ type_eq_of_canonical h) hall
      have htype := resultType_of_invoke (hnode hchecked)
      rw [htypes, resultType_of_invoke (hnode' hchecked)] at htype
      rw [canonical, canonical, canonicalOfList_eq_map, canonicalOfList_eq_map, hall,
        Except.ok.inj htype]
    | _ => cases h
  | swizzle hs hnode ih =>
    cases he' with
    | lit l =>
      obtain ⟨_, hlit⟩ := (Known.swizzle hs hnode).eq_lit_of_shape hR hchecked h
      cases hlit
    | swizzle hs' hnode' =>
      obtain ⟨hsource, hmask⟩ := Shape.swizzle.inj h
      obtain rfl := mask_inj hmask
      have hc := ih hs' hsource
      have htype := resultType_of_select (hnode hchecked)
      rw [type_eq_of_canonical hc, resultType_of_select (hnode' hchecked)] at htype
      rw [canonical, canonical, hc, Except.ok.inj htype]
    | _ => cases h
  | lookup ho hi hnode iho ihi =>
    cases he' with
    | lit l =>
      obtain ⟨_, hlit⟩ := (Known.lookup ho hi hnode).eq_lit_of_shape hR hchecked h
      cases hlit
    | lookup ho' hi' hnode' =>
      obtain ⟨hobject, hindex⟩ := Shape.lookup.inj h
      have hco := iho ho' hobject
      obtain ⟨_, htype⟩ := lookupType?_of_element (hnode hchecked)
      obtain ⟨_, htype'⟩ := lookupType?_of_element (hnode' hchecked)
      rw [type_eq_of_canonical hco, htype'] at htype
      rw [canonical, canonical, hco, ihi hi' hindex, (Prod.mk.inj (Option.some.inj htype)).1]
    | _ => cases h

def tintVariable : Variable := ⟨0, "tint", .float .two, .program, .uniform⟩

def glowFunction : Signature := ⟨"glow", [.float .two], some (.float .one)⟩

def glowRegistry : Registry := ⟨[tintVariable], [], {glowFunction}, True⟩

/-- A call with a vector constant in it that has a zero. -/
def glowExpr (zero : Single) : Expr :=
  call (.float .one) (.user glowFunction) [
    swizzle (.float .two)
      (binary (.float .two) .mul (unary .neg (var tintVariable))
        (lit (.float ⟨.two, [zero, .one], rfl⟩))) (.two .y .x)]

/-- Expressions of checked constructors over names that can be told apart have one text only if
they are one expression, types included, apart from the sign of zeros and the kind of NaNs. -/
theorem text_unambiguous (hR : R.Legible) (hchecked : R.checked) {e e' : Expr} (he : e.Known R)
    (he' : e'.Known R) (h : e.text = e'.text) : e.canonical = e'.canonical := by
  have hchars : e.shape.chars = e'.shape.chars := by
    rw [← toList_text, ← toList_text, h]
  have hlegible := legible_shape hR hchecked he
  have hlegible' := legible_shape hR hchecked he'
  exact he.canonical_eq_of_shape hR hchecked he' (hlegible.eq_of_chars hlegible' hchars)

theorem text_unambiguous_zeros : glowRegistry.Legible ∧ glowRegistry.checked ∧
    (glowExpr .zero).Known glowRegistry ∧ (glowExpr ⟨0x80000000⟩).Known glowRegistry ∧
      (glowExpr .zero).text = "glow((-(tint) * float2(0., 1.)).yx)" ∧
        (glowExpr .zero).text = (glowExpr ⟨0x80000000⟩).text ∧
          (glowExpr .zero).canonical = (glowExpr ⟨0x80000000⟩).canonical := by
  have hnames : glowRegistry.Legible := by
    constructor
    · intro v hv
      obtain rfl := List.mem_singleton.mp hv
      decide
    · intro v hv
      obtain rfl := List.mem_singleton.mp hv
      decide
    · intro v hv w hw _
      rw [List.mem_singleton.mp hv, List.mem_singleton.mp hw]
    · rintro f rfl
      decide
    · rintro f rfl g hname
      have hall : ∀ g ∈ Builtin.every, glowFunction.name ≠ g.name := by decide +kernel
      exact hall g g.mem_every hname
    · rintro f rfl
      decide
    · rintro f rfl g rfl _
      rfl
  have hknown (zero : Single) : (glowExpr zero).Known glowRegistry := by
    have hproduct : (binary (.float .two) .mul (unary .neg (var tintVariable))
        (lit (.float ⟨.two, [zero, .one], rfl⟩))).Known glowRegistry := by
      refine .binary (.unary (.var ?_) fun _ ↦ rfl) (.lit _) fun _ ↦ rfl
      exact List.mem_singleton_self tintVariable
    refine .call ?_ ?_ fun _ ↦ rfl
    · rintro f hf
      cases hf
      rfl
    · intro a ha
      obtain rfl := List.mem_singleton.mp ha
      exact .swizzle hproduct fun _ ↦ rfl
  have htext : (glowExpr .zero).text = (glowExpr ⟨0x80000000⟩).text := by decide +kernel
  exact ⟨hnames, trivial, hknown _, hknown _, by decide +kernel, htext,
    text_unambiguous hnames trivial (hknown _) (hknown _) htext⟩

end Expr

end ShaderGraph
