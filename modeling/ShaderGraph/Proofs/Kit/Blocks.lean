import ShaderGraph.Kit.Color
import ShaderGraph.Kit.Vertex
import ShaderGraph.Proofs.Draft.Nesting

/-!
# Following the blocks of the kit

The blocks of the kit are constructions like those of clients: all expressions
in them are made of what they are given and of the variables that they make on
the way. These are collected in a list as the constructions go on. The kit puts
nodes together without asking, which is as good as checking them: the variables
in them are of the right types.
-/

namespace ShaderGraph

variable {σ κ : Type} {C : Client σ} {R R₁ : Registry}

/-- All expressions of a list are known. -/
def Registry.KnowsAll (R : Registry) (es : List Expr) : Prop := ∀ e ∈ es, e.Known R

theorem Registry.KnowsAll.mono {es : List Expr} (h : R.KnowsAll es) (hR : R ≤ R₁) :
    R₁.KnowsAll es :=
  fun e he ↦ (h e he).mono hR

theorem Registry.KnowsAll.cons {es : List Expr} (h : R.KnowsAll es) (hR : R ≤ R₁) {v : Variable}
    (hv : v ∈ R₁.vars) : R₁.KnowsAll (.var v :: es) := by
  intro e he
  rcases List.mem_cons.mp he with rfl | he
  · exact .var hv
  · exact h.mono hR e he

theorem Registry.knowsAll_nil (R : Registry) : R.KnowsAll [] := fun e he ↦ by cases he

section Lists

variable {S α β : Type} [Drafted S] {es : List Expr} {f : α → Build σ S β}
  {Q : Registry → β → Prop}

/-- A construction with an expression as its result puts it in front of the list. -/
theorem Registry.KnowsAll.bind_expr (hes : R.KnowsAll es) {x : Build σ S α} (made : α → Expr)
    {P : Registry → α → Prop} (hx : Traced C R x (fun R' a ↦ (made a).Known R' ∧ P R' a))
    (hf : ∀ R₁ a, R ≤ R₁ → P R₁ a → R₁.KnowsAll (made a :: es) → Traced C R₁ (f a) Q) :
    Traced C R (x >>= f) Q := by
  refine hx.bind fun R₁ a hR ha ↦ hf R₁ a hR ha.2 fun e he ↦ ?_
  rcases List.mem_cons.mp he with rfl | he
  · exact ha.1
  · exact hes.mono hR e he

theorem Registry.KnowsAll.bind_variable {f : Variable → Build σ S β} (hes : R.KnowsAll es)
    {x : Build σ S Variable} {P : Registry → Variable → Prop}
    (hx : Traced C R x (fun R' v ↦ v ∈ R'.vars ∧ P R' v))
    (hf : ∀ R₁ v, R ≤ R₁ → P R₁ v → R₁.KnowsAll (.var v :: es) → Traced C R₁ (f v) Q) :
    Traced C R (x >>= f) Q :=
  hes.bind_expr .var (hx.mono fun _ _ _ h ↦ h.imp_left .var) hf

theorem Registry.KnowsAll.bind_unit (hes : R.KnowsAll es) {x : Build σ S α}
    (hx : Traced C R x (fun _ _ ↦ True))
    (hf : ∀ R₁ a, R ≤ R₁ → R₁.KnowsAll es → Traced C R₁ (f a) Q) : Traced C R (x >>= f) Q :=
  hx.bind fun R₁ a hR _ ↦ hf R₁ a hR (hes.mono hR)

end Lists

@[simp]
theorem Expr.type_floatLit (x : Single) : (floatLit x).type = .float .one := rfl

namespace Expr.Known

variable {a b : Expr}

theorem floatPart (ha : a.Known R) (htype : a.type = .float .four) (s : Selector) :
    (a.floatPart s).Known R :=
  .swizzle_of_type ha htype (by cases s <;> rfl)

theorem firstThree (ha : a.Known R) (htype : a.type = .float .four) : a.firstThree.Known R :=
  .swizzle_of_type ha htype rfl

theorem extend (ha : a.Known R) (hb : b.Known R) (hatype : a.type = .float .three)
    (hbtype : b.type = .float .one) : (a.extend b).Known R := by
  have htypes : [a, b].map Expr.type = [.float .three, .float .one] := by simp [hatype, hbtype]
  exact .builtin_of_type (by simpa using ⟨ha, hb⟩) htypes rfl

theorem normalized (ha : a.Known R) (htype : a.type = .float .three) : a.normalized.Known R := by
  have htypes : [a].map Expr.type = [.float .three] := by simp [htype]
  exact .builtin_of_type (by simpa using ha) htypes rfl

end Expr.Known

namespace Source

theorem traced_mixAll {value : κ → Build σ StageDraft Expr} {accumulator : Variable}
    (hvalue : ∀ R₁ k, Traced C R₁ (value k) (fun R' e ↦ e.Known R'))
    (sources : List (Source κ)) (hv : accumulator ∈ R.vars) :
    Traced C R (mixAll value accumulator sources) (fun _ _ ↦ True) := by
  induction sources generalizing R with
  | nil => exact .pure fun _ _ ↦ trivial
  | cons s rest ih =>
    refine (hvalue R s.kind).onStage.onScope.bind fun R₁ e hR he ↦ ?_
    have hv₁ := Registry.mem_vars hR hv
    refine (ScopeDraft.traced_set s.mix.augment? (.var hv₁) he).onScope.bind fun R₂ _ hR₂ _ ↦ ?_
    exact ih (Registry.mem_vars hR₂ hv₁)

theorem traced_mixBody {name : String} {dim : Dim} {value : κ → Build σ StageDraft Expr}
    (hvalue : ∀ R₁ k, Traced C R₁ (value k) (fun R' e ↦ e.Known R'))
    (sources : List (Source κ)) :
    Traced C R (mixBody name dim value sources)
      (fun R' v ↦ v ∈ R'.vars ∧ v.type = .float dim) := by
  refine (BlockDraft.traced_output name _).bind fun R₁ out _ hout ↦ ?_
  refine (ScopeDraft.traced_bind (.lit _)).onScope.bind fun R₂ accumulator hR₂ hacc ↦ ?_
  have hout₂ := Registry.mem_vars hR₂ hout.1
  refine (traced_mixAll hvalue sources hacc.1).bind fun R₃ _ hR₃ _ ↦ ?_
  have hout₃ := Registry.mem_vars hR₃ hout₂
  have hacc₃ := Registry.mem_vars hR₃ hacc.1
  refine (ScopeDraft.traced_assign (.var hout₃) (.var hacc₃)).onScope.bind fun R₄ _ hR₄ _ ↦ ?_
  exact .pure fun R₅ hR₅ ↦ ⟨Registry.mem_vars (hR₄.trans hR₅) hout₃, hout.2⟩

end Source

theorem PropertyValue.traced_expr (value : PropertyValue) :
    Traced C R value.expr (fun R' e ↦ e.Known R') := by
  cases value with
  | constant x => exact .pure fun R' _ ↦ .lit _
  | uniform name =>
    refine (StageDraft.traced_declareUniform name _).bind fun R₁ v _ hv ↦ ?_
    exact .pure fun R₂ hR₂ ↦ .var (Registry.mem_vars hR₂ hv.1)
  | vertexAttribute name =>
    refine (StageDraft.traced_declareAttribute name _ _).bind fun R₁ v _ hv ↦ ?_
    exact .pure fun R₂ hR₂ ↦ .var (Registry.mem_vars hR₂ hv.1)
  | texture sampler coords channel =>
    refine (StageDraft.traced_declareUniform sampler _).bind fun R₁ map _ hmap ↦ ?_
    refine (StageDraft.traced_declareAttribute coords _ _).bind fun R₂ coord hR₂ hcoord ↦ ?_
    cases channel? channel with
    | none => exact .throw
    | some a =>
      have htypes : [Expr.var map, .var coord, .floatLit .zero].map Expr.type =
          [.sampler .flat, .float .two, .float .one] := by simp [hmap.2.2, hcoord.2.2]
      refine .pure fun R₃ hR₃ ↦ .floatPart (.builtin_of_type (fun e he ↦ ?_) htypes rfl) rfl a
      simp only [List.mem_cons, List.not_mem_nil, or_false] at he
      rcases he with rfl | rfl | rfl
      · exact .var (Registry.mem_vars (hR₂.trans hR₃) hmap.1)
      · exact .var (Registry.mem_vars hR₃ hcoord.1)
      · exact .lit _

theorem PropertySource.traced_block (sources : List PropertySource) :
    Traced C R (PropertySource.block sources)
      (fun R' v ↦ v ∈ R'.vars ∧ v.type = .float .one) :=
  ScopeDraft.traced_block _ (Source.traced_mixBody (fun _ ↦ PropertyValue.traced_expr) sources)

theorem ColorValue.traced_expr (value : ColorValue) :
    Traced C R value.expr (fun R' e ↦ e.Known R') := by
  cases value with
  | constant r g b a => exact .pure fun R' _ ↦ .lit _
  | uniform name =>
    refine (StageDraft.traced_declareUniform name _).bind fun R₁ v _ hv ↦ ?_
    exact .pure fun R₂ hR₂ ↦ .var (Registry.mem_vars hR₂ hv.1)
  | vertexColor name =>
    refine (StageDraft.traced_declareInterStage _ _).bind fun R₁ v _ hv ↦ ?_
    exact .pure fun R₂ hR₂ ↦ .var (Registry.mem_vars hR₂ hv.1)
  | texture sampler coords =>
    refine (StageDraft.traced_declareUniform sampler _).bind fun R₁ map _ hmap ↦ ?_
    refine (StageDraft.traced_declareInterStage _ _).bind fun R₂ coord hR₂ hcoord ↦ ?_
    have htypes : [Expr.var map, .var coord].map Expr.type = [.sampler .flat, .float .two] := by
      simp [hmap.2.2, hcoord.2.2]
    refine .pure fun R₃ hR₃ ↦ .builtin_of_type (fun e he ↦ ?_) htypes rfl
    simp only [List.mem_cons, List.not_mem_nil, or_false] at he
    rcases he with rfl | rfl
    · exact .var (Registry.mem_vars (hR₂.trans hR₃) hmap.1)
    · exact .var (Registry.mem_vars hR₃ hcoord.1)

namespace ColorSource

theorem traced_passAll (passed : List String) (attributes : List (String × ValueType)) :
    Traced C R (passAll passed attributes) (fun _ _ ↦ True) := by
  induction attributes generalizing passed R with
  | nil => exact .pure fun _ _ ↦ trivial
  | cons first rest ih =>
    obtain ⟨name, type⟩ := first
    unfold passAll
    split
    · exact ih passed
    · refine (StageDraft.traced_declareAttribute name type .vertexAttribute).onStage.onScope.bind
        fun R₁ value _ hvalue ↦ ?_
      refine (StageDraft.traced_declareInterStage _ type).onStage.onScope.bind
        fun R₂ passedOn hR₂ hpassed ↦ ?_
      have hvalue₂ := Registry.mem_vars hR₂ hvalue.1
      refine (ScopeDraft.traced_assign (.var hpassed.1) (.var hvalue₂)).onScope.bind
        fun R₃ _ _ _ ↦ ih _

theorem traced_vertexBlock (sources : List ColorSource) :
    Traced C R (vertexBlock sources) (fun _ _ ↦ True) :=
  ScopeDraft.traced_block _ (traced_passAll _ _)

theorem traced_body (sources : List ColorSource) :
    Traced C R (body sources) (fun R' v ↦ v ∈ R'.vars ∧ v.type = .float .four) := by
  refine Traced.getDraft.bind fun R₁ b _ _ ↦ ?_
  have hmix : Traced C R₁ (Source.mixBody "outColor" .four ColorValue.expr sources)
      (fun R' v ↦ v ∈ R'.vars ∧ v.type = .float .four) :=
    Source.traced_mixBody (fun _ ↦ ColorValue.traced_expr) sources
  split
  · exact hmix
  · exact .throw

theorem traced_block (sources : List ColorSource) :
    Traced C R (block sources) (fun R' v ↦ v ∈ R'.vars ∧ v.type = .float .four) :=
  ScopeDraft.traced_block _ (traced_body sources)

end ColorSource

end ShaderGraph
