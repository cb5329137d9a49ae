import ShaderGraph.Kit.Unlit
import ShaderGraph.Proofs.Draft.Inward

/-!
# What the kit writes

The blocks of the kit write local variables and outputs of their own only, and
what they declare is not seen outside of the stage, except for the inter-stage
values that color sources read.
-/

namespace ShaderGraph

variable {σ : Type} {o : Outlets}

namespace Source

variable {κ : Type} {value : κ → Build σ StageDraft Expr} {P : κ → Prop}
  {sources : List (Source κ)}

/-- What each source makes sure of by itself holds of all that are mixed. -/
theorem keeps_mixAll {accumulator : Variable} (haccumulator : accumulator.Inner)
    (hvalue : ∀ s ∈ sources, (value s.kind).Keeps (StageDraft.Shows o) fun _ ↦ P s.kind) :
    (mixAll value accumulator sources).Keeps (BlockDraft.Inward o) fun _ ↦
      ∀ s ∈ sources, P s.kind := by
  induction sources with
  | nil => exact .pure (List.forall_mem_nil _)
  | cons s rest ih =>
    obtain ⟨hs, hrest⟩ := List.forall_mem_cons.mp hvalue
    refine (BlockDraft.keeps_onScope (ScopeDraft.keeps_onStage hs)).bind fun e he ↦ ?_
    refine (BlockDraft.keeps_onScope (ScopeDraft.keeps_set _ e rfl haccumulator)).bind fun _ _ ↦ ?_
    exact (ih hrest).mono fun _ h ↦ List.forall_mem_cons.mpr ⟨he, h⟩

theorem keeps_mixBody (name : String) (dim : Dim)
    (hvalue : ∀ s ∈ sources, (value s.kind).Keeps (StageDraft.Shows o) fun _ ↦ P s.kind) :
    (mixBody name dim value sources).Keeps (BlockDraft.Inward o) fun _ ↦
      ∀ s ∈ sources, P s.kind := by
  refine (BlockDraft.keeps_output name _).bind fun out hout ↦ ?_
  refine (BlockDraft.keeps_bind _).bind fun accumulator hacc ↦ ?_
  refine (keeps_mixAll hacc hvalue).bind fun _ h ↦ ?_
  exact (BlockDraft.keeps_store hout _).bind fun _ _ ↦ .pure h

end Source

theorem PropertyValue.keeps_expr (value : PropertyValue) :
    (value.expr : Build σ StageDraft Expr).Keeps (StageDraft.Shows o) fun _ ↦ True := by
  cases value with
  | constant x => exact .pure trivial
  | uniform name => exact (StageDraft.keeps_declareUniform name _).bind fun _ _ ↦ .pure trivial
  | vertexAttribute name =>
    exact (StageDraft.keeps_declareAttribute name _ _).bind fun _ _ ↦ .pure trivial
  | texture sampler coords channel =>
    refine (StageDraft.keeps_declareUniform sampler _).bind fun map _ ↦ ?_
    refine (StageDraft.keeps_declareAttribute coords _ _).bind fun coord _ ↦ ?_
    cases channel? channel with
    | none => exact .throw _
    | some a => exact .pure trivial

theorem PropertySource.keeps_block (sources : List PropertySource) :
    (block sources : Build σ ScopeDraft Variable).Keeps (ScopeDraft.Inward o) fun _ ↦ True :=
  ScopeDraft.keeps_block _ (Source.keeps_mixBody (P := fun _ ↦ True) _ _
    fun s _ ↦ s.kind.keeps_expr).forget

/-- An inter-stage value has the name and the type to bring a vertex attribute to the fragment
stage. -/
def Variable.Brings (v : Variable) (a : String × ValueType) : Prop :=
  v.name = interStageName a.1 ∧ v.type = a.2

/-- A color is read from inter-stage values that have the names and types that it needs. -/
theorem ColorValue.keeps_expr {color : ColorValue}
    (hnames : ∀ a ∈ color.attribute?, ∃ v ∈ o.interStage, v.name = interStageName a.1) :
    (color.expr : Build σ StageDraft Expr).Keeps (StageDraft.Shows o) fun _ ↦
      ∀ a ∈ color.attribute?, ∃ v ∈ o.interStage, v.Brings a := by
  have hbrings {v : Variable} {a : String × ValueType}
      (hv : v ∈ o.interStage ∧ v.name = interStageName a.1 ∧ v.type = a.2) :
      ∀ a' ∈ some a, ∃ v ∈ o.interStage, v.Brings a' := by
    intro a' ha'
    obtain rfl := Option.some.inj ha'
    exact ⟨v, hv⟩
  cases color with
  | constant r g b a => exact .pure fun _ h ↦ (Option.not_mem_none _ h).elim
  | uniform name =>
    exact (StageDraft.keeps_declareUniform name _).bind fun _ _ ↦
      .pure fun _ h ↦ (Option.not_mem_none _ h).elim
  | vertexColor name =>
    exact (StageDraft.keeps_declareInterStage (hnames (name, _) rfl)).bind fun v hv ↦
      .pure (hbrings (a := (name, .float .four)) hv)
  | texture sampler coords =>
    refine (StageDraft.keeps_declareUniform sampler _).bind fun map _ ↦ ?_
    exact (StageDraft.keeps_declareInterStage (hnames (coords, _) rfl)).bind fun v hv ↦
      .pure (hbrings (a := (coords, .float .two)) hv)

theorem ColorSource.keeps_block {sources : List ColorSource}
    (hnames : ∀ s ∈ sources, ∀ a ∈ s.kind.attribute?,
      ∃ v ∈ o.interStage, v.name = interStageName a.1) :
    (block sources : Build σ ScopeDraft Variable).Keeps (ScopeDraft.Inward o) fun _ ↦
      ∀ s ∈ sources, ∀ a ∈ s.kind.attribute?, ∃ v ∈ o.interStage, v.Brings a := by
  refine ScopeDraft.keeps_block _ (.draft_bind fun b ↦ ?_)
  by_cases hkind : b.scope.stage.kind = .fragment
  · rw [if_pos hkind]
    exact Source.keeps_mixBody
      (P := fun color ↦ ∀ a ∈ color.attribute?, ∃ v ∈ o.interStage, v.Brings a) _ _
      fun s hs ↦ ColorValue.keeps_expr (hnames s hs)
  · rw [if_neg hkind]
    exact .throw _

/-! ## Skinning and morphing -/

theorem ArmatureBlend.keeps_block (b : ArmatureBlend) :
    (b.block : Build σ ScopeDraft Variable).Keeps (ScopeDraft.Inward o) fun _ ↦ True := by
  refine ScopeDraft.keeps_block _ ?_
  refine (BlockDraft.keeps_onScope (ScopeDraft.keeps_onShared
    (Resources.ends_declareArmature · b.maxBones))).bind fun data _ ↦ ?_
  refine (BlockDraft.keeps_input _ _ _).bind fun weights _ ↦ ?_
  refine (BlockDraft.keeps_input _ _ _).bind fun joints _ ↦ ?_
  refine (BlockDraft.keeps_output _ _).bind fun transform htransform ↦ ?_
  refine (Build.Keeps.ofExcept _).bind fun x _ ↦ ?_
  refine (Build.Keeps.ofExcept _).bind fun y _ ↦ ?_
  refine (Build.Keeps.ofExcept _).bind fun z _ ↦ ?_
  refine (Build.Keeps.ofExcept _).bind fun w _ ↦ ?_
  exact (BlockDraft.keeps_store htransform _).bind fun _ _ ↦ .pure trivial

namespace MorphBlend

/-- The variables of a vertex are those of scopes in a function. -/
structure VertexInner (v : MorphVertex) : Prop where
  position : v.position.Inner
  normal : v.normal.Inner
  tangent : v.tangent.Inner

variable {v : MorphVertex}

theorem exists_inner_target (hv : VertexInner v) (which : MorphTarget) :
    ∃ w, (target v which).root? = some w ∧ w.Inner := by
  cases which with
  | position => exact ⟨v.position, rfl, hv.position⟩
  | normal => exact ⟨v.normal, rfl, hv.normal⟩
  | tangent => exact ⟨v.tangent, rfl, hv.tangent⟩

theorem keeps_move (data : MorphWeightData) (hv : VertexInner v) (i : Nat)
    (attributes : List String) :
    (move data v i attributes : Build σ BlockDraft Unit).Keeps (BlockDraft.Inward o)
      fun _ ↦ True := by
  induction attributes generalizing i with
  | nil => exact .pure trivial
  | cons name rest ih =>
    refine (Build.Keeps.ofExcept _).bind fun weight _ ↦ ?_
    cases MorphTarget.ofAttribute? name with
    | none => exact ih (i + 1)
    | some which =>
      obtain ⟨w, hroot, hw⟩ := exists_inner_target hv which
      refine (BlockDraft.keeps_declareAttribute name _ _).bind fun offset _ ↦ ?_
      exact (BlockDraft.keeps_augment _ _ hroot hw).bind fun _ _ ↦ ih (i + 1)

theorem keeps_block (b : MorphBlend) :
    (b.block : Build σ ScopeDraft MorphVertex).Keeps (ScopeDraft.Inward o) fun _ ↦ True := by
  refine ScopeDraft.keeps_block _ ?_
  refine (BlockDraft.keeps_onScope (ScopeDraft.keeps_onShared
    Resources.ends_declareMorphWeights)).bind fun data _ ↦ ?_
  refine (BlockDraft.keeps_input _ _ _).bind fun inPosition _ ↦ ?_
  refine (BlockDraft.keeps_input _ _ _).bind fun inNormal _ ↦ ?_
  refine (BlockDraft.keeps_input _ _ _).bind fun inTangent _ ↦ ?_
  refine (BlockDraft.keeps_output _ _).bind fun outPosition houtPosition ↦ ?_
  refine (BlockDraft.keeps_output _ _).bind fun outNormal houtNormal ↦ ?_
  refine (BlockDraft.keeps_output _ _).bind fun outTangent houtTangent ↦ ?_
  refine (BlockDraft.keeps_bind _).bind fun position hposition ↦ ?_
  refine (BlockDraft.keeps_bind _).bind fun normal hnormal ↦ ?_
  refine (BlockDraft.keeps_bind _).bind fun tangent htangent ↦ ?_
  refine (keeps_move data ⟨hposition, hnormal, htangent⟩ 0 b.attributes).bind fun _ _ ↦ ?_
  refine (BlockDraft.keeps_store houtPosition _).bind fun _ _ ↦ ?_
  refine (BlockDraft.keeps_store houtNormal _).bind fun _ _ ↦ ?_
  exact (BlockDraft.keeps_store houtTangent _).bind fun _ _ ↦ .pure trivial

end MorphBlend

namespace VertexTransform

/-- The state of a transform is in variables of scopes in a function. -/
structure StateInner (v : VertexState) : Prop where
  model : v.model.Inner
  position : v.position.Inner
  normal : v.normal.Inner
  tangent : v.tangent.Inner

variable {v : VertexState}

theorem keeps_when {on : Bool} {act : Build σ BlockDraft Unit}
    (hact : act.Keeps (BlockDraft.Inward o) fun _ ↦ True) :
    (when on act).Keeps (BlockDraft.Inward o) fun _ ↦ True := by
  cases on with
  | false => exact .pure trivial
  | true => exact hact

theorem keeps_applyInstance (hv : StateInner v) :
    (applyInstance v : Build σ BlockDraft Unit).Keeps (BlockDraft.Inward o) fun _ ↦ True := by
  refine (BlockDraft.keeps_declareAttribute _ _ _).bind fun matrix _ ↦ ?_
  exact BlockDraft.keeps_augment _ _ rfl hv.model

theorem keeps_applyArmature (maxBones : Nat) (hv : StateInner v) :
    (applyArmature maxBones v : Build σ BlockDraft Unit).Keeps (BlockDraft.Inward o)
      fun _ ↦ True := by
  refine (BlockDraft.keeps_declareAttribute _ _ _).bind fun weights _ ↦ ?_
  refine (BlockDraft.keeps_declareAttribute _ _ _).bind fun joints _ ↦ ?_
  refine (BlockDraft.keeps_onScope (ArmatureBlend.keeps_block _)).bind fun transform _ ↦ ?_
  exact BlockDraft.keeps_augment _ _ rfl hv.model

theorem keeps_applyMorph (attributes : List String) (hv : StateInner v) :
    (applyMorph attributes v : Build σ BlockDraft Unit).Keeps (BlockDraft.Inward o)
      fun _ ↦ True := by
  refine (BlockDraft.keeps_onScope (MorphBlend.keeps_block _)).bind fun morphed _ ↦ ?_
  refine (BlockDraft.keeps_store hv.position _).bind fun _ _ ↦ ?_
  refine (BlockDraft.keeps_store hv.normal _).bind fun _ _ ↦ ?_
  exact BlockDraft.keeps_store hv.tangent _

theorem keeps_applyDisplacement (sources : List PropertySource) (hv : StateInner v) :
    (applyDisplacement sources v : Build σ BlockDraft Unit).Keeps (BlockDraft.Inward o)
      fun _ ↦ True := by
  refine (BlockDraft.keeps_onScope (PropertySource.keeps_block sources)).bind
    fun displacement _ ↦ ?_
  exact BlockDraft.keeps_augment _ _ rfl hv.position

theorem keeps_body (t : VertexTransform) :
    (t.body : Build σ BlockDraft VertexState).Keeps (BlockDraft.Inward o) fun _ ↦ True := by
  refine .draft_bind fun b ↦ ?_
  by_cases hkind : b.scope.stage.kind = .vertex
  · rw [if_pos hkind]
    refine (BlockDraft.keeps_input _ _ _).bind fun inModel _ ↦ ?_
    refine (BlockDraft.keeps_input _ _ _).bind fun inPosition _ ↦ ?_
    refine (BlockDraft.keeps_input _ _ _).bind fun inNormal _ ↦ ?_
    refine (BlockDraft.keeps_input _ _ _).bind fun inTangent _ ↦ ?_
    refine (BlockDraft.keeps_output _ _).bind fun outModel houtModel ↦ ?_
    refine (BlockDraft.keeps_output _ _).bind fun outPosition houtPosition ↦ ?_
    refine (BlockDraft.keeps_output _ _).bind fun outNormal houtNormal ↦ ?_
    refine (BlockDraft.keeps_output _ _).bind fun outTangent houtTangent ↦ ?_
    refine (BlockDraft.keeps_bind _).bind fun model hmodel ↦ ?_
    refine (BlockDraft.keeps_bind _).bind fun position hposition ↦ ?_
    refine (BlockDraft.keeps_bind _).bind fun normal hnormal ↦ ?_
    refine (BlockDraft.keeps_bind _).bind fun tangent htangent ↦ ?_
    have hv : StateInner ⟨model, position, normal, tangent⟩ :=
      ⟨hmodel, hposition, hnormal, htangent⟩
    refine (keeps_when (keeps_applyInstance hv)).bind fun _ _ ↦ ?_
    refine (keeps_when (keeps_applyArmature _ hv)).bind fun _ _ ↦ ?_
    refine (keeps_when (keeps_applyMorph _ hv)).bind fun _ _ ↦ ?_
    refine (keeps_when (keeps_applyDisplacement _ hv)).bind fun _ _ ↦ ?_
    refine (BlockDraft.keeps_store houtModel _).bind fun _ _ ↦ ?_
    refine (BlockDraft.keeps_store houtPosition _).bind fun _ _ ↦ ?_
    refine (BlockDraft.keeps_store houtNormal _).bind fun _ _ ↦ ?_
    exact (BlockDraft.keeps_store houtTangent _).bind fun _ _ ↦ .pure trivial
  · rw [if_neg hkind]
    exact .throw _

theorem keeps_block (t : VertexTransform) :
    (t.block : Build σ ScopeDraft VertexState).Keeps (ScopeDraft.Inward o) fun _ ↦ True :=
  ScopeDraft.keeps_block _ t.keeps_body

end VertexTransform

end ShaderGraph
