import ShaderGraph.Proofs.Kit.Blocks

/-!
# Following the vertex transform

The blocks of the vertex transform give variables that the scope around them
can use, so they can be steps of one another.
-/

namespace ShaderGraph

variable {σ : Type} {C : Client σ} {R : Registry}

namespace ArmatureBlend

variable {data : ArmatureData} {joints weights : Expr}

/-- The transform of a joint is a matrix, since the table of joints is an array of these. -/
theorem type_jointTransform {index transform : Expr}
    (htype : data.joints.type = ArmatureData.uniformType data.maxBones)
    (h : data.jointTransform index = .ok transform) : transform.type = .matrix .four := by
  obtain ⟨-, h⟩ := unit_bind_eq_ok.mp h
  have hlookup : Expr.lookupType? (Expr.var data.joints).type =
      some (.matrix .four, data.maxBones) := by
    rw [Expr.type_var, htype]
    rfl
  rw [hlookup] at h
  obtain ⟨-, h⟩ := unit_bind_eq_ok.mp h
  exact Except.ok.inj h ▸ rfl

/-- The armature, the joint numbers and the weights that terms are made of. -/
structure TermKnown (R : Registry) (data : ArmatureData) (joints weights : Expr) : Prop where
  table : data.joints ∈ R.vars ∧ data.joints.type = ArmatureData.uniformType data.maxBones
  joints : joints.Known R ∧ joints.type = .int .four
  weights : weights.Known R ∧ weights.type = .float .four

theorem TermKnown.mono (h : TermKnown R data joints weights) {R₁ : Registry} (hR : R ≤ R₁) :
    TermKnown R₁ data joints weights where
  table := h.table.imp_left (Registry.mem_vars hR)
  joints := h.joints.imp_left (Expr.Known.mono · hR)
  weights := h.weights.imp_left (Expr.Known.mono · hR)

theorem known_term {a : Selector} {e : Expr} (hknown : TermKnown R data joints weights)
    (h : term data joints weights a = .ok e) : e.Known R ∧ e.type = .matrix .four := by
  unfold term at h
  cases htransform : data.jointTransform (.swizzle (.int .one) joints (.one a)) with
  | error err =>
    rw [htransform] at h
    cases h
  | ok transform =>
    rw [htransform] at h
    obtain rfl := Except.ok.inj h
    have hindex : (Expr.swizzle (.int .one) joints (.one a)).Known R :=
      .swizzle_of_type hknown.joints.1 hknown.joints.2 (by cases a <;> rfl)
    have htype := type_jointTransform hknown.table.2 htransform
    have htransform : transform.Known R := .element (.var hknown.table.1) hindex htransform
    have hweight := hknown.weights.1.floatPart hknown.weights.2 a
    exact ⟨.binary_of_type htransform hweight htype rfl rfl, rfl⟩

theorem traced_term (a : Selector) (hknown : TermKnown R data joints weights) :
    Traced C R (Build.ofExcept (term data joints weights a) : Build σ BlockDraft Expr)
      (fun R' e ↦ e.Known R' ∧ e.type = .matrix .four) :=
  .ofExcept fun _ _ hR he ↦ known_term (hknown.mono hR) he

theorem known_plus {x y : Expr} (hx : x.Known R ∧ x.type = .matrix .four)
    (hy : y.Known R ∧ y.type = .matrix .four) :
    (Expr.plus (.matrix .four) x y).Known R ∧
      (Expr.plus (.matrix .four) x y).type = .matrix .four :=
  ⟨.binary_of_type hx.1 hy.1 hx.2 hy.2 rfl, rfl⟩

theorem traced_body {b : ArmatureBlend} (hweights : b.weights.Known R)
    (hjoints : b.joints.Known R) :
    Traced C R b.body (fun R' v ↦ v ∈ R'.vars ∧ v.type = .matrix .four) := by
  have hes : R.KnowsAll [b.weights, b.joints] := by
    simpa [Registry.KnowsAll] using ⟨hweights, hjoints⟩
  refine hes.bind_expr (fun data ↦ .var data.joints)
    ((Resources.traced_declareArmature b.maxBones).onShared.onScope.mono
      fun _ _ _ h ↦ h.imp_left .var) fun R₁ data _ htable hes ↦ ?_
  refine hes.bind_variable (BlockDraft.traced_input ?_) fun R₂ inWeights _ hweights hes ↦ ?_
  · exact fun e he ↦ Option.some.inj he ▸ hes b.weights (by simp)
  refine hes.bind_variable (BlockDraft.traced_input ?_) fun R₃ inJoints _ hjoints hes ↦ ?_
  · exact fun e he ↦ Option.some.inj he ▸ hes b.joints (by simp)
  refine hes.bind_variable (BlockDraft.traced_output _ _) fun R₄ transform _ htransform hes ↦ ?_
  -- The four summands are made of the same three expressions.
  have hterm : TermKnown R₄ data (.var inJoints) (.var inWeights) := {
    table := ⟨(hes (.var data.joints) (by simp)).of_var, htable⟩
    joints := ⟨hes (.var inJoints) (by simp), hjoints⟩
    weights := ⟨hes (.var inWeights) (by simp), hweights⟩ }
  refine hes.bind_expr id (traced_term .x hterm) fun R₅ x hR₅ hx hes ↦ ?_
  have hterm := hterm.mono hR₅
  refine hes.bind_expr id (traced_term .y hterm) fun R₆ y hR₆ hy hes ↦ ?_
  have hterm := hterm.mono hR₆
  refine hes.bind_expr id (traced_term .z hterm) fun R₇ z hR₇ hz hes ↦ ?_
  have hterm := hterm.mono hR₇
  refine hes.bind_expr id (traced_term .w hterm) fun R₈ w _ hw hes ↦ ?_
  have hsum := known_plus (known_plus (known_plus ⟨hes x (by simp), hx⟩ ⟨hes y (by simp), hy⟩)
    ⟨hes z (by simp), hz⟩) ⟨hes w (by simp), hw⟩
  have hout := hes (.var transform) (by simp)
  refine (ScopeDraft.traced_assign hout hsum.1).onScope.bind fun R₉ _ hR₉ _ ↦ ?_
  exact .pure fun R' hR' ↦ ⟨(hout.mono (hR₉.trans hR')).of_var, htransform⟩

theorem traced_block {b : ArmatureBlend} (hweights : b.weights.Known R)
    (hjoints : b.joints.Known R) :
    Traced C R b.block (fun R' v ↦ v ∈ R'.vars ∧ v.type = .matrix .four) :=
  ScopeDraft.traced_block _ (traced_body hweights hjoints)

end ArmatureBlend

namespace MorphBlend

/-- The weights of morph targets are in uniforms of four floats each. -/
def WeightsKnown (R : Registry) (data : MorphWeightData) : Prop :=
  ∀ w ∈ [data.weightsA, data.weightsB], w ∈ R.vars ∧ w.type = MorphWeightData.uniformType

structure VertexKnown (R : Registry) (v : MorphVertex) : Prop where
  known : R.KnowsAll [.var v.position, .var v.normal, .var v.tangent]
  tangent : v.tangent.type = .float .four

variable {v : MorphVertex} {data : MorphWeightData}

theorem WeightsKnown.mono (h : WeightsKnown R data) {R₁ : Registry} (hR : R ≤ R₁) :
    WeightsKnown R₁ data :=
  fun w hw ↦ (h w hw).imp_left (Registry.mem_vars hR)

theorem VertexKnown.mono (h : VertexKnown R v) {R₁ : Registry} (hR : R ≤ R₁) : VertexKnown R₁ v :=
  ⟨h.known.mono hR, h.tangent⟩

theorem known_target (hv : VertexKnown R v) (which : MorphTarget) : (target v which).Known R := by
  cases which with
  | position => exact hv.known (.var v.position) (by simp)
  | normal => exact hv.known (.var v.normal) (by simp)
  | tangent => exact (hv.known (.var v.tangent) (by simp)).firstThree hv.tangent

theorem known_weight {i : Nat} {e : Expr} (hdata : WeightsKnown R data)
    (h : data.weight i = .ok e) : e.Known R ∧ e.type = .float .one := by
  have hfour : (Expr.var (if i < 4 then data.weightsA else data.weightsB)).type = .float .four := by
    rw [Expr.type_var]
    split
    · exact (hdata data.weightsA (by simp)).2
    · exact (hdata data.weightsB (by simp)).2
  refine ⟨.weight (hdata _ (by simp)).1 (hdata _ (by simp)).1 h, ?_⟩
  unfold MorphWeightData.weight at h
  split at h
  · cases h
  · have hone : (Swizzle.one (MorphWeightData.componentOf i)).resultType (.float .four) =
        .ok (.float .one) := by
      cases MorphWeightData.componentOf i <;> rfl
    rw [Expr.select, hfour, hone] at h
    exact Except.ok.inj h ▸ rfl

theorem traced_move (attributes : List String) (i : Nat) (hdata : WeightsKnown R data)
    (hv : VertexKnown R v) : Traced C R (move data v i attributes) (fun _ _ ↦ True) := by
  induction attributes generalizing i R with
  | nil => exact .pure fun _ _ ↦ trivial
  | cons name rest ih =>
    have hrest {R₁ : Registry} (hR : R ≤ R₁) :
        Traced C R₁ (move data v (i + 1) rest) (fun _ _ ↦ True) :=
      ih (i + 1) (hdata.mono hR) (hv.mono hR)
    refine Traced.bind (P := fun R' e ↦ e.Known R' ∧ e.type = .float .one)
      (.ofExcept fun R' e hR he ↦ known_weight (hdata.mono hR) he) fun R₁ weight hR₁ hweight ↦ ?_
    cases MorphTarget.ofAttribute? name with
    | none => exact hrest hR₁
    | some which =>
      refine (StageDraft.traced_declareAttribute name _ _).onStage.onScope.bind
        fun R₂ offset hR₂ hoffset ↦ ?_
      have htarget := known_target (hv.mono (hR₁.trans hR₂)) which
      have hvalue : (Expr.times (.float .three) (.var offset) weight).Known R₂ :=
        .binary_of_type (.var hoffset.1) (hweight.1.mono hR₂) hoffset.2.2 hweight.2 rfl
      exact (ScopeDraft.traced_augment .add htarget hvalue).onScope.bind
        fun R₃ _ hR₃ _ ↦ hrest (hR₁.trans (hR₂.trans hR₃))

theorem traced_body {b : MorphBlend} (hb : R.KnowsAll [b.position, b.normal, b.tangent]) :
    Traced C R b.body VertexKnown := by
  refine Resources.traced_declareMorphWeights.onShared.onScope.bind fun R₁ data hR₁ hdata ↦ ?_
  have hes := ((hb.mono hR₁).cons le_rfl (hdata data.weightsB (by simp)).1).cons le_rfl
    (hdata data.weightsA (by simp)).1
  refine hes.bind_variable (BlockDraft.traced_input ?_) fun R₂ inPosition _ _ hes ↦ ?_
  · exact fun e he ↦ Option.some.inj he ▸ hes b.position (by simp)
  refine hes.bind_variable (BlockDraft.traced_input ?_) fun R₃ inNormal _ _ hes ↦ ?_
  · exact fun e he ↦ Option.some.inj he ▸ hes b.normal (by simp)
  refine hes.bind_variable (BlockDraft.traced_input ?_) fun R₄ inTangent _ hinTangent hes ↦ ?_
  · exact fun e he ↦ Option.some.inj he ▸ hes b.tangent (by simp)
  refine hes.bind_variable (BlockDraft.traced_output _ _) fun R₅ outPosition _ _ hes ↦ ?_
  refine hes.bind_variable (BlockDraft.traced_output _ _) fun R₆ outNormal _ _ hes ↦ ?_
  refine hes.bind_variable (BlockDraft.traced_output _ _) fun R₇ outTangent _ houtTangent hes ↦ ?_
  refine hes.bind_variable (ScopeDraft.traced_bind (hes (.var inPosition) (by simp))).onScope
    fun R₈ position _ _ hes ↦ ?_
  refine hes.bind_variable (ScopeDraft.traced_bind (hes (.var inNormal) (by simp))).onScope
    fun R₉ normal _ _ hes ↦ ?_
  refine hes.bind_variable (ScopeDraft.traced_bind (hes (.var inTangent) (by simp))).onScope
    fun R₁₀ tangent _ htangent hes ↦ ?_
  have hmove : Traced C R₁₀ (move data ⟨position, normal, tangent⟩ 0 b.attributes)
      (fun _ _ ↦ True) := by
    refine traced_move _ _ (fun w hw ↦ ⟨?_, (hdata w hw).2⟩)
      ⟨fun e he ↦ hes e ?_, htangent.trans hinTangent⟩
    · refine (hes (.var w) ?_).of_var
      simp only [List.mem_cons, List.not_mem_nil, or_false] at hw
      rcases hw with rfl | rfl <;> simp
    · simp only [List.mem_cons, List.not_mem_nil, or_false] at he ⊢
      grind
  refine hes.bind_unit hmove fun R₁₁ _ _ hes ↦ ?_
  have hassign {R' : Registry} {target value : Variable} (ht : (Expr.var target).Known R')
      (hv : (Expr.var value).Known R') : Traced C R' (Build.onScope
        (ScopeDraft.assign (.var target) (.var value))) (fun _ _ ↦ True) :=
    (ScopeDraft.traced_assign ht hv).onScope
  refine hes.bind_unit (hassign (hes (.var outPosition) (by simp)) (hes (.var position) (by simp)))
    fun R₁₂ _ _ hes ↦ ?_
  refine hes.bind_unit (hassign (hes (.var outNormal) (by simp)) (hes (.var normal) (by simp)))
    fun R₁₃ _ _ hes ↦ ?_
  refine hes.bind_unit (hassign (hes (.var outTangent) (by simp)) (hes (.var tangent) (by simp)))
    fun R₁₄ _ _ hes ↦ ?_
  refine .pure fun R' hR' ↦ ⟨fun e he ↦ hes.mono hR' e ?_, houtTangent⟩
  simp only [List.mem_cons, List.not_mem_nil, or_false] at he ⊢
  grind

theorem traced_block {b : MorphBlend} (hb : R.KnowsAll [b.position, b.normal, b.tangent]) :
    Traced C R b.block VertexKnown :=
  ScopeDraft.traced_block _ (traced_body hb)

end MorphBlend

/-! ## The steps of a transform -/

namespace VertexTransform

structure StateKnown (R : Registry) (v : VertexState) : Prop where
  known : R.KnowsAll [.var v.model, .var v.position, .var v.normal, .var v.tangent]
  position : v.position.type = .float .three
  normal : v.normal.type = .float .three

variable {v : VertexState}

theorem traced_applyInstance (hv : StateKnown R v) :
    Traced C R (applyInstance v) (fun _ _ ↦ True) := by
  refine hv.known.bind_variable
    (StageDraft.traced_declareAttribute _ _ _).onStage.onScope fun R₁ matrix _ _ hes ↦ ?_
  exact (ScopeDraft.traced_augment .mul (hes (.var v.model) (by simp))
    (hes (.var matrix) (by simp))).onScope

theorem traced_applyArmature (maxBones : Nat) (hv : StateKnown R v) :
    Traced C R (applyArmature maxBones v) (fun _ _ ↦ True) := by
  refine hv.known.bind_variable
    (StageDraft.traced_declareAttribute _ _ _).onStage.onScope fun R₁ weights _ _ hes ↦ ?_
  refine hes.bind_variable (StageDraft.traced_declareAttribute _ _ _).onStage.onScope
    fun R₂ joints _ _ hes ↦ ?_
  have hblock := ArmatureBlend.traced_block (C := C) (b := ⟨.var weights, .var joints, maxBones⟩)
    (hes (.var weights) (by simp)) (hes (.var joints) (by simp))
  refine hes.bind_variable hblock.onScope fun R₃ transform _ _ hes ↦ ?_
  exact (ScopeDraft.traced_augment .mul (hes (.var v.model) (by simp))
    (hes (.var transform) (by simp))).onScope

theorem traced_applyMorph (attributes : List String) (hv : StateKnown R v) :
    Traced C R (applyMorph attributes v) (fun _ _ ↦ True) := by
  have hblock : Traced C R
      (MorphBlend.block ⟨attributes, .var v.position, .var v.normal, .var v.tangent⟩)
      MorphBlend.VertexKnown :=
    MorphBlend.traced_block fun e he ↦ hv.known e (List.mem_cons_of_mem _ he)
  refine hblock.onScope.bind fun R₁ morphed hR₁ hmorphed ↦ ?_
  have hv₁ := hv.known.mono hR₁
  have hmorphed := hmorphed.known
  refine hv₁.bind_unit (ScopeDraft.traced_assign (hv₁ (.var v.position) (by simp))
    (hmorphed (.var morphed.position) (by simp))).onScope fun R₂ _ hR₂ hv₂ ↦ ?_
  have hmorphed₂ := hmorphed.mono hR₂
  refine hv₂.bind_unit (ScopeDraft.traced_assign (hv₂ (.var v.normal) (by simp))
    (hmorphed₂ (.var morphed.normal) (by simp))).onScope fun R₃ _ hR₃ hv₃ ↦ ?_
  exact (ScopeDraft.traced_assign (hv₃ (.var v.tangent) (by simp))
    (hmorphed₂.mono hR₃ (.var morphed.tangent) (by simp))).onScope

theorem traced_applyDisplacement (sources : List PropertySource) (hv : StateKnown R v) :
    Traced C R (applyDisplacement sources v) (fun _ _ ↦ True) := by
  refine hv.known.bind_variable (PropertySource.traced_block sources).onScope
    fun R₁ displacement _ htype hes ↦ ?_
  have hnormal := (hes (.var v.normal) (by simp)).normalized hv.normal
  have hdisplacement := hes (.var displacement) (by simp)
  exact (ScopeDraft.traced_augment .add (hes (.var v.position) (by simp))
    (.binary_of_type hnormal hdisplacement rfl htype rfl)).onScope

theorem traced_when {on : Bool} {act : Build σ BlockDraft Unit}
    (hact : Traced C R act (fun _ _ ↦ True)) : Traced C R (when on act) (fun _ _ ↦ True) := by
  cases on with
  | false => exact .pure fun _ _ ↦ trivial
  | true => exact hact

theorem traced_steps_bind {β : Type} {config : VertexConfig} {es : List Expr}
    {f : Unit → Build σ BlockDraft β} {Q : Registry → β → Prop} (hes : R.KnowsAll es)
    (hv : ∀ e ∈ [Expr.var v.model, .var v.position, .var v.normal, .var v.tangent], e ∈ es)
    (hposition : v.position.type = .float .three) (hnormal : v.normal.type = .float .three)
    (hf : ∀ R₁, R ≤ R₁ → R₁.KnowsAll es → Traced C R₁ (f ()) Q) :
    Traced C R (do
      when config.instanced (applyInstance v)
      when config.skinned (applyArmature config.maxBones v)
      when (!config.morphAttributes.isEmpty) (applyMorph config.morphAttributes v)
      let u ← when (!PropertySource.isEmptyOrConst .zero config.displacement)
        (applyDisplacement config.displacement v)
      f u) Q := by
  have hknown {R₁ : Registry} (hes : R₁.KnowsAll es) : StateKnown R₁ v :=
    ⟨fun e he ↦ hes e (hv e he), hposition, hnormal⟩
  refine hes.bind_unit (traced_when (traced_applyInstance (hknown hes))) fun R₁ _ hR₁ hes ↦ ?_
  refine hes.bind_unit (traced_when (traced_applyArmature _ (hknown hes))) fun R₂ _ hR₂ hes ↦ ?_
  refine hes.bind_unit (traced_when (traced_applyMorph _ (hknown hes))) fun R₃ _ hR₃ hes ↦ ?_
  refine hes.bind_unit (traced_when (traced_applyDisplacement _ (hknown hes)))
    fun R₄ _ hR₄ hes ↦ ?_
  exact hf R₄ (hR₁.trans (hR₂.trans (hR₃.trans hR₄))) hes

theorem known_toWorld {e : Expr} (hmodel : (Expr.var v.model).Known R)
    (hmodelType : v.model.type = .matrix .four) (he : e.Known R) (htype : e.type = .float .four) :
    (toWorld v e).Known R := by
  have hproduct : (Expr.times (.float .four) (.var v.model) e).Known R :=
    .binary_of_type hmodel he hmodelType htype rfl
  exact hproduct.firstThree rfl

structure InputsKnown (R : Registry) (t : VertexTransform) : Prop where
  model : t.model.Known R
  position : t.position.Known R
  normal : ∀ e ∈ t.normal, e.Known R
  tangent : ∀ e ∈ t.tangent, e.Known R

theorem known_getD {e : Option Expr} {dim : Dim} (he : ∀ e' ∈ e, e'.Known R) :
    (e.getD (.zeros dim)).Known R := by
  cases e with
  | none => exact .lit _
  | some e => exact he e rfl

theorem traced_body {t : VertexTransform} (ht : InputsKnown R t) :
    Traced C R t.body StateKnown := by
  refine Traced.getDraft.bind fun R₀ b hR₀ _ ↦ ?_
  split
  case isFalse => exact .throw
  have hes : R₀.KnowsAll [t.model, t.position, t.normal.getD (.zeros .three),
      t.tangent.getD (.zeros .four)] := by
    intro e he
    simp only [List.mem_cons, List.not_mem_nil, or_false] at he
    rcases he with rfl | rfl | rfl | rfl
    · exact ht.model.mono hR₀
    · exact ht.position.mono hR₀
    · exact (known_getD ht.normal).mono hR₀
    · exact (known_getD ht.tangent).mono hR₀
  refine hes.bind_variable (BlockDraft.traced_input ?_) fun R₁ inModel _ hinModel hes ↦ ?_
  · exact fun e he ↦ Option.some.inj he ▸ hes t.model (by simp)
  refine hes.bind_variable (BlockDraft.traced_input ?_) fun R₂ inPosition _ hinPosition hes ↦ ?_
  · exact fun e he ↦ Option.some.inj he ▸ hes t.position (by simp)
  refine hes.bind_variable (BlockDraft.traced_input ?_) fun R₃ inNormal _ hinNormal hes ↦ ?_
  · exact fun e he ↦ Option.some.inj he ▸ hes (t.normal.getD (.zeros .three)) (by simp)
  refine hes.bind_variable (BlockDraft.traced_input ?_) fun R₄ inTangent _ hinTangent hes ↦ ?_
  · exact fun e he ↦ Option.some.inj he ▸ hes (t.tangent.getD (.zeros .four)) (by simp)
  refine hes.bind_variable (BlockDraft.traced_output _ _) fun R₅ outModel _ _ hes ↦ ?_
  refine hes.bind_variable (BlockDraft.traced_output _ _)
    fun R₆ outPosition _ houtPosition hes ↦ ?_
  refine hes.bind_variable (BlockDraft.traced_output _ _) fun R₇ outNormal _ houtNormal hes ↦ ?_
  refine hes.bind_variable (BlockDraft.traced_output _ _) fun R₈ outTangent _ _ hes ↦ ?_
  refine hes.bind_variable (ScopeDraft.traced_bind (hes (.var inModel) (by simp))).onScope
    fun R₉ model _ hmodel hes ↦ ?_
  refine hes.bind_variable (ScopeDraft.traced_bind (hes (.var inPosition) (by simp))).onScope
    fun R₁₀ position _ hposition hes ↦ ?_
  refine hes.bind_variable (ScopeDraft.traced_bind (hes (.var inNormal) (by simp))).onScope
    fun R₁₁ normal _ hnormal hes ↦ ?_
  refine hes.bind_variable (ScopeDraft.traced_bind (hes (.var inTangent) (by simp))).onScope
    fun R₁₂ tangent _ htangent hes ↦ ?_
  have hmodel : model.type = .matrix .four := hmodel.trans hinModel
  have hposition : position.type = .float .three := hposition.trans hinPosition
  have hnormal : normal.type = .float .three := hnormal.trans hinNormal
  have htangent : tangent.type = .float .four := htangent.trans hinTangent
  refine traced_steps_bind (v := ⟨model, position, normal, tangent⟩) hes (by simp) hposition
    hnormal fun R₁₃ _ hes ↦ ?_
  -- The values that are assigned are made of the model matrix and one more vector each.
  have hworld {R' : Registry} {e : Expr} (hes : (Expr.var model).Known R') (he : e.Known R')
      (htype : e.type = .float .four) :
      (toWorld ⟨model, position, normal, tangent⟩ e).Known R' :=
    known_toWorld hes hmodel he htype
  refine hes.bind_unit (ScopeDraft.traced_assign (hes (.var outModel) (by simp))
    (hes (.var model) (by simp))).onScope fun R₁₄ _ _ hes ↦ ?_
  refine hes.bind_unit (ScopeDraft.traced_assign (hes (.var outPosition) (by simp))
    (hworld (hes (.var model) (by simp))
      ((hes (.var position) (by simp)).extend (.lit _) hposition rfl) rfl)).onScope
    fun R₁₅ _ _ hes ↦ ?_
  have hdirection : ((Expr.var normal).extend (.floatLit .zero)).Known R₁₅ :=
    (hes (.var normal) (by simp)).extend (.lit _) hnormal rfl
  have hworldNormal := hworld (hes (.var model) (by simp)) hdirection rfl
  refine hes.bind_unit (ScopeDraft.traced_assign (hes (.var outNormal) (by simp))
    (hworldNormal.normalized rfl)).onScope fun R₁₆ _ _ hes ↦ ?_
  have hworldTangent := hworld (hes (.var model) (by simp)) (hes (.var tangent) (by simp)) htangent
  have hsign := (hes (.var inTangent) (by simp)).floatPart hinTangent .w
  refine hes.bind_unit (ScopeDraft.traced_assign (hes (.var outTangent) (by simp))
    (hworldTangent.extend hsign rfl rfl)).onScope fun R₁₇ _ _ hes ↦ ?_
  refine .pure fun R' hR' ↦ ⟨fun e he ↦ hes.mono hR' e ?_, houtPosition, houtNormal⟩
  simp only [List.mem_cons, List.not_mem_nil, or_false] at he ⊢
  grind

theorem traced_block {t : VertexTransform} (ht : InputsKnown R t) :
    Traced C R t.block StateKnown :=
  ScopeDraft.traced_block _ (traced_body ht)

end VertexTransform

end ShaderGraph
