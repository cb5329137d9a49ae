import ShaderGraph.Kit.Vertex
import ShaderGraph.Proofs.Kit.Sources

/-!
# Vertex transforms that are not rejected

Each step of a transform works on variables that the transform has made for
itself, and all that it assigns is of their types. So what is left is names
that are taken, more morph attributes than there are weights, and channels that
no texture has.
-/

namespace ShaderGraph

variable {σ : Type} {E : BuildError → Prop} {bones m n : Nat} {p : Place} {id : ScopeId}

namespace ArmatureBlend

variable {data : ArmatureData} {joints weights : Expr} {t : ValueType}

theorem term_eq_ok (hscope : data.joints.scope = .program)
    (htype : data.joints.type = ArmatureData.uniformType data.maxBones)
    (hjoints : p.Usable t joints) (hweights : p.Usable (.float .four) weights) (a : Selector) :
    ∃ e, term data joints weights a = .ok e ∧ p.Usable (.matrix .four) e := by
  have hindex := hjoints.swizzle (.int .one) (.one a)
  have htransform : data.jointTransform (.swizzle (.int .one) joints (.one a)) =
      .ok (.lookup (.matrix .four) (.var data.joints) (.swizzle (.int .one) joints (.one a))) := by
    unfold ArmatureData.jointTransform Expr.element
    rw [Expr.type_var, htype]
    rfl
  refine ⟨_, by rw [term, htransform], ?_⟩
  have hlookup := (Place.Usable.var (Place.sees_program hscope)).lookup hindex (.matrix .four)
  exact hlookup.times (hweights.floatPart a) _

theorem yields_block (hE : ∀ name, E (.nameTaken name)) {b : ArmatureBlend}
    (hbones : b.maxBones = bones) (hweights : p.Usable (.float .four) b.weights)
    (hjoints : p.Usable (.int .four) b.joints) {s : ScopeDraft} (hs : s.Good bones p m) :
    (b.block : Build σ ScopeDraft Variable).Yields E s fun v s' ↦
      s'.Good bones p m ∧ p.Local m (.matrix .four) v := by
  subst hbones
  refine ScopeDraft.yields_block hs _ fun id b₀ hb₀ ↦ ?_
  refine (BlockDraft.yields_onShared hb₀
    (Resources.yields_declareArmature hE hb₀.scope.tidy.resources)).bind fun data b₁ h₁ ↦ ?_
  obtain ⟨hb₁, hscope, htype⟩ := h₁
  refine (BlockDraft.yields_input hE hb₁ _ hweights).bind fun weights b₂ h₂ ↦ ?_
  obtain ⟨hb₂, hweights⟩ := h₂
  refine (BlockDraft.yields_input hE hb₂ _ hjoints).bind fun joints b₃ h₃ ↦ ?_
  obtain ⟨hb₃, hjoints⟩ := h₃
  refine (BlockDraft.yields_output hE hb₃ _ _).bind fun transform b₄ h₄ ↦ ?_
  obtain ⟨hb₄, htransform⟩ := h₄
  obtain ⟨x, hx, hxUsable⟩ := term_eq_ok hscope htype hjoints hweights .x
  obtain ⟨y, hy, hyUsable⟩ := term_eq_ok hscope htype hjoints hweights .y
  obtain ⟨z, hz, hzUsable⟩ := term_eq_ok hscope htype hjoints hweights .z
  obtain ⟨w, hw, hwUsable⟩ := term_eq_ok hscope htype hjoints hweights .w
  have hsum := ((hxUsable.plus hyUsable (.matrix .four)).plus hzUsable (.matrix .four)).plus
    hwUsable (.matrix .four)
  refine .ofExcept_bind hx (.ofExcept_bind hy (.ofExcept_bind hz (.ofExcept_bind hw ?_)))
  refine (BlockDraft.yields_assignOutput hb₄.working htransform hsum).bind fun _ b₅ hb₅ ↦ ?_
  exact .pure ⟨hb₅.finished hb₄.numbered hb₄.scope.count, htransform⟩

end ArmatureBlend

namespace MorphBlend

variable {data : MorphWeightData} {v : MorphVertex} {b : BlockDraft} {outs : List Variable}

/-- The vertex of a morph, in variables made from a number on. -/
structure Locals (p : Place) (m : Nat) (v : MorphVertex) : Prop where
  position : p.Local m (.float .three) v.position
  normal : p.Local m (.float .three) v.normal
  tangent : p.Local m (.float .four) v.tangent

/-- Whichever property is moved, three components of a variable are. -/
theorem Locals.target (hv : Locals p m v) (which : MorphTarget) :
    p.Usable (.float .three) (target v which) ∧
      ∃ w, (MorphBlend.target v which).root? = some w ∧ p.Takes w ∧ m ≤ w.id := by
  cases which with
  | position => exact ⟨hv.position.usable, v.position, rfl, hv.position.toTakes, hv.position.id⟩
  | normal => exact ⟨hv.normal.usable, v.normal, rfl, hv.normal.toTakes, hv.normal.id⟩
  | tangent =>
    exact ⟨hv.tangent.usable.firstThree, v.tangent, rfl, hv.tangent.toTakes, hv.tangent.id⟩

theorem weight_eq_ok (hdata : ∀ w ∈ [data.weightsA, data.weightsB],
      w.scope = .program ∧ w.type = MorphWeightData.uniformType) {i : Nat}
    (hi : i < MorphWeightData.capacity) :
    ∃ e, data.weight i = .ok e ∧ p.Usable (.float .one) e := by
  have hregister : ∃ w ∈ [data.weightsA, data.weightsB],
      (if i < 4 then data.weightsA else data.weightsB) = w := by
    split <;> simp
  obtain ⟨w, hw, heq⟩ := hregister
  obtain ⟨hscope, htype⟩ := hdata w hw
  have hone : (Swizzle.one (MorphWeightData.componentOf i)).resultType w.type =
      .ok (.float .one) := by
    rw [htype]
    cases MorphWeightData.componentOf i <;> rfl
  refine ⟨_, ?_, (Place.Usable.var (Place.sees_program hscope)).swizzle _
    (.one (MorphWeightData.componentOf i))⟩
  rw [MorphWeightData.weight, if_neg (Nat.not_le_of_lt hi), heq, Expr.select, Expr.type_var, hone]

/-- The errors for more attributes than there are weights are allowed. -/
def ErrorsAllowed (E : BuildError → Prop) (count : Nat) : Prop :=
  ∀ what requested capacity, MorphWeightData.capacity < count →
    E (.capacityExceeded what requested capacity)

theorem yields_move (hE : ∀ name, E (.nameTaken name)) (hp : p.stage = .vertex)
    (hdata : ∀ w ∈ [data.weightsA, data.weightsB],
      w.scope = .program ∧ w.type = MorphWeightData.uniformType)
    (hv : Locals (p.enter id .block) n v) (attributes : List String) (i : Nat)
    (hcapacity : ErrorsAllowed E (i + attributes.length))
    (hb : b.Working bones p id n outs []) :
    (move data v i attributes : Build σ BlockDraft Unit).Yields E b fun _ b' ↦
      b'.Working bones p id n outs [] := by
  induction attributes generalizing i b with
  | nil => exact .pure hb
  | cons name rest ih =>
    rw [List.length_cons] at hcapacity
    -- Every attribute takes a weight, also one that moves nothing.
    by_cases hi : i < MorphWeightData.capacity
    · obtain ⟨weight, hweight, hfactor⟩ := weight_eq_ok (p := p.enter id .block) hdata hi
      refine .ofExcept_bind hweight ?_
      have hrest {b' : BlockDraft} (hb' : b'.Working bones p id n outs []) :
          (move data v (i + 1) rest : Build σ BlockDraft Unit).Yields E b' fun _ b' ↦
            b'.Working bones p id n outs [] := by
        have hlength : i + (rest.length + 1) = i + 1 + rest.length := by omega
        exact ih (i + 1) (hlength ▸ hcapacity) hb'
      cases MorphTarget.ofAttribute? name with
      | none => exact hrest hb
      | some which =>
        refine (BlockDraft.yields_declareAttribute hE hb hp name _).bind fun offset b₁ h₁ ↦ ?_
        obtain ⟨hb₁, hoffset⟩ := h₁
        obtain ⟨htarget, w, hroot, htakes, hid⟩ := hv.target which
        refine (BlockDraft.yields_step hb₁ (ScopeDraft.yields_augment hb₁.good hroot htakes htarget
          (hoffset.times hfactor (.float .three)) rfl hid)).bind fun _ b₂ hb₂ ↦ ?_
        exact hrest hb₂
    · have herror : data.weight i = .error (.capacityExceeded "morph target weight registers"
          (i + 1) MorphWeightData.capacity) := by
        rw [MorphWeightData.weight, if_pos (Nat.le_of_not_lt hi)]
      exact .ofExcept_bind_error herror (hcapacity _ _ _ (by omega))

theorem yields_block (hE : ∀ name, E (.nameTaken name)) (hp : p.stage = .vertex) {b : MorphBlend}
    (hcapacity : ErrorsAllowed E b.attributes.length)
    (hposition : p.Usable (.float .three) b.position) (hnormal : p.Usable (.float .three) b.normal)
    (htangent : p.Usable (.float .four) b.tangent) {s : ScopeDraft} (hs : s.Good bones p m) :
    (b.block : Build σ ScopeDraft MorphVertex).Yields E s fun v s' ↦
      s'.Good bones p m ∧ Locals p m v := by
  refine ScopeDraft.yields_block hs _ fun id b₀ hb₀ ↦ ?_
  refine (BlockDraft.yields_onShared hb₀
    (Resources.yields_declareMorphWeights hE hb₀.scope.tidy.resources)).bind fun data b₁ h₁ ↦ ?_
  obtain ⟨hb₁, hdata⟩ := h₁
  refine (BlockDraft.yields_input hE hb₁ _ hposition).bind fun inPosition b₂ h₂ ↦ ?_
  obtain ⟨hb₂, hinPosition⟩ := h₂
  refine (BlockDraft.yields_input hE hb₂ _ hnormal).bind fun inNormal b₃ h₃ ↦ ?_
  obtain ⟨hb₃, hinNormal⟩ := h₃
  refine (BlockDraft.yields_input hE hb₃ _ htangent).bind fun inTangent b₄ h₄ ↦ ?_
  obtain ⟨hb₄, hinTangent⟩ := h₄
  refine (BlockDraft.yields_output hE hb₄ _ _).bind fun outPosition b₅ h₅ ↦ ?_
  obtain ⟨hb₅, houtPosition⟩ := h₅
  refine (BlockDraft.yields_output hE hb₅ _ _).bind fun outNormal b₆ h₆ ↦ ?_
  obtain ⟨hb₆, houtNormal⟩ := h₆
  refine (BlockDraft.yields_output hE hb₆ _ _).bind fun outTangent b₇ h₇ ↦ ?_
  obtain ⟨hb₇, houtTangent⟩ := h₇
  have hm := hb₇.scope.count
  have hwork := hb₇.working
  refine (BlockDraft.yields_bind hwork hinPosition).bind fun position b₈ h₈ ↦ ?_
  obtain ⟨hb₈, hposition⟩ := h₈
  refine (BlockDraft.yields_bind hb₈ hinNormal).bind fun normal b₉ h₉ ↦ ?_
  obtain ⟨hb₉, hnormal⟩ := h₉
  refine (BlockDraft.yields_bind hb₉ hinTangent).bind fun tangent b₁₀ h₁₀ ↦ ?_
  obtain ⟨hb₁₀, htangent⟩ := h₁₀
  refine (yields_move hE hp hdata ⟨hposition, hnormal, htangent⟩ b.attributes 0
    ((Nat.zero_add _).symm ▸ hcapacity) hb₁₀).bind fun _ b₁₁ hb₁₁ ↦ ?_
  refine (BlockDraft.yields_assignOutput hb₁₁ houtPosition hposition.usable).bind
    fun _ b₁₂ hb₁₂ ↦ ?_
  refine (BlockDraft.yields_assignOutput hb₁₂ houtNormal hnormal.usable).bind fun _ b₁₃ hb₁₃ ↦ ?_
  refine (BlockDraft.yields_assignOutput hb₁₃ houtTangent htangent.usable).bind
    fun _ b₁₄ hb₁₄ ↦ ?_
  exact .pure ⟨hb₁₄.finished hb₇.numbered hm, houtPosition, houtNormal, houtTangent⟩

end MorphBlend

/-! ## The steps of a transform -/

namespace VertexTransform

variable {v : VertexState} {b : BlockDraft} {outs : List Variable}

/-- The state of a transform, in variables made from a number on. -/
structure Locals (p : Place) (m : Nat) (v : VertexState) : Prop where
  model : p.Local m (.matrix .four) v.model
  position : p.Local m (.float .three) v.position
  normal : p.Local m (.float .three) v.normal
  tangent : p.Local m (.float .four) v.tangent

theorem yields_when {on : Bool} {act : Build σ BlockDraft Unit} {P : Unit → BlockDraft → Prop}
    (hact : on = true → act.Yields E b P) (hb : P () b) : (when on act).Yields E b P := by
  cases on with
  | false => exact .pure hb
  | true => exact hact rfl

section Steps

variable (hE : ∀ name, E (.nameTaken name)) (hp : p.stage = .vertex)
include hE hp

theorem yields_applyInstance (hv : Locals (p.enter id .block) n v)
    (hb : b.Working bones p id n outs []) :
    (applyInstance v : Build σ BlockDraft Unit).Yields E b fun _ b' ↦
      b'.Working bones p id n outs [] := by
  refine (BlockDraft.yields_declareAttribute hE hb hp _ _).bind fun matrix b₁ h₁ ↦ ?_
  exact BlockDraft.yields_augment h₁.1 hv.model h₁.2 rfl

theorem yields_applyArmature (hv : Locals (p.enter id .block) n v)
    (hb : b.Working bones p id n outs []) :
    (applyArmature bones v : Build σ BlockDraft Unit).Yields E b fun _ b' ↦
      b'.Working bones p id n outs [] := by
  refine (BlockDraft.yields_declareAttribute hE hb hp _ _).bind fun weights b₁ h₁ ↦ ?_
  refine (BlockDraft.yields_declareAttribute hE h₁.1 hp _ _).bind fun joints b₂ h₂ ↦ ?_
  refine (BlockDraft.yields_work h₂.1 (ArmatureBlend.yields_block hE rfl h₁.2 h₂.2 h₂.1.good)).bind
    fun transform b₃ h₃ ↦ ?_
  exact BlockDraft.yields_augment h₃.1 hv.model h₃.2.usable rfl

theorem yields_applyMorph {attributes : List String}
    (hcapacity : MorphBlend.ErrorsAllowed E attributes.length)
    (hv : Locals (p.enter id .block) n v) (hb : b.Working bones p id n outs []) :
    (applyMorph attributes v : Build σ BlockDraft Unit).Yields E b fun _ b' ↦
      b'.Working bones p id n outs [] := by
  have hstage : (p.enter id .block).stage = .vertex := hp
  refine (BlockDraft.yields_work hb (MorphBlend.yields_block hE hstage hcapacity hv.position.usable
    hv.normal.usable hv.tangent.usable hb.good)).bind fun morphed b₁ h₁ ↦ ?_
  obtain ⟨hb₁, hmorphed⟩ := h₁
  refine (BlockDraft.yields_store hb₁ hv.position hmorphed.position.usable).bind fun _ b₂ hb₂ ↦ ?_
  refine (BlockDraft.yields_store hb₂ hv.normal hmorphed.normal.usable).bind fun _ b₃ hb₃ ↦ ?_
  exact BlockDraft.yields_store hb₃ hv.tangent hmorphed.tangent.usable

theorem yields_applyDisplacement {sources : List PropertySource}
    (hchannel : PropertySource.ErrorsAllowed E sources)
    (hv : Locals (p.enter id .block) n v) (hb : b.Working bones p id n outs []) :
    (applyDisplacement sources v : Build σ BlockDraft Unit).Yields E b fun _ b' ↦
      b'.Working bones p id n outs [] := by
  have hstage : (p.enter id .block).stage = .vertex := hp
  refine (BlockDraft.yields_work hb (PropertySource.yields_block hE hstage hchannel hb.good)).bind
    fun displacement b₁ h₁ ↦ ?_
  obtain ⟨hb₁, hdisplacement⟩ := h₁
  have hoffset := hv.normal.usable.normalized.times hdisplacement.usable (.float .three)
  exact BlockDraft.yields_augment hb₁ hv.position hoffset rfl

end Steps

structure InputsUsable (p : Place) (t : VertexTransform) : Prop where
  model : p.Usable (.matrix .four) t.model
  position : p.Usable (.float .three) t.position
  normal : ∀ e ∈ t.normal, p.Usable (.float .three) e
  tangent : ∀ e ∈ t.tangent, p.Usable (.float .four) e

theorem usable_getD {e : Option Expr} {dim : Dim} (he : ∀ e' ∈ e, p.Usable (.float dim) e') :
    p.Usable (.float dim) (e.getD (.zeros dim)) := by
  cases e with
  | none => exact .zeros dim
  | some e => exact he e rfl

theorem usable_toWorld {e : Expr} {t : ValueType} (hv : Locals p m v) (he : p.Usable t e) :
    p.Usable (.float .three) (toWorld v e) :=
  (hv.model.usable.times he _).firstThree

theorem yields_block (hE : ∀ name, E (.nameTaken name)) (hp : p.stage = .vertex)
    {t : VertexTransform} (ht : InputsUsable p t)
    (hcapacity : MorphBlend.ErrorsAllowed E t.config.morphAttributes.length)
    (hchannel : PropertySource.ErrorsAllowed E t.config.displacement)
    {s : ScopeDraft} (hs : s.Good t.config.maxBones p m) :
    (t.block : Build σ ScopeDraft VertexState).Yields E s fun v s' ↦
      s'.Good t.config.maxBones p m ∧ Locals p m v := by
  refine ScopeDraft.yields_block hs _ fun id b hb ↦ .draft_bind ?_
  rw [if_pos (hb.scope.kind.trans hp)]
  refine (BlockDraft.yields_input hE hb _ ht.model).bind fun inModel b₁ h₁ ↦ ?_
  obtain ⟨hb₁, hinModel⟩ := h₁
  refine (BlockDraft.yields_input hE hb₁ _ ht.position).bind fun inPosition b₂ h₂ ↦ ?_
  obtain ⟨hb₂, hinPosition⟩ := h₂
  refine (BlockDraft.yields_input hE hb₂ _ (usable_getD ht.normal)).bind fun inNormal b₃ h₃ ↦ ?_
  obtain ⟨hb₃, hinNormal⟩ := h₃
  refine (BlockDraft.yields_input hE hb₃ _ (usable_getD ht.tangent)).bind fun inTangent b₄ h₄ ↦ ?_
  obtain ⟨hb₄, hinTangent⟩ := h₄
  refine (BlockDraft.yields_output hE hb₄ _ _).bind fun outModel b₅ h₅ ↦ ?_
  obtain ⟨hb₅, houtModel⟩ := h₅
  refine (BlockDraft.yields_output hE hb₅ _ _).bind fun outPosition b₆ h₆ ↦ ?_
  obtain ⟨hb₆, houtPosition⟩ := h₆
  refine (BlockDraft.yields_output hE hb₆ _ _).bind fun outNormal b₇ h₇ ↦ ?_
  obtain ⟨hb₇, houtNormal⟩ := h₇
  refine (BlockDraft.yields_output hE hb₇ _ _).bind fun outTangent b₈ h₈ ↦ ?_
  obtain ⟨hb₈, houtTangent⟩ := h₈
  have hm := hb₈.scope.count
  have hwork := hb₈.working
  refine (BlockDraft.yields_bind hwork hinModel).bind fun model b₉ h₉ ↦ ?_
  obtain ⟨hb₉, hmodel⟩ := h₉
  refine (BlockDraft.yields_bind hb₉ hinPosition).bind fun position b₁₀ h₁₀ ↦ ?_
  obtain ⟨hb₁₀, hposition⟩ := h₁₀
  refine (BlockDraft.yields_bind hb₁₀ hinNormal).bind fun normal b₁₁ h₁₁ ↦ ?_
  obtain ⟨hb₁₁, hnormal⟩ := h₁₁
  refine (BlockDraft.yields_bind hb₁₁ hinTangent).bind fun tangent b₁₂ h₁₂ ↦ ?_
  obtain ⟨hb₁₂, htangent⟩ := h₁₂
  have hv : Locals (p.enter id .block) b₈.scope.stage.resources.variableCount
      ⟨model, position, normal, tangent⟩ := ⟨hmodel, hposition, hnormal, htangent⟩
  refine (yields_when (fun _ ↦ yields_applyInstance hE hp hv hb₁₂) hb₁₂).bind fun _ b₁₃ hb₁₃ ↦ ?_
  refine (yields_when (fun _ ↦ yields_applyArmature hE hp hv hb₁₃) hb₁₃).bind fun _ b₁₄ hb₁₄ ↦ ?_
  refine (yields_when (fun _ ↦ yields_applyMorph hE hp hcapacity hv hb₁₄) hb₁₄).bind
    fun _ b₁₅ hb₁₅ ↦ ?_
  refine (yields_when (fun _ ↦ yields_applyDisplacement hE hp hchannel hv hb₁₅) hb₁₅).bind
    fun _ b₁₆ hb₁₆ ↦ ?_
  have hposition := usable_toWorld hv (hposition.usable.extend (.floatLit .one))
  have hnormal := usable_toWorld hv (hnormal.usable.extend (.floatLit .zero))
  have htangent := usable_toWorld hv htangent.usable
  refine (BlockDraft.yields_assignOutput hb₁₆ houtModel hmodel.usable).bind fun _ b₁₇ hb₁₇ ↦ ?_
  refine (BlockDraft.yields_assignOutput hb₁₇ houtPosition hposition).bind fun _ b₁₈ hb₁₈ ↦ ?_
  refine (BlockDraft.yields_assignOutput hb₁₈ houtNormal hnormal.normalized).bind
    fun _ b₁₉ hb₁₉ ↦ ?_
  refine (BlockDraft.yields_assignOutput hb₁₉ houtTangent
    (htangent.extend (hinTangent.floatPart .w))).bind fun _ b₂₀ hb₂₀ ↦ ?_
  exact .pure ⟨hb₂₀.finished hb₈.numbered hm, houtModel, houtPosition, houtNormal, houtTangent⟩

end VertexTransform

end ShaderGraph
