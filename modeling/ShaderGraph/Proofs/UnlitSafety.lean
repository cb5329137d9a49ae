import ShaderGraph.Kit.Unlit
import ShaderGraph.Proofs.Kit.Transform

/-!
# Unlit programs are not rejected

For every configuration there is an unlit program with both stages and their
main functions, or one of three things is wrong with the configuration: a name
in it is taken for something else, it lists more morph attributes than there
are weights, or it displaces vertices by a channel that no texture has. The
rules of constructions are never broken by the program itself.
-/

namespace ShaderGraph

variable {σ : Type} {E : BuildError → Prop} {bones : Nat} {id : ScopeId}

namespace UnlitConfig

/-- The errors that a configuration may lead to. Names can be taken in any configuration. -/
def Allows (cfg : UnlitConfig) : BuildError → Prop
  | .nameTaken _ => True
  | .capacityExceeded .. => 8 < cfg.vertex.morphAttributes.length
  | .indexOutOfRange _ channel _ => 4 ≤ channel ∧ ∃ s ∈ cfg.vertex.displacement,
      ∃ sampler coords, s.kind = .texture sampler coords channel
  | _ => False

variable {cfg : UnlitConfig}

theorem allows_nameTaken (name : String) : cfg.Allows (.nameTaken name) := trivial

theorem yields_optionalAttribute (hE : ∀ name, E (.nameTaken name)) {s : StageDraft}
    (hs : s.Ready bones .vertex) (wanted : Bool) (name : String) (type : ValueType) :
    (optionalAttribute wanted name type : Build σ StageDraft (Option Variable)).Yields E s
      fun v s' ↦ s.Onward bones s' ∧ ∀ w ∈ v, w.type = type ∧ w.scope = .stage .vertex := by
  cases wanted with
  | false => exact .pure ⟨hs.tidy.onward, fun w hw ↦ (Option.not_mem_none w hw).elim⟩
  | true =>
    rw [optionalAttribute, if_pos rfl, map_eq_pure_bind]
    refine (StageDraft.yields_declareAttribute hE hs.tidy hs.kind name type _).bind
      fun v s₁ h₁ ↦ ?_
    obtain ⟨hon, htype, hscope⟩ := h₁
    refine .pure ⟨hon, fun w hw ↦ ?_⟩
    obtain rfl := Option.some.inj hw
    exact ⟨htype, hs.kind ▸ hscope⟩

theorem usable_map_var {v : Option Variable} {type : ValueType}
    (hv : ∀ w ∈ v, w.type = type ∧ w.scope = .stage .vertex) :
    ∀ e ∈ v.map Expr.var, (Place.main .vertex id).Usable type e := by
  intro e he
  obtain ⟨w, hw, rfl⟩ := Option.map_eq_some_iff.mp he
  obtain ⟨htype, hscope⟩ := hv w hw
  exact htype ▸ .var (Place.sees_stage hscope)

theorem yields_vertexMain {viewProj model position outPosition : Variable}
    {normal tangent : Option Variable} {p : Place} (hp : p.stage = .vertex)
    (hviewProj : p.Usable (.matrix .four) (.var viewProj))
    (hinputs : VertexTransform.InputsUsable p
      ⟨cfg.vertex, .var model, .var position, normal.map .var, tangent.map .var⟩)
    (hout : p.Local 0 (.float .four) outPosition) {s : ScopeDraft}
    (hs : s.Good cfg.vertex.maxBones p 0) :
    (cfg.vertexMain viewProj model position normal tangent outPosition :
      Build σ ScopeDraft Unit).Yields cfg.Allows s fun _ s' ↦ s'.Good cfg.vertex.maxBones p 0 := by
  have hcapacity : MorphBlend.ErrorsAllowed cfg.Allows cfg.vertex.morphAttributes.length :=
    fun _ _ _ h ↦ h
  have hchannel : PropertySource.ErrorsAllowed cfg.Allows cfg.vertex.displacement :=
    fun source hsource sampler coords _ h hle ↦ ⟨hle, source, hsource, sampler, coords, h⟩
  refine (VertexTransform.yields_block allows_nameTaken hp hinputs hcapacity hchannel hs).bind
    fun world s₁ h₁ ↦ ?_
  obtain ⟨hs₁, hworld⟩ := h₁
  refine (ColorSource.yields_vertexBlock allows_nameTaken hp cfg.color hs₁).bind fun _ s₂ hs₂ ↦ ?_
  have hposition := hworld.position.usable.extend (.floatLit .one)
  exact ScopeDraft.yields_store hs₂ hout (hviewProj.times hposition _)

theorem yields_vertexStage {s : StageDraft} (hs : s.Ready cfg.vertex.maxBones .vertex) :
    (cfg.vertexStage : Build σ StageDraft Unit).Yields cfg.Allows s fun _ s' ↦
      s'.Complete cfg.vertex.maxBones .vertex := by
  refine (StageDraft.yields_declareUniform allows_nameTaken hs.tidy _ _).bind
    fun viewProj s₁ h₁ ↦ ?_
  obtain ⟨hon₁, hviewProj, hviewProjScope⟩ := h₁
  have hs₁ := hs.onward hon₁
  refine (StageDraft.yields_declareUniform allows_nameTaken hs₁.tidy _ _).bind
    fun model s₂ h₂ ↦ ?_
  obtain ⟨hon₂, hmodel, hmodelScope⟩ := h₂
  have hs₂ := hs₁.onward hon₂
  refine (StageDraft.yields_declareAttribute allows_nameTaken hs₂.tidy hs₂.kind _ _ _).bind
    fun position s₃ h₃ ↦ ?_
  obtain ⟨hon₃, hposition, hpositionScope⟩ := h₃
  have hs₃ := hs₂.onward hon₃
  refine (yields_optionalAttribute allows_nameTaken hs₃ _ _ _).bind fun normal s₄ h₄ ↦ ?_
  obtain ⟨hon₄, hnormal⟩ := h₄
  have hs₄ := hs₃.onward hon₄
  refine (yields_optionalAttribute allows_nameTaken hs₄ _ _ _).bind fun tangent s₅ h₅ ↦ ?_
  obtain ⟨hon₅, htangent⟩ := h₅
  have hs₅ := hs₄.onward hon₅
  refine (StageDraft.yields_declareBuiltin allows_nameTaken hs₅.tidy .position hs₅.kind).bind
    fun outPosition s₆ h₆ ↦ ?_
  obtain ⟨hon₆, houtType, houtScope, houtKind⟩ := h₆
  refine StageDraft.yields_defineMain (hs₅.onward hon₆) fun id t ht ↦ ?_
  have hinputs : VertexTransform.InputsUsable (.main .vertex id)
      ⟨cfg.vertex, .var model, .var position, normal.map .var, tangent.map .var⟩ := {
    model := hmodel ▸ .var (Place.sees_program hmodelScope)
    position := hposition ▸ .var (Place.sees_stage (hs₂.kind ▸ hpositionScope))
    normal := usable_map_var hnormal
    tangent := usable_map_var htangent }
  have hout : (Place.main .vertex id).Local 0 (.float .four) outPosition :=
    ⟨.of_kind (Place.sees_stage (hs₅.kind ▸ houtScope)) houtKind rfl nofun, houtType,
      Nat.zero_le _⟩
  exact yields_vertexMain rfl (hviewProj ▸ .var (Place.sees_program hviewProjScope)) hinputs hout ht

/-! ## The fragment stage -/

section Fragments

variable {p : Place} {s : ScopeDraft} {m : Nat}

theorem yields_applyAlpha (hp : p.stage = .fragment) (alpha : AlphaMode) {color : Variable}
    (hcolor : p.Local m (.float .four) color) (hs : s.Good bones p m) :
    (applyAlpha alpha color : Build σ ScopeDraft Unit).Yields E s fun _ s' ↦
      s'.Good bones p m := by
  have halpha := hcolor.usable.floatPart .w
  cases alpha with
  | blend => exact .pure hs
  | solid =>
    exact ScopeDraft.yields_assign hs rfl hcolor.toTakes halpha (.floatLit .one) hcolor.id
  | mask cutoff =>
    have hbelow := halpha.binary .lt (Place.Usable.floatLit cutoff) .bool
    exact ScopeDraft.yields_branch hs hbelow fun _ _ ht ↦ ScopeDraft.yields_discard ht hp

theorem yields_applyGamma (gamma : Option Single) {rgb : Variable}
    (hrgb : p.Local m (.float .three) rgb) (hs : s.Good bones p m) :
    (applyGamma rgb gamma : Build σ ScopeDraft Unit).Yields E s fun _ s' ↦ s'.Good bones p m := by
  cases gamma with
  | none => exact .pure hs
  | some gamma =>
    have hargs : ∀ e ∈ [Expr.var rgb, .lit (.float (.splat .three gamma))], ∃ t, p.Usable t e := by
      simp only [List.forall_mem_cons]
      exact ⟨⟨_, hrgb.usable⟩, ⟨_, .lit rfl⟩, List.forall_mem_nil _⟩
    exact ScopeDraft.yields_store hs hrgb (.call hargs _ _)

theorem yields_fragmentMain (hp : p.stage = .fragment) {out : Variable}
    (hout : p.Local m (.float .four) out) (hs : s.Good bones p m) :
    (cfg.fragmentMain out : Build σ ScopeDraft Unit).Yields cfg.Allows s fun _ s' ↦
      s'.Good bones p m := by
  refine (ColorSource.yields_block allows_nameTaken hp cfg.color hs).bind fun mixed s₁ h₁ ↦ ?_
  obtain ⟨hs₁, hmixed⟩ := h₁
  refine (ScopeDraft.yields_bind hs₁ hmixed.usable).bind fun color s₂ h₂ ↦ ?_
  obtain ⟨hs₂, hcolor⟩ := h₂
  refine (yields_applyAlpha hp cfg.alpha hcolor hs₂).bind fun _ s₃ hs₃ ↦ ?_
  refine (ScopeDraft.yields_bind hs₃ hcolor.usable.firstThree).bind fun rgb s₄ h₄ ↦ ?_
  obtain ⟨hs₄, hrgb⟩ := h₄
  have halpha := hcolor.usable.floatPart .w
  -- What comes after the condition stands in both of its branches.
  have hend {s' : ScopeDraft} (hs' : s'.Good bones p m) :
      (do applyGamma rgb cfg.colorSpace.gamma?
          ScopeDraft.assign (.var out) ((Expr.var rgb).extend ((Expr.var color).floatPart .w)) :
        Build σ ScopeDraft Unit).Yields cfg.Allows s' fun _ s'' ↦ s''.Good bones p m := by
    refine (yields_applyGamma _ hrgb hs').bind fun _ s₅ hs₅ ↦ ?_
    exact ScopeDraft.yields_store hs₅ hout (hrgb.usable.extend halpha)
  split
  · refine (ScopeDraft.yields_store hs₄ hrgb (hrgb.usable.times halpha _)).bind fun _ s₅ hs₅ ↦ ?_
    exact hend hs₅
  · exact hend hs₄

end Fragments

theorem yields_fragmentStage {s : StageDraft} (hs : s.Ready bones .fragment) :
    (cfg.fragmentStage : Build σ StageDraft Unit).Yields cfg.Allows s fun _ s' ↦
      s'.Complete bones .fragment := by
  refine (StageDraft.yields_declareOutput allows_nameTaken hs.tidy hs.kind _ _).bind
    fun out s₁ h₁ ↦ ?_
  obtain ⟨hon, htype, hscope, hkind⟩ := h₁
  refine StageDraft.yields_defineMain (hs.onward hon) fun id t ht ↦ ?_
  have hout : (Place.main .fragment id).Local 0 (.float .four) out :=
    ⟨.of_kind (Place.sees_stage (hs.kind ▸ hscope)) hkind rfl nofun, htype, Nat.zero_le _⟩
  exact yields_fragmentMain rfl hout ht

theorem yields_build (cfg : UnlitConfig) :
    (cfg.build : Build σ Program Unit).Yields cfg.Allows (.new "unlit") fun _ p ↦
      ∀ kind, ∃ stage, p.stage? kind = some stage ∧ stage.main.isSome = true := by
  have hempty := Resources.tidy_empty cfg.vertex.maxBones
  refine (Program.yields_buildStage hempty rfl fun s ↦ yields_vertexStage).bind fun _ p₁ h₁ ↦ ?_
  obtain ⟨hp₁, hvertex, hothers⟩ := h₁
  have hnone : p₁.stage? .fragment = none := hothers .fragment (by decide)
  refine (Program.yields_buildStage hp₁ hnone fun s ↦ yields_fragmentStage).mono fun _ p₂ h₂ ↦ ?_
  obtain ⟨-, hfragment, hothers⟩ := h₂
  intro kind
  cases kind with
  | vertex => rwa [hothers .vertex (by decide)]
  | fragment => exact hfragment

/-- An unlit program is complete, or its configuration is to blame. -/
theorem program_complete_or_allowed (cfg : UnlitConfig) :
    (∃ p, cfg.program = .ok p ∧
      ∀ kind, ∃ stage, p.stage? kind = some stage ∧ stage.main.isSome = true) ∨
        ∃ e, cfg.program = .error e ∧ cfg.Allows e := by
  have hrun := yields_build cfg ()
  unfold program
  rcases h : cfg.build (.new "unlit", ()) with ⟨_, p, _⟩ | ⟨e, _, _⟩ <;> rw [h] at hrun
  · exact .inl ⟨p, rfl, hrun⟩
  · exact .inr ⟨e, rfl, hrun⟩

def error? (cfg : UnlitConfig) : Option BuildError :=
  match cfg.program with
  | .ok _ => none
  | .error e => some e

/-- Everything turned on. -/
def full (morphs : List String) (channel : Nat) (color : String) : UnlitConfig where
  vertex := ⟨true, true, 32, morphs, [⟨.texture "uHeight" "attrib_uv" channel, .add⟩]⟩
  color := [⟨.uniform color, .set⟩]
  alpha := .mask .zero
  premultiplied := true
  colorSpace := .srgbToLinear
  normals := true

example : (full ["attrib_tangents_0"] 3 "uColor").error? = none := by decide +kernel

-- A sampler that is no color, a channel too many, and an attribute too many.
example :
    (full [] 3 "uHeight").error? = some (.nameTaken "uHeight") ∧
      (full [] 4 "uColor").error? = some (.indexOutOfRange "texture channel" 4 4) ∧
        (full (List.replicate 9 "attrib_glow") 3 "uColor").error? =
          some (.capacityExceeded "morph target weight registers" 9 8) := by
  decide +kernel

end UnlitConfig

end ShaderGraph
