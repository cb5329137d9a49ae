import ShaderGraph.Kit.Unlit
import ShaderGraph.Proofs.Kit.Vertex

/-!
# Following unlit programs

An unlit program is a construction of both stages from an empty program, so
the invariant holds of it.
-/

namespace ShaderGraph

def Client.trivial : Client Unit := ⟨fun _ _ ↦ True, fun _ h ↦ h⟩

namespace UnlitConfig

variable {σ : Type} {C : Client σ} {R : Registry}

theorem traced_optionalAttribute (wanted : Bool) (name : String) (type : ValueType) :
    Traced C R (optionalAttribute wanted name type) (fun R' v ↦ ∀ w ∈ v, w ∈ R'.vars) := by
  cases wanted with
  | false => exact .pure fun R' _ w hw ↦ by cases hw
  | true =>
    rw [optionalAttribute, if_pos rfl, map_eq_pure_bind]
    refine (StageDraft.traced_declareAttribute name type _).bind fun R₁ v _ hv ↦ ?_
    exact .pure fun R' hR' w hw ↦ Option.some.inj hw ▸ Registry.mem_vars hR' hv.1

theorem known_map_var {v : Option Variable} (hv : ∀ w ∈ v, w ∈ R.vars) :
    ∀ e ∈ v.map Expr.var, e.Known R := by
  intro e he
  obtain ⟨w, hw, rfl⟩ := Option.map_eq_some_iff.mp he
  exact .var (hv w hw)

theorem traced_vertexMain (cfg : UnlitConfig) {viewProj model position outPosition : Variable}
    {normal tangent : Option Variable}
    (hes : R.KnowsAll [.var viewProj, .var model, .var position, .var outPosition])
    (hviewProj : viewProj.type = .matrix .four)
    (hnormal : ∀ w ∈ normal, w ∈ R.vars) (htangent : ∀ w ∈ tangent, w ∈ R.vars) :
    Traced C R (cfg.vertexMain viewProj model position normal tangent outPosition)
      (fun _ _ ↦ True) := by
  have hinputs : VertexTransform.InputsKnown R
      ⟨cfg.vertex, .var model, .var position, normal.map .var, tangent.map .var⟩ := {
    model := hes (.var model) (by simp)
    position := hes (.var position) (by simp)
    normal := known_map_var hnormal
    tangent := known_map_var htangent }
  refine (VertexTransform.traced_block hinputs).bind fun R₁ world hR₁ hworld ↦ ?_
  refine hworld.known.bind_unit (ColorSource.traced_vertexBlock cfg.color)
    fun R₂ _ hR₂ hvariables ↦ ?_
  have hes := hes.mono (hR₁.trans hR₂)
  have hposition : ((Expr.var world.position).extend (.floatLit .one)).Known R₂ :=
    (hvariables (.var world.position) (by simp)).extend (.lit _) hworld.position rfl
  exact ScopeDraft.traced_assign (hes (.var outPosition) (by simp))
    (.binary_of_type (hes (.var viewProj) (by simp)) hposition hviewProj rfl rfl)

theorem traced_vertexStage (cfg : UnlitConfig) :
    Traced C R cfg.vertexStage (fun _ _ ↦ True) := by
  have hes := R.knowsAll_nil
  refine hes.bind_variable (StageDraft.traced_declareUniform _ _)
    fun R₁ viewProj _ hviewProj hes ↦ ?_
  refine hes.bind_variable (StageDraft.traced_declareUniform _ _) fun R₂ model _ _ hes ↦ ?_
  refine hes.bind_variable (StageDraft.traced_declareAttribute _ _ _) fun R₃ position _ _ hes ↦ ?_
  refine (traced_optionalAttribute _ _ _).bind fun R₄ normal hR₄ hnormal ↦ ?_
  refine (traced_optionalAttribute _ _ _).bind fun R₅ tangent hR₅ htangent ↦ ?_
  refine (hes.mono (hR₄.trans hR₅)).bind_expr .var
    ((StageDraft.traced_declareBuiltin _).mono fun _ _ _ h ↦ ⟨.var h, trivial⟩)
    fun R₆ outPosition hR₆ _ hes ↦ ?_
  refine StageDraft.traced_defineMain
    (traced_vertexMain cfg (fun e he ↦ hes e ?_) hviewProj.2 ?_ ?_)
  · simp only [List.mem_cons, List.not_mem_nil, or_false] at he ⊢
    grind
  · exact fun w hw ↦ Registry.mem_vars (hR₅.trans hR₆) (hnormal w hw)
  · exact fun w hw ↦ Registry.mem_vars hR₆ (htangent w hw)

theorem traced_applyAlpha (alpha : AlphaMode) {color : Variable}
    (hcolor : (Expr.var color).Known R) (htype : color.type = .float .four) :
    Traced C R (applyAlpha alpha color) (fun _ _ ↦ True) := by
  have halpha := hcolor.floatPart htype .w
  cases alpha with
  | blend => exact .pure fun _ _ ↦ trivial
  | solid => exact ScopeDraft.traced_assign halpha (.lit _)
  | mask cutoff =>
    have hbelow : (Expr.binary .bool .lt ((Expr.var color).floatPart .w) (.floatLit cutoff)).Known
        R := .binary_of_type halpha (.lit _) rfl rfl rfl
    exact ScopeDraft.traced_branch hbelow ScopeDraft.traced_discard

theorem traced_applyGamma (gamma : Option Single) {rgb : Variable} (hrgb : (Expr.var rgb).Known R)
    (htype : rgb.type = .float .three) :
    Traced C R (applyGamma rgb gamma) (fun _ _ ↦ True) := by
  cases gamma with
  | none => exact .pure fun _ _ ↦ trivial
  | some gamma =>
    have htypes : [Expr.var rgb, .lit (.float (.splat .three gamma))].map Expr.type =
        [.float .three, .float .three] := by
      rw [List.map_cons, Expr.type_var, htype]
      rfl
    refine ScopeDraft.traced_assign hrgb (.builtin_of_type (fun e he ↦ ?_) htypes rfl)
    simp only [List.mem_cons, List.not_mem_nil, or_false] at he
    rcases he with rfl | rfl
    · exact hrgb
    · exact .lit _

theorem traced_fragmentMain (cfg : UnlitConfig) {out : Variable} (hout : (Expr.var out).Known R) :
    Traced C R (cfg.fragmentMain out) (fun _ _ ↦ True) := by
  have hes : R.KnowsAll [.var out] := fun e he ↦ List.mem_singleton.mp he ▸ hout
  refine hes.bind_variable (ColorSource.traced_block cfg.color) fun R₁ mixed _ hmixed hes ↦ ?_
  refine hes.bind_variable (ScopeDraft.traced_bind (hes (.var mixed) (by simp)))
    fun R₂ color _ hcolor hes ↦ ?_
  have hcolor : color.type = .float .four := hcolor.trans hmixed
  refine hes.bind_unit (traced_applyAlpha _ (hes (.var color) (by simp)) hcolor)
    fun R₃ _ _ hes ↦ ?_
  refine hes.bind_variable
    (ScopeDraft.traced_bind ((hes (.var color) (by simp)).firstThree hcolor))
    fun R₄ rgb _ hrgb hes ↦ ?_
  have halpha {R₅ : Registry} (h : (Expr.var color).Known R₅) :
      ((Expr.var color).floatPart .w).Known R₅ := h.floatPart hcolor .w
  have hend {R₅ : Registry} (hR : R₄ ≤ R₅) : Traced C R₅ (do
      applyGamma rgb cfg.colorSpace.gamma?
      ScopeDraft.assign (.var out) ((Expr.var rgb).extend ((Expr.var color).floatPart .w)))
      (fun _ _ ↦ True) := by
    have hes := hes.mono hR
    refine hes.bind_unit (traced_applyGamma _ (hes (.var rgb) (by simp)) hrgb) fun R₆ _ _ hes ↦ ?_
    exact ScopeDraft.traced_assign (hes (.var out) (by simp))
      ((hes (.var rgb) (by simp)).extend (halpha (hes (.var color) (by simp))) hrgb rfl)
  split
  · refine (ScopeDraft.traced_assign (hes (.var rgb) (by simp))
      (.binary_of_type (hes (.var rgb) (by simp)) (halpha (hes (.var color) (by simp))) hrgb rfl
        rfl)).bind fun R₅ _ hR₅ _ ↦ hend hR₅
  · exact hend le_rfl

theorem traced_fragmentStage (cfg : UnlitConfig) :
    Traced C R cfg.fragmentStage (fun _ _ ↦ True) := by
  refine (StageDraft.traced_declareOutput _ _).bind fun R₁ out _ hout ↦ ?_
  exact StageDraft.traced_defineMain (traced_fragmentMain cfg (.var hout.1))

theorem traced_build (cfg : UnlitConfig) : Traced C R cfg.build (fun _ _ ↦ True) :=
  (Program.traced_buildStage .vertex (traced_vertexStage cfg)).bind fun _ _ _ _ ↦
    Program.traced_buildStage .fragment (traced_fragmentStage cfg)

/-- An unlit program evolves from the start, even if everything is checked. -/
theorem evolves_program {cfg : UnlitConfig} {p : Program} (h : cfg.program = .ok p)
    (signatures : Set Signature) (checked : Prop) :
    ∃ R, Evolves (.start signatures checked) (.program (.new "unlit")) R (.program p) := by
  have hstart := Program.invariant_new "unlit" signatures checked
  have hrun := traced_build (C := .trivial) cfg _ le_rfl (Program.new "unlit") () hstart trivial
  unfold program at h
  rcases hbuild : cfg.build (Program.new "unlit", ()) with ⟨a, q, c⟩ | ⟨e, q, c⟩ <;>
    rw [hbuild] at h hrun
  · obtain ⟨R', hev, -⟩ := hrun
    exact ⟨R', Except.ok.inj h ▸ hev⟩
  · cases h

/-- The invariant holds of an unlit program. -/
theorem invariant_program {cfg : UnlitConfig} {p : Program} (h : cfg.program = .ok p) :
    ∃ R, p.Invariant R := by
  obtain ⟨R, hev⟩ := evolves_program h ∅ True
  exact ⟨R, hev.invariant (Program.invariant_new "unlit" ∅ True)⟩

end UnlitConfig

end ShaderGraph
