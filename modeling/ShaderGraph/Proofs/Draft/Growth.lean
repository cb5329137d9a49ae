import ShaderGraph.Proofs.Draft.Evolution

/-!
# What operations leave as it is

However a draft evolves, counters and tables only grow, a stage keeps the
regions around its current scope, a scope keeps its place and an error that it
deferred, and functions that are new have bodies with new numbers.
-/

namespace ShaderGraph

/-- Resources have all that other resources have, and the numbers go on from there. -/
structure Resources.Extends (r r' : Resources) : Prop where
  vars : r.variableCount ≤ r'.variableCount
  scopes : r.scopeCount ≤ r'.scopeCount
  uniforms : r.uniforms <+: r'.uniforms
  interStage : r.interStage <+: r'.interStage

/-- A stage was reached from another one. -/
structure StageDraft.Extends (s s' : StageDraft) : Prop where
  resources : s.resources.Extends s'.resources
  kind : s'.kind = s.kind
  frames : s'.frames = s.frames
  functions : s.functions <+: s'.functions
  newFunctions : ∀ f ∈ s'.functions,
    f ∈ s.functions ∨ 3 + s.resources.scopeCount ≤ f.body.id.index
  newMain : ∀ f ∈ s'.main, f ∈ s.main ∨ 3 + s.resources.scopeCount ≤ f.body.id.index

structure ScopeDraft.Extends (s s' : ScopeDraft) : Prop where
  stage : s.stage.Extends s'.stage
  id : s'.region.id = s.region.id
  kind : s'.region.kind = s.region.kind
  declared : s.region.declared <+: s'.region.declared
  deferred : ∀ e, s.deferred = some e → s'.deferred = some e

structure BlockDraft.Extends (b b' : BlockDraft) : Prop where
  scope : b.scope.Extends b'.scope
  name : b'.name = b.name
  parent : b'.parent = b.parent
  inputs : b.interface.inputs <+: b'.interface.inputs
  outputs : b.interface.outputs <+: b'.interface.outputs

def Draft.Extends : Draft → Draft → Prop
  | .program p, .program p' => p.resources.Extends p'.resources
  | .resources r, .resources r' => r.Extends r'
  | .stage s, .stage s' => s.Extends s'
  | .scope s, .scope s' => s.Extends s'
  | .block b, .block b' => b.Extends b'
  | _, _ => False

namespace Resources.Extends

variable {r r₁ r₂ : Resources}

@[refl] theorem refl (r : Resources) : r.Extends r :=
  ⟨Nat.le_refl _, Nat.le_refl _, List.prefix_refl _, List.prefix_refl _⟩

theorem trans (h : r.Extends r₁) (h' : r₁.Extends r₂) : r.Extends r₂ where
  vars := Nat.le_trans h.vars h'.vars
  scopes := Nat.le_trans h.scopes h'.scopes
  uniforms := h.uniforms.trans h'.uniforms
  interStage := h.interStage.trans h'.interStage

end Resources.Extends

theorem Resources.Makes.extends {r r' : Resources} {v : Variable} (h : r.Makes v r') :
    r.Extends r' := by
  rw [h.eq]
  exact ⟨Nat.le_succ _, Nat.le_refl _, List.prefix_refl _, List.prefix_refl _⟩

namespace StageDraft.Extends

variable {s s₁ s₂ : StageDraft}

@[refl] theorem refl (s : StageDraft) : s.Extends s :=
  ⟨.refl _, rfl, rfl, List.prefix_refl _, fun _ hf ↦ .inl hf, fun _ hf ↦ .inl hf⟩

theorem trans (h : s.Extends s₁) (h' : s₁.Extends s₂) : s.Extends s₂ where
  resources := h.resources.trans h'.resources
  kind := h'.kind.trans h.kind
  frames := h'.frames.trans h.frames
  functions := h.functions.trans h'.functions
  newFunctions f hf := by
    have hle := h.resources.scopes
    rcases h'.newFunctions f hf with hf | hf
    · exact h.newFunctions f hf
    · exact .inr (by omega)
  newMain f hf := by
    have hle := h.resources.scopes
    rcases h'.newMain f hf with hf | hf
    · exact h.newMain f hf
    · exact .inr (by omega)

theorem withResources {r : Resources} (h : s.resources.Extends r) :
    s.Extends (s.withResources r) :=
  ⟨h, rfl, rfl, List.prefix_refl _, fun _ hf ↦ .inl hf, fun _ hf ↦ .inl hf⟩

end StageDraft.Extends

namespace ScopeDraft.Extends

variable {s s₁ s₂ : ScopeDraft}

@[refl] theorem refl (s : ScopeDraft) : s.Extends s :=
  ⟨.refl _, rfl, rfl, List.prefix_refl _, fun _ he ↦ he⟩

theorem trans (h : s.Extends s₁) (h' : s₁.Extends s₂) : s.Extends s₂ where
  stage := h.stage.trans h'.stage
  id := h'.id.trans h.id
  kind := h'.kind.trans h.kind
  declared := h.declared.trans h'.declared
  deferred e he := h'.deferred e (h.deferred e he)

theorem withStage {t : StageDraft} (h : s.stage.Extends t) : s.Extends (s.withStage t) :=
  ⟨h, rfl, rfl, List.prefix_refl _, fun _ he ↦ he⟩

theorem push (s : ScopeDraft) (stmt : Stmt) : s.Extends (s.push stmt) :=
  ⟨.refl _, rfl, rfl, List.prefix_refl _, fun _ he ↦ he⟩

theorem declareAll (s : ScopeDraft) (vs : List Variable) : s.Extends (s.declareAll vs) :=
  ⟨.refl _, rfl, rfl, List.prefix_append _ _, fun _ he ↦ he⟩

theorem defer (s : ScopeDraft) (e : BuildError) : s.Extends (s.defer e) :=
  ⟨.refl _, rfl, rfl, List.prefix_refl _, fun e' he ↦ by simp [ScopeDraft.defer, he]⟩

theorem introduce {v : Variable} {r : Resources} (h : s.stage.resources.Makes v r) :
    s.Extends (s.introduce v r) :=
  (withStage (.withResources h.extends)).trans (declareAll _ [v])

theorem extendConditional (s : ScopeDraft) (tail : ElseChain) :
    s.Extends (s.extendConditional tail) := by
  unfold ScopeDraft.extendConditional
  split
  · exact ⟨.refl _, rfl, rfl, List.prefix_refl _, fun _ he ↦ he⟩
  · rfl

end ScopeDraft.Extends

namespace BlockDraft.Extends

variable {b b₁ b₂ : BlockDraft}

@[refl] theorem refl (b : BlockDraft) : b.Extends b :=
  ⟨.refl _, rfl, rfl, List.prefix_refl _, List.prefix_refl _⟩

theorem trans (h : b.Extends b₁) (h' : b₁.Extends b₂) : b.Extends b₂ where
  scope := h.scope.trans h'.scope
  name := h'.name.trans h.name
  parent := h'.parent.trans h.parent
  inputs := h.inputs.trans h'.inputs
  outputs := h.outputs.trans h'.outputs

end BlockDraft.Extends

namespace Draft.Extends

@[refl] theorem refl : (d : Draft) → d.Extends d
  | .program _ => Resources.Extends.refl _
  | .resources _ => Resources.Extends.refl _
  | .stage _ => StageDraft.Extends.refl _
  | .scope _ => ScopeDraft.Extends.refl _
  | .block _ => BlockDraft.Extends.refl _

theorem trans {d d₁ d₂ : Draft} (h : d.Extends d₁) (h' : d₁.Extends d₂) : d.Extends d₂ := by
  cases d <;> cases d₁ <;> first | exact h.elim | cases d₂ <;> first | exact h'.elim | skip
  · exact Resources.Extends.trans h h'
  · exact Resources.Extends.trans h h'
  · exact StageDraft.Extends.trans h h'
  · exact ScopeDraft.Extends.trans h h'
  · exact BlockDraft.Extends.trans h h'

end Draft.Extends

theorem Arguments.extends {types : List ValueType} {R R' : Registry} {s s' : ScopeDraft}
    {vs : List Variable} (h : Arguments types R s vs R' s') : R ≤ R' ∧ s.Extends s' := by
  induction h with
  | nil => exact ⟨le_rfl, .refl _⟩
  | cons hmake _ _ _ ih =>
    exact ⟨(Registry.le_addVariable _ _).trans ih.1,
      (ScopeDraft.Extends.introduce hmake).trans ih.2⟩

theorem Arguments.finish_eq {types : List ValueType} {R R' : Registry} {s s' : ScopeDraft}
    {vs : List Variable} (h : Arguments types R s vs R' s') :
    s'.stage.finish = s.stage.finish := by
  induction h with
  | nil => rfl
  | cons _ _ _ _ ih => exact ih

/-- After a nested scope has ended, the stage has the frames that it had before. -/
theorem StageDraft.Extends.leave {s : StageDraft} {kind : RegionKind} {body : ScopeDraft}
    (h : (s.opened kind).Extends body) : s.Extends body.leave where
  resources :=
    ⟨h.stage.resources.vars, Nat.le_trans (Nat.le_succ _) h.stage.resources.scopes,
      h.stage.resources.uniforms, h.stage.resources.interStage⟩
  kind := h.stage.kind
  frames := by simp [ScopeDraft.leave, h.stage.frames, StageDraft.opened, ScopeDraft.enter,
    StageDraft.withResources]
  functions := h.stage.functions
  newFunctions f hf := (h.stage.newFunctions f hf).imp_right (Nat.le_trans (Nat.le_succ _))
  newMain f hf := (h.stage.newMain f hf).imp_right (Nat.le_trans (Nat.le_succ _))

/-- After a function has ended, the stage has the frames that it had before. -/
theorem StageDraft.Extends.resumed {s : StageDraft} {result : Option ValueType}
    {body : ScopeDraft} (h : (s.openedFunction result).Extends body) :
    s.Extends (s.resumed body) := by
  obtain ⟨hresources, hkind, -, hfunctions, hnew, hmain⟩ := StageDraft.Extends.leave h
  exact ⟨hresources, hkind, rfl, hfunctions, hnew, hmain⟩

/-- The number of a scope just opened is new. -/
theorem ScopeDraft.Extends.id_of_opened {s : StageDraft} {kind : RegionKind} {body : ScopeDraft}
    (h : (s.opened kind).Extends body) : body.region.id.index = 3 + s.resources.scopeCount := by
  rw [h.id]
  rfl

theorem StageDraft.Extends.names (s : StageDraft) (q : NamePool) : s.Extends (s.withNames q) :=
  .withResources ⟨Nat.le_refl _, Nat.le_refl _, List.prefix_refl _, List.prefix_refl _⟩

theorem Program.resources_setStage (p : Program) (s : Stage) :
    (p.setStage s).resources = p.resources := by
  unfold setStage
  split <;> rfl

/-! ## All operations -/

/-- What clients were given stays given, and the draft is extended. -/
theorem Evolves.extends {R R' : Registry} {d d' : Draft} (h : Evolves R d R' d') :
    R ≤ R' ∧ d.Extends d' := by
  induction h with
  | refl R d => exact ⟨le_rfl, .refl d⟩
  | trans _ _ ih₁ ih₂ => exact ⟨ih₁.1.trans ih₂.1, ih₁.2.trans ih₂.2⟩
  | name hname =>
    exact ⟨Registry.le_addBody _ _, Nat.le_refl _, Nat.le_refl _, List.prefix_refl _,
      List.prefix_refl _⟩
  | uniform hmake =>
    obtain ⟨hvariables, hscopes, huniforms, hinter⟩ := hmake.extends
    exact ⟨Registry.le_addVariable _ _, hvariables, hscopes,
      huniforms.trans (List.prefix_append _ _), hinter⟩
  | interStage hmake =>
    obtain ⟨hvariables, hscopes, huniforms, hinter⟩ := hmake.extends
    exact ⟨Registry.le_addVariable _ _, hvariables, hscopes, huniforms,
      hinter.trans (List.prefix_append _ _)⟩
  | armature | morphWeights =>
    exact ⟨le_rfl, Nat.le_refl _, Nat.le_refl _, List.prefix_refl _, List.prefix_refl _⟩
  | programResources _ ih => exact ih
  | stageResources _ ih => exact ⟨ih.1, .withResources ih.2⟩
  | scopeStage _ ih => exact ⟨ih.1, .withStage ih.2⟩
  | blockScope _ ih => exact ⟨ih.1, ih.2, rfl, rfl, List.prefix_refl _, List.prefix_refl _⟩
  | stageAttribute _ hmake | stageOutput _ hmake | stageBuiltin _ _ hmake =>
    obtain ⟨hresources, -, -, hfunctions, hnew, hmain⟩ :=
      StageDraft.Extends.withResources hmake.extends
    exact ⟨Registry.le_addVariable _ _, hresources, rfl, rfl, hfunctions, hnew, hmain⟩
  | @function R R₁ R₂ s name q params result args start body value _ hargs _ _ _ _ ih =>
    have hbody := hargs.extends.2.trans ih.2
    obtain ⟨hresources, hkind, hframes, hfunctions, hnew, hmain⟩ :=
      (StageDraft.Extends.names s q).trans (.resumed hbody)
    have hR : R ≤ R₂ := (Registry.le_addBody R name).trans (hargs.extends.1.trans ih.1)
    refine ⟨hR.trans (Registry.le_addSignature _ _), hresources, hkind, hframes,
      hfunctions.trans (List.prefix_append _ _), fun f hf ↦ ?_, hmain⟩
    rcases List.mem_append.mp hf with hf | hf
    · exact hnew f hf
    · obtain rfl := List.mem_singleton.mp hf
      exact .inr (Nat.le_of_eq (ScopeDraft.Extends.id_of_opened hbody).symm)
  | @main R R' s body _ _ _ ih =>
    obtain ⟨hresources, hkind, hframes, hfunctions, hnew, -⟩ := StageDraft.Extends.resumed ih.2
    refine ⟨ih.1, hresources, hkind, hframes, hfunctions, hnew, ?_⟩
    intro f hf
    obtain rfl := Option.some.inj hf
    exact .inr (Nat.le_of_eq (ScopeDraft.Extends.id_of_opened ih.2).symm)
  | abandonedFunction hargs _ ih =>
    exact ⟨hargs.extends.1.trans ih.1, .resumed (hargs.extends.2.trans ih.2)⟩
  | declare _ hmake =>
    exact ⟨Registry.le_addVariable _ _, (ScopeDraft.Extends.introduce hmake).trans (.push _ _)⟩
  | declareUnseen _ _ _ hmake =>
    exact ⟨Registry.le_addVariable _ _,
      ((ScopeDraft.Extends.defer _ _).trans (.introduce hmake)).trans (.push _ _)⟩
  | add _ => exact ⟨le_rfl, .push _ _⟩
  | branch _ _ _ _ ih | loopWhile _ _ _ _ ih =>
    exact ⟨ih.1, (ScopeDraft.Extends.withStage (.leave ih.2)).trans (.push _ _)⟩
  | elseIf _ _ _ _ ih | otherwise _ _ ih =>
    exact ⟨ih.1, (ScopeDraft.Extends.withStage (.leave ih.2)).trans (.extendConditional _ _)⟩
  | loopFor _ hmake _ _ _ _ _ _ _ _ ih =>
    have hbody := (ScopeDraft.Extends.introduce hmake).trans ih.2
    exact ⟨(Registry.le_addVariable _ _).trans ih.1,
      (ScopeDraft.Extends.withStage (.leave hbody)).trans (.push _ _)⟩
  | @block R R' s b name kind q _ _ _ _ ih =>
    have hstage := (StageDraft.Extends.names s.stage q).trans (.leave ih.2.scope)
    exact ⟨(Registry.le_addBody R name).trans ih.1,
      ((ScopeDraft.Extends.withStage hstage).trans (.declareAll _ _)).trans (.push _ _)⟩
  | abandoned _ ih => exact ⟨ih.1, .withStage (.leave ih.2)⟩
  | abandonedLoop hmake _ _ _ ih =>
    have hbody := (ScopeDraft.Extends.introduce hmake).trans ih.2
    exact ⟨(Registry.le_addVariable _ _).trans ih.1, .withStage (.leave hbody)⟩
  | @abandonedBlock R R' s b name q _ _ ih =>
    exact ⟨(Registry.le_addBody R name).trans ih.1,
      .withStage ((StageDraft.Extends.names s.stage q).trans (.leave ih.2.scope))⟩
  | blockInput _ _ hmake =>
    exact ⟨Registry.le_addVariable _ _, .introduce hmake, rfl, rfl, List.prefix_append _ _,
      List.prefix_refl _⟩
  | blockOutput hmake =>
    exact ⟨Registry.le_addVariable _ _, .withStage (.withResources hmake.extends), rfl, rfl,
      List.prefix_refl _, List.prefix_append _ _⟩
  | @finished R R' p kind s _ _ ih =>
    refine ⟨ih.1, ?_⟩
    simp only [Draft.Extends, Program.resources_setStage]
    exact ih.2.resources
  | abandonedStage _ _ ih => exact ⟨ih.1, ih.2.resources⟩

end ShaderGraph
