import ShaderGraph.Proofs.Draft.Places
import ShaderGraph.Proofs.Draft.Ports
import ShaderGraph.Proofs.Draft.Stage

/-!
# Where constructions end

What a construction has done when it was not rejected, whatever it would be
rejected for. Declarations are followed by the tables in which a stage keeps
what can be seen from outside of it.
-/

namespace ShaderGraph

variable {σ S α β : Type}

/-- Unless it is rejected, a construction gives what is expected. -/
abbrev Build.Ends (x : Build σ S α) (s : S) (Q : α → S → Prop) : Prop :=
  x.Yields (fun _ ↦ True) s Q

namespace Build.Ends

variable {s : S} {x : Build σ S α} {Q : α → S → Prop}

theorem of_run (h : ∀ c a s' c', x (s, c) = .ok a (s', c') → Q a s') : x.Ends s Q := by
  intro c
  rcases hx : x (s, c) with ⟨a, s', c'⟩ | ⟨e, s', c'⟩
  · exact h c a s' c' hx
  · trivial

theorem run (h : x.Ends s Q) {c c' : σ} {a : α} {s' : S} (hx : x (s, c) = .ok a (s', c')) :
    Q a s' := by
  have hc := h c
  rwa [hx] at hc

theorem ofExcept (r : Except BuildError α) :
    (Build.ofExcept r : Build σ S α).Ends s fun a s' ↦ s' = s ∧ r = .ok a := by
  intro c
  cases r with
  | ok a => exact ⟨rfl, rfl⟩
  | error e => trivial

end Build.Ends

namespace Build

/-- Whether a construction is done, where nothing is kept beside its draft. -/
def succeeds (x : Build Unit S α) (s : S) : Bool :=
  match x (s, ()) with
  | .ok .. => true
  | .error .. => false

theorem exists_of_succeeds {x : Build Unit S α} {s : S} (h : x.succeeds s = true) :
    ∃ a s', x (s, ()) = .ok a (s', ()) := by
  unfold succeeds at h
  rcases hx : x (s, ()) with ⟨a, s', ⟨⟩⟩ | ⟨e, st⟩
  · exact ⟨a, s', rfl⟩
  · rw [hx] at h
    cases h

end Build

namespace Resources

theorem ends_lookupOrDeclare (r : Resources) (known : List Variable)
    (add : Variable → Resources → Resources) (kind : VariableKind) (name : String)
    (type : ValueType) :
    (lookupOrDeclare known add kind name type : Build σ Resources Variable).Ends r fun v r' ↦
      (v.name = name ∧ v.type = type) ∧ (v ∈ known ∧ r' = r ∨
        (∀ w ∈ known, w.name ≠ name) ∧ v.kind = kind ∧ ∃ r₁, r.Makes v r₁ ∧ r' = add v r₁) := by
  refine .of_run fun c v r' c' h ↦ ?_
  rcases lookupOrDeclare_cases r c known add kind name type with
    ⟨w, hw, hname, htype, hrun⟩ | ⟨w, r₁, hmake, hname, htype, -, hkind, hnew, hrun⟩ | ⟨e, hrun⟩ <;>
    rw [hrun] at h <;> cases h
  · exact ⟨⟨hname, htype⟩, .inl ⟨hw, rfl⟩⟩
  · exact ⟨⟨hname, htype⟩, .inr ⟨hname ▸ hnew, hkind, r₁, hmake, rfl⟩⟩

theorem ends_declareUniform (r : Resources) (name : String) (type : ValueType) :
    (declareUniform name type : Build σ Resources Variable).Ends r fun _ r' ↦
      r'.interStage = r.interStage := by
  refine .draft_bind ((ends_lookupOrDeclare r _ _ _ name type).mono fun v r' h ↦ ?_)
  obtain ⟨-, ⟨-, rfl⟩ | ⟨-, -, r₁, hmake, rfl⟩⟩ := h
  · rfl
  · rw [hmake.eq]

theorem ends_declareInterStage (r : Resources) (name : String) (type : ValueType) :
    (declareInterStage name type : Build σ Resources Variable).Ends r fun v r' ↦
      (v.name = name ∧ v.type = type) ∧ (v ∈ r.interStage ∧ r'.interStage = r.interStage ∨
        (∀ w ∈ r.interStage, w.name ≠ name) ∧ v.kind = .interStage ∧
          r'.interStage = r.interStage ++ [v]) := by
  refine .draft_bind ((ends_lookupOrDeclare r _ _ _ name type).mono fun v r' h ↦ ?_)
  obtain ⟨hv, ⟨hmem, rfl⟩ | ⟨hnew, hkind, r₁, hmake, rfl⟩⟩ := h
  · exact ⟨hv, .inl ⟨hmem, rfl⟩⟩
  · exact ⟨hv, .inr ⟨hnew, hkind, by rw [hmake.eq]⟩⟩

theorem ends_declareArmature (r : Resources) (maxBones : Nat) :
    (declareArmature maxBones : Build σ Resources ArmatureData).Ends r fun _ r' ↦
      r'.interStage = r.interStage := by
  refine .draft_bind ?_
  cases r.armature with
  | some data =>
    by_cases hroom : data.maxBones < maxBones
    · simp only [if_pos hroom]
      exact .throw trivial
    · simp only [if_neg hroom]
      exact .pure rfl
  | none =>
    exact (ends_declareUniform r _ _).bind fun _ r₁ h₁ ↦ Build.Yields.bind (.change h₁)
      fun _ _ h ↦ .pure h

theorem ends_declareMorphWeights (r : Resources) :
    (declareMorphWeights : Build σ Resources MorphWeightData).Ends r fun _ r' ↦
      r'.interStage = r.interStage := by
  refine .draft_bind ?_
  cases r.morphWeights with
  | some data => exact .pure rfl
  | none =>
    refine (ends_declareUniform r _ _).bind fun _ r₁ h₁ ↦ ?_
    refine (ends_declareUniform r₁ _ _).bind fun _ r₂ h₂ ↦ ?_
    exact Build.Yields.bind (.change (h₂.trans h₁)) fun _ _ h ↦ .pure h

end Resources

/-- What is seen of a stage from outside of it. -/
structure Outlets where
  kind : StageKind
  interStage : List Variable
  outputs : List Variable
  builtins : List Variable
  functions : List Function

namespace StageDraft

def outlets (s : StageDraft) : Outlets :=
  ⟨s.kind, s.resources.interStage, s.outputs, s.builtins, s.functions⟩

theorem outlets_withResources {s : StageDraft} {r : Resources}
    (h : r.interStage = s.resources.interStage) : (s.withResources r).outlets = s.outlets :=
  congrArg (Outlets.mk s.kind · s.outputs s.builtins s.functions) h

theorem ends_onResources {s : StageDraft} {x : Build σ Resources α}
    (hx : x.Ends s.resources fun _ r ↦ r.interStage = s.resources.interStage) :
    (Build.onResources x).Ends s fun _ s' ↦ s'.outlets = s.outlets :=
  .on (hx.mono fun _ _ h ↦ outlets_withResources h)

theorem ends_expectStage (s : StageDraft) (item : String) (required : StageKind) :
    (expectStage item required : Build σ StageDraft Unit).Ends s fun _ s' ↦ s' = s := by
  refine .draft_bind ?_
  by_cases hkind : s.kind = required
  · rw [if_pos hkind]
    exact .pure rfl
  · rw [if_neg hkind]
    exact .throw trivial

theorem ends_newStageVariable (s : StageDraft) (name : String) (type : ValueType)
    (kind : VariableKind) :
    (newStageVariable name type kind : Build σ StageDraft Variable).Ends s fun v s' ↦
      (v.name = name ∧ v.type = type ∧ v.kind = kind) ∧ ∃ r, s' = s.withResources r ∧
        r.interStage = s.resources.interStage := by
  refine .of_run fun c v s' c' h ↦ ?_
  rcases newStageVariable_cases s c name type kind with
    ⟨w, r, hmake, hname, htype, -, hkind, hrun⟩ | ⟨e, hrun⟩ <;> rw [hrun] at h <;> cases h
  exact ⟨⟨hname, htype, hkind⟩, r, rfl, by rw [hmake.eq]⟩

theorem ends_declareAttribute (s : StageDraft) (name : String) (type : ValueType)
    (kind : VariableKind) :
    (declareAttribute name type kind : Build σ StageDraft Variable).Ends s fun v s' ↦
      s'.outlets = s.outlets ∧ (v.name = name ∧ v.type = type ∧ v.kind = kind) ∧
        v ∈ s'.attributes ∧ s.attributes ⊆ s'.attributes := by
  refine (ends_expectStage s _ _).bind fun _ s₁ h₁ ↦ .draft_bind ?_
  subst h₁
  cases hfind : s₁.attributes.find? (·.name == name) with
  | some v =>
    by_cases hv : v.type = type ∧ v.kind = kind
    · simp only [if_pos hv]
      have hname : v.name = name := by simpa using List.find?_some hfind
      exact .pure ⟨rfl, ⟨hname, hv⟩, List.mem_of_find?_eq_some hfind, List.Subset.refl _⟩
    · simp only [if_neg hv]
      exact .throw trivial
  | none =>
    refine (ends_newStageVariable s₁ name type kind).bind fun v s₂ h₂ ↦ ?_
    obtain ⟨hv, r, rfl, hr⟩ := h₂
    refine Build.Yields.bind (P := fun _ s' ↦ s'.outlets = s₁.outlets ∧
      s'.attributes = s₁.attributes ++ [v]) (.change ⟨?_, rfl⟩) fun _ s₃ h₃ ↦ .pure ?_
    · exact outlets_withResources hr
    · obtain ⟨houtlets, hattributes⟩ := h₃
      rw [hattributes]
      exact ⟨houtlets, hv, List.mem_append_right _ (List.mem_singleton_self v),
        List.subset_append_left _ _⟩

theorem ends_declareOutput (s : StageDraft) (name : String) (type : ValueType) :
    (declareOutput name type : Build σ StageDraft Variable).Ends s fun v s' ↦
      (v.name = name ∧ v.type = type ∧ v.kind = .fragmentOutput) ∧
        s'.outlets = { s.outlets with outputs := s.outputs ++ [v] } := by
  refine (ends_expectStage s _ _).bind fun _ s₁ h₁ ↦ ?_
  subst h₁
  refine (ends_newStageVariable s₁ name type _).bind fun v s₂ h₂ ↦ ?_
  obtain ⟨hv, r, rfl, hr⟩ := h₂
  refine Build.Yields.bind (P := fun _ s' ↦ s'.outlets =
    { s₁.outlets with outputs := s₁.outputs ++ [v] }) (.change ?_) fun _ s₃ h₃ ↦ .pure ⟨hv, h₃⟩
  exact congrArg (Outlets.mk s₁.kind · (s₁.outputs ++ [v]) s₁.builtins s₁.functions) hr

theorem ends_declareBuiltin (s : StageDraft) (b : BuiltIn) :
    (declareBuiltin b : Build σ StageDraft Variable).Ends s fun v s' ↦
      v.kind = .builtIn b ∧
        ∃ vs, v ∈ vs ∧ s'.outlets = { s.outlets with builtins := vs } := by
  refine (ends_expectStage s _ _).bind fun _ s₁ h₁ ↦ .draft_bind ?_
  subst h₁
  cases hfind : s₁.builtins.find? (·.kind == .builtIn b) with
  | some v =>
    have hkind : v.kind = .builtIn b := by simpa using List.find?_some hfind
    exact .pure ⟨hkind, s₁.builtins, List.mem_of_find?_eq_some hfind, rfl⟩
  | none =>
    refine (ends_newStageVariable s₁ b.name b.type (.builtIn b)).bind fun v s₂ h₂ ↦ ?_
    obtain ⟨⟨-, -, hkind⟩, r, rfl, hr⟩ := h₂
    refine Build.Yields.bind (P := fun _ s' ↦ s'.outlets =
      { s₁.outlets with builtins := s₁.builtins ++ [v] }) (.change ?_) fun _ s₃ h₃ ↦
        .pure ⟨hkind, s₁.builtins ++ [v], by simp, h₃⟩
    exact congrArg (Outlets.mk s₁.kind · s₁.outputs (s₁.builtins ++ [v]) s₁.functions) hr

end StageDraft

/-! ## Scopes -/

namespace ScopeDraft

variable {s : ScopeDraft} {Q : α → ScopeDraft → Prop}

theorem ends_checked (s : ScopeDraft) (check : ScopeDraft → Except BuildError Unit) (stmt : Stmt) :
    (do let s ← Build.draft; Build.ofExcept (check s); add stmt : Build σ ScopeDraft Unit).Ends s
      fun _ s' ↦ s' = s.push stmt := by
  refine .draft_bind ((Build.Ends.ofExcept _).bind fun _ s₁ h₁ ↦ .change ?_)
  rw [h₁.1]

theorem ends_assign (s : ScopeDraft) (target value : Expr) :
    (assign target value : Build σ ScopeDraft Unit).Ends s fun _ s' ↦
      s' = s.push (.assign target value) :=
  ends_checked s (assignCheck · target value) _

theorem ends_augment (s : ScopeDraft) (target : Expr) (op : AugmentOp) (value : Expr) :
    (augment target op value : Build σ ScopeDraft Unit).Ends s fun _ s' ↦
      s' = s.push (.augment target op value) :=
  ends_checked s (augmentCheck · target op value) _

theorem ends_discard (s : ScopeDraft) :
    (discard : Build σ ScopeDraft Unit).Ends s fun _ s' ↦ s' = s.push .discard := by
  refine .draft_bind ?_
  by_cases hkind : s.stage.kind = .fragment
  · rw [if_pos hkind]
    exact .change rfl
  · rw [if_neg hkind]
    exact .throw trivial

/-- A declaration adds its statement at the end, and makes nothing that is seen from outside. -/
theorem ends_bind (s : ScopeDraft) (init : Expr) :
    (bind init : Build σ ScopeDraft Variable).Ends s fun v s' ↦
      (v.type = init.type ∧ v.kind = .localVar) ∧ s'.stage.outlets = s.stage.outlets ∧
        s'.region.statements = s.region.statements ++ [.declare v (some init)] := by
  have houtlets {v : Variable} {r : Resources} (hmake : s.stage.resources.Makes v r) :
      (s.stage.withResources r).outlets = s.stage.outlets :=
    StageDraft.outlets_withResources (by rw [hmake.eq])
  intro c
  cases hcheck : s.readsCheck init with
  | ok u =>
    obtain ⟨name, q, hq, h⟩ := freshName_spec s c init.type.nameStem
    obtain ⟨v, r, hmake, htype, -, hkind, hadd⟩ := addDeclaration_spec c hq init.type (some init)
    unfold bind
    rw [Build.draft_bind]
    simp only [hcheck]
    rw [Build.bind_ok h, hadd]
    exact ⟨⟨htype, hkind⟩, houtlets hmake, rfl⟩
  | error e =>
    obtain ⟨v, r, hmake, htype, -, hkind, hrun⟩ := bind_unseen_apply hcheck c
    rw [hrun]
    exact ⟨⟨htype, hkind⟩, houtlets hmake, rfl⟩

theorem ends_branch (s : ScopeDraft) (condition : Expr) {body : Build σ ScopeDraft Unit}
    {Q : Unit → ScopeDraft → Prop} (h : body.Ends (s.stage.opened .branch) fun _ t ↦
      Q () ((s.withStage t.leave).push (.branch condition t.region .done))) :
    (branch condition body).Ends s Q := by
  have hregion : (Build.onStage (StageDraft.withRegion .branch body)).Ends s fun x s' ↦
      Q () (s'.push (.branch condition x.2 .done)) := by
    refine .of_run fun c x s' c' hrun ↦ ?_
    rw [withRegion_apply] at hrun
    rcases hbody : body (s.stage.opened .branch, c) with ⟨_, t, c₁⟩ | ⟨e, t, c₁⟩ <;>
      rw [hbody] at hrun
    · simp only at hrun
      split at hrun <;> cases hrun
      exact h.run hbody
    · cases hrun
  refine (Build.Ends.ofExcept _).bind fun _ s₁ h₁ ↦ ?_
  obtain ⟨rfl, -⟩ := h₁
  refine Build.Yields.bind (.draft_bind (Build.Ends.ofExcept _)) fun _ s₂ h₂ ↦ ?_
  obtain ⟨rfl, -⟩ := h₂
  rw [nested, bind_map_left]
  exact hregion.bind fun x s₃ h₃ ↦ .change h₃

/-- A block is added as its body has ended. -/
theorem ends_block (s : ScopeDraft) (kind : String) {build : Build σ BlockDraft α}
    (h : build.Ends (s.newBlock kind) fun a b ↦ Q a
      (((s.withStage b.scope.leave).declareAll b.outputSlots).push
        (.block (b.toBlock (s.newBlock kind).name kind)))) :
    (block kind build).Ends s Q := by
  refine .of_run fun c a s' c' hrun ↦ ?_
  rw [block_apply] at hrun
  rcases hbuild : build (s.newBlock kind, c) with ⟨a₁, b, c₁⟩ | ⟨e, b, c₁⟩ <;> rw [hbuild] at hrun
  · simp only at hrun
    split at hrun <;> cases hrun
    exact h.run hbuild
  · cases hrun

end ScopeDraft

/-! ## Blocks -/

namespace BlockDraft

theorem ends_interfaceVariable (b : BlockDraft) (name : String) (type : ValueType) (scope : ScopeId)
    (kind : VariableKind) :
    (interfaceVariable name type scope kind : Build σ BlockDraft Variable).Ends b fun v b' ↦
      v.kind = kind ∧ ∃ r, b' = { b with scope := b.scope.withResources r } ∧
        r.interStage = b.scope.stage.resources.interStage := by
  refine .of_run fun c v b' c' h ↦ ?_
  rcases interfaceVariable_cases b c name type scope kind with
    ⟨w, r, hmake, -, -, -, hkind, hrun⟩ | ⟨e, hrun⟩ <;> rw [hrun] at h <;> cases h
  exact ⟨hkind, r, rfl, by rw [hmake.eq]⟩

theorem ends_input (b : BlockDraft) (name : String) (type : ValueType) (value : Option Expr) :
    (input name type value : Build σ BlockDraft Variable).Ends b fun v b' ↦
      v.kind = .blockInput ∧ b'.scope.stage.outlets = b.scope.stage.outlets ∧
        b'.scope.region.statements = b.scope.region.statements ∧
          b'.outputSlots = b.outputSlots := by
  refine .draft_bind ?_
  cases value with
  | none => exact .throw trivial
  | some e =>
    refine (Build.Ends.ofExcept _).bind fun _ b₁ h₁ ↦ ?_
    obtain ⟨rfl, -⟩ := h₁
    have hreads : (Build.onScope (ScopeDraft.checkReads e) : Build σ BlockDraft Unit).Ends b₁
        fun _ b' ↦ b' = b₁ :=
      .on (.draft_bind ((Build.Ends.ofExcept _).mono fun _ s' h ↦ by rw [h.1]))
    refine hreads.bind fun _ b₂ h₂ ↦ ?_
    subst h₂
    refine (ends_interfaceVariable b₂ name type _ .blockInput).bind fun v b₃ h₃ ↦ ?_
    obtain ⟨hkind, r, rfl, hr⟩ := h₃
    have houtlets := StageDraft.outlets_withResources hr
    exact Build.Yields.bind (P := fun _ b' ↦ b'.scope.stage.outlets = b₂.scope.stage.outlets ∧
      b'.scope.region.statements = b₂.scope.region.statements ∧
        b'.outputSlots = b₂.outputSlots) (.change ⟨houtlets, rfl, rfl⟩)
      fun _ b₄ h₄ ↦ .pure ⟨hkind, h₄⟩

theorem ends_output (b : BlockDraft) (name : String) (type : ValueType) :
    (output name type : Build σ BlockDraft Variable).Ends b fun v b' ↦
      v.kind = .blockOutput ∧ b'.scope.stage.outlets = b.scope.stage.outlets ∧
        b'.scope.region.statements = b.scope.region.statements ∧
          b'.outputSlots = b.outputSlots ++ [v] := by
  refine .draft_bind ((ends_interfaceVariable b name type b.parent .blockOutput).bind
    fun v b₁ h₁ ↦ ?_)
  obtain ⟨hkind, r, rfl, hr⟩ := h₁
  have houtlets := StageDraft.outlets_withResources hr
  exact Build.Yields.bind (P := fun _ b' ↦ b'.scope.stage.outlets = b.scope.stage.outlets ∧
    b'.scope.region.statements = b.scope.region.statements ∧
      b'.outputSlots = b.outputSlots ++ [v]) (.change ⟨houtlets, rfl, List.map_append⟩)
    fun _ b₂ h₂ ↦ .pure ⟨hkind, h₂⟩

end BlockDraft

namespace StageDraft

/-- The stage after the body of its main function has ended. -/
def withMain (body : ScopeDraft) (s : StageDraft) : StageDraft :=
  { s.resumed body with main := some ⟨⟨"main", [], none⟩, [], body.region, none⟩ }

theorem ends_mainBody {t : ScopeDraft} {body : Build σ ScopeDraft Unit} {Q : ScopeDraft → Prop}
    (h : body.Ends t fun _ ↦ Q) :
    (functionBody [] fun _ ↦ do body; return none).Ends t fun x t' ↦ x = ([], none) ∧ Q t' := by
  refine Build.Yields.bind (P := fun args t' ↦ t' = t ∧ args = []) (.pure ⟨rfl, rfl⟩)
    fun args t₁ h₁ ↦ ?_
  obtain ⟨rfl, rfl⟩ := h₁
  refine Build.Yields.bind (P := fun value t' ↦ value = none ∧ Q t')
    (h.bind fun _ _ h₂ ↦ .pure ⟨rfl, h₂⟩) fun value t₂ h₂ ↦ ?_
  obtain ⟨rfl, h₂⟩ := h₂
  exact .pure ⟨rfl, h₂⟩

theorem ends_defineMain (s : StageDraft) {body : Build σ ScopeDraft Unit}
    {Q : Unit → StageDraft → Prop}
    (h : body.Ends (s.openedFunction none) fun _ t ↦ Q () (s.withMain t)) :
    (defineMain body).Ends s Q := by
  have hregion : (apart (withRegion (.function none)
      (functionBody [] fun _ ↦ do body; return none))).Ends s fun x s' ↦ x.1 = ([], none) ∧
        Q () { s' with main := some ⟨⟨"main", [], none⟩, [], x.2, none⟩ } := by
    refine .of_run fun c x s' c' hrun ↦ ?_
    rw [apart_withRegion_apply] at hrun
    rcases hbody : functionBody [] (fun _ ↦ do body; return none) (s.openedFunction none, c) with
      ⟨y, t, c₁⟩ | ⟨e, t, c₁⟩ <;> rw [hbody] at hrun
    · simp only at hrun
      split at hrun <;> cases hrun
      exact (ends_mainBody (Q := fun t ↦ Q () (s.withMain t)) h).run hbody
    · cases hrun
  refine .draft_bind ?_
  by_cases hmain : s.main.isSome = true
  · rw [if_pos hmain]
    exact .throw trivial
  rw [if_neg hmain]
  refine Build.Yields.bind (P := fun f s' ↦ Q () { s' with main := some f })
    (hregion.bind fun x s₁ h₁ ↦ ?_) fun f s₂ h₂ ↦ .change h₂
  obtain ⟨⟨args, value⟩, region⟩ := x
  obtain ⟨hx, hQ⟩ := h₁
  cases hx
  exact .ofExcept_bind rfl (.pure hQ)

end StageDraft

theorem Program.ends_buildStage (p : Program) {kind : StageKind} {build : Build σ StageDraft Unit}
    {Q : Unit → Program → Prop} (h : build.Ends (.start kind p.resources) fun _ s ↦
      Q () ({ p with resources := s.resources }.setStage s.finish)) :
    (buildStage kind build).Ends p Q := by
  refine .draft_bind ?_
  cases hstage : (p.stage? kind).isSome with
  | true =>
    rw [if_pos rfl]
    exact .throw trivial
  | false =>
    rw [if_neg nofun]
    exact Build.Yields.bind (P := fun x p' ↦ Q () (p'.setStage x.2.finish))
      (.via h) fun _ _ h ↦ .change h

end ShaderGraph
