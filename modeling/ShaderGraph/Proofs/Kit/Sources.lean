import ShaderGraph.Kit.Color
import ShaderGraph.Kit.Displacement
import ShaderGraph.Proofs.Draft.Ports

/-!
# Sources that are not rejected

What a source reads is declared in the stage, so it may be used wherever the
stage is. It has the type of the value that is mixed, which all modes of
mixing keep. Only names, and channels that no texture has, are left to be
rejected.
-/

namespace ShaderGraph

variable {σ κ : Type} {E : BuildError → Prop} {bones m n : Nat} {p : Place} {id : ScopeId}

namespace Place.Usable

variable {a b : Expr} {t u : ValueType}

theorem floatPart (ha : p.Usable t a) (s : Selector) : p.Usable (.float .one) (a.floatPart s) :=
  ha.swizzle _ _

theorem firstThree (ha : p.Usable t a) : p.Usable (.float .three) a.firstThree := ha.swizzle _ _

theorem floatLit (x : Single) : p.Usable (.float .one) (.floatLit x) := .lit rfl

theorem zeros (dim : Dim) : p.Usable (.float dim) (.zeros dim) := .lit rfl

theorem extend (ha : p.Usable t a) (hb : p.Usable u b) : p.Usable (.float .four) (a.extend b) :=
  .call (by simpa using ⟨⟨t, ha⟩, ⟨u, hb⟩⟩) _ _

theorem normalized (ha : p.Usable t a) : p.Usable (.float .three) a.normalized :=
  .call (by simpa using ⟨t, ha⟩) _ _

theorem times (ha : p.Usable t a) (hb : p.Usable u b) (type : ValueType) :
    p.Usable type (.times type a b) :=
  ha.binary .mul hb type

theorem plus (ha : p.Usable t a) (hb : p.Usable u b) (type : ValueType) :
    p.Usable type (.plus type a b) :=
  ha.binary .add hb type

end Place.Usable

theorem MixMode.resultType_float (mode : MixMode) (dim : Dim) :
    ∀ op ∈ mode.augment?, op.binary.resultType (.float dim) (.float dim) = .ok (.float dim) := by
  cases mode <;> cases dim <;> decide

/-- In the stage of a place, a construction gives an expression of a type for use there. -/
def Build.Provides (E : BuildError → Prop) (bones : Nat) (p : Place) (t : ValueType)
    (x : Build σ StageDraft Expr) : Prop :=
  ∀ s : StageDraft, s.Tidy bones → s.kind = p.stage →
    x.Yields E s fun e s' ↦ s.Onward bones s' ∧ p.Usable t e

namespace Source

variable {value : κ → Build σ StageDraft Expr} {sources : List (Source κ)} {dim : Dim}
  {b : BlockDraft} {outs : List Variable} {accumulator : Variable}

theorem yields_mixAll
    (hvalue : ∀ s ∈ sources, (value s.kind).Provides E bones p (.float dim))
    (hb : b.Working bones p id n outs [])
    (hacc : (p.enter id .block).Local n (.float dim) accumulator) :
    (mixAll value accumulator sources).Yields E b fun _ b' ↦ b'.Working bones p id n outs [] := by
  induction sources generalizing b with
  | nil => exact .pure hb
  | cons s rest ih =>
    rw [List.forall_mem_cons] at hvalue
    have hstage := hvalue.1 _ hb.good.tidy hb.good.kind
    refine (BlockDraft.yields_work hb (ScopeDraft.yields_onStage hb.good hstage)).bind
      fun e b₁ h₁ ↦ ?_
    obtain ⟨hb₁, he⟩ := h₁
    refine (BlockDraft.yields_step hb₁ (ScopeDraft.yields_set hb₁.good rfl hacc.toTakes
      hacc.usable he.enter (s.mix.resultType_float dim) hacc.id)).bind fun _ b₂ hb₂ ↦ ?_
    exact ih hvalue.2 hb₂

theorem yields_mixBody (hE : ∀ name, E (.nameTaken name)) {name : String}
    (hvalue : ∀ s ∈ sources, (value s.kind).Provides E bones p (.float dim))
    (hb : b.Opening bones p id m []) :
    (mixBody name dim value sources).Yields E b fun v b' ↦
      b'.Finished bones p id m ∧ p.Local m (.float dim) v := by
  refine (BlockDraft.yields_output hE hb name _).bind fun out b₁ h₁ ↦ ?_
  obtain ⟨hb₁, hout⟩ := h₁
  have hm := hb₁.scope.count
  refine (BlockDraft.yields_bind hb₁.working (.zeros dim)).bind fun accumulator b₂ h₂ ↦ ?_
  obtain ⟨hb₂, hacc⟩ := h₂
  refine (yields_mixAll hvalue hb₂ hacc).bind fun _ b₃ hb₃ ↦ ?_
  refine (BlockDraft.yields_assignOutput hb₃ hout hacc.usable).bind fun _ b₄ hb₄ ↦ ?_
  exact .pure ⟨hb₄.finished hb₁.numbered hm, hout⟩

end Source

/-! ## Vertex properties -/

theorem PropertyValue.four_le_of_channel?_eq_none :
    ∀ {channel : Nat}, channel? channel = none → 4 ≤ channel
  | n + 4, _ => Nat.le_add_left 4 n

/-- A texture is read from the first four channels only. -/
theorem PropertyValue.provides_expr (hE : ∀ name, E (.nameTaken name)) (hp : p.stage = .vertex)
    (value : PropertyValue)
    (hchannel : ∀ sampler coords channel, value = .texture sampler coords channel → 4 ≤ channel →
      E (.indexOutOfRange "texture channel" channel 4)) :
    (value.expr : Build σ StageDraft Expr).Provides E bones p (.float .one) := by
  intro s hs hkind
  cases value with
  | constant x => exact .pure ⟨hs.onward, .floatLit x⟩
  | uniform name =>
    refine (StageDraft.yields_declareUniform hE hs name _).bind fun v s₁ h₁ ↦ ?_
    exact .pure ⟨h₁.1, h₁.2.1 ▸ .var (Place.sees_program h₁.2.2)⟩
  | vertexAttribute name =>
    refine (StageDraft.yields_declareAttribute hE hs (hkind.trans hp) name _ _).bind
      fun v s₁ h₁ ↦ ?_
    exact .pure ⟨h₁.1, h₁.2.1 ▸ .var (Place.sees_stage (hkind ▸ h₁.2.2))⟩
  | texture sampler coords channel =>
    refine (StageDraft.yields_declareUniform hE hs sampler _).bind fun map s₁ h₁ ↦ ?_
    obtain ⟨hon₁, -, hmap⟩ := h₁
    refine (StageDraft.yields_declareAttribute hE hon₁.tidy (hon₁.kind.trans (hkind.trans hp))
      coords _ _).bind fun coord s₂ h₂ ↦ ?_
    obtain ⟨hon₂, -, hcoord⟩ := h₂
    have hcoord : coord.scope = .stage p.stage := by rw [hcoord, hon₁.kind, hkind]
    cases h : channel? channel with
    | none =>
      exact .throw (hchannel sampler coords channel rfl (four_le_of_channel?_eq_none h))
    | some a =>
      have hargs : ∀ e ∈ [Expr.var map, .var coord, .floatLit .zero], ∃ t, p.Usable t e := by
        simp only [List.forall_mem_cons]
        exact ⟨⟨_, .var (Place.sees_program hmap)⟩, ⟨_, .var (Place.sees_stage hcoord)⟩,
          ⟨_, .floatLit _⟩, List.forall_mem_nil _⟩
      exact .pure ⟨hon₁.trans hon₂, (Place.Usable.call hargs _ _).floatPart a⟩

/-- The errors for channels of sources that no texture has are allowed. -/
def PropertySource.ErrorsAllowed (E : BuildError → Prop) (sources : List PropertySource) : Prop :=
  ∀ s ∈ sources, ∀ sampler coords channel, s.kind = .texture sampler coords channel →
    4 ≤ channel → E (.indexOutOfRange "texture channel" channel 4)

theorem PropertySource.yields_block (hE : ∀ name, E (.nameTaken name)) (hp : p.stage = .vertex)
    {sources : List PropertySource} (hchannel : ErrorsAllowed E sources) {s : ScopeDraft}
    (hs : s.Good bones p m) :
    (block sources : Build σ ScopeDraft Variable).Yields E s fun v s' ↦
      s'.Good bones p m ∧ p.Local m (.float .one) v :=
  ScopeDraft.yields_block hs _ fun _ _ hb ↦ Source.yields_mixBody hE (fun source hsource ↦
    PropertyValue.provides_expr hE hp source.kind (hchannel source hsource)) hb

/-! ## Colors -/

theorem ColorValue.provides_expr (hE : ∀ name, E (.nameTaken name)) (value : ColorValue) :
    (value.expr : Build σ StageDraft Expr).Provides E bones p (.float .four) := by
  intro s hs _
  cases value with
  | constant r g b a => exact .pure ⟨hs.onward, .lit rfl⟩
  | uniform name =>
    refine (StageDraft.yields_declareUniform hE hs name _).bind fun v s₁ h₁ ↦ ?_
    exact .pure ⟨h₁.1, h₁.2.1 ▸ .var (Place.sees_program h₁.2.2)⟩
  | vertexColor name =>
    refine (StageDraft.yields_declareInterStage hE hs _ _).bind fun v s₁ h₁ ↦ ?_
    exact .pure ⟨h₁.1, h₁.2.1 ▸ .var (Place.sees_program h₁.2.2.1)⟩
  | texture sampler coords =>
    refine (StageDraft.yields_declareUniform hE hs sampler _).bind fun map s₁ h₁ ↦ ?_
    refine (StageDraft.yields_declareInterStage hE h₁.1.tidy _ _).bind fun coord s₂ h₂ ↦ ?_
    have hargs : ∀ e ∈ [Expr.var map, .var coord], ∃ t, p.Usable t e := by
      simp only [List.forall_mem_cons]
      exact ⟨⟨_, .var (Place.sees_program h₁.2.2)⟩, ⟨_, .var (Place.sees_program h₂.2.2.1)⟩,
        List.forall_mem_nil _⟩
    exact .pure ⟨h₁.1.trans h₂.1, .call hargs _ _⟩

namespace ColorSource

variable {b : BlockDraft} {outs : List Variable} {s : ScopeDraft}

/-- Values for the other stage are written in the middle of the work, whenever they were made. -/
theorem yields_passAll (hE : ∀ name, E (.nameTaken name)) (hp : p.stage = .vertex)
    (passed : List String) (attributes : List (String × ValueType))
    (hb : b.Working bones p id 0 outs []) :
    (passAll passed attributes : Build σ BlockDraft Unit).Yields E b fun _ b' ↦
      b'.Working bones p id 0 outs [] := by
  induction attributes generalizing passed b with
  | nil => exact .pure hb
  | cons first rest ih =>
    obtain ⟨name, type⟩ := first
    unfold passAll
    split
    · exact ih passed hb
    · refine (BlockDraft.yields_declareAttribute hE hb hp name .vertexAttribute).bind
        fun value b₁ h₁ ↦ ?_
      obtain ⟨hb₁, hvalue⟩ := h₁
      refine (BlockDraft.yields_work hb₁ (ScopeDraft.yields_onStage hb₁.good
        (StageDraft.yields_declareInterStage hE hb₁.good.tidy (interStageName name) type))).bind
        fun passedOn b₂ h₂ ↦ ?_
      obtain ⟨hb₂, hpassed, hprogram, hinterStage⟩ := h₂
      have hlocal : (p.enter id .block).Local 0 type passedOn :=
        ⟨⟨Place.sees_program hprogram, by rw [hinterStage]; rfl, fun _ ↦ hp⟩, hpassed,
          Nat.zero_le _⟩
      refine (BlockDraft.yields_store hb₂ hlocal hvalue).bind fun _ b₃ hb₃ ↦ ?_
      exact ih (name :: passed) hb₃

theorem yields_vertexBlock (hE : ∀ name, E (.nameTaken name)) (hp : p.stage = .vertex)
    (sources : List ColorSource) (hs : s.Good bones p 0) :
    (vertexBlock sources : Build σ ScopeDraft Unit).Yields E s fun _ s' ↦ s'.Good bones p 0 := by
  refine (ScopeDraft.yields_block (P := fun _ ↦ True) hs _ fun id b hb ↦ ?_).mono fun _ _ h ↦ h.1
  refine (yields_passAll hE hp _ _ hb.idle).mono fun _ b' hb' ↦ ⟨?_, trivial⟩
  exact hb'.finished .nil (Nat.le_refl 0)

theorem yields_block (hE : ∀ name, E (.nameTaken name)) (hp : p.stage = .fragment)
    (sources : List ColorSource) (hs : s.Good bones p m) :
    (block sources : Build σ ScopeDraft Variable).Yields E s fun v s' ↦
      s'.Good bones p m ∧ p.Local m (.float .four) v := by
  refine ScopeDraft.yields_block hs _ fun id b hb ↦ .draft_bind ?_
  rw [if_pos (hb.scope.kind.trans hp)]
  exact Source.yields_mixBody hE (fun source _ ↦ ColorValue.provides_expr hE source.kind) hb

end ColorSource

end ShaderGraph
