import ShaderGraph.Proofs.Draft.Ending
import ShaderGraph.Proofs.Draft.Sharing

/-!
# What constructions leave in the tables

However a construction ends, the tables of the stage keep what is in them. What
it has declared can be looked up by name from then on: the tables give the same
variable to whoever comes later.
-/

namespace ShaderGraph

variable {σ : Type}

namespace SharedKind

variable {k : SharedKind} {t t' : Tables} {name : String} {type : ValueType} {v : Variable}

/-- Under a name, the tables have a variable of a type. -/
structure Entry (k : SharedKind) (t : Tables) (name : String) (type : ValueType) (v : Variable) :
    Prop where
  found : (k.entries t).find? (·.name == name) = some v
  type : v.type = type
  kind : ∀ kind, k = .attribute kind → v.kind = kind

theorem entries_isPrefix (k : SharedKind) (h : t.Keeps t') : k.entries t <+: k.entries t' := by
  cases k with
  | uniform => exact h.uniforms
  | interStage => exact h.interStage
  | «attribute» kind => exact h.attributes

/-- What is found stays what is found, since tables grow at their ends only. -/
theorem Entry.mono (h : k.Entry t name type v) (ht : t.Keeps t') : k.Entry t' name type v := by
  refine ⟨?_, h.type, h.kind⟩
  obtain ⟨new, hnew⟩ := k.entries_isPrefix ht
  rw [← hnew, List.find?_append, h.found]
  rfl

theorem Entry.name_eq (h : k.Entry t name type v) : v.name = name := by
  simpa using List.find?_some h.found

end SharedKind

/-- A variable that was not there is found after it has been added. -/
theorem find?_append_new {known : List Variable} {v : Variable}
    (hnew : ∀ w ∈ known, w.name ≠ v.name) :
    (known ++ [v]).find? (·.name == v.name) = some v := by
  have hnone : known.find? (·.name == v.name) = none :=
    List.find?_eq_none.mpr fun w hw ↦ by simpa using hnew w hw
  rw [List.find?_append, hnone]
  simp

namespace Resources

/-- A lookup gives what is found, or adds it to the table. -/
theorem retains_lookupOrDeclare (r : Resources) (known : List Variable)
    (add : Variable → Resources → Resources) (kind : VariableKind) (name : String)
    (type : ValueType) :
    (lookupOrDeclare known add kind name type : Build σ Resources Variable).Ends r fun v r' ↦
      v.type = type ∧ (known.find? (·.name == name) = some v ∧ r' = r ∨
        (known ++ [v]).find? (·.name == name) = some v ∧ ∃ r₁, r.Makes v r₁ ∧ r' = add v r₁) := by
  cases hfind : known.find? (·.name == name) with
  | some v =>
    simp only [lookupOrDeclare, hfind]
    by_cases htype : v.type = type
    · rw [if_pos htype]
      exact .pure ⟨htype, .inl ⟨rfl, rfl⟩⟩
    · rw [if_neg htype]
      exact .throw trivial
  | none =>
    refine .of_run fun c v r' c' h ↦ ?_
    rcases lookupOrDeclare_cases r c known add kind name type with
      ⟨w, hw, hname, -⟩ | ⟨w, r₁, hmake, hname, htype, -, -, hnew, hrun⟩ | ⟨e, hrun⟩
    · exact absurd hname (by simpa using List.find?_eq_none.mp hfind w hw)
    · rw [hrun] at h
      cases h
      exact ⟨htype, .inr ⟨hname ▸ find?_append_new hnew, r₁, hmake, rfl⟩⟩
    · rw [hrun] at h
      cases h

theorem retains_declareUniform (r : Resources) (name : String) (type : ValueType) :
    (declareUniform name type : Build σ Resources Variable).Ends r fun v r' ↦
      r.tables.Keeps r'.tables ∧ SharedKind.uniform.Entry r'.tables name type v ∧
        r'.morphWeights = r.morphWeights := by
  refine .draft_bind ((retains_lookupOrDeclare r _ _ _ name type).mono fun v r' h ↦ ?_)
  obtain ⟨htype, ⟨hfound, rfl⟩ | ⟨hfound, r₁, hmake, rfl⟩⟩ := h
  · exact ⟨.refl _, ⟨hfound, htype, nofun⟩, rfl⟩
  · have huniforms : r₁.uniforms = r.uniforms := by rw [hmake.eq]
    refine ⟨{ hmake.keeps with uniforms := ?_ }, ⟨?_, htype, nofun⟩, by rw [hmake.eq]⟩
    · exact hmake.keeps.uniforms.trans (List.prefix_append _ _)
    · simpa only [SharedKind.entries, tables, huniforms] using hfound

theorem retains_declareInterStage (r : Resources) (name : String) (type : ValueType) :
    (declareInterStage name type : Build σ Resources Variable).Ends r fun v r' ↦
      r.tables.Keeps r'.tables ∧ SharedKind.interStage.Entry r'.tables name type v := by
  refine .draft_bind ((retains_lookupOrDeclare r _ _ _ name type).mono fun v r' h ↦ ?_)
  obtain ⟨htype, ⟨hfound, rfl⟩ | ⟨hfound, r₁, hmake, rfl⟩⟩ := h
  · exact ⟨.refl _, hfound, htype, nofun⟩
  · have hinterStage : r₁.interStage = r.interStage := by rw [hmake.eq]
    refine ⟨{ hmake.keeps with interStage := ?_ }, ?_, htype, nofun⟩
    · exact hmake.keeps.interStage.trans (List.prefix_append _ _)
    · simpa only [SharedKind.entries, tables, hinterStage] using hfound

/-- The registers of the morph weights are uniforms of the program. -/
theorem retains_declareMorphWeights (r : Resources) :
    (declareMorphWeights : Build σ Resources MorphWeightData).Ends r fun data r' ↦
      r.tables.Keeps r'.tables ∧ r'.morphWeights = some data := by
  refine .draft_bind ?_
  cases hdata : r.morphWeights with
  | some data => exact .pure ⟨.refl _, hdata⟩
  | none =>
    refine (retains_declareUniform r _ _).bind fun a r₁ h₁ ↦ ?_
    refine (retains_declareUniform r₁ _ _).bind fun b r₂ h₂ ↦ ?_
    obtain ⟨hkeeps₁, -, hnone₁⟩ := h₁
    obtain ⟨hkeeps₂, -, hnone₂⟩ := h₂
    have hnone : r₂.morphWeights = none := hnone₂.trans (hnone₁.trans hdata)
    refine Build.Yields.bind (P := fun _ r' ↦
      r.tables.Keeps r'.tables ∧ r'.morphWeights = some ⟨a, b⟩) (.change ⟨?_, rfl⟩)
      fun _ r₃ h₃ ↦ .pure h₃
    apply (hkeeps₁.trans hkeeps₂).trans
    refine { Tables.Keeps.refl _ with morphWeights := ?_, listeners := ?_ }
    · intro data hmem
      simp [tables, hnone] at hmem
    · exact List.prefix_append _ _

end Resources

namespace StageDraft

theorem retains_onResources {α : Type} {s : StageDraft} {x : Build σ Resources α}
    {P : α → Resources → Prop}
    (hx : x.Ends s.resources fun a r ↦ s.resources.tables.Keeps r.tables ∧ P a r) :
    (Build.onResources x).Ends s fun a s' ↦ s.tables.Keeps s'.tables ∧ P a s'.resources :=
  .on (hx.mono fun _ _ h ↦ ⟨keeps_withResources h.1, h.2⟩)

theorem retains_newStageVariable (s : StageDraft) (name : String) (type : ValueType)
    (kind : VariableKind) :
    (newStageVariable name type kind : Build σ StageDraft Variable).Ends s fun v s' ↦
      (v.name = name ∧ v.type = type ∧ v.kind = kind) ∧ s.tables.Keeps s'.tables ∧
        s'.attributes = s.attributes := by
  refine .of_run fun c v s' c' h ↦ ?_
  rcases newStageVariable_cases s c name type kind with
    ⟨w, r, hmake, hname, htype, -, hkind, hrun⟩ | ⟨e, hrun⟩ <;> rw [hrun] at h <;> cases h
  exact ⟨⟨hname, htype, hkind⟩, keeps_of_makes hmake, rfl⟩

theorem retains_declareAttribute (s : StageDraft) (name : String) (type : ValueType)
    (kind : VariableKind) :
    (declareAttribute name type kind : Build σ StageDraft Variable).Ends s fun v s' ↦
      s.tables.Keeps s'.tables ∧ (SharedKind.attribute kind).Entry s'.tables name type v := by
  refine (ends_expectStage s _ _).bind fun _ s₁ h₁ ↦ .draft_bind ?_
  subst h₁
  have hasked {v : Variable} (hkind : v.kind = kind) :
      ∀ kind', SharedKind.attribute kind = .attribute kind' → v.kind = kind' := by
    rintro kind' ⟨⟩
    exact hkind
  cases hfind : s₁.attributes.find? (·.name == name) with
  | some v =>
    by_cases hv : v.type = type ∧ v.kind = kind
    · simp only [if_pos hv]
      exact .pure ⟨.refl _, hfind, hv.1, hasked hv.2⟩
    · simp only [if_neg hv]
      exact .throw trivial
  | none =>
    refine (retains_newStageVariable s₁ name type kind).bind fun v s₂ h₂ ↦ ?_
    obtain ⟨⟨rfl, htype, hkind⟩, hkeeps, hattributes⟩ := h₂
    have hnew : ∀ w ∈ s₁.attributes, w.name ≠ v.name := fun w hw ↦ by
      simpa using List.find?_eq_none.mp hfind w hw
    refine Build.Yields.bind (P := fun _ s' ↦ s₁.tables.Keeps s'.tables ∧
      s'.attributes = s₁.attributes ++ [v]) (.change ⟨?_, by rw [hattributes]⟩)
      fun _ s₃ h₃ ↦ .pure ⟨h₃.1, ?_, htype, hasked hkind⟩
    · exact { hkeeps with attributes := hkeeps.attributes.trans (List.prefix_append _ _) }
    · simpa only [SharedKind.entries, tables, h₃.2] using find?_append_new hnew

/-- Whatever is declared is found under its name from then on. -/
theorem retains_declare (k : SharedKind) (s : StageDraft) (name : String) (type : ValueType) :
    (k.declare name type : Build σ StageDraft Variable).Ends s fun v s' ↦
      s.tables.Keeps s'.tables ∧ k.Entry s'.tables name type v := by
  cases k with
  | uniform =>
    apply Build.Yields.mono (retains_onResources (Resources.retains_declareUniform _ name type))
    rintro v s' ⟨hkeeps, hentry, -⟩
    exact ⟨hkeeps, hentry.found, hentry.type, nofun⟩
  | interStage =>
    apply Build.Yields.mono (retains_onResources (Resources.retains_declareInterStage _ name type))
    rintro v s' ⟨hkeeps, hentry⟩
    exact ⟨hkeeps, hentry.found, hentry.type, nofun⟩
  | «attribute» kind => exact retains_declareAttribute s name type kind

end StageDraft

/-! ## Statements and ports -/

/-- A block goes on from another one by statements that are added to it. -/
structure BlockDraft.Adds (b : BlockDraft) (stmts : List Stmt) (b' : BlockDraft) : Prop where
  tables : b.scope.stage.tables.Keeps b'.scope.stage.tables
  statements : b'.scope.region.statements = b.scope.region.statements ++ stmts
  interface : b'.interface = b.interface
  id : b'.scope.region.id = b.scope.region.id

namespace BlockDraft

variable {b b₁ b₂ : BlockDraft} {stmts stmts₁ stmts₂ : List Stmt}

namespace Adds

theorem refl (b : BlockDraft) : b.Adds [] b := ⟨.refl _, (List.append_nil _).symm, rfl, rfl⟩

theorem trans (h₁ : b.Adds stmts₁ b₁) (h₂ : b₁.Adds stmts₂ b₂) :
    b.Adds (stmts₁ ++ stmts₂) b₂ where
  tables := h₁.tables.trans h₂.tables
  statements := by rw [h₂.statements, h₁.statements, List.append_assoc]
  interface := h₂.interface.trans h₁.interface
  id := h₂.id.trans h₁.id

end Adds

theorem adds_onStage {α : Type} {x : Build σ StageDraft α} {P : α → Tables → Prop}
    (hx : x.Ends b.scope.stage fun a s' ↦ b.scope.stage.tables.Keeps s'.tables ∧ P a s'.tables) :
    (Build.onScope (Build.onStage x)).Ends b fun a b' ↦ b.Adds [] b' ∧ P a b'.scope.stage.tables :=
  .on (.on (hx.mono fun _ _ h ↦ ⟨⟨h.1, (List.append_nil _).symm, rfl, rfl⟩, h.2⟩))

theorem adds_onShared {α : Type} {x : Build σ Resources α} {P : α → Resources → Prop}
    (hx : x.Ends b.scope.stage.resources fun a r ↦
      b.scope.stage.resources.tables.Keeps r.tables ∧ P a r) :
    (Build.onScope (Build.onShared x)).Ends b fun a b' ↦
      b.Adds [] b' ∧ P a b'.scope.stage.resources :=
  .on (.on ((StageDraft.retains_onResources hx).mono fun _ _ h ↦
    ⟨⟨h.1, (List.append_nil _).symm, rfl, rfl⟩, h.2⟩))

theorem adds_push (b : BlockDraft) (stmt : Stmt) :
    b.Adds [stmt] { b with scope := b.scope.push stmt } := ⟨.refl _, rfl, rfl, rfl⟩

theorem adds_assign (b : BlockDraft) (target value : Expr) :
    (Build.onScope (ScopeDraft.assign target value) : Build σ BlockDraft Unit).Ends b fun _ b' ↦
      b.Adds [.assign target value] b' := by
  refine .on ((ScopeDraft.ends_assign b.scope target value).mono fun _ s' h ↦ ?_)
  rw [h]
  exact b.adds_push _

theorem adds_augment (b : BlockDraft) (target : Expr) (op : AugmentOp) (value : Expr) :
    (Build.onScope (ScopeDraft.augment target op value) : Build σ BlockDraft Unit).Ends b
      fun _ b' ↦ b.Adds [.augment target op value] b' := by
  refine .on ((ScopeDraft.ends_augment b.scope target op value).mono fun _ s' h ↦ ?_)
  rw [h]
  exact b.adds_push _

theorem adds_bind (b : BlockDraft) (init : Expr) :
    (Build.onScope (ScopeDraft.bind init) : Build σ BlockDraft Variable).Ends b fun v b' ↦
      (v.type = init.type ∧ v.kind = .localVar ∧ v.scope = b.scope.region.id) ∧
        b.Adds [.declare v (some init)] b' := by
  refine .on fun c ↦ ?_
  cases hcheck : b.scope.readsCheck init with
  | ok u =>
    obtain ⟨name, q, hq, h⟩ := ScopeDraft.freshName_spec b.scope c init.type.nameStem
    obtain ⟨v, r, hmake, htype, hscope, hkind, hadd⟩ :=
      ScopeDraft.addDeclaration_spec c hq init.type (some init)
    unfold ScopeDraft.bind
    rw [Build.draft_bind]
    simp only [hcheck]
    rw [Build.bind_ok h, hadd]
    exact ⟨⟨htype, hkind, hscope⟩, StageDraft.keeps_of_makes hmake, rfl, rfl, rfl⟩
  | error e =>
    obtain ⟨v, r, hmake, htype, hscope, hkind, hrun⟩ := ScopeDraft.bind_unseen_apply hcheck c
    rw [hrun]
    exact ⟨⟨htype, hkind, hscope⟩, StageDraft.keeps_of_makes hmake, rfl, rfl, rfl⟩

theorem retains_interfaceVariable (b : BlockDraft) (name : String) (type : ValueType)
    (scope : ScopeId) (kind : VariableKind) :
    (interfaceVariable name type scope kind : Build σ BlockDraft Variable).Ends b fun v b' ↦
      (v.type = type ∧ v.kind = kind) ∧ b.Adds [] b' := by
  refine .of_run fun c v b' c' h ↦ ?_
  rcases interfaceVariable_cases b c name type scope kind with
    ⟨w, r, hmake, -, htype, -, hkind, hrun⟩ | ⟨e, hrun⟩ <;> rw [hrun] at h <;> cases h
  exact ⟨⟨htype, hkind⟩, StageDraft.keeps_of_makes hmake, (List.append_nil _).symm, rfl, rfl⟩

/-- A block goes on from another one by ports that it gets. -/
structure Opens (b : BlockDraft) (inputs : List BlockInput) (outputs : List BlockOutput)
    (b' : BlockDraft) : Prop where
  tables : b.scope.stage.tables.Keeps b'.scope.stage.tables
  statements : b'.scope.region.statements = b.scope.region.statements
  inputs : b'.interface.inputs = b.interface.inputs ++ inputs
  outputs : b'.interface.outputs = b.interface.outputs ++ outputs
  id : b'.scope.region.id = b.scope.region.id

theorem Opens.trans {inputs₁ inputs₂ : List BlockInput} {outputs₁ outputs₂ : List BlockOutput}
    (h₁ : b.Opens inputs₁ outputs₁ b₁) (h₂ : b₁.Opens inputs₂ outputs₂ b₂) :
    b.Opens (inputs₁ ++ inputs₂) (outputs₁ ++ outputs₂) b₂ where
  tables := h₁.tables.trans h₂.tables
  statements := h₂.statements.trans h₁.statements
  inputs := by rw [h₂.inputs, h₁.inputs, List.append_assoc]
  outputs := by rw [h₂.outputs, h₁.outputs, List.append_assoc]
  id := h₂.id.trans h₁.id

theorem opens_input (b : BlockDraft) (name : String) (type : ValueType) (e : Expr) :
    (input name type (some e) : Build σ BlockDraft Variable).Ends b fun v b' ↦
      (v.type = type ∧ v.kind = .blockInput) ∧ b.Opens [⟨name, v, e⟩] [] b' := by
  refine .draft_bind ((Build.Ends.ofExcept _).bind fun _ b₁ h₁ ↦ ?_)
  obtain ⟨rfl, -⟩ := h₁
  have hreads : (Build.onScope (ScopeDraft.checkReads e) : Build σ BlockDraft Unit).Ends b₁
      fun _ b' ↦ b' = b₁ :=
    .on (.draft_bind ((Build.Ends.ofExcept _).mono fun _ s' h ↦ by rw [h.1]))
  refine hreads.bind fun _ b₂ h₂ ↦ ?_
  subst h₂
  refine (retains_interfaceVariable b₂ name type _ .blockInput).bind fun v b₃ h₃ ↦ ?_
  obtain ⟨hv, hadds⟩ := h₃
  refine Build.Yields.bind (P := fun _ b' ↦ b₂.Opens [⟨name, v, e⟩] [] b') (.change ?_)
    fun _ b₄ h₄ ↦ .pure ⟨hv, h₄⟩
  refine ⟨hadds.tables, hadds.statements.trans (List.append_nil _), ?_, ?_, hadds.id⟩
  · rw [hadds.interface]
  · rw [hadds.interface, List.append_nil]

theorem opens_output (b : BlockDraft) (name : String) (type : ValueType) :
    (output name type : Build σ BlockDraft Variable).Ends b fun v b' ↦
      (v.type = type ∧ v.kind = .blockOutput) ∧ b.Opens [] [⟨name, v⟩] b' := by
  refine .draft_bind ((retains_interfaceVariable b name type b.parent .blockOutput).bind
    fun v b₁ h₁ ↦ ?_)
  obtain ⟨hv, hadds⟩ := h₁
  refine Build.Yields.bind (P := fun _ b' ↦ b.Opens [] [⟨name, v⟩] b') (.change ?_)
    fun _ b₂ h₂ ↦ .pure ⟨hv, h₂⟩
  refine ⟨hadds.tables, hadds.statements.trans (List.append_nil _), ?_, ?_, hadds.id⟩
  · rw [hadds.interface, List.append_nil]
  · rw [hadds.interface]

end BlockDraft

/-- A block is added at the end of the scope, and the tables are those that its body has left. -/
theorem ScopeDraft.retains_block {α : Type} (s : ScopeDraft) (kind : String)
    {build : Build σ BlockDraft α} {P : α → Block → Tables → Prop}
    (h : build.Ends (s.newBlock kind) fun a b ↦
      P a (b.toBlock (s.newBlock kind).name kind) b.scope.stage.tables) :
    (block kind build).Ends s fun a s' ↦ ∃ b,
      s'.region.statements = s.region.statements ++ [.block b] ∧ P a b s'.stage.tables :=
  ends_block s kind (h.mono fun _ _ hP ↦ ⟨_, rfl, hP⟩)

end ShaderGraph
