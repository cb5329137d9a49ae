import ShaderGraph.Proofs.Draft.Invariant

/-!
# The invariant is preserved

A region that ended without a deferred error comes into the scope around it
with a new number, so that the scope stays well scoped when a statement gets
it. From this and the leaves the invariant is preserved by all operations.
-/

namespace ShaderGraph

/-- A body was built in a nested scope of a scope. -/
structure ScopeDraft.Encloses (R R' : Registry) (s body : ScopeDraft) : Prop where
  registry : R ≤ R'
  outer : s.Invariant R
  inner : body.Invariant R'
  reached : ∃ kind, (s.stage.opened kind).Extends body

/-- The scope with other statements. -/
def ScopeDraft.withStatements (ss : List Stmt) (s : ScopeDraft) : ScopeDraft :=
  { s with region := { s.region with statements := ss } }

namespace ElseChain

theorem mem_conditions_append {chain tail : ElseChain} {e : Expr}
    (h : e ∈ (chain.append tail).conditions) : e ∈ chain.conditions ∨ e ∈ tail.conditions := by
  fun_induction ElseChain.append chain tail with
  | case1 => exact .inr h
  | case2 => exact .inl h
  | case3 condition body rest tail ih =>
    rcases List.mem_cons.mp h with rfl | h
    · exact .inl List.mem_cons_self
    · exact (ih h).imp_left (List.mem_cons_of_mem condition)

theorem mem_regions_append {chain tail : ElseChain} {r : Region}
    (h : r ∈ (chain.append tail).regions) : r ∈ chain.regions ∨ r ∈ tail.regions := by
  fun_induction ElseChain.append chain tail with
  | case1 => exact .inr h
  | case2 => exact .inl h
  | case3 condition body rest tail ih =>
    rcases List.mem_cons.mp h with rfl | h
    · exact .inl List.mem_cons_self
    · exact (ih h).imp_left (List.mem_cons_of_mem body)

end ElseChain

namespace Stmt

variable {condition : Expr} {first : Region} {rest tail : ElseChain}

theorem mem_regions_append {r : Region}
    (h : r ∈ (branch condition first (rest.append tail)).regions) :
    r ∈ (branch condition first rest).regions ∨ r ∈ tail.regions := by
  rcases List.mem_cons.mp h with rfl | h
  · exact .inl List.mem_cons_self
  · exact (ElseChain.mem_regions_append h).imp_left (List.mem_cons_of_mem first)

/-- Where the conditional at the end of some statements goes on, one body is new. -/
theorem regions_of_extended {ss : List Stmt} {x : Stmt} {body r : Region}
    (hlast : ss.getLast? = some (branch condition first rest)) (hregions : tail.regions = [body])
    (hx : x ∈ ss.dropLast ++ [branch condition first (rest.append tail)]) (hr : r ∈ x.regions) :
    r = body ∨ ∃ t ∈ ss, r ∈ t.regions := by
  rcases List.mem_append.mp hx with hx | hx
  · exact .inr ⟨x, (List.dropLast_sublist _).mem hx, hr⟩
  · rw [List.mem_singleton.mp hx] at hr
    rcases mem_regions_append hr with hr | hr
    · exact .inr ⟨_, List.mem_of_getLast? hlast, hr⟩
    · rw [hregions] at hr
      exact .inl (List.mem_singleton.mp hr)

/-- A conditional that goes on stands rightly if its old part does and the new one fits. -/
theorem Placed.append {V : List Variable} {k : StageKind} {chain : List ScopeId}
    (h : (branch condition first rest).Placed V k chain)
    (hconditions : ∀ e ∈ tail.conditions, ∀ v ∈ e.vars, v ∈ V ∧ v.InReach k chain)
    (hdeclared : ∀ body ∈ tail.regions, ∀ v ∈ body.declared, v ∈ V ∧ v.scope = body.id)
    (hfresh : ∀ body ∈ tail.regions,
      3 ≤ body.id.index ∧ ∀ i ∈ chain, i.index < body.id.index) :
    (branch condition first (rest.append tail)).Placed V k chain where
  assignable := h.assignable
  operands e he := by
    rcases List.mem_cons.mp he with rfl | he
    · exact h.operands e List.mem_cons_self
    · rcases ElseChain.mem_conditions_append he with he | he
      · exact h.operands e (List.mem_cons_of_mem condition he)
      · exact hconditions e he
  header _ _ e he := by cases he
  written := h.written
  declared r hr := (mem_regions_append hr).elim (h.declared r) (hdeclared r)
  fresh r hr := (mem_regions_append hr).elim (h.fresh r) (hfresh r)
  loopVariable v hv := by cases hv

end Stmt

namespace ScopeDraft.Encloses

variable {R R' : Registry} {s body : ScopeDraft}

theorem of_evolves {kind : RegionKind} (hs : s.Invariant R)
    (hbody : Evolves R (.scope (s.stage.opened kind)) R' (.scope body))
    (hinner : body.Invariant R') : s.Encloses R R' body :=
  ⟨hbody.extends.1, hs, hinner, kind, hbody.extends.2⟩

theorem inReach (h : s.Encloses R R' body) {e : Expr} (he : s.Sees R e) {v : Variable}
    (hv : v ∈ e.vars) : v ∈ R'.vars ∧ v.InReach s.stage.kind s.chain :=
  (he.inReach h.outer.stage.fits.distinct hv).imp_left (Registry.mem_vars h.registry)

theorem chain_eq (h : s.Encloses R R' body) : body.chain = body.region.id :: s.chain := by
  obtain ⟨kind, hext⟩ := h.reached
  rw [chain, hext.stage.frames, hext.id]
  rfl

theorem kind_eq (h : s.Encloses R R' body) : body.stage.kind = s.stage.kind := by
  obtain ⟨kind, hext⟩ := h.reached
  exact hext.stage.kind

theorem id_eq (h : s.Encloses R R' body) :
    body.region.id.index = 3 + s.stage.resources.scopeCount := by
  obtain ⟨kind, hext⟩ := h.reached
  exact hext.id_of_opened

theorem leave_extends (h : s.Encloses R R' body) : s.stage.Extends body.leave := by
  obtain ⟨kind, hext⟩ := h.reached
  exact .leave hext

theorem resume (h : s.Encloses R R' body) : (s.withStage body.leave).Invariant R' :=
  h.outer.withStage (.leave h.inner) h.leave_extends h.registry

theorem fresh (h : s.Encloses R R' body) :
    3 ≤ body.region.id.index ∧ ∀ i ∈ s.chain, i.index < body.region.id.index := by
  rw [h.id_eq]
  refine ⟨Nat.le_add_right 3 _, ?_⟩
  intro i hi
  obtain ⟨f, hf, rfl⟩ := List.mem_map.mp hi
  exact (h.outer.stage.frames f hf).2

theorem wellScoped (h : s.Encloses R R' body) (hend : body.deferred = none) :
    WellScoped R'.vars s.stage.kind (body.region.id :: s.chain) body.region.statements := by
  rw [← h.chain_eq, ← h.kind_eq]
  exact h.inner.statements hend

/-- The statements of the scope are replaced by others with the same regions and the body. -/
theorem replace (h : s.Encloses R R' body) (hend : body.deferred = none) {ss : List Stmt}
    (hplaced : s.deferred = none → ∀ x ∈ ss, x.Placed R'.vars s.stage.kind s.chain)
    (hregions : ∀ x ∈ ss, ∀ r ∈ x.regions,
      r = body.region ∨ ∃ t ∈ s.region.statements, r ∈ t.regions) :
    ((s.withStage body.leave).withStatements ss).Invariant R' where
  stage := h.resume.stage
  frame := h.resume.frame
  declared := h.resume.declared
  statements hdeferred := by
    -- The body is newer than all that the scope holds.
    have hchain : (s.withStage body.leave).chain = s.chain :=
      congrArg (List.map Frame.id) h.leave_extends.frames
    have hkind : body.leave.kind = s.stage.kind := h.leave_extends.kind
    have hold := (h.outer.statements hdeferred).mono fun _ ↦ Registry.mem_vars h.registry
    have hnew : ∀ r, Holds s.region.statements r → r.id.index < body.region.id.index :=
      fun r hr ↦ h.id_eq ▸ h.outer.nested r hr
    have hss := hold.extend (h.wellScoped hend) hnew (hplaced hdeferred) hregions
    rw [← hchain, ← hkind] at hss
    exact hss
  nested r hr := by
    have hgrow : body.region.id.index < 3 + body.stage.resources.scopeCount := h.inner.id_lt
    have hid := h.id_eq
    rcases Holds.extend hregions hr with rfl | hr | hr
    · exact hgrow
    · exact h.inner.nested r hr
    · have hlt := h.outer.nested r hr
      exact Nat.lt_trans (hid ▸ hlt) hgrow

/-- A statement of the scope whose only region is the body stands rightly. -/
theorem placed (h : s.Encloses R R' body) {stmt : Stmt} (hregions : stmt.regions = [body.region])
    (htarget : stmt.target? = none)
    (hoperands : ∀ e ∈ stmt.operands, ∀ v ∈ e.vars,
      v ∈ R'.vars ∧ v.InReach s.stage.kind s.chain)
    (hheader : ∀ e ∈ stmt.header, ∀ v ∈ e.vars,
      v ∈ R'.vars ∧ v.InReach s.stage.kind (body.region.id :: s.chain))
    (hwritten : ∀ v ∈ stmt.writtenVariables,
      v ∈ R'.vars ∧ v.InReach s.stage.kind s.chain)
    (hloop : ∀ v, stmt.loopVariable? = some v → v ∈ body.region.declared ∧
      ∀ e ∈ stmt.header, ∀ w ∈ e.vars, w.scope = body.region.id → w = v) :
    stmt.Placed R'.vars s.stage.kind s.chain where
  assignable e he := by simp [htarget] at he
  operands := hoperands
  header r hr := by
    rw [hregions, List.mem_singleton] at hr
    exact hr ▸ hheader
  written := hwritten
  declared r hr := by
    rw [hregions, List.mem_singleton] at hr
    exact hr ▸ h.inner.declared
  fresh r hr := by
    rw [hregions, List.mem_singleton] at hr
    exact hr ▸ h.fresh
  loopVariable v hv r hr := by
    rw [hregions, List.mem_singleton] at hr
    exact hr ▸ hloop v hv

theorem push (h : s.Encloses R R' body) (hend : body.deferred = none) {stmt : Stmt}
    (hregions : stmt.regions = [body.region])
    (hplaced : stmt.Placed R'.vars s.stage.kind s.chain) :
    ((s.withStage body.leave).push stmt).Invariant R' := by
  change ((s.withStage body.leave).withStatements (s.region.statements ++ [stmt])).Invariant R'
  refine h.replace hend (fun hdeferred x hx ↦ ?_) fun x hx r hr ↦ ?_
  · rcases List.mem_append.mp hx with hx | hx
    · have hold := (h.outer.statements hdeferred).placed_of_mem hx
      exact hold.mono fun _ ↦ Registry.mem_vars h.registry
    · exact List.mem_singleton.mp hx ▸ hplaced
  · rcases List.mem_append.mp hx with hx | hx
    · exact .inr ⟨x, hx, hr⟩
    · rw [List.mem_singleton.mp hx, hregions] at hr
      exact .inl (List.mem_singleton.mp hr)

theorem extend (h : s.Encloses R R' body) (hend : body.deferred = none) {tail : ElseChain}
    (hregions : tail.regions = [body.region])
    (hconditions : ∀ e ∈ tail.conditions, ∀ v ∈ e.vars,
      v ∈ R'.vars ∧ v.InReach s.stage.kind s.chain) :
    ((s.withStage body.leave).extendConditional tail).Invariant R' := by
  unfold extendConditional
  split
  case h_2 => exact h.resume
  case h_1 condition first rest hlast =>
    refine h.replace hend (fun hdeferred x hx ↦ ?_) fun x hx r hr ↦
      Stmt.regions_of_extended hlast hregions hx hr
    have hold {x : Stmt} (hx : x ∈ s.region.statements) :
        x.Placed R'.vars s.stage.kind s.chain :=
      ((h.outer.statements hdeferred).placed_of_mem hx).mono fun _ ↦
        Registry.mem_vars h.registry
    rcases List.mem_append.mp hx with hx | hx
    · exact hold ((List.dropLast_sublist _).mem hx)
    · rw [List.mem_singleton.mp hx]
      refine (hold (List.mem_of_getLast? hlast)).append hconditions (fun r hr ↦ ?_) fun r hr ↦ ?_
      · rw [hregions, List.mem_singleton] at hr
        exact hr ▸ h.inner.declared
      · rw [hregions, List.mem_singleton] at hr
        exact hr ▸ h.fresh

end ScopeDraft.Encloses

namespace BlockDraft.Invariant

variable {R R' : Registry} {b : BlockDraft}

theorem openedBlock {s : ScopeDraft} (h : s.Invariant R) {name : String} {q : NamePool}
    (hname : s.stage.resources.names.Gives name q) :
    (s.openedBlock name q).Invariant (R.addBody name) where
  scope := (h.stage.withBody hname).opened .block
  parent := by
    obtain ⟨rest, hrest⟩ := h.frame
    exact ⟨_, rest, congrArg _ hrest, rfl⟩
  inputs i hi := by cases hi
  outputs o ho := by cases ho

theorem withScope (h : b.Invariant R) {s : ScopeDraft} (hs : s.Invariant R')
    (hext : b.scope.Extends s) (hR : R ≤ R') : BlockDraft.Invariant R' { b with scope := s } where
  scope := hs
  parent := by
    obtain ⟨frame, rest, hframes, hparent⟩ := h.parent
    refine ⟨frame, rest, ?_, hparent⟩
    rw [hext.stage.frames, hframes, hext.id, hext.kind]
  inputs i hi v hv := by
    obtain ⟨hmem, hreach⟩ := h.inputs i hi v hv
    have hchain : s.chain = b.scope.chain := congrArg (List.map Frame.id) hext.stage.frames
    rw [hchain, hext.stage.kind]
    exact ⟨Registry.mem_vars hR hmem, hreach⟩
  outputs o ho := (h.outputs o ho).imp_left (Registry.mem_vars hR)

theorem addInput (h : b.Invariant R) {i : BlockInput}
    (hi : ∀ v ∈ i.value.vars, v ∈ R.vars ∧ v.InReach b.scope.stage.kind b.scope.chain) :
    BlockDraft.Invariant R
      { b with interface := { b.interface with inputs := b.interface.inputs ++ [i] } } where
  scope := h.scope
  parent := h.parent
  inputs j hj := by
    rcases List.mem_append.mp hj with hj | hj
    · exact h.inputs j hj
    · exact List.mem_singleton.mp hj ▸ hi
  outputs := h.outputs

theorem addOutput (h : b.Invariant R) {o : BlockOutput}
    (ho : o.slot ∈ R.vars ∧ o.slot.scope = b.parent) :
    BlockDraft.Invariant R
      { b with interface := { b.interface with outputs := b.interface.outputs ++ [o] } } where
  scope := h.scope
  parent := h.parent
  inputs := h.inputs
  outputs o' ho' := by
    rcases List.mem_append.mp ho' with ho' | ho'
    · exact h.outputs o' ho'
    · exact List.mem_singleton.mp ho' ▸ ho

theorem parent_lt (h : b.Invariant R) :
    b.parent.index < 3 + b.scope.stage.resources.scopeCount := by
  obtain ⟨frame, rest, hframes, hparent⟩ := h.parent
  exact hparent ▸ (h.scope.stage.frames frame (by simp [hframes])).2

end BlockDraft.Invariant

/-- A finished block is added, and its outputs are declared in the scope. -/
theorem ScopeDraft.Encloses.addBlock {R R' : Registry} {s : ScopeDraft} {b : BlockDraft}
    (h : s.Encloses R R' b.scope) (hb : b.Invariant R') (hparent : b.parent = s.region.id)
    (hend : b.scope.deferred = none) (name kind : String) :
    (((s.withStage b.scope.leave).declareAll (b.interface.outputs.map BlockOutput.slot)).push
      (.block (b.toBlock name kind))).Invariant R' := by
  have houtputs : ∀ v ∈ b.interface.outputs.map BlockOutput.slot,
      v ∈ R'.vars ∧ v.scope = s.region.id := fun v hv ↦ by
    obtain ⟨o, ho, rfl⟩ := List.mem_map.mp hv
    exact hparent ▸ hb.outputs o ho
  have hmem : s.region.id ∈ s.chain := by
    obtain ⟨rest, hrest⟩ := h.outer.frame
    simp [chain, hrest]
  have hplaced : (Stmt.block (b.toBlock name kind)).Placed R'.vars s.stage.kind s.chain := by
    refine h.placed rfl rfl (fun e he ↦ by cases he) (fun e he v hv ↦ ?_) (fun v hv ↦ ?_)
      fun v hv ↦ by cases hv
    · obtain ⟨i, hi, rfl⟩ := List.mem_map.mp he
      rw [← h.chain_eq, ← h.kind_eq]
      exact hb.inputs i hi v hv
    · obtain ⟨hv, hscope⟩ := houtputs v hv
      exact ⟨hv, .inr (.inr (hscope ▸ hmem))⟩
  exact (h.push hend rfl hplaced).declareAll houtputs

/-! ## Functions and stages -/

namespace StageDraft.Invariant

variable {R R' : Registry} {s : StageDraft} {result : Option ValueType} {body : ScopeDraft}

/-- A function that ended without a deferred error is well scoped in itself. -/
theorem function (hbody : body.Invariant R') (hext : (s.openedFunction result).Extends body)
    (hend : body.deferred = none) {value : Option Expr} (hvalue : ∀ e ∈ value, body.Sees R' e)
    (signature : Signature) (args : List Variable) :
    Function.WellScoped R'.vars s.kind ⟨signature, args, body.region, value⟩ := by
  have hchain : body.chain = [body.region.id] := by
    rw [ScopeDraft.chain, hext.stage.frames, hext.id]
    rfl
  have hkind : body.stage.kind = s.kind := hext.stage.kind
  constructor
  · rw [← hchain, ← hkind]
    exact hbody.statements hend
  · intro e he v hv
    rw [← hchain, ← hkind]
    exact (hvalue e he).inReach hbody.stage.fits.distinct hv

theorem addFunction (h : s.Invariant R) {f : Function} (hf : f.WellScoped R.vars s.kind) :
    (s.addFunction f).Invariant R where
  fits := h.fits
  frames := h.frames
  tables := h.tables
  attributes := h.attributes
  finished :=
    { functions := fun g hg ↦ by
        rcases List.mem_append.mp hg with hg | hg
        · exact h.finished.functions g hg
        · exact List.mem_singleton.mp hg ▸ hf
      main := h.finished.main }

theorem setMain (h : s.Invariant R) {f : Function} (hf : f.WellScoped R.vars s.kind) :
    StageDraft.Invariant R { s with main := some f } where
  fits := h.fits
  frames := h.frames
  tables := h.tables
  attributes := h.attributes
  finished :=
    { functions := h.finished.functions
      main := fun _ hg ↦ Option.some.inj hg ▸ hf }

end StageDraft.Invariant

theorem Program.invariant_new (name : String) (signatures : Set Signature) (checked : Prop) :
    (Program.new name).Invariant (.start signatures checked) where
  fits := {
    count := rfl
    id := fun i v hv ↦ by cases hv
    scope := fun v hv ↦ by cases hv
    uniforms := fun v hv ↦ by cases hv
    interStage := fun v hv ↦ by cases hv
    armature := fun data hdata ↦ by cases hdata
    morphWeights := fun data hdata ↦ by cases hdata
    names := .refl _
    nodup := List.nodup_nil
    uniformKinds := fun v hv ↦ by cases hv
    interStageKinds := fun v hv ↦ by cases hv }
  stages := fun s hs ↦ by cases hs

theorem StageDraft.invariant_start {R : Registry} {r : Resources} (h : R.Fits r)
    (kind : StageKind) : (StageDraft.start kind r).Invariant R where
  fits := h
  frames f hf := by cases hf
  tables v hv := by cases hv
  attributes v hv := by cases hv
  finished :=
    { functions := fun f hf ↦ by cases hf
      main := fun f hf ↦ by cases hf }

theorem ScopeId.stage_lt (k : StageKind) : (ScopeId.stage k).index < 3 := by
  cases k <;> decide

/-- A variable of the stage is made, and goes into one of its tables. -/
theorem StageDraft.Invariant.addEntry {R : Registry} {s : StageDraft} {v : Variable} {r : Resources}
    (h : s.Invariant R) (hmake : s.resources.Makes v r) (hscope : v.scope = .stage s.kind)
    {attributes outputs builtins : List Variable}
    (hentries : ∀ w ∈ attributes ++ outputs ++ builtins,
      w ∈ s.attributes ++ s.outputs ++ s.builtins ∨ w = v)
    (hattributes : ∀ w ∈ attributes, s.kind = .vertex ∧ w.scope = .stage .vertex) :
    StageDraft.Invariant (R.addVariable v)
      { s.withResources r with attributes, outputs, builtins } := by
  have hlt : v.scope.index < 3 + s.resources.scopeCount :=
    hscope ▸ Nat.lt_add_right _ (ScopeId.stage_lt s.kind)
  have hstage := h.withResources (Registry.le_addVariable _ v) (h.fits.makes hmake hlt)
    hmake.extends.scopes
  refine ⟨hstage.fits, hstage.frames, fun w hw ↦ ?_, hattributes, hstage.finished.functions,
    hstage.finished.main⟩
  rcases hentries w hw with hold | rfl
  · exact hstage.tables w hold
  · exact Registry.mem_addVariable _ w

theorem Program.mem_stages_setStage {p : Program} {s t : Stage}
    (h : t ∈ (p.setStage s).stages) : t = s ∨ t ∈ p.stages := by
  unfold setStage at h
  split at h <;> simp only [stages, List.mem_append, Option.mem_toList] at h ⊢
  · exact h.imp (fun h ↦ (Option.some.inj h).symm) .inr
  · exact h.symm.imp (fun h ↦ (Option.some.inj h).symm) .inl

/-! ## All operations -/

/-- Every operation preserves the invariant. -/
theorem Evolves.invariant {R R' : Registry} {d d' : Draft} (h : Evolves R d R' d')
    (hd : d.Invariant R) : d'.Invariant R' := by
  induction h with
  | refl => exact hd
  | trans _ _ ih₁ ih₂ => exact ih₂ (ih₁ hd)
  | name hname => exact hd.addBody hname
  | uniform hmake hscope hkind =>
    have hfits := hd.makes hmake (hscope ▸ Nat.lt_add_right _ (by decide))
    exact hfits.addUniform (Registry.mem_addVariable _ _) hkind hscope
  | interStage hmake hscope hkind =>
    have hfits := hd.makes hmake (hscope ▸ Nat.lt_add_right _ (by decide))
    exact hfits.addInterStage (Registry.mem_addVariable _ _) hkind hscope
  | armature _ hjoints _ htype => exact hd.setArmature hjoints htype _
  | morphWeights _ hregisters => exact hd.setMorphWeights hregisters _
  | programResources h ih =>
    exact ⟨ih hd.fits, fun t ht ↦
      (hd.stages t ht).mono fun _ ↦ Registry.mem_vars h.extends.1⟩
  | stageResources h ih =>
    exact hd.withResources h.extends.1 (ih hd.fits) h.extends.2.scopes
  | scopeStage h ih => exact hd.withStage (ih hd.stage) h.extends.2 h.extends.1
  | blockScope h ih => exact hd.withScope (ih hd.scope) h.extends.2 h.extends.1
  | stageAttribute hstage hmake hscope =>
    refine hd.addEntry hmake hscope (fun w hw ↦ ?_) fun w hw ↦ ?_
    · simp only [List.mem_append, List.mem_singleton] at hw ⊢
      tauto
    · rcases List.mem_append.mp hw with hw | hw
      · exact hd.attributes w hw
      · exact ⟨hstage, List.mem_singleton.mp hw ▸ hstage ▸ hscope⟩
  | stageOutput _ hmake hscope | stageBuiltin _ _ hmake hscope =>
    refine hd.addEntry hmake hscope (fun w hw ↦ ?_) hd.attributes
    simp only [List.mem_append, List.mem_singleton] at hw ⊢
    tauto
  | @function R R₁ R₂ s name q params result args start body value hname hargs hbody hend hvalue _
      ih =>
    have hnames := hd.withBody hname
    have hinner := ih (hargs.invariant (hnames.openedFunction result))
    have hext := hargs.extends.2.trans hbody.extends.2
    have hresumed := hnames.resumed hinner hext
    have hkind : (s.resumed body).kind = s.kind := hext.stage.kind
    have hf := StageDraft.Invariant.function hinner hext hend hvalue ⟨name, params, result⟩ args
    have hstage := hresumed.addFunction (hkind ▸ hf)
    exact ⟨hstage.fits.addSignature _, hstage.frames, hstage.tables, hstage.attributes,
      hstage.finished⟩
  | @main R R' s body _ hbody hend ih =>
    have hinner := ih (hd.openedFunction none)
    have hkind : (s.resumed body).kind = s.kind := hbody.extends.2.stage.kind
    have hnone (e : Expr) (he : e ∈ (none : Option Expr)) : body.Sees R' e := by cases he
    have hf := StageDraft.Invariant.function hinner hbody.extends.2 hend hnone
      ⟨"main", [], none⟩ []
    exact (hd.resumed hinner hbody.extends.2).setMain (hkind ▸ hf)
  | @abandonedFunction R R₁ R₂ s params result args start body hargs hbody ih =>
    exact hd.resumed (ih (hargs.invariant (hd.openedFunction result)))
      (hargs.extends.2.trans hbody.extends.2)
  | declare hinit hmake hscope =>
    refine (hd.introduce hmake hscope).push rfl ?_
    intro _
    exact ScopeDraft.placed_declare hd.stage.fits.distinct (fun e he ↦ (hinit e he).1) hscope
      hd.frame
  | declareUnseen _ _ _ hmake hscope =>
    -- The statement need not stand rightly, as the scope has a deferred error now.
    refine ((hd.defer _).introduce hmake hscope).push rfl ?_
    intro hend
    exact absurd hend (ScopeDraft.deferred_defer_ne_none _ _)
  | add h =>
    obtain ⟨hplaced, hregions⟩ := h.placed hd.stage.fits.distinct
    exact hd.push hregions fun _ ↦ hplaced
  | branch hcondition _ hbody hend ih | loopWhile hcondition _ hbody hend ih =>
    have h := ScopeDraft.Encloses.of_evolves hd hbody (ih (hd.stage.opened _))
    refine h.push hend rfl (h.placed rfl rfl (fun e he v hv ↦ ?_) (fun e he ↦ by cases he)
      (fun v hv ↦ by cases hv) fun v hv ↦ by cases hv)
    obtain rfl := List.mem_singleton.mp he
    exact h.inReach hcondition hv
  | elseIf hcondition _ hbody hend ih =>
    have h := ScopeDraft.Encloses.of_evolves hd hbody (ih (hd.stage.opened _))
    refine h.extend hend rfl ?_
    intro e he v hv
    obtain rfl := List.mem_singleton.mp he
    exact h.inReach hcondition hv
  | otherwise hbody hend ih =>
    have h := ScopeDraft.Encloses.of_evolves hd hbody (ih (hd.stage.opened _))
    exact h.extend hend rfl fun e he ↦ by cases he
  | @loopFor R R' s body v r init condition update hinit hmake hscope _ _ hheader _ _ hbody hend
      ih =>
    have hopened := hd.stage.opened .loop
    have hstart := hopened.introduce hmake hscope
    have hext := (ScopeDraft.Extends.introduce hmake).trans hbody.extends.2
    have h : ScopeDraft.Encloses R R' s body :=
      ⟨(Registry.le_addVariable R v).trans hbody.extends.1, hd, ih hstart, _, hext⟩
    have hreach (e : Expr) (he : e ∈ [condition, update]) (w : Variable) (hw : w ∈ e.vars) :=
      (hheader e he).inReach hstart.stage.fits.distinct hw
    refine h.push hend rfl (h.placed rfl rfl (fun e he w hw ↦ ?_) (fun e he w hw ↦ ?_)
      (fun w hw ↦ by cases hw) fun w hw ↦ ?_)
    · obtain rfl := List.mem_singleton.mp he
      exact h.inReach hinit hw
    · rw [← h.chain_eq]
      obtain ⟨hmem, hw⟩ := hreach e he w hw
      have hchain := congrArg (List.map Frame.id) hbody.extends.2.stage.frames
      exact ⟨Registry.mem_vars hbody.extends.1 hmem, by rwa [ScopeDraft.chain, hchain]⟩
    · obtain rfl := Option.some.inj hw
      refine ⟨hbody.extends.2.declared.subset List.mem_cons_self, ?_⟩
      intro e he x hx hid
      -- What was made before the loop has no scope with the number of the loop.
      rcases List.mem_append.mp (hreach e he x hx).1 with hold | hnew
      · have hlt := hd.stage.fits.scope x hold
        rw [hid, h.id_eq] at hlt
        exact absurd hlt (Nat.lt_irrefl _)
      · exact List.mem_singleton.mp hnew
  | @block R R' s b name kind q hname hbody hend _ ih =>
    have hnames := hd.withStage (hd.stage.withBody hname) (.names _ q) (Registry.le_addBody R name)
    have hb := ih (.openedBlock hd hname)
    -- A name is taken before the scope of the block is opened.
    have h : ScopeDraft.Encloses (R.addBody name) R' (s.withStage (s.stage.withNames q)) b.scope :=
      ⟨hbody.extends.1, hnames, hb.scope, _, hbody.extends.2.scope⟩
    exact h.addBlock hb hbody.extends.2.parent hend name kind
  | abandoned hbody ih =>
    exact (ScopeDraft.Encloses.of_evolves hd hbody (ih (hd.stage.opened _))).resume
  | @abandonedLoop R R' s body v r hmake hscope _ hbody ih =>
    have hstart := (hd.stage.opened .loop).introduce hmake hscope
    exact ScopeDraft.Encloses.resume ⟨(Registry.le_addVariable R v).trans hbody.extends.1, hd,
      ih hstart, _, (ScopeDraft.Extends.introduce hmake).trans hbody.extends.2⟩
  | @abandonedBlock R R' s b name q hname hbody ih =>
    have hnames := hd.withStage (hd.stage.withBody hname) (.names _ q) (Registry.le_addBody R name)
    have h : ScopeDraft.Encloses (R.addBody name) R' (s.withStage (s.stage.withNames q)) b.scope :=
      ⟨hbody.extends.1, hnames, (ih (.openedBlock hd hname)).scope, _, hbody.extends.2.scope⟩
    exact h.resume
  | @blockInput R b v r e port hvalue _ hmake _ hscope =>
    have hR := Registry.le_addVariable R v
    have hb := hd.withScope (hd.scope.introduce hmake hscope) (.introduce hmake) hR
    exact hb.addInput fun w hw ↦
      (hvalue.inReach hd.scope.stage.fits.distinct hw).imp_left (Registry.mem_vars hR)
  | @blockOutput R b v r port hmake _ hscope =>
    have hR := Registry.le_addVariable R v
    have hstage := hd.scope.stage.withResources hR
      (hd.scope.stage.fits.makes hmake (hscope ▸ hd.parent_lt)) hmake.extends.scopes
    have hext := ScopeDraft.Extends.withStage (.withResources hmake.extends)
    have hb := hd.withScope (hd.scope.withStage hstage (.withResources hmake.extends) hR) hext hR
    exact hb.addOutput ⟨Registry.mem_addVariable R v, hscope⟩
  | @finished R R' p kind s _ h ih =>
    have hstage := ih (StageDraft.invariant_start hd.fits kind)
    refine ⟨?_, fun t ht ↦ ?_⟩
    · rw [Program.resources_setStage]
      exact hstage.fits
    rcases Program.mem_stages_setStage ht with rfl | ht
    · exact hstage.finished
    · exact (hd.stages t ht).mono fun _ ↦ Registry.mem_vars h.extends.1
  | @abandonedStage R R' p kind s _ h ih =>
    exact ⟨(ih (StageDraft.invariant_start hd.fits kind)).fits, fun t ht ↦
      (hd.stages t ht).mono fun _ ↦ Registry.mem_vars h.extends.1⟩

end ShaderGraph
