import ShaderGraph.Proofs.Script.Reached

/-!
# Declared outputs

The outputs of blocks that a region declares are those of the blocks among its
statements, in order: a block declares its outputs in the scope around it when
it is added there, and in no other way. What a scope declares besides, or
later, has a new number. So a variable of a block that was given up is never
declared.
-/

namespace ShaderGraph

/-- The outputs that a statement gives to the scope it stands in. -/
def Stmt.outputs : Stmt → List Variable
  | .block b => b.outputs.map BlockOutput.slot
  | .declare .. | .assign .. | .augment .. | .branch .. | .loopFor .. | .loopWhile .. | .breakLoop
  | .continueLoop | .discard | .leave _ | .inline _ | .invoke .. => []

namespace Region

/-- The outputs of the blocks among the statements of a region, in order. -/
def outputs (r : Region) : List Variable := r.statements.flatMap Stmt.outputs

/-- The outputs of blocks that a region declares are those that its statements give. -/
def Records (r : Region) : Prop := r.declared.filter (·.kind = .blockOutput) = r.outputs

/-- A region got variables, with numbers from some number on. Those that are outputs of blocks are
given by statements that it got. -/
def Gains (n : Nat) (r r' : Region) : Prop :=
  ∃ vs, r'.declared = r.declared ++ vs ∧
    r'.outputs = r.outputs ++ vs.filter (·.kind = .blockOutput) ∧ ∀ v ∈ vs, n ≤ v.id

theorem Records.mem_outputs_iff {r : Region} (h : r.Records) {v : Variable}
    (hkind : v.kind = .blockOutput) : v ∈ r.outputs ↔ v ∈ r.declared := by
  rw [← h]
  simp [hkind]

namespace Gains

variable {n n' : Nat} {r r₁ r₂ : Region}

theorem of_eq (hdeclared : r₁.declared = r.declared) (houtputs : r₁.outputs = r.outputs) :
    r.Gains n r₁ :=
  ⟨[], by simp [hdeclared], by simp [houtputs], by simp⟩

@[refl] theorem refl (n : Nat) (r : Region) : r.Gains n r := of_eq rfl rfl

theorem trans (h : r.Gains n r₁) (h' : r₁.Gains n' r₂) (hn : n ≤ n') : r.Gains n r₂ := by
  obtain ⟨vs, hdeclared, houtputs, hid⟩ := h
  obtain ⟨vs', hdeclared', houtputs', hid'⟩ := h'
  refine ⟨vs ++ vs', by simp [hdeclared', hdeclared], by simp [houtputs', houtputs], ?_⟩
  intro v hv
  exact (List.mem_append.mp hv).elim (hid v) fun hv ↦ Nat.le_trans hn (hid' v hv)

/-- What was opened empty records what it gained. -/
theorem records (h : r.Gains n r₁) (hdeclared : r.declared = []) (hstatements : r.statements = []) :
    r₁.Records := by
  obtain ⟨vs, hvs, houtputs, -⟩ := h
  rw [Records, hvs, houtputs, hdeclared, outputs, hstatements]
  rfl

/-- What is new has numbers that are new. -/
theorem mem_of_lt (h : r.Gains n r₁) {v : Variable} (hv : v ∈ r₁.declared) (hid : v.id < n) :
    v ∈ r.declared := by
  obtain ⟨vs, hvs, -, hnew⟩ := h
  rw [hvs] at hv
  exact (List.mem_append.mp hv).resolve_right fun hv ↦ absurd (hnew v hv) (Nat.not_le_of_lt hid)

end Gains

end Region

/-- A region is the body of a function, or nested in it. -/
def Function.Has (f : Function) (r : Region) : Prop := r = f.body ∨ Holds f.body.statements r

def Function.Records (f : Function) : Prop := ∀ r, f.Has r → r.Records

structure StageDraft.Gains (s s' : StageDraft) : Prop where
  functions : ∀ f ∈ s'.functions, f ∈ s.functions ∨ f.Records
  main : ∀ f ∈ s'.main, f ∈ s.main ∨ f.Records

structure ScopeDraft.Gains (s s' : ScopeDraft) : Prop where
  stage : s.stage.Gains s'.stage
  region : s.region.Gains s.stage.resources.variableCount s'.region
  nested : ∀ r, Holds s'.region.statements r → Holds s.region.statements r ∨ r.Records

structure BlockDraft.Gains (b b' : BlockDraft) : Prop where
  scope : b.scope.Gains b'.scope
  outputs : ∀ out ∈ b'.interface.outputs, out ∈ b.interface.outputs ∨
    out.slot.kind = .blockOutput ∧ b.scope.stage.resources.variableCount ≤ out.slot.id

def Draft.Gains : Draft → Draft → Prop
  | .program p, .program p' => ∀ s ∈ p'.stages, s ∈ p.stages ∨ ∀ f ∈ s.definitions, f.Records
  | .resources _, .resources _ => True
  | .stage s, .stage s' => s.Gains s'
  | .scope s, .scope s' => s.Gains s'
  | .block b, .block b' => b.Gains b'
  | _, _ => False

namespace StageDraft.Gains

variable {s s₁ s₂ : StageDraft}

@[refl] theorem refl (s : StageDraft) : s.Gains s := ⟨fun _ hf ↦ .inl hf, fun _ hf ↦ .inl hf⟩

theorem trans (h : s.Gains s₁) (h' : s₁.Gains s₂) : s.Gains s₂ where
  functions f hf := (h'.functions f hf).elim (h.functions f) .inr
  main f hf := (h'.main f hf).elim (h.main f) .inr

theorem withResources (s : StageDraft) (r : Resources) : s.Gains (s.withResources r) :=
  ⟨fun _ hf ↦ .inl hf, fun _ hf ↦ .inl hf⟩

theorem addFunction (h : s.Gains s₁) {f : Function} (hf : f.Records) :
    s.Gains (s₁.addFunction f) where
  functions g hg := by
    rcases List.mem_append.mp hg with hg | hg
    · exact h.functions g hg
    · exact .inr (List.mem_singleton.mp hg ▸ hf)
  main := h.main

theorem setMain (h : s.Gains s₁) {f : Function} (hf : f.Records) :
    s.Gains { s₁ with main := some f } where
  functions := h.functions
  main _ hg := .inr (Option.some.inj hg ▸ hf)

/-- A stage that was begun anew has recording functions only. -/
theorem records {kind : StageKind} {r : Resources} (h : (StageDraft.start kind r).Gains s) :
    ∀ f ∈ s.finish.definitions, f.Records := by
  intro f hf
  rcases List.mem_append.mp hf with hf | hf
  · exact (h.functions f hf).resolve_left (by simp [StageDraft.start])
  · exact (h.main f (Option.mem_toList.mp hf)).resolve_left (by simp [StageDraft.start])

end StageDraft.Gains

namespace ScopeDraft.Gains

variable {s s₁ s₂ body : ScopeDraft}

@[refl] theorem refl (s : ScopeDraft) : s.Gains s := ⟨.refl _, .refl _ _, fun _ hr ↦ .inl hr⟩

theorem trans (h : s.Gains s₁) (h' : s₁.Gains s₂) (hext : s.Extends s₁) : s.Gains s₂ where
  stage := h.stage.trans h'.stage
  region := h.region.trans h'.region hext.stage.resources.vars
  nested r hr := (h'.nested r hr).elim (h.nested r) .inr

theorem withStage {t : StageDraft} (h : s.stage.Gains t) : s.Gains (s.withStage t) :=
  ⟨h, .refl _ _, fun _ hr ↦ .inl hr⟩

theorem withResources (s : ScopeDraft) (r : Resources) : s.Gains (s.withResources r) :=
  withStage (.withResources _ r)

theorem introduce {v : Variable} {r : Resources} (hmake : s.stage.resources.Makes v r)
    (hkind : v.kind ≠ .blockOutput) : s.Gains (s.introduce v r) where
  stage := (withResources s r).stage
  region := ⟨[v], rfl, by simp [hkind, Region.outputs, ScopeDraft.introduce, ScopeDraft.declare,
    ScopeDraft.withResources, ScopeDraft.withStage],
    fun w hw ↦ List.mem_singleton.mp hw ▸ Nat.le_of_eq hmake.id.symm⟩
  nested _ hr := .inl hr

theorem defer (s : ScopeDraft) (e : BuildError) : s.Gains (s.defer e) :=
  ⟨.refl _, .refl _ _, fun _ hr ↦ .inl hr⟩

/-- All that was built in a new scope records its outputs. -/
theorem records {t : StageDraft} {kind : RegionKind} (h : (t.opened kind).Gains body) {r : Region}
    (hr : r = body.region ∨ Holds body.region.statements r) : r.Records := by
  rcases hr with rfl | hr
  · exact h.region.records rfl rfl
  · exact (h.nested r hr).resolve_left Holds.not_nil

theorem leave {t : StageDraft} {kind : RegionKind} (h : (t.opened kind).Gains body) :
    t.Gains body.leave :=
  ⟨h.stage.functions, h.stage.main⟩

theorem resumed {t : StageDraft} {result : Option ValueType}
    (h : (t.openedFunction result).Gains body) : t.Gains (t.resumed body) :=
  ⟨h.stage.functions, h.stage.main⟩

/-- The scope gets statements with the same outputs, and with regions that it had or that are in
a finished body. -/
theorem replace (h : s.Gains s₁) {ss : List Stmt} {r : Region}
    (hbody : ∀ r', r' = r ∨ Holds r.statements r' → r'.Records)
    (houtputs : ss.flatMap Stmt.outputs = s₁.region.outputs)
    (hregions : ∀ x ∈ ss, ∀ r' ∈ x.regions,
      r' = r ∨ ∃ t ∈ s₁.region.statements, r' ∈ t.regions) :
    s.Gains (s₁.withStatements ss) where
  stage := h.stage
  region := h.region.trans (.of_eq rfl houtputs) (Nat.le_refl _)
  nested r' hr' := by
    rcases Holds.extend hregions hr' with hr' | hr' | hr'
    · exact .inr (hbody r' (.inl hr'))
    · exact .inr (hbody r' (.inr hr'))
    · exact h.nested r' hr'

theorem pushLeaf (h : s.Gains s₁) {stmt : Stmt} (hregions : stmt.regions = [])
    (houtputs : stmt.outputs = []) : s.Gains (s₁.push stmt) where
  stage := h.stage
  region := h.region.trans (.of_eq rfl (by simp [Region.outputs, push, houtputs])) (Nat.le_refl _)
  nested r hr := h.nested r (hr.of_concat hregions)

/-- What a statement with one body adds to what is nested. -/
theorem holds_concat {ss : List Stmt} {stmt : Stmt} {r r' : Region}
    (hbody : ∀ r', r' = r ∨ Holds r.statements r' → r'.Records) (hregions : stmt.regions = [r])
    (h : Holds (ss ++ [stmt]) r') : Holds ss r' ∨ r'.Records := by
  have hfrom : ∀ x ∈ ss ++ [stmt], ∀ r' ∈ x.regions, r' = r ∨ ∃ t ∈ ss, r' ∈ t.regions := by
    intro x hx r' hr'
    rcases List.mem_append.mp hx with hx | hx
    · exact .inr ⟨x, hx, hr'⟩
    · rw [List.mem_singleton.mp hx, hregions] at hr'
      exact .inl (List.mem_singleton.mp hr')
  rcases Holds.extend hfrom h with h | h | h
  · exact .inr (hbody r' (.inl h))
  · exact .inr (hbody r' (.inr h))
  · exact .inl h

theorem push (h : s.Gains s₁) {stmt : Stmt} {r : Region}
    (hbody : ∀ r', r' = r ∨ Holds r.statements r' → r'.Records) (hregions : stmt.regions = [r])
    (houtputs : stmt.outputs = []) : s.Gains (s₁.push stmt) where
  stage := h.stage
  region := h.region.trans (.of_eq rfl (by simp [Region.outputs, ScopeDraft.push, houtputs]))
    (Nat.le_refl _)
  nested r' hr' := (holds_concat hbody hregions hr').elim (h.nested r') .inr

theorem extendConditional (h : s.Gains s₁) {tail : ElseChain} {r : Region}
    (hbody : ∀ r', r' = r ∨ Holds r.statements r' → r'.Records) (hregions : tail.regions = [r]) :
    s.Gains (s₁.extendConditional tail) := by
  unfold ScopeDraft.extendConditional
  split
  case h_2 => exact h
  case h_1 condition first rest hlast =>
    obtain ⟨front, hfront⟩ := List.getLast?_eq_some_iff.mp hlast
    refine h.replace hbody ?_ fun x hx r' hr' ↦ Stmt.regions_of_extended hlast hregions hx hr'
    simp [Region.outputs, hfront, Stmt.outputs]

/-- A block is added, and its outputs are declared. -/
theorem addBlock (h : s.Gains s₁) {b : Block}
    (hbody : ∀ r', r' = b.body ∨ Holds b.body.statements r' → r'.Records)
    (houtputs : ∀ out ∈ b.outputs, out.slot.kind = .blockOutput ∧
      s.stage.resources.variableCount ≤ out.slot.id) :
    s.Gains ((s₁.declareAll (b.outputs.map BlockOutput.slot)).push (.block b)) where
  stage := h.stage
  region := by
    obtain ⟨vs, hdeclared, hgiven, hid⟩ := h.region
    have hall : (b.outputs.map BlockOutput.slot).filter (·.kind = .blockOutput) =
        b.outputs.map BlockOutput.slot := by
      refine List.filter_eq_self.mpr fun v hv ↦ ?_
      obtain ⟨out, hout, rfl⟩ := List.mem_map.mp hv
      simp [(houtputs out hout).1]
    refine ⟨vs ++ b.outputs.map BlockOutput.slot, ?_, ?_, fun v hv ↦ ?_⟩
    · simp [ScopeDraft.push, declareAll, hdeclared]
    · rw [List.filter_append, hall, ← List.append_assoc, ← hgiven]
      simp [Region.outputs, ScopeDraft.push, declareAll, Stmt.outputs]
    · rcases List.mem_append.mp hv with hv | hv
      · exact hid v hv
      · obtain ⟨out, hout, rfl⟩ := List.mem_map.mp hv
        exact (houtputs out hout).2
  nested r' hr' := (holds_concat hbody rfl hr').elim (h.nested r') .inr

end ScopeDraft.Gains

theorem Arguments.gains {types : List ValueType} {R R' : Registry} {s s' : ScopeDraft}
    {vs : List Variable} (h : Arguments types R s vs R' s') : s.Gains s' := by
  induction h with
  | nil => rfl
  | cons hmake _ hkind _ ih =>
    exact (ScopeDraft.Gains.introduce hmake (by simp [hkind])).trans ih (.introduce hmake)

namespace BlockDraft.Gains

variable {b b₁ b₂ : BlockDraft}

@[refl] theorem refl (b : BlockDraft) : b.Gains b := ⟨.refl _, fun _ hout ↦ .inl hout⟩

theorem trans (h : b.Gains b₁) (h' : b₁.Gains b₂) (hext : b.Extends b₁) : b.Gains b₂ where
  scope := h.scope.trans h'.scope hext.scope
  outputs out hout := by
    rcases h'.outputs out hout with hout | ⟨hkind, hid⟩
    · exact h.outputs out hout
    · exact .inr ⟨hkind, Nat.le_trans hext.scope.stage.resources.vars hid⟩

/-- The outputs of a new block have new numbers. -/
theorem outputs_of_opened {s : ScopeDraft} {name : String} {q : NamePool}
    (h : (s.openedBlock name q).Gains b) : ∀ out ∈ b.interface.outputs,
      out.slot.kind = .blockOutput ∧ s.stage.resources.variableCount ≤ out.slot.id :=
  fun out hout ↦ (h.outputs out hout).resolve_left List.not_mem_nil

end BlockDraft.Gains

/-! ## All operations -/

/-- Whatever is done, regions only declare the outputs of blocks that they have statements of, and
scopes declare variables with new numbers only. -/
theorem Evolves.gains {R R' : Registry} {d d' : Draft} (h : Evolves R d R' d') : d.Gains d' := by
  induction h with
  | refl R d => cases d <;> first | trivial | exact .refl _ | exact fun _ hs ↦ .inl hs
  | @trans R R₁ R₂ d d₁ d₂ h₁ h₂ ih₁ ih₂ =>
    have hext := h₁.extends.2
    cases d <;> cases d₁ <;> first | exact ih₁.elim | cases d₂ <;> first | exact ih₂.elim | skip
    · exact fun s hs ↦ (ih₂ s hs).elim (ih₁ s) .inr
    · trivial
    · exact StageDraft.Gains.trans ih₁ ih₂
    · exact ScopeDraft.Gains.trans ih₁ ih₂ hext
    · exact BlockDraft.Gains.trans ih₁ ih₂ hext
  | name | uniform | interStage | armature | morphWeights => trivial
  | programResources | abandonedStage => exact fun _ hs ↦ .inl hs
  | stageResources => exact .withResources _ _
  | stageAttribute | stageOutput | stageBuiltin =>
    exact ⟨fun _ hf ↦ .inl hf, fun _ hf ↦ .inl hf⟩
  | scopeStage _ ih => exact .withStage ih
  | blockScope _ ih => exact ⟨ih, fun _ hout ↦ .inl hout⟩
  | function _ hargs _ _ _ _ ih =>
    have hbody := hargs.gains.trans ih hargs.extends.2
    exact ((StageDraft.Gains.withResources _ _).trans hbody.resumed).addFunction fun _ ↦
      hbody.records
  | main _ _ _ ih => exact ih.resumed.setMain fun _ ↦ ih.records
  | abandonedFunction hargs _ ih => exact (hargs.gains.trans ih hargs.extends.2).resumed
  | declare _ hmake _ hkind =>
    exact (ScopeDraft.Gains.introduce hmake (by simp [hkind])).pushLeaf rfl rfl
  | declareUnseen _ _ _ hmake _ hkind =>
    exact ((ScopeDraft.Gains.defer _ _).trans (.introduce hmake (by simp [hkind]))
      (.defer _ _)).pushLeaf rfl rfl
  | add h =>
    cases h <;> exact (ScopeDraft.Gains.refl _).pushLeaf rfl rfl
  | branch _ _ _ _ ih | loopWhile _ _ _ _ ih =>
    exact (ScopeDraft.Gains.withStage ih.leave).push (fun _ ↦ ih.records) rfl rfl
  | elseIf _ _ _ _ ih | otherwise _ _ ih =>
    exact (ScopeDraft.Gains.withStage ih.leave).extendConditional (fun _ ↦ ih.records) rfl
  | loopFor _ hmake _ hkind _ _ _ _ _ _ ih =>
    have hbody := (ScopeDraft.Gains.introduce hmake (by simp [hkind])).trans ih (.introduce hmake)
    exact (ScopeDraft.Gains.withStage hbody.leave).push (fun _ ↦ hbody.records) rfl rfl
  | block _ _ _ _ ih =>
    have hstage := (StageDraft.Gains.withResources _ _).trans ih.scope.leave
    exact (ScopeDraft.Gains.withStage hstage).addBlock (fun _ ↦ ih.scope.records)
      ih.outputs_of_opened
  | abandoned _ ih => exact .withStage ih.leave
  | abandonedLoop hmake _ hkind _ ih =>
    have hbody := (ScopeDraft.Gains.introduce hmake (by simp [hkind])).trans ih (.introduce hmake)
    exact .withStage hbody.leave
  | abandonedBlock _ _ ih =>
    exact .withStage ((StageDraft.Gains.withResources _ _).trans ih.scope.leave)
  | blockInput _ _ hmake _ _ hkind =>
    exact ⟨.introduce hmake (by simp [hkind]), fun _ hout ↦ .inl hout⟩
  | blockOutput hmake _ _ hkind =>
    refine ⟨.withResources _ _, fun out hout ↦ ?_⟩
    rcases List.mem_append.mp hout with hout | hout
    · exact .inl hout
    · obtain rfl := List.mem_singleton.mp hout
      exact .inr ⟨hkind, Nat.le_of_eq hmake.id.symm⟩
  | finished _ _ ih =>
    intro t ht
    rcases Program.mem_stages_setStage ht with rfl | ht
    · exact .inr ih.records
    · exact .inl ht

end ShaderGraph
