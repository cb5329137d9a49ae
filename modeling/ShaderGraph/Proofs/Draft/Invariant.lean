import ShaderGraph.Proofs.Draft.Growth
import ShaderGraph.Proofs.Region.Escape

/-!
# The invariant of drafts

The frames of a stage are the regions around the current scope, and the
statements of a scope without a deferred error are well scoped in them. So are
the bodies of finished functions, in themselves alone. Whatever the operations,
this is kept.
-/

namespace ShaderGraph

/-- The variables that were made have the numbers from zero on, in order, and belong to scopes
that were opened. Those in the tables are among them, and are of the kind that belongs there. The
names taken are those of the variables and of the bodies that were begun, each once. -/
structure Registry.Fits (R : Registry) (r : Resources) : Prop where
  count : R.vars.length = r.variableCount
  id : ∀ (i : Nat) (v : Variable), R.vars[i]? = some v → v.id = i
  scope : ∀ v ∈ R.vars, v.scope.index < 3 + r.scopeCount
  uniforms : ∀ v ∈ r.uniforms, v ∈ R.vars
  interStage : ∀ v ∈ r.interStage, v ∈ R.vars
  armature : ∀ data ∈ r.armature,
    data.joints ∈ R.vars ∧ data.joints.type = ArmatureData.uniformType data.maxBones
  morphWeights : ∀ data ∈ r.morphWeights, ∀ v ∈ [data.weightsA, data.weightsB],
    v ∈ R.vars ∧ v.type = MorphWeightData.uniformType
  names : r.names.taken.Perm (R.vars.map Variable.name ++ R.bodies)
  nodup : r.names.taken.Nodup
  uniformKinds : ∀ v ∈ r.uniforms, v.kind = .uniform ∧ v.scope = .program
  interStageKinds : ∀ v ∈ r.interStage, v.kind = .interStage ∧ v.scope = .program

/-- The body of a function is well scoped in its own scope, and so is the value it returns. -/
structure Function.WellScoped (V : List Variable) (k : StageKind) (f : Function) : Prop where
  body : ShaderGraph.WellScoped V k [f.body.id] f.body.statements
  result : ∀ e ∈ f.result, ∀ v ∈ e.vars, v ∈ V ∧ v.InReach k [f.body.id]

/-- The functions of a finished stage are well scoped. -/
structure Stage.WellScoped (V : List Variable) (s : Stage) : Prop where
  functions : ∀ f ∈ s.functions, f.WellScoped V s.kind
  main : ∀ f ∈ s.main, f.WellScoped V s.kind

/-- The numbers of the regions around the current scope and of itself, innermost first. -/
def ScopeDraft.chain (s : ScopeDraft) : List ScopeId := s.stage.frames.map Frame.id

/-- What holds of programs under construction. -/
structure Program.Invariant (R : Registry) (p : Program) : Prop where
  fits : R.Fits p.resources
  stages : ∀ s ∈ p.stages, s.WellScoped R.vars

structure StageDraft.Invariant (R : Registry) (s : StageDraft) : Prop where
  fits : R.Fits s.resources
  frames : ∀ f ∈ s.frames, 3 ≤ f.id.index ∧ f.id.index < 3 + s.resources.scopeCount
  tables : ∀ v ∈ s.attributes ++ s.outputs ++ s.builtins, v ∈ R.vars
  attributes : ∀ v ∈ s.attributes, s.kind = .vertex ∧ v.scope = .stage .vertex
  finished : s.finish.WellScoped R.vars

structure ScopeDraft.Invariant (R : Registry) (s : ScopeDraft) : Prop where
  stage : s.stage.Invariant R
  frame : ∃ rest, s.stage.frames = ⟨s.region.id, s.region.kind⟩ :: rest
  declared : ∀ v ∈ s.region.declared, v ∈ R.vars ∧ v.scope = s.region.id
  statements : s.deferred = none →
    WellScoped R.vars s.stage.kind s.chain s.region.statements
  nested : ∀ r, Holds s.region.statements r → r.id.index < 3 + s.stage.resources.scopeCount

structure BlockDraft.Invariant (R : Registry) (b : BlockDraft) : Prop where
  scope : b.scope.Invariant R
  parent : ∃ frame rest, b.scope.stage.frames =
    ⟨b.scope.region.id, b.scope.region.kind⟩ :: frame :: rest ∧ frame.id = b.parent
  inputs : ∀ i ∈ b.interface.inputs, ∀ v ∈ i.value.vars,
    v ∈ R.vars ∧ v.InReach b.scope.stage.kind b.scope.chain
  outputs : ∀ o ∈ b.interface.outputs, o.slot ∈ R.vars ∧ o.slot.scope = b.parent

def Draft.Invariant (R : Registry) : Draft → Prop
  | .program p => p.Invariant R
  | .resources r => R.Fits r
  | .stage s => s.Invariant R
  | .scope s => s.Invariant R
  | .block b => b.Invariant R

namespace Registry.Fits

variable {R : Registry} {r r' : Resources} {v : Variable}

/-- The variables that were made are told apart by their numbers. -/
theorem distinct (h : R.Fits r) : Distinct R.vars := by
  intro v hv w hw hid
  obtain ⟨i, hi⟩ := List.mem_iff_getElem?.mp hv
  obtain ⟨j, hj⟩ := List.mem_iff_getElem?.mp hw
  have hij : i = j := by rw [← h.id i v hi, ← h.id j w hj, hid]
  subst hij
  exact Option.some.inj (hi.symm.trans hj)

theorem id_lt (h : R.Fits r) (hv : v ∈ R.vars) : v.id < r.variableCount := by
  obtain ⟨i, hi⟩ := List.mem_iff_getElem?.mp hv
  rw [h.id i v hi, ← h.count]
  exact (List.getElem?_eq_some_iff.mp hi).1

theorem nodup_names (h : R.Fits r) : (R.vars.map Variable.name ++ R.bodies).Nodup :=
  h.names.nodup_iff.mp h.nodup

theorem nodup_vars (h : R.Fits r) : R.vars.Nodup :=
  .of_map Variable.name (List.nodup_append.mp h.nodup_names).1

theorem addSignature (h : R.Fits r) (f : Signature) : (R.addSignature f).Fits r :=
  ⟨h.count, h.id, h.scope, h.uniforms, h.interStage, h.armature, h.morphWeights, h.names, h.nodup,
    h.uniformKinds, h.interStageKinds⟩

theorem addBody (h : R.Fits r) {name : String} {q : NamePool} (hname : r.names.Gives name q) :
    (R.addBody name).Fits { r with names := q } where
  count := h.count
  id := h.id
  scope := h.scope
  uniforms := h.uniforms
  interStage := h.interStage
  armature := h.armature
  morphWeights := h.morphWeights
  names := by
    have hperm := (h.names.cons name).trans (List.perm_append_singleton name _).symm
    rw [hname.taken, Registry.addBody, ← List.append_assoc]
    exact hperm
  nodup := hname.nodup h.nodup
  uniformKinds := h.uniformKinds
  interStageKinds := h.interStageKinds

theorem opened (h : R.Fits r) : R.Fits { r with scopeCount := r.scopeCount + 1 } :=
  ⟨h.count, h.id, fun v hv ↦ Nat.lt_succ_of_lt (h.scope v hv), h.uniforms, h.interStage,
    h.armature, h.morphWeights, h.names, h.nodup, h.uniformKinds, h.interStageKinds⟩

theorem makes (h : R.Fits r) (hmake : r.Makes v r') (hscope : v.scope.index < 3 + r.scopeCount) :
    (R.addVariable v).Fits r' where
  count := by
    rw [hmake.eq]
    simp [Registry.addVariable, h.count]
  id i w hw := by
    rcases Nat.lt_trichotomy i R.vars.length with hi | rfl | hi
    · rw [Registry.addVariable, List.getElem?_append_left hi] at hw
      exact h.id i w hw
    · obtain rfl : v = w := by simpa [Registry.addVariable] using hw
      rw [hmake.id, h.count]
    · rw [Registry.addVariable, List.getElem?_append_right (Nat.le_of_lt hi),
        List.getElem?_singleton, if_neg (by omega)] at hw
      cases hw
  scope w hw := by
    rw [hmake.eq]
    rcases List.mem_append.mp hw with hw | hw
    · exact h.scope w hw
    · exact List.mem_singleton.mp hw ▸ hscope
  uniforms w hw := by
    rw [hmake.eq] at hw
    exact List.mem_append_left _ (h.uniforms w hw)
  interStage w hw := by
    rw [hmake.eq] at hw
    exact List.mem_append_left _ (h.interStage w hw)
  armature data hdata := by
    rw [hmake.eq] at hdata
    exact (h.armature data hdata).imp_left (List.mem_append_left _)
  morphWeights data hdata w hw := by
    rw [hmake.eq] at hdata
    exact (h.morphWeights data hdata w hw).imp_left (List.mem_append_left _)
  names := by
    have hperm : (v.name :: (R.vars.map Variable.name ++ R.bodies)).Perm
        (R.vars.map Variable.name ++ v.name :: R.bodies) := List.perm_middle.symm
    rw [hmake.names.taken]
    simpa [Registry.addVariable] using (h.names.cons v.name).trans hperm
  nodup := hmake.names.nodup h.nodup
  uniformKinds := by
    rw [hmake.eq]
    exact h.uniformKinds
  interStageKinds := by
    rw [hmake.eq]
    exact h.interStageKinds

theorem addUniform (h : R.Fits r) (hv : v ∈ R.vars) (hkind : v.kind = .uniform)
    (hscope : v.scope = .program) :
    R.Fits { r with uniforms := r.uniforms ++ [v] } where
  count := h.count
  id := h.id
  scope := h.scope
  uniforms w hw :=
    (List.mem_append.mp hw).elim (h.uniforms w) fun hw ↦ List.mem_singleton.mp hw ▸ hv
  interStage := h.interStage
  armature := h.armature
  morphWeights := h.morphWeights
  names := h.names
  nodup := h.nodup
  uniformKinds w hw :=
    (List.mem_append.mp hw).elim (h.uniformKinds w) fun hw ↦
      List.mem_singleton.mp hw ▸ ⟨hkind, hscope⟩
  interStageKinds := h.interStageKinds

theorem addInterStage (h : R.Fits r) (hv : v ∈ R.vars) (hkind : v.kind = .interStage)
    (hscope : v.scope = .program) :
    R.Fits { r with interStage := r.interStage ++ [v] } where
  count := h.count
  id := h.id
  scope := h.scope
  uniforms := h.uniforms
  interStage w hw :=
    (List.mem_append.mp hw).elim (h.interStage w) fun hw ↦ List.mem_singleton.mp hw ▸ hv
  armature := h.armature
  morphWeights := h.morphWeights
  names := h.names
  nodup := h.nodup
  uniformKinds := h.uniformKinds
  interStageKinds w hw :=
    (List.mem_append.mp hw).elim (h.interStageKinds w) fun hw ↦
      List.mem_singleton.mp hw ▸ ⟨hkind, hscope⟩

theorem setArmature (h : R.Fits r) {data : ArmatureData} (hdata : data.joints ∈ r.uniforms)
    (htype : data.joints.type = ArmatureData.uniformType data.maxBones)
    (listeners : List DataBlock) :
    R.Fits { r with armature := some data, listeners := listeners } where
  count := h.count
  id := h.id
  scope := h.scope
  uniforms := h.uniforms
  interStage := h.interStage
  armature _ hsome := Option.some.inj hsome ▸ ⟨h.uniforms _ hdata, htype⟩
  morphWeights := h.morphWeights
  names := h.names
  nodup := h.nodup
  uniformKinds := h.uniformKinds
  interStageKinds := h.interStageKinds

theorem setMorphWeights (h : R.Fits r) {data : MorphWeightData}
    (hdata : ∀ v ∈ [data.weightsA, data.weightsB],
      v ∈ r.uniforms ∧ v.type = MorphWeightData.uniformType) (listeners : List DataBlock) :
    R.Fits { r with morphWeights := some data, listeners := listeners } where
  count := h.count
  id := h.id
  scope := h.scope
  uniforms := h.uniforms
  interStage := h.interStage
  armature := h.armature
  morphWeights _ hsome v hv := by
    obtain rfl := Option.some.inj hsome
    exact (hdata v hv).imp_left (h.uniforms v)
  names := h.names
  nodup := h.nodup
  uniformKinds := h.uniformKinds
  interStageKinds := h.interStageKinds

end Registry.Fits

namespace Function.WellScoped

theorem mono {V V' : List Variable} {k : StageKind} {f : Function} (h : f.WellScoped V k)
    (hV : ∀ v ∈ V, v ∈ V') : f.WellScoped V' k where
  body := h.body.mono hV
  result e he v hv := (h.result e he v hv).imp_left (hV v)

end Function.WellScoped

theorem Stage.WellScoped.mono {V V' : List Variable} {s : Stage} (h : s.WellScoped V)
    (hV : ∀ v ∈ V, v ∈ V') : s.WellScoped V' where
  functions f hf := (h.functions f hf).mono hV
  main f hf := (h.main f hf).mono hV

namespace StageDraft.Invariant

variable {R R' : Registry} {s : StageDraft}

theorem withResources (h : s.Invariant R) {r : Resources} (hR : R ≤ R') (hfits : R'.Fits r)
    (hscopes : s.resources.scopeCount ≤ r.scopeCount) : (s.withResources r).Invariant R' where
  fits := hfits
  frames f hf := (h.frames f hf).imp_right fun hlt ↦
    Nat.lt_of_lt_of_le hlt (Nat.add_le_add_left hscopes 3)
  tables v hv := Registry.mem_vars hR (h.tables v hv)
  attributes := h.attributes
  finished := h.finished.mono fun _ ↦ Registry.mem_vars hR

theorem withBody (h : s.Invariant R) {name : String} {q : NamePool}
    (hname : s.resources.names.Gives name q) : (s.withNames q).Invariant (R.addBody name) :=
  h.withResources (Registry.le_addBody R name) (h.fits.addBody hname) (Nat.le_refl _)

theorem opened (h : s.Invariant R) (kind : RegionKind) : (s.opened kind).Invariant R where
  stage :=
    { fits := h.fits.opened
      frames := fun f hf ↦ by
        rcases List.mem_cons.mp hf with rfl | hf
        · exact ⟨Nat.le_add_right 3 _, Nat.lt_succ_self _⟩
        · exact (h.frames f hf).imp_right Nat.lt_succ_of_lt
      tables := h.tables
      attributes := h.attributes
      finished := h.finished }
  frame := ⟨s.frames, rfl⟩
  declared v hv := by cases hv
  statements _ := .nil
  nested r hr := (Holds.not_nil hr).elim

theorem openedFunction (h : s.Invariant R) (result : Option ValueType) :
    (s.openedFunction result).Invariant R := by
  have halone : StageDraft.Invariant R { s with frames := [] } :=
    ⟨h.fits, fun f hf ↦ by simp at hf, h.tables, h.attributes, h.finished⟩
  exact halone.opened _

theorem leave {body : ScopeDraft} (h : body.Invariant R) : body.leave.Invariant R where
  fits := h.stage.fits
  frames f hf := h.stage.frames f (List.mem_of_mem_tail hf)
  tables := h.stage.tables
  attributes := h.stage.attributes
  finished := h.stage.finished

theorem resumed (h : s.Invariant R) {result : Option ValueType} {body : ScopeDraft}
    (hbody : body.Invariant R') (hext : (s.openedFunction result).Extends body) :
    (s.resumed body).Invariant R' where
  fits := hbody.stage.fits
  frames f hf := by
    have hscopes := (StageDraft.Extends.resumed hext).resources.scopes
    exact (h.frames f hf).imp_right fun hlt ↦
      Nat.lt_of_lt_of_le hlt (Nat.add_le_add_left hscopes 3)
  tables := hbody.stage.tables
  attributes := hbody.stage.attributes
  finished := hbody.stage.finished

end StageDraft.Invariant

namespace ScopeDraft

variable {R R' : Registry} {s : ScopeDraft}

theorem sees_iff {s : StageDraft} {v : Variable} :
    s.sees v = true ↔ v.InReach s.kind (s.frames.map Frame.id) := by
  simp [StageDraft.sees, Variable.InReach, or_assoc]

/-- What an expression reads that passed the check is in reach of the scope. -/
theorem inReach_of_readsCheck (hR : Distinct R.vars) {e : Expr} (hknown : e.Known R)
    (hcheck : s.readsCheck e = .ok ()) {v : Variable} (hv : v ∈ e.vars) :
    v ∈ R.vars ∧ v.InReach s.stage.kind s.chain := by
  have hV : ∀ w ∈ e.vars, w ∈ R.vars := fun w ↦ hknown.mem_vars
  refine ⟨hV v hv, sees_iff.mp ?_⟩
  by_contra hsees
  unfold readsCheck at hcheck
  split at hcheck
  · cases hcheck
  · next hnone =>
    have hmem := (Expr.mem_reads_iff hR hV).mpr hv
    exact List.find?_eq_none.mp hnone v hmem (by simpa using hsees)

theorem Sees.inReach (hR : Distinct R.vars) {e : Expr} (h : s.Sees R e) {v : Variable}
    (hv : v ∈ e.vars) : v ∈ R.vars ∧ v.InReach s.stage.kind s.chain :=
  inReach_of_readsCheck hR h.known h.reads hv

/-- A target that passed the check has a root and reads only what the scope may use. -/
theorem root_of_targetCheck {target : Expr} (h : s.targetCheck target = .ok ()) :
    (∃ v, target.root? = some v ∧ s.stage.checkWritable v = .ok ()) ∧
      s.readsCheck target = .ok () := by
  unfold targetCheck at h
  split at h
  · cases h
  · next v hroot =>
    split at h
    · split at h
      · next hwritable => exact ⟨⟨v, hroot, hwritable⟩, h⟩
      · cases h
    · cases h

theorem assignCheck_eq_ok {target value : Expr} : s.assignCheck target value = .ok () ↔
    s.targetCheck target = .ok () ∧ target.type = value.type ∧ s.readsCheck value = .ok () := by
  simp only [assignCheck, unit_bind_eq_ok, ValueType.expect_eq_ok]

theorem augmentCheck_eq_ok {target value : Expr} {op : AugmentOp} :
    s.augmentCheck target op value = .ok () ↔ s.targetCheck target = .ok () ∧
      op.binary.resultType target.type value.type = .ok target.type ∧
        s.readsCheck value = .ok () := by
  rw [augmentCheck, unit_bind_eq_ok, bind_eq_ok]
  refine and_congr_right fun _ ↦ ⟨fun ⟨t, ht, h⟩ ↦ ?_, fun ⟨ht, h⟩ ↦ ⟨_, ht, by simpa using h⟩⟩
  split at h
  · cases h
  · next hne =>
    obtain rfl := Decidable.not_not.mp hne
    exact ⟨ht, h⟩

/-- The variables of an assignment are in reach. -/
theorem Admits.placed_of_target (hR : Distinct R.vars) {stmt : Stmt} {target value : Expr}
    (htarget : target.Known R) (hvalue : value.Known R) (hcheck : s.targetCheck target = .ok ())
    (hreads : s.readsCheck value = .ok ()) (hregions : stmt.regions = [])
    (hoperands : stmt.operands = [target, value]) (htarget? : stmt.target? = some target)
    (hwritten : stmt.writtenVariables = target.root?.toList) :
    stmt.Placed R.vars s.stage.kind s.chain := by
  obtain ⟨⟨w, hroot, -⟩, htargetReads⟩ := root_of_targetCheck hcheck
  refine .leaf hregions (fun e he ↦ ?_) (fun e he v hv ↦ ?_) (fun v hv ↦ ?_)
  · rw [htarget?] at he
    exact ⟨w, Option.some.inj he ▸ hroot⟩
  · simp only [hoperands, List.mem_cons, List.not_mem_nil, or_false] at he
    rcases he with rfl | rfl
    · exact inReach_of_readsCheck hR htarget htargetReads hv
    · exact inReach_of_readsCheck hR hvalue hreads hv
  · rw [hwritten, hroot, Option.toList_some, List.mem_singleton] at hv
    have hmem : w ∈ target.vars := (Expr.mem_vars_iff_of_root? hroot).mpr (.inl rfl)
    exact hv ▸ inReach_of_readsCheck hR htarget htargetReads hmem

theorem Admits.placed (hR : Distinct R.vars) {stmt : Stmt} (h : s.Admits R stmt) :
    stmt.Placed R.vars s.stage.kind s.chain ∧ stmt.regions = [] := by
  cases h with
  | assign htarget hvalue hcheck =>
    obtain ⟨hcheck, -, hreads⟩ := assignCheck_eq_ok.mp hcheck
    exact ⟨placed_of_target hR htarget hvalue hcheck hreads rfl rfl rfl rfl, rfl⟩
  | augment htarget hvalue hcheck =>
    obtain ⟨hcheck, -, hreads⟩ := augmentCheck_eq_ok.mp hcheck
    exact ⟨placed_of_target hR htarget hvalue hcheck hreads rfl rfl rfl rfl, rfl⟩
  | breakLoop | continueLoop | discard | inline =>
    exact ⟨.leaf rfl (by simp [Stmt.Assignable, Stmt.target?]) (by simp [Stmt.operands])
      (by simp [Stmt.writtenVariables]), rfl⟩
  | leave hvalue =>
    refine ⟨.leaf rfl (by simp [Stmt.Assignable, Stmt.target?]) (fun e he v hv ↦ ?_)
      (by simp [Stmt.writtenVariables]), rfl⟩
    exact (hvalue e (Option.mem_toList.mp he)).inReach hR hv
  | invoke _ hargs =>
    exact ⟨.leaf rfl (by simp [Stmt.Assignable, Stmt.target?])
      (fun e he v hv ↦ (hargs e he).inReach hR hv) (by simp [Stmt.writtenVariables]), rfl⟩

theorem deferred_defer_ne_none (s : ScopeDraft) (e : BuildError) : (s.defer e).deferred ≠ none := by
  cases hs : s.deferred <;> simp [defer, hs]

namespace Invariant

theorem withStage (h : s.Invariant R) {t : StageDraft} (ht : t.Invariant R')
    (hext : s.stage.Extends t) (hR : R ≤ R') : (s.withStage t).Invariant R' where
  stage := ht
  frame := by
    obtain ⟨rest, hrest⟩ := h.frame
    exact ⟨rest, hext.frames.trans hrest⟩
  declared v hv := (h.declared v hv).imp_left (Registry.mem_vars hR)
  statements hend := by
    have hchain : (s.withStage t).chain = s.chain := congrArg (List.map Frame.id) hext.frames
    rw [hchain, show (s.withStage t).stage.kind = s.stage.kind from hext.kind]
    exact (h.statements hend).mono fun _ ↦ Registry.mem_vars hR
  nested r hr := Nat.lt_of_lt_of_le (h.nested r hr) (Nat.add_le_add_left hext.resources.scopes 3)

theorem declareAll (h : s.Invariant R) {vs : List Variable}
    (hvs : ∀ v ∈ vs, v ∈ R.vars ∧ v.scope = s.region.id) :
    (s.declareAll vs).Invariant R where
  stage := h.stage
  frame := h.frame
  declared v hv := (List.mem_append.mp hv).elim (h.declared v) (hvs v)
  statements := h.statements
  nested := h.nested

theorem id_lt (h : s.Invariant R) : s.region.id.index < 3 + s.stage.resources.scopeCount := by
  obtain ⟨rest, hrest⟩ := h.frame
  exact (h.stage.frames ⟨s.region.id, s.region.kind⟩ (by simp [hrest])).2

theorem introduce (h : s.Invariant R) {v : Variable} {r : Resources}
    (hmake : s.stage.resources.Makes v r) (hscope : v.scope = s.region.id) :
    (s.introduce v r).Invariant (R.addVariable v) := by
  have hR := Registry.le_addVariable R v
  have hstage : (s.stage.withResources r).Invariant (R.addVariable v) :=
    h.stage.withResources hR (h.stage.fits.makes hmake (hscope ▸ h.id_lt)) hmake.extends.scopes
  refine (h.withStage hstage (.withResources hmake.extends) hR).declareAll ?_
  intro w hw
  obtain rfl := List.mem_singleton.mp hw
  exact ⟨Registry.mem_addVariable R w, hscope⟩

theorem defer (h : s.Invariant R) (e : BuildError) : (s.defer e).Invariant R where
  stage := h.stage
  frame := h.frame
  declared := h.declared
  statements hend := absurd hend (deferred_defer_ne_none s e)
  nested := h.nested

theorem push (h : s.Invariant R) {stmt : Stmt} (hregions : stmt.regions = [])
    (hplaced : s.deferred = none → stmt.Placed R.vars s.stage.kind s.chain) :
    (s.push stmt).Invariant R where
  stage := h.stage
  frame := h.frame
  declared := h.declared
  statements hend := (h.statements hend).concat (hplaced hend) hregions
  nested r hr := h.nested r (hr.of_concat hregions)

end Invariant

/-- The declaration of a variable stands rightly where the variable was introduced. -/
theorem placed_declare (hR : Distinct R.vars) {v : Variable} {r : Resources}
    {init : Option Expr} (hinit : ∀ e ∈ init, s.Sees R e) (hscope : v.scope = s.region.id)
    (hframe : ∃ rest, s.stage.frames = ⟨s.region.id, s.region.kind⟩ :: rest) :
    (Stmt.declare v init).Placed (R.addVariable v).vars (s.introduce v r).stage.kind
      (s.introduce v r).chain := by
  refine .leaf rfl (by simp [Stmt.Assignable, Stmt.target?]) (fun e he w hw ↦ ?_) fun w hw ↦ ?_
  · have hsees := (hinit e (Option.mem_toList.mp he)).inReach hR hw
    exact ⟨Registry.mem_vars (Registry.le_addVariable R v) hsees.1, hsees.2⟩
  · obtain rfl := List.mem_singleton.mp hw
    obtain ⟨rest, hrest⟩ := hframe
    refine ⟨Registry.mem_addVariable R w, .inr (.inr ?_)⟩
    rw [hscope]
    simp [chain, ScopeDraft.introduce, ScopeDraft.declare, withResources, withStage,
      StageDraft.withResources, hrest]

end ScopeDraft

theorem Arguments.invariant {types : List ValueType} {R R' : Registry} {s s' : ScopeDraft}
    {vs : List Variable} (h : Arguments types R s vs R' s') (hs : s.Invariant R) :
    s'.Invariant R' := by
  induction h with
  | nil => exact hs
  | cons hmake hscope _ _ ih => exact ih (hs.introduce hmake hscope)

end ShaderGraph
