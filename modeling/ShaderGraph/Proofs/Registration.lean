import Mathlib.Logic.Relation
import ShaderGraph.Proofs.Uniqueness

/-!
# What programs have declared

Of all that operations do, only a few things concern the uniforms, inter-stage
values and data blocks of a program: each of them is declared once, at the end
of its table. So the uniforms of a data block are in the table of uniforms, and
the listeners are the data blocks that have something to be fed.
-/

namespace ShaderGraph

namespace DataBlock

/-- Whether there is something to feed: an armature without bones has nothing. -/
def isFed : DataBlock → Bool
  | armature data => data.maxBones ≠ 0
  | morphWeights _ => true

/-- The names and types of the uniforms that a data block is made of. -/
def uniforms : DataBlock → List (String × ValueType)
  | armature data => [(ArmatureData.uniformName, ArmatureData.uniformType data.maxBones)]
  | morphWeights _ =>
    [(MorphWeightData.nameA, MorphWeightData.uniformType),
      (MorphWeightData.nameB, MorphWeightData.uniformType)]

end DataBlock

namespace Resources

/-- The resources with a data block that is new. -/
def register (r : Resources) : DataBlock → Resources
  | .armature data =>
    { r with
      armature := some data
      listeners := if data.maxBones = 0 then r.listeners else r.listeners ++ [.armature data] }
  | .morphWeights data =>
    { r with
      morphWeights := some data
      listeners := r.listeners ++ [.morphWeights data] }

/-- One step in what a program declares. Names and numbers may go anywhere. -/
inductive Declares (r : Resources) : Resources → Prop
  | counters (q : NamePool) (vars scopes : Nat) :
      Declares r { r with names := q, variableCount := vars, scopeCount := scopes }
  | uniform {v : Variable} (hnew : ∀ w ∈ r.uniforms, w.name ≠ v.name) :
      Declares r { r with uniforms := r.uniforms ++ [v] }
  | interStage {v : Variable} (hnew : ∀ w ∈ r.interStage, w.name ≠ v.name) :
      Declares r { r with interStage := r.interStage ++ [v] }
  | data {b : DataBlock} (hnone : r.dataBlock? b.kind = none) (hvars : ∀ v ∈ b.vars, v ∈ r.uniforms)
      (huniforms : b.vars.map (fun v ↦ (v.name, v.type)) = b.uniforms) : Declares r (r.register b)

variable {r r' : Resources} {v : Variable}

theorem Makes.declares (h : r.Makes v r') : Declares r r' := by
  rw [h.eq]
  exact .counters r'.names (r.variableCount + 1) r.scopeCount

end Resources

open Relation (ReflTransGen)

theorem Arguments.declares {types : List ValueType} {R R' : Registry} {s s' : ScopeDraft}
    {vs : List Variable} (h : Arguments types R s vs R' s') :
    ReflTransGen Resources.Declares s.stage.resources s'.stage.resources := by
  induction h with
  | nil => exact .refl
  | cons hmake _ _ _ ih => exact .head hmake.declares ih

namespace Evolves

open Resources

/-- A program declares step by step, whatever operations there are. -/
theorem declares {R R' : Registry} {d d' : Draft} (h : Evolves R d R' d') :
    ReflTransGen Declares d.shared d'.shared := by
  have hnames (r : Resources) (q : NamePool) : Declares r { r with names := q } :=
    .counters q r.variableCount r.scopeCount
  have hopened (r : Resources) : Declares r { r with scopeCount := r.scopeCount + 1 } :=
    .counters r.names r.variableCount (r.scopeCount + 1)
  induction h with
  | refl R d => exact .refl
  | trans _ _ ih₁ ih₂ => exact ih₁.trans ih₂
  | name _ => exact .single (hnames _ _)
  | uniform hmake _ _ hnew =>
    refine .tail (.single hmake.declares) (.uniform ?_)
    rwa [hmake.eq]
  | interStage hmake _ _ hnew =>
    refine .tail (.single hmake.declares) (.interStage ?_)
    rwa [hmake.eq]
  | @armature R r data hnone hjoints hname htype =>
    refine .single (.data (b := .armature data) ?_ ?_ ?_)
    · simp [Draft.shared, dataBlock?, DataBlock.kind, hnone]
    · simpa [Draft.shared, DataBlock.vars] using hjoints
    · simp [DataBlock.vars, DataBlock.uniforms, hname, htype]
  | @morphWeights R r data hnone hregisters hnames =>
    refine .single (.data (b := .morphWeights data) ?_ (fun v hv ↦ (hregisters v hv).1) ?_)
    · simp [Draft.shared, dataBlock?, DataBlock.kind, hnone]
    · have hA := (hregisters data.weightsA (by simp)).2
      have hB := (hregisters data.weightsB (by simp)).2
      simp [DataBlock.vars, DataBlock.uniforms, hnames, hA, hB]
  | programResources _ ih | stageResources _ ih | scopeStage _ ih | blockScope _ ih => exact ih
  | stageAttribute _ hmake | stageOutput _ hmake | stageBuiltin _ _ hmake =>
    exact .single hmake.declares
  | function _ hargs _ _ _ _ ih =>
    exact .head (hnames _ _) (.head (hopened _) (hargs.declares.trans ih))
  | main _ _ _ ih => exact .head (hopened _) ih
  | abandonedFunction hargs _ ih => exact .head (hopened _) (hargs.declares.trans ih)
  | declare _ hmake | declareUnseen _ _ _ hmake => exact .single hmake.declares
  | add _ => exact .refl
  | branch _ _ _ _ ih | loopWhile _ _ _ _ ih | abandoned _ ih => exact .head (hopened _) ih
  | elseIf _ _ _ _ ih | otherwise _ _ ih =>
    simp only [Draft.shared, ScopeDraft.stage_extendConditional]
    exact .head (hopened _) ih
  | loopFor _ hmake _ _ _ _ _ _ _ _ ih => exact .head (hopened _) (.head hmake.declares ih)
  | abandonedLoop hmake _ _ _ ih => exact .head (hopened _) (.head hmake.declares ih)
  | block _ _ _ _ ih | abandonedBlock _ _ ih =>
    exact .head (hnames _ _) (.head (hopened _) ih)
  | blockInput _ _ hmake => exact .single hmake.declares
  | blockOutput hmake => exact .single hmake.declares
  | finished _ _ ih =>
    simp only [Draft.shared, Program.resources_setStage]
    exact ih
  | abandonedStage _ _ ih => exact ih

end Evolves

namespace Resources

variable {r r' : Resources} {b : DataBlock} {kind : DataKind}

theorem kind_of_dataBlock? (h : r.dataBlock? kind = some b) : b.kind = kind := by
  cases kind with
  | armature =>
    obtain ⟨data, -, rfl⟩ := Option.map_eq_some_iff.mp h
    rfl
  | morphWeights =>
    obtain ⟨data, -, rfl⟩ := Option.map_eq_some_iff.mp h
    rfl

@[simp] theorem uniforms_register (r : Resources) (b : DataBlock) :
    (r.register b).uniforms = r.uniforms := by cases b <;> rfl

theorem listeners_register (r : Resources) (b : DataBlock) :
    (r.register b).listeners = r.listeners ++ if b.isFed then [b] else [] := by
  cases b with
  | armature data => by_cases h : data.maxBones = 0 <;> simp [register, DataBlock.isFed, h]
  | morphWeights data => simp [register, DataBlock.isFed]

theorem dataBlock?_register (r : Resources) (b : DataBlock) (kind : DataKind) :
    (r.register b).dataBlock? kind = if b.kind = kind then some b else r.dataBlock? kind := by
  cases b <;> cases kind <;> simp [register, dataBlock?, DataBlock.kind]

/-- The uniforms of a program have different names. Those of a data block are among them, under
the names and with the types that are meant for the block. The listeners are the blocks with
something to be fed, each once. -/
structure Registered (r : Resources) : Prop where
  distinct : (r.uniforms.map Variable.name).Nodup
  vars : ∀ kind b, r.dataBlock? kind = some b → ∀ v ∈ b.vars, v ∈ r.uniforms
  uniforms : ∀ kind b, r.dataBlock? kind = some b →
    b.vars.map (fun v ↦ (v.name, v.type)) = b.uniforms
  nodup : r.listeners.Nodup
  mem_listeners : ∀ b, b ∈ r.listeners ↔ r.dataBlock? b.kind = some b ∧ b.isFed = true

theorem registered_empty : empty.Registered where
  distinct := .nil
  vars kind b h := by cases kind <;> cases h
  uniforms kind b h := by cases kind <;> cases h
  nodup := .nil
  mem_listeners b := by cases b <;> simp [empty, dataBlock?, DataBlock.kind]

namespace Registered

theorem register (h : r.Registered) (hnone : r.dataBlock? b.kind = none)
    (hvars : ∀ v ∈ b.vars, v ∈ r.uniforms)
    (huniforms : b.vars.map (fun v ↦ (v.name, v.type)) = b.uniforms) :
    (r.register b).Registered := by
  have hnew : b ∉ r.listeners := fun hb ↦ by
    have hold := ((h.mem_listeners b).mp hb).1
    simp [hnone] at hold
  have hblock {kind : DataKind} {b' : DataBlock} (hb : (r.register b).dataBlock? kind = some b') :
      b' = b ∨ r.dataBlock? kind = some b' := by
    rw [dataBlock?_register] at hb
    split at hb
    · exact .inl (Option.some.inj hb).symm
    · exact .inr hb
  refine ⟨by simpa using h.distinct, fun kind b' hb v hv ↦ ?_, fun kind b' hb ↦ ?_, ?_, fun b' ↦ ?_⟩
  · rw [uniforms_register]
    rcases hblock hb with rfl | hb
    · exact hvars v hv
    · exact h.vars kind b' hb v hv
  · rcases hblock hb with rfl | hb
    · exact huniforms
    · exact h.uniforms kind b' hb
  · rw [listeners_register]
    split
    · exact List.concat_eq_append ▸ h.nodup.concat hnew
    · simpa using h.nodup
  · rw [listeners_register, dataBlock?_register, List.mem_append, h.mem_listeners]
    by_cases hkind : b.kind = b'.kind
    · have hold : r.dataBlock? b'.kind = none := hkind ▸ hnone
      grind
    · have hne : b' ≠ b := fun heq ↦ hkind (congrArg DataBlock.kind heq.symm)
      grind

theorem declares (h : r.Registered) (hstep : r.Declares r') : r'.Registered := by
  cases hstep with
  | counters | interStage => exact ⟨h.distinct, h.vars, h.uniforms, h.nodup, h.mem_listeners⟩
  | @uniform v hnew =>
    refine ⟨?_, fun kind b hb w hw ↦ List.mem_append_left _ (h.vars kind b hb w hw), h.uniforms,
      h.nodup, h.mem_listeners⟩
    rw [List.map_append, List.nodup_append]
    refine ⟨h.distinct, by simp, ?_⟩
    rintro _ hw _ hv rfl
    obtain ⟨w, hw, hname⟩ := List.mem_map.mp hw
    exact hnew w hw (hname.trans (by simpa using hv))
  | data hnone hvars huniforms => exact h.register hnone hvars huniforms

theorem of_declares (h : ReflTransGen Declares r r') (hr : r.Registered) : r'.Registered := by
  induction h with
  | refl => exact hr
  | tail _ hstep ih => exact ih.declares hstep

end Registered

end Resources

/-! ## All drafts of scripts -/

theorem ScopeDraft.declares_beginFunction (s : ScopeDraft) (l : Ledger) (handles : List Handle)
    (params : List ValueType) : ReflTransGen Resources.Declares s.stage.resources
      ((beginFunction handles params).final s l).1.stage.resources := by
  obtain ⟨args, R, t, hargs, hnew, -⟩ :=
    StageDraft.newArguments_spec params (.start ∅ False) s l
  rw [beginFunction, Build.final_bind_ok hnew]
  exact hargs.declares

theorem ScopeDraft.declares_beginLoop (s : ScopeDraft) (l : Ledger) (v : Handle)
    (type : ValueType) : ReflTransGen Resources.Declares s.stage.resources
      ((beginLoop v type).final s l).1.stage.resources := by
  obtain ⟨name, q, hq, hname⟩ := freshName_spec s l type.nameStem
  obtain ⟨i, r, hmake, -, -, -, hnew⟩ := newVariable_spec l hq type .localVar
  rw [beginLoop, Build.final_bind_ok hname, Build.final_bind_ok hnew]
  exact .single hmake.declares

/-- All that scripts come across has declared from nothing on. -/
theorem Reached.declares {d : Draft} {l : Ledger} (h : Reached d l) :
    ReflTransGen Resources.Declares .empty d.shared := by
  have hstep {d d' : Draft} {l l' : Ledger} (h : Reached d l) (hlead : Leads d l d' l') :
      ReflTransGen Resources.Declares d.shared d'.shared := by
    obtain ⟨R, hl, hd⟩ := h.sound
    obtain ⟨R', hev, -⟩ := hlead.evolves hl hd
    exact hev.declares
  have hopened (r : Resources) : r.Declares { r with scopeCount := r.scopeCount + 1 } :=
    .counters r.names r.variableCount (r.scopeCount + 1)
  induction h with
  | start name => exact .refl
  | logged _ a ih => exact ih
  | programStep h step ih => exact ih.trans (hstep h (.program step))
  | stageStep h step ih => exact ih.trans (hstep h (.stage step))
  | scopeStep h step ih => exact ih.trans (hstep h (.scope step))
  | blockStep h step ih => exact ih.trans (hstep h (.block step))
  | scopeStage _ ih | blockScope _ ih | openStage _ _ ih => exact ih
  | @functionName s l _ name q hname ih => exact .tail ih (.counters q _ _)
  | @openFunction s l _ handles params result ih =>
    exact .trans (.tail ih (hopened _))
      (ScopeDraft.declares_beginFunction (s.openedFunction result) l handles params)
  | openRegion _ kind ih => exact .tail ih (hopened _)
  | @openLoop s l _ v type ih =>
    exact .trans (.tail ih (hopened _))
      (ScopeDraft.declares_beginLoop (s.stage.opened .loop) l v type)
  | openBlock _ kind ih => exact .tail (.tail ih (.counters _ _ _)) (hopened _)

theorem Reached.registered {d : Draft} {l : Ledger} (h : Reached d l) : d.shared.Registered :=
  .of_declares h.declares Resources.registered_empty

theorem Program.Built.registered {p : Program} (h : p.Built) : p.resources.Registered := by
  obtain ⟨name, signatures, R, hev⟩ := h.evolves
  exact .of_declares hev.declares Resources.registered_empty

end ShaderGraph
