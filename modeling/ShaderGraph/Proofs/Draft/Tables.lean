import ShaderGraph.Proofs.Draft.Growth

/-!
# Tables

What operations declare outside of the scope that they work on is written down
in tables: those of the program, and those of the stage. However a draft
evolves, its tables keep their entries in order, and a data block or a main
function that is there stays.
-/

namespace ShaderGraph

/-- What a program and one of its stages have declared. The names have the newest first. -/
structure Tables where
  names : List String
  uniforms : List Variable
  interStage : List Variable
  armature : Option ArmatureData
  morphWeights : Option MorphWeightData
  listeners : List DataBlock
  attributes : List Variable
  outputs : List Variable
  builtins : List Variable
  functions : List Function
  main : Option Function

namespace Tables

/-- The tables with more names taken. -/
def reserve (names : List String) (t : Tables) : Tables := { t with names := names ++ t.names }

/-- Tables have all that other tables have. -/
structure Keeps (t t' : Tables) : Prop where
  names : t.names <:+ t'.names
  uniforms : t.uniforms <+: t'.uniforms
  interStage : t.interStage <+: t'.interStage
  armature : ∀ data ∈ t.armature, data ∈ t'.armature
  morphWeights : ∀ data ∈ t.morphWeights, data ∈ t'.morphWeights
  listeners : t.listeners <+: t'.listeners
  attributes : t.attributes <+: t'.attributes
  outputs : t.outputs <+: t'.outputs
  builtins : t.builtins <+: t'.builtins
  functions : t.functions <+: t'.functions
  main : ∀ f ∈ t.main, f ∈ t'.main

namespace Keeps

variable {t t₁ t₂ : Tables}

@[refl] theorem refl (t : Tables) : t.Keeps t :=
  ⟨List.suffix_refl _, List.prefix_refl _, List.prefix_refl _, fun _ h ↦ h, fun _ h ↦ h,
    List.prefix_refl _, List.prefix_refl _, List.prefix_refl _, List.prefix_refl _,
    List.prefix_refl _, fun _ h ↦ h⟩

theorem trans (h : t.Keeps t₁) (h' : t₁.Keeps t₂) : t.Keeps t₂ where
  names := h.names.trans h'.names
  uniforms := h.uniforms.trans h'.uniforms
  interStage := h.interStage.trans h'.interStage
  armature data hdata := h'.armature data (h.armature data hdata)
  morphWeights data hdata := h'.morphWeights data (h.morphWeights data hdata)
  listeners := h.listeners.trans h'.listeners
  attributes := h.attributes.trans h'.attributes
  outputs := h.outputs.trans h'.outputs
  builtins := h.builtins.trans h'.builtins
  functions := h.functions.trans h'.functions
  main f hf := h'.main f (h.main f hf)

theorem reserve (names : List String) (t : Tables) : t.Keeps (t.reserve names) :=
  { refl t with names := List.suffix_append _ _ }

end Keeps

end Tables

def Resources.tables (r : Resources) : Tables where
  names := r.names.taken
  uniforms := r.uniforms
  interStage := r.interStage
  armature := r.armature
  morphWeights := r.morphWeights
  listeners := r.listeners
  attributes := []
  outputs := []
  builtins := []
  functions := []
  main := none

def StageDraft.tables (s : StageDraft) : Tables :=
  { s.resources.tables with
    attributes := s.attributes
    outputs := s.outputs
    builtins := s.builtins
    functions := s.functions
    main := s.main }

def Draft.tables : Draft → Tables
  | .program p => p.resources.tables
  | .resources r => r.tables
  | .stage s => s.tables
  | .scope s => s.stage.tables
  | .block b => b.scope.stage.tables

theorem Resources.Makes.tables {r r' : Resources} {v : Variable} (h : r.Makes v r') :
    r'.tables = r.tables.reserve [v.name] := by
  rw [h.eq]
  simp [Resources.tables, Tables.reserve, h.names.taken]

theorem Resources.Makes.keeps {r r' : Resources} {v : Variable} (h : r.Makes v r') :
    r.tables.Keeps r'.tables :=
  h.tables ▸ .reserve _ _

namespace StageDraft

variable {s : StageDraft} {r : Resources}

theorem keeps_withResources (h : s.resources.tables.Keeps r.tables) :
    s.tables.Keeps (s.withResources r).tables :=
  ⟨h.names, h.uniforms, h.interStage, h.armature, h.morphWeights, h.listeners,
    List.prefix_refl _, List.prefix_refl _, List.prefix_refl _, List.prefix_refl _, fun _ h ↦ h⟩

theorem tables_of_makes {v : Variable} (h : s.resources.Makes v r) :
    (s.withResources r).tables = s.tables.reserve [v.name] := by
  have hr := h.tables
  simp only [tables, withResources, hr]
  rfl

theorem tables_withNames {name : String} {q : NamePool} (h : s.resources.names.Gives name q) :
    (s.withNames q).tables = s.tables.reserve [name] := by
  simp [withNames, withResources, tables, Resources.tables, Tables.reserve, h.taken]

theorem keeps_of_makes {v : Variable} (h : s.resources.Makes v r) :
    s.tables.Keeps (s.withResources r).tables :=
  tables_of_makes h ▸ .reserve _ _

theorem keeps_withNames {name : String} {q : NamePool} (h : s.resources.names.Gives name q) :
    s.tables.Keeps (s.withNames q).tables :=
  tables_withNames h ▸ .reserve _ _

/-- The tables of the program in a stage that has only started. -/
theorem keeps_resources {kind : StageKind} {p : Resources}
    (h : (StageDraft.start kind p).tables.Keeps s.tables) : p.tables.Keeps s.resources.tables :=
  ⟨h.names, h.uniforms, h.interStage, h.armature, h.morphWeights, h.listeners,
    List.prefix_refl _, List.prefix_refl _, List.prefix_refl _, List.prefix_refl _, fun _ h ↦ h⟩

@[simp] theorem tables_leave (t : ScopeDraft) : t.leave.tables = t.stage.tables := rfl

@[simp] theorem tables_resumed (s : StageDraft) (t : ScopeDraft) :
    (s.resumed t).tables = t.stage.tables := rfl

@[simp] theorem tables_opened (s : StageDraft) (kind : RegionKind) :
    (s.opened kind).stage.tables = s.tables := rfl

@[simp] theorem tables_openedFunction (s : StageDraft) (result : Option ValueType) :
    (s.openedFunction result).stage.tables = s.tables := rfl

end StageDraft

theorem ScopeDraft.tables_introduce {s : ScopeDraft} {v : Variable} {r : Resources}
    (h : s.stage.resources.Makes v r) :
    (s.introduce v r).stage.tables = s.stage.tables.reserve [v.name] :=
  StageDraft.tables_of_makes h

@[simp] theorem ScopeDraft.stage_extendConditional (s : ScopeDraft) (tail : ElseChain) :
    (s.extendConditional tail).stage = s.stage := by
  unfold extendConditional
  split <;> rfl

/-- The arguments of a function take a name each. -/
theorem Arguments.tables {types : List ValueType} {R R' : Registry} {s s' : ScopeDraft}
    {vs : List Variable} (h : Arguments types R s vs R' s') :
    ∃ names, s'.stage.tables = s.stage.tables.reserve names ∧ names.length = types.length := by
  induction h with
  | nil => exact ⟨[], rfl, rfl⟩
  | @cons types R R' s s' v r vs hmake _ _ _ ih =>
    obtain ⟨names, htables, hlength⟩ := ih
    refine ⟨names ++ [v.name], ?_, by simp [hlength]⟩
    rw [htables, ScopeDraft.tables_introduce hmake]
    simp [Tables.reserve]

theorem Arguments.keeps {types : List ValueType} {R R' : Registry} {s s' : ScopeDraft}
    {vs : List Variable} (h : Arguments types R s vs R' s') :
    s.stage.tables.Keeps s'.stage.tables := by
  obtain ⟨names, htables, -⟩ := h.tables
  exact htables ▸ .reserve _ _

/-! ## All operations -/

/-- The tables of a draft keep their entries. -/
theorem Evolves.keeps {R R' : Registry} {d d' : Draft} (h : Evolves R d R' d') :
    d.tables.Keeps d'.tables := by
  induction h with
  | refl R d => exact .refl _
  | trans _ _ ih₁ ih₂ => exact ih₁.trans ih₂
  | name hname =>
    refine { Tables.Keeps.refl _ with names := ?_ }
    simp only [Draft.tables, Resources.tables, hname.taken]
    exact List.suffix_cons _ _
  | uniform hmake =>
    exact { hmake.keeps with uniforms := hmake.keeps.uniforms.trans (List.prefix_append _ _) }
  | interStage hmake =>
    exact { hmake.keeps with interStage := hmake.keeps.interStage.trans (List.prefix_append _ _) }
  | @armature R r data hnone =>
    refine { Tables.Keeps.refl r.tables with armature := ?_, listeners := ?_ }
    · exact fun old hold ↦ by simp [Draft.tables, Resources.tables, hnone] at hold
    · simp only [Draft.tables, Resources.tables]
      split
      · exact List.prefix_refl _
      · exact List.prefix_append _ _
  | @morphWeights R r data hnone =>
    refine { Tables.Keeps.refl r.tables with morphWeights := ?_, listeners := ?_ }
    · exact fun old hold ↦ by simp [Draft.tables, Resources.tables, hnone] at hold
    · exact List.prefix_append _ _
  | programResources _ ih => exact ih
  | stageResources _ ih => exact StageDraft.keeps_withResources ih
  | scopeStage _ ih => exact ih
  | blockScope _ ih => exact ih
  | stageAttribute _ hmake =>
    have h := StageDraft.keeps_of_makes hmake
    exact { h with attributes := h.attributes.trans (List.prefix_append _ _) }
  | stageOutput _ hmake =>
    have h := StageDraft.keeps_of_makes hmake
    exact { h with outputs := h.outputs.trans (List.prefix_append _ _) }
  | stageBuiltin _ _ hmake =>
    have h := StageDraft.keeps_of_makes hmake
    exact { h with builtins := h.builtins.trans (List.prefix_append _ _) }
  | @function R R₁ R₂ s name q params result args start body value hname hargs _ _ _ _ ih =>
    have h := (StageDraft.keeps_withNames hname).trans (hargs.keeps.trans ih)
    exact { h with functions := h.functions.trans (List.prefix_append _ _) }
  | main hnone _ _ ih =>
    refine { ih with main := ?_ }
    exact fun f hf ↦ by simp [Draft.tables, StageDraft.tables, hnone] at hf
  | abandonedFunction hargs _ ih => exact hargs.keeps.trans ih
  | declare _ hmake | declareUnseen _ _ _ hmake => exact StageDraft.keeps_of_makes hmake
  | add _ => exact .refl _
  | branch _ _ _ _ ih | loopWhile _ _ _ _ ih => exact ih
  | elseIf _ _ _ _ ih | otherwise _ _ ih =>
    simp only [Draft.tables, ScopeDraft.stage_extendConditional]
    exact ih
  | loopFor _ hmake _ _ _ _ _ _ _ _ ih => exact (StageDraft.keeps_of_makes hmake).trans ih
  | block hname _ _ _ ih => exact (StageDraft.keeps_withNames hname).trans ih
  | abandoned _ ih => exact ih
  | abandonedLoop hmake _ _ _ ih => exact (StageDraft.keeps_of_makes hmake).trans ih
  | abandonedBlock hname _ ih => exact (StageDraft.keeps_withNames hname).trans ih
  | blockInput _ _ hmake => exact StageDraft.keeps_of_makes hmake
  | blockOutput hmake => exact StageDraft.keeps_of_makes hmake
  | finished _ _ ih =>
    simp only [Draft.tables, Program.resources_setStage]
    exact StageDraft.keeps_resources ih
  | abandonedStage _ _ ih => exact StageDraft.keeps_resources ih

end ShaderGraph
