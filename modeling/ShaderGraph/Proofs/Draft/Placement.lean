import ShaderGraph.Proofs.Region.Contents
import ShaderGraph.Proofs.Script.Reached

/-!
# What is made is placed once

Tables have variables that were declared for a program or a stage, regions
declare variables, and functions and blocks have names. All of these are made
before they are placed somewhere, and nothing is placed a second time. What was
made for a body that is given up is never placed.
-/

namespace ShaderGraph

/-- The variables that were made, and the names that bodies were begun under. -/
def Registry.made (R : Registry) : List Item := R.vars.map .slot ++ R.bodies.map .body

def Resources.placed (r : Resources) : List Item := (r.uniforms ++ r.interStage).map .slot

/-- The variables in the tables of a stage, the names of its functions, and what their bodies
place. -/
def Stage.placed (s : Stage) : List Item :=
  (s.attributes ++ s.outputs ++ s.builtins).map .slot ++
    (s.functions.flatMap (fun f ↦ .body f.signature.name :: f.body.placed) ++
      s.main.toList.flatMap (·.body.placed))

def Program.placed (p : Program) : List Item := p.resources.placed ++ p.stages.flatMap Stage.placed

def StageDraft.placed (s : StageDraft) : List Item := s.resources.placed ++ s.finish.placed

def ScopeDraft.placed (s : ScopeDraft) : List Item := s.stage.placed ++ s.region.placed

/-- The outputs of a block are placed in it until the scope around it declares them. -/
def BlockDraft.placed (b : BlockDraft) : List Item :=
  b.scope.placed ++ (b.interface.outputs.map BlockOutput.slot).map .slot

def Draft.placed : Draft → List Item
  | .program p => p.placed
  | .resources r => r.placed
  | .stage s => s.placed
  | .scope s => s.placed
  | .block b => b.placed

variable {R R' : Registry} (x : Item)

namespace Registry

@[simp] theorem count_made_addVariable (R : Registry) (v : Variable) :
    (R.addVariable v).made.count x = R.made.count x + [Item.slot v].count x := by
  simp only [made, addVariable, List.map_append, List.map_cons, List.map_nil, List.count_append]
  omega

@[simp] theorem count_made_addBody (R : Registry) (name : String) :
    (R.addBody name).made.count x = R.made.count x + [Item.body name].count x := by
  simp only [made, addBody, List.map_append, List.map_cons, List.map_nil, List.count_append]
  omega

@[simp] theorem made_addSignature (R : Registry) (f : Signature) :
    (R.addSignature f).made = R.made := rfl

end Registry

theorem Resources.Makes.placed {r r' : Resources} {v : Variable} (h : r.Makes v r') :
    r'.placed = r.placed := by
  rw [h.eq]
  rfl

namespace StageDraft

variable {s : StageDraft} {r : Resources}

theorem count_placed_withResources (s : StageDraft) (r : Resources) :
    (s.withResources r).placed.count x + s.resources.placed.count x =
      s.placed.count x + r.placed.count x := by
  have hplaced : (s.withResources r).placed = r.placed ++ s.finish.placed := rfl
  rw [hplaced, placed, List.count_append, List.count_append]
  omega

theorem placed_of_makes {v : Variable} (h : s.resources.Makes v r) :
    (s.withResources r).placed = s.placed :=
  congrArg (· ++ s.finish.placed) h.placed

@[simp] theorem placed_withNames (s : StageDraft) (q : NamePool) :
    (s.withNames q).placed = s.placed := rfl

@[simp] theorem placed_leave (t : ScopeDraft) : t.leave.placed = t.stage.placed := rfl

@[simp] theorem placed_resumed (s : StageDraft) (t : ScopeDraft) :
    (s.resumed t).placed = t.stage.placed := rfl

theorem count_placed_start (kind : StageKind) (r : Resources) :
    (start kind r).placed.count x = r.placed.count x := by
  simp [placed, start, finish, Stage.placed]

theorem count_placed_addFunction (s : StageDraft) (f : Function) :
    (s.addFunction f).placed.count x =
      s.placed.count x + [Item.body f.signature.name].count x + f.body.placed.count x := by
  have hcons : (Item.body f.signature.name :: f.body.placed).count x =
      f.body.placed.count x + [Item.body f.signature.name].count x := by
    rw [List.count_cons, List.count_singleton]
  simp only [placed, addFunction, finish, Stage.placed, List.flatMap_append, List.flatMap_cons,
    List.flatMap_nil, List.append_nil, List.count_append, hcons]
  omega

theorem count_placed_setMain (s : StageDraft) (f : Function) :
    (StageDraft.placed { s with main := some f }).count x ≤
      s.placed.count x + f.body.placed.count x := by
  simp only [placed, finish, Stage.placed, Option.toList_some, List.flatMap_cons,
    List.flatMap_nil, List.append_nil, List.count_append]
  omega

end StageDraft

namespace ScopeDraft

variable {s body : ScopeDraft}

theorem count_placed (s : ScopeDraft) : s.placed.count x = s.stage.placed.count x +
    ((s.region.declared.map Item.slot).count x +
      (s.region.statements.flatMap Stmt.placed).count x) := by
  rw [placed, List.count_append, s.region.count_placed]

theorem count_placed_eq (s : ScopeDraft) :
    s.placed.count x = s.stage.placed.count x + s.region.placed.count x := by
  rw [placed, List.count_append]

theorem count_placed_withStage (s : ScopeDraft) (t : StageDraft) :
    (s.withStage t).placed.count x + s.stage.placed.count x =
      s.placed.count x + t.placed.count x := by
  simp only [placed, withStage, List.count_append]
  omega

theorem count_placed_opened (t : StageDraft) (kind : RegionKind) :
    (t.opened kind).placed.count x = t.placed.count x := by
  rw [count_placed]
  exact Nat.add_zero _

theorem count_placed_declareAll (s : ScopeDraft) (vs : List Variable) :
    (s.declareAll vs).placed.count x = s.placed.count x + (vs.map Item.slot).count x := by
  simp only [count_placed, declareAll, List.map_append, List.count_append]
  omega

theorem count_placed_introduce {v : Variable} {r : Resources}
    (h : s.stage.resources.Makes v r) :
    (s.introduce v r).placed.count x = s.placed.count x + [Item.slot v].count x := by
  have hstage : (s.stage.withResources r).placed = s.stage.placed :=
    StageDraft.placed_of_makes h
  have hdeclared := count_placed_declareAll x (s.withResources r) [v]
  have hwith := count_placed_withStage x s (s.stage.withResources r)
  rw [hstage] at hwith
  exact hdeclared.trans (congrArg (· + _) (Nat.add_right_cancel hwith))

theorem count_placed_push (s : ScopeDraft) (stmt : Stmt) :
    (s.push stmt).placed.count x = s.placed.count x + stmt.placed.count x := by
  simp only [count_placed, push, List.flatMap_append, List.flatMap_cons, List.flatMap_nil,
    List.append_nil, List.count_append]
  omega

theorem count_placed_extendConditional (s : ScopeDraft) {tail : ElseChain} {r : Region}
    (h : tail.regions = [r]) :
    (s.extendConditional tail).placed.count x ≤ s.placed.count x + r.placed.count x := by
  have htail : tail.within.flatMap Region.items = r.placed := by
    rw [ElseChain.within_eq_flatMap, h]
    simp [Region.placed]
  unfold extendConditional
  split
  · next condition body rest hlast =>
    have hextended := Stmt.count_placed_extended hlast tail x
    rw [htail] at hextended
    simp only [count_placed]
    omega
  · exact Nat.le_add_right _ _

/-- What a scope that was opened in another one has placed comes to that one with its region. -/
theorem count_placed_leave (s body : ScopeDraft) :
    (s.withStage body.leave).placed.count x + s.stage.placed.count x + body.region.placed.count x =
      s.placed.count x + body.placed.count x := by
  have hwith := count_placed_withStage x s body.leave
  rw [StageDraft.placed_leave] at hwith
  have hbody := body.count_placed_eq x
  omega

end ScopeDraft

theorem Block.count_placed (b : Block) :
    (Stmt.block b).placed.count x = [Item.body b.name].count x + b.body.placed.count x := by
  simp only [Stmt.placed, Stmt.blockName?, Stmt.within_eq_flatMap, Stmt.regions, Region.placed,
    List.count_append, List.flatMap_cons, List.flatMap_nil, List.append_nil, Option.toList_some,
    List.map_cons, List.map_nil]

theorem Arguments.placed {types : List ValueType} {s s' : ScopeDraft} {vs : List Variable}
    (h : Arguments types R s vs R' s') :
    s'.placed.count x + R.made.count x = s.placed.count x + R'.made.count x := by
  induction h with
  | nil => rfl
  | cons hmake _ _ _ ih =>
    rw [Registry.count_made_addVariable, ScopeDraft.count_placed_introduce x hmake] at ih
    omega

theorem Program.count_placed_setStage {p : Program} {s : Stage} (h : p.stage? s.kind = none) :
    (p.setStage s).placed.count x = p.placed.count x + s.placed.count x := by
  unfold setStage
  split
  · next hkind =>
    rw [hkind, stage?] at h
    simp only [placed, stages, h, List.flatMap_append, List.count_append, Option.toList_some,
      Option.toList_none, List.flatMap_cons, List.flatMap_nil, List.count_nil]
    omega
  · next hkind =>
    rw [hkind, stage?] at h
    simp only [placed, stages, h, List.flatMap_append, List.count_append, Option.toList_some,
      Option.toList_none, List.flatMap_cons, List.flatMap_nil, List.count_nil]
    omega

/-! ## All operations -/

/-- What operations place beyond what was placed is among what they made. -/
theorem Evolves.placed_le {d d' : Draft} (h : Evolves R d R' d') :
    d'.placed.count x + R.made.count x ≤ d.placed.count x + R'.made.count x := by
  induction h with
  | refl => exact Nat.le_refl _
  | trans _ _ ih₁ ih₂ => omega
  | @name R r name q =>
    have hplaced : Resources.placed { r with names := q } = r.placed := rfl
    simp only [Draft.placed, hplaced, Registry.count_made_addBody]
    omega
  | @uniform R r r' v hmake | @interStage R r r' v hmake =>
    have hplaced := hmake.placed
    simp only [Draft.placed, Registry.count_made_addVariable, ← hplaced]
    simp only [Resources.placed, List.map_append, List.map_cons, List.map_nil, List.count_append]
    omega
  | armature | morphWeights => exact Nat.le_refl _
  | programResources _ ih =>
    simp only [Draft.placed, Program.placed, Program.stages, List.count_append] at ih ⊢
    omega
  | @stageResources R R' s r _ ih =>
    have hcount := StageDraft.count_placed_withResources x s r
    simp only [Draft.placed] at ih ⊢
    omega
  | @scopeStage R R' s t _ ih =>
    have hcount := ScopeDraft.count_placed_withStage x s t
    simp only [Draft.placed] at ih ⊢
    omega
  | blockScope _ ih =>
    simp only [Draft.placed, BlockDraft.placed, List.count_append] at ih ⊢
    omega
  | stageAttribute _ hmake | stageOutput _ hmake | stageBuiltin _ _ hmake =>
    have hplaced := hmake.placed
    simp only [Draft.placed, StageDraft.placed, StageDraft.withResources, StageDraft.finish,
      Stage.placed, Registry.count_made_addVariable, hplaced, List.map_append, List.map_cons,
      List.map_nil, List.count_append]
    omega
  | @function R R₁ R₂ s name q params result args start body value _ hargs _ _ _ _ ih =>
    have hopened : ((s.withNames q).openedFunction result).placed.count x = s.placed.count x :=
      ScopeDraft.count_placed_opened x _ _
    have hstart := hargs.placed x
    have hadded := StageDraft.count_placed_addFunction x (s.resumed body)
      ⟨⟨name, params, result⟩, args, body.region, value⟩
    have hbody := body.count_placed_eq x
    simp only [Draft.placed, Registry.made_addSignature, Registry.count_made_addBody,
      StageDraft.placed_resumed] at ih hstart hadded ⊢
    omega
  | @main R R' s body _ _ _ ih =>
    -- The main function takes the place of one that was defined in its own body.
    have hopened : (s.openedFunction none).placed.count x = s.placed.count x :=
      ScopeDraft.count_placed_opened x _ _
    have hset := StageDraft.count_placed_setMain x (s.resumed body)
      ⟨⟨"main", [], none⟩, [], body.region, none⟩
    have hbody := body.count_placed_eq x
    simp only [Draft.placed, StageDraft.placed_resumed] at ih hset ⊢
    omega
  | @abandonedFunction R R₁ R₂ s params result args start body hargs _ ih =>
    have hopened : (s.openedFunction result).placed.count x = s.placed.count x :=
      ScopeDraft.count_placed_opened x _ _
    have hstart := hargs.placed x
    have hbody := body.count_placed_eq x
    simp only [Draft.placed, StageDraft.placed_resumed] at ih ⊢
    omega
  | @declare R s v r init _ hmake =>
    have hintroduced := ScopeDraft.count_placed_introduce x hmake
    have hpushed := (s.introduce v r).count_placed_push x (.declare v init)
    rw [Stmt.placed_of_leaf rfl rfl, List.count_nil] at hpushed
    simp only [Draft.placed, Registry.count_made_addVariable]
    omega
  | @declareUnseen R s v r init e _ _ _ hmake =>
    have hintroduced := ScopeDraft.count_placed_introduce x (s := s.defer e) hmake
    have hpushed := ((s.defer e).introduce v r).count_placed_push x (.declare v (some init))
    rw [Stmt.placed_of_leaf rfl rfl, List.count_nil] at hpushed
    have hdeferred : (s.defer e).placed = s.placed := rfl
    simp only [Draft.placed, Registry.count_made_addVariable]
    rw [hdeferred] at hintroduced
    omega
  | @add R s stmt h =>
    have hleaf : stmt.placed = [] := by cases h <;> exact Stmt.placed_of_leaf rfl rfl
    have hpushed := s.count_placed_push x stmt
    rw [hleaf, List.count_nil] at hpushed
    simp only [Draft.placed]
    omega
  | @branch R R' s body condition _ _ _ _ ih =>
    have hopened := ScopeDraft.count_placed_opened x s.stage .branch
    have hleave := s.count_placed_leave x body
    have hpushed := (s.withStage body.leave).count_placed_push x
      (.branch condition body.region .done)
    rw [Stmt.placed_of_body rfl rfl] at hpushed
    simp only [Draft.placed] at ih ⊢
    omega
  | @loopWhile R R' s body condition _ _ _ _ ih =>
    have hopened := ScopeDraft.count_placed_opened x s.stage .loop
    have hleave := s.count_placed_leave x body
    have hpushed := (s.withStage body.leave).count_placed_push x
      (.loopWhile condition body.region)
    rw [Stmt.placed_of_body rfl rfl] at hpushed
    simp only [Draft.placed] at ih ⊢
    omega
  | @elseIf R R' s body _ _ _ _ _ ih | @otherwise R R' s body _ _ ih =>
    -- The new branch is lost if the conditional is not the last statement any more.
    have hopened := ScopeDraft.count_placed_opened x s.stage .branch
    have hleave := s.count_placed_leave x body
    simp only [Draft.placed] at ih ⊢
    refine Nat.le_trans (Nat.add_le_add_right
      ((s.withStage body.leave).count_placed_extendConditional x rfl) _) ?_
    omega
  | @loopFor R R' s body v r init condition update _ hmake _ _ _ _ _ _ _ _ ih =>
    have hopened := ScopeDraft.count_placed_opened x s.stage .loop
    have hstart := ScopeDraft.count_placed_introduce x hmake
    have hleave := s.count_placed_leave x body
    have hpushed := (s.withStage body.leave).count_placed_push x
      (.loopFor v init condition update body.region)
    rw [Stmt.placed_of_body rfl rfl] at hpushed
    simp only [Draft.placed, Registry.count_made_addVariable] at ih ⊢
    omega
  | @block R R' s b name kind q _ _ _ _ ih =>
    have hopened := ScopeDraft.count_placed_opened x (s.stage.withNames q) .block
    have hleave := s.count_placed_leave x b.scope
    have hdeclared := (s.withStage b.scope.leave).count_placed_declareAll x
      (b.interface.outputs.map BlockOutput.slot)
    have hpushed := ((s.withStage b.scope.leave).declareAll (b.interface.outputs.map
      BlockOutput.slot)).count_placed_push x (.block (b.toBlock name kind))
    have hblock := (b.toBlock name kind).count_placed x
    simp only [Draft.placed, Registry.count_made_addBody, BlockDraft.placed,
      ScopeDraft.openedBlock, BlockDraft.toBlock, List.count_append, StageDraft.placed_withNames,
      List.map_nil, List.count_nil] at ih hblock hopened hpushed ⊢
    omega
  | @abandoned R R' s body kind _ ih =>
    have hopened := ScopeDraft.count_placed_opened x s.stage kind
    have hleave := s.count_placed_leave x body
    simp only [Draft.placed] at ih ⊢
    omega
  | @abandonedLoop R R' s body v r hmake _ _ _ ih =>
    have hopened := ScopeDraft.count_placed_opened x s.stage .loop
    have hstart := ScopeDraft.count_placed_introduce x hmake
    have hleave := s.count_placed_leave x body
    simp only [Draft.placed, Registry.count_made_addVariable] at ih ⊢
    omega
  | @abandonedBlock R R' s b name q _ _ ih =>
    have hopened := ScopeDraft.count_placed_opened x (s.stage.withNames q) .block
    have hleave := s.count_placed_leave x b.scope
    simp only [Draft.placed, Registry.count_made_addBody, BlockDraft.placed,
      ScopeDraft.openedBlock, List.count_append, StageDraft.placed_withNames, List.map_nil,
      List.count_nil] at ih hopened ⊢
    omega
  | blockInput _ _ hmake =>
    have hintroduced := ScopeDraft.count_placed_introduce x hmake
    simp only [Draft.placed, BlockDraft.placed, Registry.count_made_addVariable, List.count_append]
    omega
  | @blockOutput R b v r port hmake =>
    have hplaced : (b.scope.withResources r).placed = b.scope.placed :=
      congrArg (· ++ b.scope.region.placed) (StageDraft.placed_of_makes hmake)
    simp only [Draft.placed, BlockDraft.placed, Registry.count_made_addVariable, hplaced,
      List.map_append, List.map_cons, List.map_nil, List.count_append]
    omega
  | @finished R R' p kind s hnone h ih =>
    have hkind : s.finish.kind = kind := h.extends.2.kind
    have hfinished := Program.count_placed_setStage x (s := s.finish)
      (p := { p with resources := s.resources }) (hkind ▸ hnone)
    have hstart := StageDraft.count_placed_start x kind p.resources
    simp only [Draft.placed] at ih ⊢
    rw [hfinished]
    simp only [Program.placed, Program.stages, StageDraft.placed, List.count_append] at ih hstart ⊢
    omega
  | @abandonedStage R R' p kind s _ _ ih =>
    have hstart := StageDraft.count_placed_start x kind p.resources
    simp only [Draft.placed, Program.placed, Program.stages, StageDraft.placed,
      List.count_append] at ih hstart ⊢
    omega

namespace Item

def slot? : Item → Option Variable
  | slot v => some v
  | body _ => none

def bodyName? : Item → Option String
  | slot _ => none
  | body name => some name

@[simp] theorem slot?_slot (v : Variable) : (slot v).slot? = some v := rfl

@[simp] theorem slot?_body (name : String) : (body name).slot? = none := rfl

@[simp] theorem bodyName?_slot (v : Variable) : (slot v).bodyName? = none := rfl

@[simp] theorem bodyName?_body (name : String) : (body name).bodyName? = some name := rfl

@[simp] theorem filterMap_slot?_body (name : String) (l : List Item) :
    (body name :: l).filterMap slot? = l.filterMap slot? := rfl

end Item

namespace Region

theorem slots_placed (r : Region) : r.placed.filterMap Item.slot? = r.all.flatMap declared := by
  simp [Function.comp_def, placed, items, List.filterMap_flatMap]

theorem bodyNames_placed (r : Region) :
    r.placed.filterMap Item.bodyName? = r.all.flatMap blockNames := by
  simp [Function.comp_def, placed, items, List.filterMap_flatMap]

end Region

namespace Stage

/-- The regions of the functions of a stage, at any depth. -/
def regions (s : Stage) : List Region := s.definitions.flatMap (·.body.all)

/-- All variables that a stage has in its tables and that its regions declare. -/
def slots (s : Stage) : List Variable :=
  s.attributes ++ s.outputs ++ s.builtins ++ s.regions.flatMap Region.declared

/-- The names of the functions and blocks of a stage. -/
def bodyNames (s : Stage) : List String :=
  s.functions.map (·.signature.name) ++ s.regions.flatMap Region.blockNames

theorem slots_placed (s : Stage) : s.placed.filterMap Item.slot? = s.slots := by
  simp [Function.comp_def, placed, slots, regions, definitions, List.filterMap_flatMap,
    List.flatMap_append, List.flatMap_assoc, Region.slots_placed]

theorem bodyNames_placed (s : Stage) : (s.placed.filterMap Item.bodyName?).Perm s.bodyNames := by
  have hfunctions := List.flatMap_append_perm s.functions (fun f ↦ [f.signature.name])
    (fun f ↦ f.body.all.flatMap Region.blockNames)
  have hmain := hfunctions.symm.append_right
    (s.main.toList.flatMap fun f ↦ f.body.all.flatMap Region.blockNames)
  simpa [Function.comp_def, placed, bodyNames, regions, definitions, List.filterMap_flatMap,
    List.flatMap_append, List.flatMap_assoc, Region.bodyNames_placed, ← List.map_eq_flatMap]
    using hmain

end Stage

namespace Program

/-- The regions of the functions of a program, at any depth. -/
def regions (p : Program) : List Region := p.stages.flatMap Stage.regions

/-- All variables of a program: shared ones and those of its stages. -/
def slots (p : Program) : List Variable :=
  p.resources.uniforms ++ p.resources.interStage ++ p.stages.flatMap Stage.slots

def bodyNames (p : Program) : List String := p.stages.flatMap Stage.bodyNames

/-- The regions of a program are the bodies of its functions and all that is nested in these. -/
theorem mem_regions_iff {p : Program} {r : Region} : r ∈ p.regions ↔
    ∃ stage ∈ p.stages, ∃ f ∈ stage.definitions, r = f.body ∨ Holds f.body.statements r := by
  simp only [regions, Stage.regions, List.mem_flatMap, Region.mem_all_iff]

theorem slots_placed (p : Program) : p.placed.filterMap Item.slot? = p.slots := by
  simp [Function.comp_def, placed, slots, Resources.placed, List.filterMap_flatMap,
    Stage.slots_placed]

theorem bodyNames_placed (p : Program) :
    (p.placed.filterMap Item.bodyName?).Perm p.bodyNames := by
  have hstages : (p.stages.flatMap fun s ↦ s.placed.filterMap Item.bodyName?).Perm p.bodyNames :=
    List.Perm.flatMap_left _ fun s _ ↦ s.bodyNames_placed
  simpa [Function.comp_def, placed, Resources.placed, List.filterMap_flatMap] using hstages

end Program

/-- What is in a program that was begun anew was made for it. -/
theorem Evolves.placed_subperm {name : String} {signatures : Set Signature} {checked : Prop}
    {p : Program} (h : Evolves (.start signatures checked) (.program (.new name)) R (.program p)) :
    p.placed.Subperm R.made := by
  refine List.subperm_iff_count.mpr fun x ↦ ?_
  exact (Nat.le_add_right _ _).trans ((h.placed_le x).trans_eq (Nat.zero_add _))

theorem Evolves.slots_subperm {name : String} {signatures : Set Signature} {checked : Prop}
    {p : Program} (h : Evolves (.start signatures checked) (.program (.new name)) R (.program p)) :
    p.slots.Subperm R.vars := by
  obtain ⟨l, hperm, hsub⟩ := h.placed_subperm
  have hslots : R.made.filterMap Item.slot? = R.vars := by
    simp [Registry.made, Function.comp_def]
  rw [← p.slots_placed, ← hslots]
  exact ⟨_, hperm.filterMap _, hsub.filterMap _⟩

theorem Evolves.bodyNames_subperm {name : String} {signatures : Set Signature} {checked : Prop}
    {p : Program} (h : Evolves (.start signatures checked) (.program (.new name)) R (.program p)) :
    p.bodyNames.Subperm R.bodies := by
  obtain ⟨l, hperm, hsub⟩ := h.placed_subperm
  have hbodies : R.made.filterMap Item.bodyName? = R.bodies := by
    simp [Registry.made, Function.comp_def]
  rw [← p.bodyNames_placed.subperm_right, ← hbodies]
  exact ⟨_, hperm.filterMap _, hsub.filterMap _⟩

end ShaderGraph
