import ShaderGraph.Proofs.Region.Introduction
import ShaderGraph.Proofs.Script.Reached

/-!
# Declaring what is introduced

A scope declares a variable at the moment when a statement that introduces it is
added, and the body of a block declares its inputs when they are made. The
numbers of the variables go up on the way.
-/

namespace ShaderGraph

/-- Variables have rising numbers, from a first one on and below a last one. -/
structure Ascends (first last : Nat) (vs : List Variable) : Prop where
  pairwise : vs.Pairwise fun v w ↦ v.id < w.id
  bounds : ∀ v ∈ vs, first ≤ v.id ∧ v.id < last

/-- A region gathers what new statements introduce and what it is given besides, and declares all
of it. -/
def Region.Gathers (first last : Nat) (given : List Variable) (r r' : Region) : Prop :=
  ∃ new vs, r'.introduced = r.introduced ++ new ∧ r'.declared = r.declared ++ vs ∧
    Interleaves given new vs ∧ Ascends first last vs

/-- How many variables were made before. -/
def ScopeDraft.count (s : ScopeDraft) : Nat := s.stage.resources.variableCount

/-- A scope without statements, in which some variables may have been made already. -/
structure ScopeDraft.Started (s : ScopeDraft) : Prop where
  statements : s.region.statements = []
  declared : Ascends 0 s.count s.region.declared

def ScopeDraft.Gathers (s s' : ScopeDraft) : Prop :=
  s.region.Gathers s.count s'.count [] s'.region

structure BlockDraft.Gathers (b b' : BlockDraft) : Prop where
  inputs : ∃ inputs, b'.interface.inputs = b.interface.inputs ++ inputs ∧
    b.scope.region.Gathers b.scope.count b'.scope.count (inputs.map BlockInput.slot) b'.scope.region
  outputs : ∃ outputs, b'.interface.outputs = b.interface.outputs ++ outputs ∧
    Ascends b.scope.count b'.scope.count (outputs.map BlockOutput.slot)

def Draft.Gathers : Draft → Draft → Prop
  | .scope s, .scope s' => s.Gathers s'
  | .block b, .block b' => b.Gathers b'
  | _, _ => True

namespace Ascends

variable {first middle last : Nat} {vs ws : List Variable}

theorem nil : Ascends first last [] := ⟨.nil, fun v hv ↦ by cases hv⟩

theorem append (h : Ascends first middle vs) (h' : Ascends middle last ws)
    (hfirst : first ≤ middle) (hlast : middle ≤ last) : Ascends first last (vs ++ ws) where
  pairwise := by
    refine List.pairwise_append.mpr ⟨h.pairwise, h'.pairwise, fun v hv w hw ↦ ?_⟩
    exact Nat.lt_of_lt_of_le (h.bounds v hv).2 (h'.bounds w hw).1
  bounds v hv := by
    rcases List.mem_append.mp hv with hv | hv
    · exact (h.bounds v hv).imp_right (Nat.lt_of_lt_of_le · hlast)
    · exact (h'.bounds v hv).imp_left (Nat.le_trans hfirst)

theorem of_makes {r r' : Resources} {v : Variable} (h : r.Makes v r') :
    Ascends r.variableCount r'.variableCount [v] where
  pairwise := List.pairwise_singleton _ _
  bounds w hw := by
    rw [List.mem_singleton.mp hw, h.id, h.eq]
    exact ⟨Nat.le_refl _, Nat.lt_succ_self _⟩

end Ascends

namespace Region.Gathers

variable {first middle last : Nat} {given given' : List Variable} {r r₁ r₂ : Region}

theorem of_eq (hintroduced : r₁.introduced = r.introduced) (hdeclared : r₁.declared = r.declared) :
    r.Gathers first last [] r₁ :=
  ⟨[], [], by simp [hintroduced], by simp [hdeclared], .nil, .nil⟩

theorem trans (h : r.Gathers first middle given r₁) (h' : r₁.Gathers middle last given' r₂)
    (hfirst : first ≤ middle) (hlast : middle ≤ last) :
    r.Gathers first last (given ++ given') r₂ := by
  obtain ⟨new, vs, hintroduced, hdeclared, hboth, hascends⟩ := h
  obtain ⟨new', vs', hintroduced', hdeclared', hboth', hascends'⟩ := h'
  exact ⟨new ++ new', vs ++ vs', by simp [hintroduced', hintroduced],
    by simp [hdeclared', hdeclared], hboth.append hboth',
    hascends.append hascends' hfirst hlast⟩

end Region.Gathers

/-- Going on with a conditional introduces nothing. -/
theorem ScopeDraft.introduced_extendConditional (s : ScopeDraft) (tail : ElseChain) :
    (s.extendConditional tail).region.introduced = s.region.introduced := by
  unfold extendConditional
  split
  case h_2 => rfl
  case h_1 condition first rest hlast =>
    obtain ⟨front, hfront⟩ := List.getLast?_eq_some_iff.mp hlast
    simp [Region.introduced, hfront, Stmt.introduced]

theorem ScopeDraft.declared_extendConditional (s : ScopeDraft) (tail : ElseChain) :
    (s.extendConditional tail).region.declared = s.region.declared := by
  unfold extendConditional
  split <;> rfl

/-- What stands in a scope is introduced by a statement that is added there. -/
theorem Region.Gathers.push {s : ScopeDraft} {first last : Nat} {r : Region} {stmt : Stmt}
    (hintroduced : s.region.introduced = r.introduced)
    (hdeclared : s.region.declared = r.declared ++ stmt.introduced)
    (hascends : Ascends first last stmt.introduced) :
    r.Gathers first last [] (s.push stmt).region := by
  refine ⟨stmt.introduced, stmt.introduced, ?_, hdeclared, .nil_left _, hascends⟩
  rw [← hintroduced]
  simp [Region.introduced, ScopeDraft.push]

theorem Region.Gathers.push_leaf {s : ScopeDraft} {first last : Nat} {r : Region} {stmt : Stmt}
    (hintroduced : s.region.introduced = r.introduced)
    (hdeclared : s.region.declared = r.declared) (hstmt : stmt.introduced = []) :
    r.Gathers first last [] (s.push stmt).region :=
  .push hintroduced (by simp [hdeclared, hstmt]) (hstmt ▸ .nil)

namespace ScopeDraft.Gathers

variable {s s₁ s₂ : ScopeDraft}

theorem trans (h : s.Gathers s₁) (h' : s₁.Gathers s₂) (hext : s.Extends s₁)
    (hext' : s₁.Extends s₂) : s.Gathers s₂ :=
  Region.Gathers.trans h h' hext.stage.resources.vars hext'.stage.resources.vars

/-- In a scope that was started with some variables, these come before all that is introduced. -/
theorem of_started (h : s.Gathers s₁) (hs : s.Started) (hext : s.Extends s₁) :
    s₁.region.declared = s.region.declared ++ s₁.region.introduced ∧
      Ascends 0 s₁.count s₁.region.declared := by
  obtain ⟨new, vs, hintroduced, hdeclared, hboth, hascends⟩ := h
  have hnone : s.region.introduced = [] := by simp [Region.introduced, hs.statements]
  rw [hnone, List.nil_append] at hintroduced
  rw [hdeclared, hintroduced, hboth.eq_of_nil_left]
  refine ⟨rfl, hs.declared.append ?_ (Nat.zero_le _) hext.stage.resources.vars⟩
  exact hboth.eq_of_nil_left ▸ hascends

end ScopeDraft.Gathers

namespace BlockDraft.Gathers

variable {s : ScopeDraft} {b : BlockDraft} {name : String} {q : NamePool}

theorem outputs_of_opened (h : (s.openedBlock name q).Gathers b) :
    Ascends s.count b.scope.count (b.interface.outputs.map BlockOutput.slot) := by
  obtain ⟨outputs, houtputs, hascends⟩ := h.outputs
  rw [houtputs]
  exact hascends

/-- The body of a block declares its inputs and what is introduced, as they come. -/
theorem declared_of_opened (h : (s.openedBlock name q).Gathers b) :
    Interleaves (b.interface.inputs.map BlockInput.slot) b.scope.region.introduced
        b.scope.region.declared ∧
      Ascends s.count b.scope.count b.scope.region.declared := by
  obtain ⟨inputs, hinputs, new, vs, hintroduced, hdeclared, hboth, hascends⟩ := h.inputs
  rw [hinputs, hintroduced, hdeclared]
  exact ⟨hboth, hascends⟩

end BlockDraft.Gathers

/-- Whatever is done, regions declare what they gather. -/
theorem Evolves.gathers {R R' : Registry} {d d' : Draft} (h : Evolves R d R' d') :
    d.Gathers d' := by
  induction h with
  | refl R d =>
    cases d with
    | scope s => exact .of_eq rfl rfl
    | block b => exact ⟨⟨[], by simp, .of_eq rfl rfl⟩, [], by simp, .nil⟩
    | _ => trivial
  | @trans R R₁ R₂ d d₁ d₂ h₁ h₂ ih₁ ih₂ =>
    have hext := h₁.extends.2
    have hext' := h₂.extends.2
    cases d with
    | scope s =>
      cases d₁ <;> first | exact hext.elim | cases d₂ <;> first | trivial | skip
      exact ScopeDraft.Gathers.trans ih₁ ih₂ hext hext'
    | block b =>
      cases d₁ <;> first | exact hext.elim | cases d₂ <;> first | trivial | skip
      obtain ⟨⟨inputs, hinputs, hregion⟩, outputs, houtputs, hascends⟩ := ih₁
      obtain ⟨⟨inputs', hinputs', hregion'⟩, outputs', houtputs', hascends'⟩ := ih₂
      have hfirst := hext.scope.stage.resources.vars
      have hlast := hext'.scope.stage.resources.vars
      refine ⟨⟨inputs ++ inputs', by simp [hinputs', hinputs], ?_⟩, outputs ++ outputs',
        by simp [houtputs', houtputs], ?_⟩
      · rw [List.map_append]
        exact hregion.trans hregion' hfirst hlast
      · rw [List.map_append]
        exact hascends.append hascends' hfirst hlast
    | _ => trivial
  | declare _ hmake => exact .push rfl rfl (.of_makes hmake)
  | declareUnseen _ _ _ hmake => exact .push rfl rfl (.of_makes hmake)
  | add h =>
    refine .push_leaf rfl rfl ?_
    cases h <;> rfl
  | branch | loopWhile | loopFor => exact .push_leaf rfl rfl rfl
  | elseIf | otherwise =>
    exact .of_eq (ScopeDraft.introduced_extendConditional _ _)
      (ScopeDraft.declared_extendConditional _ _)
  | block _ _ _ _ ih =>
    exact .push rfl rfl ih.outputs_of_opened
  | scopeStage | abandoned | abandonedLoop | abandonedBlock => exact .of_eq rfl rfl
  | blockScope _ ih => exact ⟨⟨[], by simp, ih⟩, [], by simp, .nil⟩
  | @blockInput R b v r e port _ _ hmake =>
    exact ⟨⟨[⟨port, v, e⟩], rfl, [], [v], by simp [Region.introduced, ScopeDraft.introduce,
      ScopeDraft.declare, ScopeDraft.withResources, ScopeDraft.withStage], rfl, .left v .nil,
      .of_makes hmake⟩, [], by simp, .nil⟩
  | @blockOutput R b v r port hmake =>
    exact ⟨⟨[], by simp, .of_eq rfl rfl⟩, [⟨port, v⟩], rfl, .of_makes hmake⟩
  | _ => trivial

structure Function.WellDeclared (f : Function) : Prop where
  body : f.body.WellDeclared f.args
  first : f.body.declared = f.args ++ f.body.introduced
  nested : ShaderGraph.WellDeclared f.body.statements

def Stage.WellDeclared (s : Stage) : Prop := ∀ f ∈ s.definitions, f.WellDeclared

/-- What is in a scope that has an error put off need not be orderly. -/
structure ScopeDraft.WellDeclared (s : ScopeDraft) : Prop where
  stage : s.stage.finish.WellDeclared
  nested : ShaderGraph.WellDeclared s.region.statements
  orderly : s.deferred = none → Orderly s.region.statements

def Draft.WellDeclared : Draft → Prop
  | .program p => ∀ s ∈ p.stages, s.WellDeclared
  | .resources _ => True
  | .stage s => s.finish.WellDeclared
  | .scope s => s.WellDeclared
  | .block b => b.scope.WellDeclared

/-- What stands in well-declared statements in their scopes is from the stock. -/
theorem WellScoped.mem_of_occursWithin {V : List Variable} {k : StageKind} {chain : List ScopeId}
    {ss : List Stmt} (h : WellScoped V k chain ss) (hss : WellDeclared ss) {v : Variable}
    (hv : OccursWithin ss v) : v ∈ V := by
  obtain ⟨path, t, ht, hv⟩ := hv
  have hplaced := h.placed ht
  have hdeclared {r : Region} (hr : r ∈ t.regions) (hv : v ∈ r.declared) : v ∈ V :=
    (hplaced.declared r hr v hv).1
  simp only [Stmt.mentioned, List.mem_append, List.mem_flatMap] at hv
  rcases hv with ((⟨e, he, hv⟩ | hv) | hv) | ⟨r, hr, hv⟩
  · rcases he with he | he
    · exact (hplaced.operands e he v hv).1
    · have hne : t.regions ≠ [] := fun hnil ↦ by simp [Stmt.header_eq_nil hnil] at he
      obtain ⟨r, hr⟩ := List.exists_mem_of_ne_nil _ hne
      exact (hplaced.header r hr e he v hv).1
  · exact (hplaced.written v (Stmt.introduced_subset_written hv)).1
  · have hne : t.regions ≠ [] := fun hnil ↦ by simp [Stmt.given_eq_nil hnil] at hv
    obtain ⟨r, hr⟩ := List.exists_mem_of_ne_nil _ hne
    exact hdeclared hr (((hss.statement ht).regions r hr).exact.sublist_left.mem hv)
  · exact hdeclared hr hv

namespace ScopeDraft

variable {R R' : Registry} {s body : ScopeDraft}

theorem started_opened (t : StageDraft) (kind : RegionKind) : (t.opened kind).Started :=
  ⟨rfl, .nil⟩

namespace Started

theorem introduce (h : s.Started) {v : Variable} {r : Resources}
    (hmake : s.stage.resources.Makes v r) : (s.introduce v r).Started :=
  ⟨h.statements, h.declared.append (.of_makes hmake) (Nat.zero_le _) hmake.extends.vars⟩

theorem wellDeclared (h : s.Started) (hstage : s.stage.finish.WellDeclared) : s.WellDeclared where
  stage := hstage
  nested := by
    rw [h.statements]
    exact .nil
  orderly _ := by
    rw [h.statements]
    exact .nil

/-- What was built in a scope that was only started declares what it should. -/
theorem region (h : s.Started) (hev : Evolves R (.scope s) R' (.scope body))
    (hbody : body.WellDeclared) (hinv : body.Invariant R') (hend : body.deferred = none) :
    body.region.WellDeclared s.region.declared ∧
      body.region.declared = s.region.declared ++ body.region.introduced := by
  obtain ⟨hdeclared, hascends⟩ := ScopeDraft.Gathers.of_started hev.gathers h hev.extends.2
  refine ⟨⟨fun v hv ↦ (hinv.declared v hv).2, hascends.pairwise, ?_, hbody.orderly hend⟩, hdeclared⟩
  rw [hdeclared]
  simpa using (Interleaves.nil_right s.region.declared).append (.nil_left body.region.introduced)

end Started

namespace WellDeclared

theorem withStage (h : s.WellDeclared) {t : StageDraft} (ht : t.finish.WellDeclared) :
    (s.withStage t).WellDeclared :=
  ⟨ht, h.nested, h.orderly⟩

theorem introduce (h : s.WellDeclared) (v : Variable) (r : Resources) :
    (s.introduce v r).WellDeclared :=
  ⟨h.stage, h.nested, h.orderly⟩

theorem declareAll (h : s.WellDeclared) (vs : List Variable) : (s.declareAll vs).WellDeclared :=
  ⟨h.stage, h.nested, h.orderly⟩

theorem defer (h : s.WellDeclared) (e : BuildError) : (s.defer e).WellDeclared :=
  ⟨h.stage, h.nested, fun hend ↦ absurd hend (deferred_defer_ne_none s e)⟩

theorem push (h : s.WellDeclared) {stmt : Stmt} (hstmt : stmt.WellDeclared)
    (hbodies : ∀ r ∈ stmt.regions, ShaderGraph.WellDeclared r.statements)
    (horderly : s.deferred = none → Orderly (s.region.statements ++ [stmt])) :
    (s.push stmt).WellDeclared :=
  ⟨h.stage, h.nested.concat hstmt hbodies, horderly⟩

theorem pushBody (h : s.WellDeclared) (hbody : body.WellDeclared) {stmt : Stmt}
    (hregions : stmt.regions = [body.region]) (hstmt : stmt.WellDeclared)
    (horderly : s.deferred = none → Orderly (s.region.statements ++ [stmt])) :
    ((s.withStage body.leave).push stmt).WellDeclared := by
  refine (h.withStage (t := body.leave) hbody.stage).push hstmt (fun r hr ↦ ?_) horderly
  rw [hregions] at hr
  exact List.mem_singleton.mp hr ▸ hbody.nested

theorem extendConditional (h : s.WellDeclared) (hbody : body.WellDeclared) {tail : ElseChain}
    (hregions : tail.regions = [body.region]) (hdeclares : body.region.WellDeclared [])
    (hfirst : body.region.declared = body.region.introduced) :
    ((s.withStage body.leave).extendConditional tail).WellDeclared := by
  have hresumed := h.withStage (t := body.leave) hbody.stage
  unfold ScopeDraft.extendConditional
  split
  case h_2 => exact hresumed
  case h_1 condition first rest hlast =>
    have hold := h.nested.statement (.here (List.mem_of_getLast? hlast))
    have hextended : (Stmt.branch condition first (rest.append tail)).WellDeclared := by
      refine ⟨fun r hr ↦ ?_, fun _ r hr ↦ ?_⟩
      · rcases Stmt.mem_regions_append hr with hr | hr
        · exact hold.regions r hr
        · rw [hregions] at hr
          exact List.mem_singleton.mp hr ▸ hdeclares
      · rcases Stmt.mem_regions_append hr with hr | hr
        · exact hold.first rfl r hr
        · rw [hregions] at hr
          exact List.mem_singleton.mp hr ▸ hfirst
    refine ⟨hresumed.stage, hresumed.nested.replace hbody.nested (fun x hx ↦ ?_) fun x hx r hr ↦
      Stmt.regions_of_extended hlast hregions hx hr, fun hend ↦ ?_⟩
    · rcases List.mem_append.mp hx with hx | hx
      · exact h.nested.statement (.here ((List.dropLast_sublist _).mem hx))
      · exact List.mem_singleton.mp hx ▸ hextended
    · exact (hresumed.orderly hend).dropLast.concat_of_nil rfl

/-- A variable that was not made yet stands nowhere. -/
theorem not_occursWithin (h : s.WellDeclared) (hinv : s.Invariant R) (hend : s.deferred = none)
    {v : Variable} (hid : s.count ≤ v.id) : ¬OccursWithin s.region.statements v := fun hv ↦ by
  have hmem := (hinv.statements hend).mem_of_occursWithin h.nested hv
  exact absurd (hinv.stage.fits.id_lt hmem) (Nat.not_lt_of_le hid)

end WellDeclared

end ScopeDraft

/-- The arguments of a function are what its body starts with. -/
theorem Arguments.started {types : List ValueType} {R R' : Registry} {s s' : ScopeDraft}
    {vs : List Variable} (h : Arguments types R s vs R' s') (hs : s.Started) :
    s'.Started ∧ s'.region.declared = s.region.declared ++ vs := by
  induction h with
  | nil => exact ⟨hs, by simp⟩
  | cons hmake _ _ _ ih =>
    obtain ⟨hstarted, hdeclared⟩ := ih (hs.introduce hmake)
    refine ⟨hstarted, ?_⟩
    rw [hdeclared]
    exact List.append_assoc _ [_] _

/-- What was built for the body of a function, after its arguments were made, is well declared. -/
theorem ScopeDraft.Started.function {R R' : Registry} {start body : ScopeDraft}
    (h : start.Started) (hev : Evolves R (.scope start) R' (.scope body))
    (hbody : body.WellDeclared) (hinv : body.Invariant R') (hend : body.deferred = none)
    (signature : Signature) {args : List Variable} (hargs : start.region.declared = args)
    (value : Option Expr) : Function.WellDeclared ⟨signature, args, body.region, value⟩ := by
  obtain ⟨hregion, hdeclared⟩ := h.region hev hbody hinv hend
  subst hargs
  exact ⟨hregion, hdeclared, hbody.nested⟩

namespace StageDraft

variable {s : StageDraft} {f : Function}

theorem wellDeclared_start (kind : StageKind) (r : Resources) :
    (start kind r).finish.WellDeclared :=
  fun f hf ↦ by cases hf

theorem wellDeclared_addFunction (h : s.finish.WellDeclared) (hf : f.WellDeclared) :
    (s.addFunction f).finish.WellDeclared := by
  intro g hg
  rcases List.mem_append.mp hg with hg | hg
  · rcases List.mem_append.mp hg with hg | hg
    · exact h g (List.mem_append_left _ hg)
    · exact List.mem_singleton.mp hg ▸ hf
  · exact h g (List.mem_append_right _ hg)

theorem wellDeclared_setMain (h : s.finish.WellDeclared) (hf : f.WellDeclared) :
    (StageDraft.finish { s with main := some f }).WellDeclared := by
  intro g hg
  rcases List.mem_append.mp hg with hg | hg
  · exact h g (List.mem_append_left _ hg)
  · exact List.mem_singleton.mp hg ▸ hf

end StageDraft

/-! ## All operations -/

/-- A declaration comes to a scope, of a variable that was just made. -/
theorem ScopeDraft.WellDeclared.declare {R : Registry} {s : ScopeDraft} (h : s.WellDeclared)
    (hinv : s.Invariant R) {v : Variable} {r : Resources} (hmake : s.stage.resources.Makes v r)
    {init : Option Expr} (hinit : ∀ e ∈ init, e.Known R) :
    ((s.introduce v r).push (.declare v init)).WellDeclared := by
  refine (h.introduce v r).push (.leaf rfl) (fun r hr ↦ by cases hr) fun hend ↦ ?_
  refine (h.orderly hend).concat (fun w hw ↦ ?_) fun w e heq hw ↦ ?_
  · obtain rfl := List.mem_singleton.mp hw
    exact h.not_occursWithin hinv hend (Nat.le_of_eq hmake.id.symm)
  · obtain ⟨rfl, rfl⟩ := Stmt.declare.inj heq
    have hlt := hinv.stage.fits.id_lt ((hinit e rfl).mem_vars hw)
    exact absurd hmake.id (Nat.ne_of_lt hlt)

/-- Whatever is done, drafts declare what they should. -/
theorem Evolves.wellDeclared {R R' : Registry} {d d' : Draft} (h : Evolves R d R' d')
    (hd : d.Invariant R) (hw : d.WellDeclared) : d'.WellDeclared := by
  induction h with
  | refl => exact hw
  | trans h₁ _ ih₁ ih₂ => exact ih₂ (h₁.invariant hd) (ih₁ hd hw)
  | name | uniform | interStage | armature | morphWeights => trivial
  | programResources | stageResources | stageAttribute | stageOutput | stageBuiltin
  | abandonedStage => exact hw
  | scopeStage _ ih => exact hw.withStage (ih hd.stage hw.stage)
  | blockScope _ ih => exact ih hd.scope hw
  | @function R _ _ s name q _ result _ _ _ _ hname hargs hbody hend _ _ ih =>
    have hopened := ScopeDraft.started_opened { s.withNames q with frames := [] } (.function result)
    obtain ⟨hstarted, hdeclared⟩ := hargs.started hopened
    have hinv := hargs.invariant ((hd.withBody hname).openedFunction result)
    have hbody' := ih hinv (hstarted.wellDeclared (hargs.finish_eq ▸ hw))
    exact StageDraft.wellDeclared_addFunction hbody'.stage
      (hstarted.function hbody hbody' (hbody.invariant hinv) hend _ hdeclared _)
  | @main R _ s _ _ hbody hend ih =>
    have hstarted := ScopeDraft.started_opened { s with frames := [] } (.function none)
    have hinv := hd.openedFunction none
    have hbody' := ih hinv (hstarted.wellDeclared hw)
    exact StageDraft.wellDeclared_setMain hbody'.stage
      (hstarted.function hbody hbody' (hbody.invariant hinv) hend _ rfl _)
  | @abandonedFunction R _ _ s _ result _ _ _ hargs _ ih =>
    have hopened := ScopeDraft.started_opened { s with frames := [] } (.function result)
    obtain ⟨hstarted, -⟩ := hargs.started hopened
    have hinv := hargs.invariant (hd.openedFunction result)
    exact (ih hinv (hstarted.wellDeclared (hargs.finish_eq ▸ hw))).stage
  | declare hinit hmake => exact hw.declare hd hmake fun e he ↦ (hinit e he).1.known
  | @declareUnseen _ _ _ _ _ e hknown _ _ hmake =>
    exact (hw.defer e).declare (hd.defer e) hmake fun e he ↦ Option.some.inj he ▸ hknown
  | @add _ _ stmt h =>
    obtain ⟨hregions, hnone⟩ : stmt.regions = [] ∧ stmt.introduced = [] := by
      cases h <;> exact ⟨rfl, rfl⟩
    refine hw.push (.leaf hregions) (fun r hr ↦ by simp [hregions] at hr) fun hend ↦ ?_
    exact (hw.orderly hend).concat_of_nil hnone
  | @branch _ _ s _ _ _ _ hbody hend ih | @loopWhile _ _ s _ _ _ _ hbody hend ih =>
    have hinv := hbody.invariant (hd.stage.opened _)
    have hbody' := ih (hd.stage.opened _) ((ScopeDraft.started_opened _ _).wellDeclared hw.stage)
    obtain ⟨hregion, hdeclared⟩ :=
      (ScopeDraft.started_opened _ _).region hbody hbody' hinv hend
    exact hw.pushBody hbody' rfl (.of_body rfl hregion fun _ ↦ hdeclared) fun hend ↦
      (hw.orderly hend).concat_of_nil rfl
  | @elseIf _ _ s _ _ _ _ hbody hend ih | @otherwise _ _ s _ hbody hend ih =>
    have hstarted := ScopeDraft.started_opened s.stage .branch
    have hinv := hd.stage.opened .branch
    have hbody' := ih hinv (hstarted.wellDeclared hw.stage)
    obtain ⟨hregion, hdeclared⟩ := hstarted.region hbody hbody' (hbody.invariant hinv) hend
    exact hw.extendConditional hbody' rfl hregion hdeclared
  | @loopFor _ _ s _ _ _ _ _ _ _ hmake hscope _ _ _ _ _ hbody hend ih =>
    have hstarted := (ScopeDraft.started_opened s.stage .loop).introduce hmake
    have hinv := (hd.stage.opened .loop).introduce hmake hscope
    have hbody' := ih hinv (hstarted.wellDeclared hw.stage)
    obtain ⟨hregion, hdeclared⟩ := hstarted.region hbody hbody' (hbody.invariant hinv) hend
    exact hw.pushBody hbody' rfl (.of_body rfl hregion fun _ ↦ hdeclared) fun hend ↦
      (hw.orderly hend).concat_of_nil rfl
  | @block _ _ s b _ _ q hname hbody hend _ ih =>
    have hstarted := ScopeDraft.started_opened (s.stage.withNames q) .block
    have hinv := BlockDraft.Invariant.openedBlock hd hname
    have hb := ih hinv (hstarted.wellDeclared hw.stage)
    have hgathers : BlockDraft.Gathers _ b := hbody.gathers
    obtain ⟨hinterleaves, hascends⟩ := hgathers.declared_of_opened
    have hregion : b.scope.region.WellDeclared (b.interface.inputs.map BlockInput.slot) :=
      ⟨fun v hv ↦ ((hbody.invariant hinv).scope.declared v hv).2, hascends.pairwise, hinterleaves,
        hb.orderly hend⟩
    refine ((hw.withStage (t := b.scope.leave) hb.stage).declareAll _).push
      (.of_body rfl hregion nofun) (fun r hr ↦ List.mem_singleton.mp hr ▸ hb.nested) fun hend ↦ ?_
    -- The outputs were made after all that stands in the scope, though they belong to it.
    refine (hw.orderly hend).concat (fun v hv ↦ ?_) fun v e heq ↦ ?_
    · exact hw.not_occursWithin hd hend (hgathers.outputs_of_opened.bounds v hv).1
    · cases congrArg Stmt.blockName? heq
  | @abandoned _ _ s _ kind _ ih =>
    exact hw.withStage (ih (hd.stage.opened kind)
      ((ScopeDraft.started_opened s.stage kind).wellDeclared hw.stage)).stage
  | @abandonedLoop _ _ s _ _ _ hmake hscope _ _ ih =>
    have hstarted := (ScopeDraft.started_opened s.stage .loop).introduce hmake
    exact hw.withStage (ih ((hd.stage.opened .loop).introduce hmake hscope)
      (hstarted.wellDeclared hw.stage)).stage
  | @abandonedBlock _ _ s _ _ q hname _ ih =>
    have hstarted := ScopeDraft.started_opened (s.stage.withNames q) .block
    exact hw.withStage (ih (.openedBlock hd hname) (hstarted.wellDeclared hw.stage)).stage
  | blockInput => exact hw.introduce _ _
  | blockOutput => exact hw.withStage hw.stage
  | finished _ _ ih =>
    intro t ht
    rcases Program.mem_stages_setStage ht with rfl | ht
    · exact ih (StageDraft.invariant_start hd.fits _) (StageDraft.wellDeclared_start _ _)
    · exact hw t ht

end ShaderGraph
