import ShaderGraph.Proofs.Draft.Rejecting
import ShaderGraph.Proofs.Draft.Sharing
import ShaderGraph.Proofs.Uniqueness

/-!
# Declarations that fail

A declaration looks for what is there, takes a name and only then changes
anything, so that nothing is changed when it fails. The morph weights are two
declarations one after the other, and the first of them stays if only the second
one fails. It fails alone exactly if its name alone is taken, by anything but
such a register.
-/

namespace ShaderGraph

open Build

variable {σ α β : Type}

namespace Resources

/-- The first register of the morph weights, if it is made now. -/
def firstRegister (r : Resources) : Variable :=
  ⟨r.variableCount, MorphWeightData.nameA, MorphWeightData.uniformType, .program, .uniform⟩

/-- What the resources become when the first register of the morph weights is declared alone. -/
def withFirstRegister (r : Resources) : Resources :=
  { r with
    names := { r.names with taken := MorphWeightData.nameA :: r.names.taken }
    variableCount := r.variableCount + 1
    uniforms := r.uniforms ++ [r.firstRegister] }

/-- There are no morph weights, and the name of their second register alone is taken, by something
that is none. -/
def SecondRegisterTaken (r : Resources) : Prop :=
  r.morphWeights = none ∧ r.names.contains MorphWeightData.nameA = false ∧
    r.names.contains MorphWeightData.nameB = true ∧
      ∀ v ∈ r.uniforms, v.name = MorphWeightData.nameB → v.type ≠ MorphWeightData.uniformType

instance : DecidablePred SecondRegisterTaken := fun r ↦
  inferInstanceAs (Decidable (r.morphWeights = none ∧ _ ∧ _ ∧ _))

/-- What the resources are after a declaration has failed that may have asked for a data block. -/
def afterFailure (r : Resources) (asked : Option DataKind) : Resources :=
  if asked = some .morphWeights ∧ r.SecondRegisterTaken then r.withFirstRegister else r

theorem afterFailure_of_ne (r : Resources) {asked : Option DataKind}
    (h : asked ≠ some .morphWeights) : r.afterFailure asked = r :=
  if_neg fun h' ↦ h h'.1

theorem withFirstRegister_ne (r : Resources) : r.withFirstRegister ≠ r := fun h ↦
  Nat.succ_ne_self _ (congrArg variableCount h)

end Resources

namespace Build

variable {S : Type}

/-- What is followed by something that cannot fail has failed itself. -/
theorem of_bind_sure_error {x : Build σ S α} {f : α → Build σ S β} (hf : ∀ a, (f a).Sure)
    {st st' : S × σ} {e : BuildError} (h : (x >>= f) st = .error e st') : x st = .error e st' := by
  rcases hx : x st with ⟨a, st₁⟩ | ⟨e₁, st₁⟩
  · obtain ⟨b, st₂, hb⟩ := hf a st₁
    rw [bind_ok hx, hb] at h
    cases h
  · rw [bind_error hx] at h
    cases h
    rfl

end Build

namespace Resources

variable {r r' : Resources} {c c' : σ} {e : BuildError} {R : Registry}

theorem firm_lookupOrDeclare (known : List Variable) (add : Variable → Resources → Resources)
    (kind : VariableKind) (name : String) (type : ValueType) :
    Firm (lookupOrDeclare known add kind name type : Build σ Resources Variable) := by
  rintro ⟨r, c⟩ e st' h
  rcases lookupOrDeclare_cases r c known add kind name type with
    ⟨v, -, -, -, hrun⟩ | ⟨v, r₁, -, -, -, -, -, -, hrun⟩ | ⟨e', hrun⟩ <;> rw [hrun] at h <;> cases h
  rfl

theorem firm_declareUniform (name : String) (type : ValueType) :
    Firm (declareUniform name type : Build σ Resources Variable) :=
  Looks.draft.bind_firm fun _ ↦ firm_lookupOrDeclare _ _ _ _ _

theorem firm_declareInterStage (name : String) (type : ValueType) :
    Firm (declareInterStage name type : Build σ Resources Variable) :=
  Looks.draft.bind_firm fun _ ↦ firm_lookupOrDeclare _ _ _ _ _

theorem firm_declareArmature (maxBones : Nat) :
    Firm (declareArmature maxBones : Build σ Resources ArmatureData) := by
  refine Looks.draft.bind_firm fun r ↦ ?_
  cases r.armature with
  | none => exact (firm_declareUniform _ _).bind_sure fun _ ↦ (Sure.change _).bind fun _ ↦ .pure _
  | some data =>
    by_cases hroom : data.maxBones < maxBones
    · simp only [if_pos hroom]
      exact (Looks.throw _).bind_firm fun _ ↦ (Sure.pure _).firm
    · simp only [if_neg hroom]
      exact (Sure.pure _).firm

end Resources

namespace StageDraft

variable {s : StageDraft}

theorem firm_newStageVariable (name : String) (type : ValueType) (kind : VariableKind) :
    Firm (newStageVariable name type kind : Build σ StageDraft Variable) := by
  rintro ⟨s, c⟩ e st' h
  rcases newStageVariable_cases s c name type kind with ⟨v, r, -, -, -, -, -, hrun⟩ | ⟨e', hrun⟩ <;>
    rw [hrun] at h <;> cases h
  rfl

theorem looks_expectStage (item : String) (required : StageKind) :
    Looks (expectStage item required : Build σ StageDraft Unit) := by
  refine Looks.draft.bind fun s ↦ ?_
  by_cases hkind : s.kind = required
  · simp only [if_pos hkind]
    exact .pure ()
  · simp only [if_neg hkind]
    exact .throw _

theorem firm_declareAttribute (name : String) (type : ValueType) (kind : VariableKind) :
    Firm (declareAttribute name type kind : Build σ StageDraft Variable) := by
  refine (looks_expectStage _ _).bind_firm fun _ ↦ Looks.draft.bind_firm fun s ↦ ?_
  cases s.attributes.find? (·.name == name) with
  | none =>
    exact (firm_newStageVariable _ _ _).bind_sure fun _ ↦ (Sure.change _).bind fun _ ↦ .pure _
  | some v =>
    by_cases hmatch : v.type = type ∧ v.kind = kind
    · simp only [if_pos hmatch]
      exact (Sure.pure _).firm
    · simp only [if_neg hmatch]
      exact (Looks.throw _).firm

theorem firm_declareOutput (name : String) (type : ValueType) :
    Firm (declareOutput name type : Build σ StageDraft Variable) :=
  (looks_expectStage _ _).bind_firm fun _ ↦
    (firm_newStageVariable _ _ _).bind_sure fun _ ↦ (Sure.change _).bind fun _ ↦ .pure _

theorem firm_declareBuiltin (b : BuiltIn) :
    Firm (declareBuiltin b : Build σ StageDraft Variable) := by
  refine (looks_expectStage _ _).bind_firm fun _ ↦ Looks.draft.bind_firm fun s ↦ ?_
  cases s.builtins.find? (·.kind == .builtIn b) with
  | none =>
    exact (firm_newStageVariable _ _ _).bind_sure fun _ ↦ (Sure.change _).bind fun _ ↦ .pure _
  | some v => exact (Sure.pure _).firm

end StageDraft

/-! ## The morph weights -/

namespace Registry.Fits

variable {R : Registry} {r r' : Resources} {c c' : σ} {e : BuildError} {name : String}
  {type : ValueType}

theorem contains_name (h : R.Fits r) {v : Variable} (hv : v ∈ R.vars) :
    r.names.contains v.name = true :=
  NamePool.contains_iff.mpr
    (h.names.mem_iff.mpr (List.mem_append_left _ (List.mem_map_of_mem hv)))

/-- A uniform whose name is free is made. -/
theorem declareUniform_of_free (h : R.Fits r) (hfree : r.names.contains name = false)
    (type : ValueType) (c : σ) :
    Resources.declareUniform name type (r, c) =
      .ok ⟨r.variableCount, name, type, .program, .uniform⟩
        ({ r with
          names := { r.names with taken := name :: r.names.taken }
          variableCount := r.variableCount + 1
          uniforms := r.uniforms ++ [⟨r.variableCount, name, type, .program, .uniform⟩] }, c) := by
  have hnew : r.uniforms.find? (·.name == name) = none := by
    refine List.find?_eq_none.mpr fun v hv hname ↦ ?_
    obtain rfl : v.name = name := by simpa using hname
    simp [h.contains_name (h.uniforms v hv)] at hfree
  have hreserve : Resources.reserveName name (r, c) =
      .ok () ({ r with names := { r.names with taken := name :: r.names.taken } }, c) := by
    simp [Resources.reserveName, NamePool.reserve, hfree]
  simp only [Resources.declareUniform, Build.draft_bind, Resources.lookupOrDeclare, hnew,
    Build.bind_ok hreserve]
  rfl

/-- A uniform whose name is taken is given back or refused. -/
theorem declareUniform_of_taken (htaken : r.names.contains name = true) (type : ValueType) (c : σ) :
    (∃ v, Resources.declareUniform name type (r, c) = .ok v (r, c)) ∨
      ∃ e, Resources.declareUniform name type (r, c) = .error e (r, c) := by
  rw [Resources.declareUniform, Build.draft_bind, Resources.lookupOrDeclare]
  cases r.uniforms.find? (·.name == name) with
  | some v =>
    by_cases htype : v.type = type
    · simp only [if_pos htype]
      exact .inl ⟨v, rfl⟩
    · simp only [if_neg htype]
      exact .inr ⟨_, rfl⟩
  | none =>
    have hreserve : Resources.reserveName name (r, c) = .error (.nameTaken name) (r, c) := by
      simp [Resources.reserveName, NamePool.reserve, htaken]
    exact .inr ⟨_, Build.bind_error hreserve⟩

/-- A uniform is refused if its name is taken by anything but such a uniform. -/
theorem of_declareUniform_error (h : R.Fits r)
    (hrun : Resources.declareUniform name type (r, c) = .error e (r', c')) :
    r.names.contains name = true ∧ ∀ v ∈ r.uniforms, v.name = name → v.type ≠ type := by
  constructor
  · by_contra hfree
    simp [h.declareUniform_of_free (Bool.eq_false_iff.mpr hfree)] at hrun
  · rintro v hv rfl rfl
    simp [h.declareUniform_eq (h.uniforms v hv), hv] at hrun

end Registry.Fits

namespace Resources

variable {r r' : Resources} {c c' : σ} {e : BuildError} {R : Registry}

theorem fits_withFirstRegister (h : R.Fits r)
    (hfree : r.names.contains MorphWeightData.nameA = false) :
    (R.addVariable r.firstRegister).Fits r.withFirstRegister := by
  have hgives : r.names.Gives MorphWeightData.nameA
      { r.names with taken := MorphWeightData.nameA :: r.names.taken } := by
    refine .inr ?_
    simp [NamePool.reserve, hfree]
  have hscope : ScopeId.program.index < 3 + r.scopeCount := Nat.lt_add_right _ (by decide)
  exact (h.makes (hgives.makes _ _ _) hscope).addUniform (Registry.mem_addVariable R _) rfl rfl

/-- If the first register is made, then the morph weights fail for the second one. -/
theorem secondRegisterTaken_of_error (h : R.Fits r) (hnone : r.morphWeights = none)
    (hfree : r.names.contains MorphWeightData.nameA = false)
    (hrun : declareUniform MorphWeightData.nameB MorphWeightData.uniformType
      (r.withFirstRegister, c) = .error e (r', c')) : r.SecondRegisterTaken := by
  obtain ⟨htaken, hother⟩ := (fits_withFirstRegister h hfree).of_declareUniform_error hrun
  refine ⟨hnone, hfree, ?_, fun v hv ↦ hother v (List.mem_append_left _ hv)⟩
  rw [NamePool.contains_iff] at htaken ⊢
  exact (List.mem_cons.mp htaken).resolve_left (by decide)

/-- Failed morph weights leave the first register behind if the second one alone was refused. -/
theorem declareMorphWeights_error (h : R.Fits r)
    (hrun : declareMorphWeights (r, c) = .error e (r', c')) :
    c' = c ∧ r' = r.afterFailure (some .morphWeights) := by
  rw [declareMorphWeights, Build.draft_bind] at hrun
  cases hnone : r.morphWeights with
  | some data =>
    simp only [hnone] at hrun
    cases hrun
  | none =>
    simp only [hnone] at hrun
    have hrest (a b : Variable) : Sure (do
        let data : MorphWeightData := ⟨a, b⟩
        Build.change (fun r ↦
          { r with
            morphWeights := some data
            listeners := r.listeners ++ [.morphWeights data] })
        return data : Build σ Resources MorphWeightData) := (Sure.change _).bind fun _ ↦ .pure _
    cases hfree : r.names.contains MorphWeightData.nameA with
    | true =>
      have hnot : ¬r.SecondRegisterTaken := fun h ↦ by simp [h.2.1] at hfree
      rw [afterFailure, if_neg fun h ↦ hnot h.2]
      rcases Registry.Fits.declareUniform_of_taken hfree MorphWeightData.uniformType c with
        ⟨a, ha⟩ | ⟨e₁, ha⟩
      · rw [Build.bind_ok ha] at hrun
        cases firm_declareUniform _ _ _ _ _ (of_bind_sure_error (hrest a) hrun)
        exact ⟨rfl, rfl⟩
      · rw [Build.bind_error ha] at hrun
        cases hrun
        exact ⟨rfl, rfl⟩
    | false =>
      rw [Build.bind_ok (h.declareUniform_of_free hfree _ c)] at hrun
      have hsecond := of_bind_sure_error (hrest _) hrun
      cases firm_declareUniform _ _ _ _ _ hsecond
      rw [afterFailure, if_pos ⟨rfl, secondRegisterTaken_of_error h hnone hfree hsecond⟩]
      exact ⟨rfl, rfl⟩

/-! ## Requests -/

/-- A construction that asks for a data block, or for none, leaves what a failed declaration does
when it fails. -/
def Leaves (asked : Option DataKind) (act : Build σ Resources α) : Prop :=
  ∀ (R : Registry) r c e r' c', R.Fits r → act (r, c) = .error e (r', c') →
    c' = c ∧ r' = r.afterFailure asked

namespace Leaves

variable {asked : Option DataKind} {act : Build σ Resources α}

theorem of_firm (h : act.Firm) (hasked : asked ≠ some .morphWeights) : Leaves asked act := by
  intro R r c e r' c' _ hrun
  cases h _ _ _ hrun
  exact ⟨rfl, (r.afterFailure_of_ne hasked).symm⟩

theorem bind_sure {f : α → Build σ Resources β} (h : Leaves asked act) (hf : ∀ a, (f a).Sure) :
    Leaves asked (act >>= f) :=
  fun R r c e r' c' hr hrun ↦ h R r c e r' c' hr (of_bind_sure_error hf hrun)

end Leaves

theorem leaves_declareMorphWeights :
    Leaves (some .morphWeights) (declareMorphWeights : Build σ Resources MorphWeightData) :=
  fun _ _ _ _ _ _ hr hrun ↦ declareMorphWeights_error hr hrun

theorem leaves_declareArmature (maxBones : Nat) :
    Leaves (some .armature) (declareArmature maxBones : Build σ Resources ArmatureData) :=
  .of_firm (firm_declareArmature maxBones) (by decide)

theorem leaves_declareData (kind : DataKind) :
    Leaves (some kind) (declareData kind : Build σ Resources DataBlock) := by
  intro R r c e r' c' hr hrun
  rw [declareData, Build.draft_bind] at hrun
  cases hdata : r.dataBlock? kind with
  | some data =>
    simp only [hdata] at hrun
    cases hrun
  | none =>
    cases kind with
    | armature =>
      simp only [hdata] at hrun
      exact (leaves_declareArmature _).bind_sure (fun _ ↦ .pure _) R r c e r' c' hr hrun
    | morphWeights =>
      simp only [hdata] at hrun
      exact leaves_declareMorphWeights.bind_sure (fun _ ↦ .pure _) R r c e r' c' hr hrun

end Resources

/-- The kind of data block that is asked for. -/
def ProgramAction.dataKind? : ProgramAction → Option DataKind
  | .armature _ => some .armature
  | .morphWeights => some .morphWeights
  | .data kind => some kind
  | .uniform .. | .lookup _ | .taken _ | .registered _ => none

/-- The kind of data block that is asked for. -/
def Declaration.dataKind? : Declaration → Option DataKind
  | .armature _ => some .armature
  | .morphWeights => some .morphWeights
  | .data kind => some kind
  | .uniform .. | .attribute .. | .output .. | .builtin _ | .interStage .. => none

open Resources

theorem ProgramAction.leaves_run (a : ProgramAction) : Leaves a.dataKind? a.run := by
  have hlook {α : Type} (f : Resources → α) : Leaves none (do return f (← Build.draft) :
      Scripted Resources α) := .of_firm (Looks.draft.bind fun _ ↦ .pure _).firm (by decide)
  cases a with
  | uniform name type =>
    exact .of_firm ((firm_declareUniform name type).bind_sure fun _ ↦ .pure _) nofun
  | lookup name => exact hlook _
  | taken name => exact hlook _
  | armature maxBones => exact (leaves_declareArmature maxBones).bind_sure fun _ ↦ .pure _
  | morphWeights => exact leaves_declareMorphWeights.bind_sure fun _ ↦ .pure _
  | data kind => exact (leaves_declareData kind).bind_sure fun _ ↦ .pure _
  | registered kind => exact hlook _

theorem Scripted.sure_answered {S : Type} (handles : List (Option Handle)) (a : Answer) :
    (Scripted.answered handles a : Scripted S Answer).Sure := fun _ ↦ ⟨_, _, rfl⟩

/-- A failed action on a program changes nothing else of it. -/
theorem ProgramAction.run_error {R : Registry} {p p' : Program} {l l' : Ledger} {e : BuildError}
    (hp : p.Invariant R) (a : ProgramAction) (handles : List (Option Handle))
    (hrun : (ProgramStep.act a handles).run (p, l) = .error e (p', l')) :
    l' = l ∧ p' = { p with resources := p.resources.afterFailure a.dataKind? } := by
  rw [ProgramStep.run] at hrun
  have hact := of_bind_sure_error (fun _ ↦ Scripted.sure_answered _ _) hrun
  rw [on_apply] at hact
  rcases h : a.run (p.resources, l) with ⟨b, r, l₁⟩ | ⟨e₁, r, l₁⟩ <;> rw [h] at hact <;> cases hact
  obtain ⟨rfl, rfl⟩ := a.leaves_run R _ _ _ _ _ hp.fits h
  exact ⟨rfl, rfl⟩

theorem Declaration.run_error {R : Registry} {s s' : StageDraft} {l l' : Ledger} {e : BuildError}
    (hs : s.Invariant R) (d : Declaration) (hrun : d.run (s, l) = .error e (s', l')) :
    l' = l ∧ s' = s.withResources (s.resources.afterFailure d.dataKind?) := by
  have hfirm {act : Scripted StageDraft Variable} (h : act.Firm) (hnone : d.dataKind? = none)
      (hrun : (do return .var (← act) : Scripted StageDraft Answer) (s, l) = .error e (s', l')) :
      l' = l ∧ s' = s.withResources (s.resources.afterFailure d.dataKind?) := by
    cases h _ _ _ (of_bind_sure_error (fun _ ↦ .pure _) hrun)
    rw [afterFailure_of_ne _ (by simp [hnone])]
    exact ⟨rfl, rfl⟩
  have hresources {α : Type} {act : Scripted Resources α} (f : α → Answer)
      (h : Leaves d.dataKind? act)
      (hrun : (do return f (← onResources act) : Scripted StageDraft Answer) (s, l) =
        .error e (s', l')) :
      l' = l ∧ s' = s.withResources (s.resources.afterFailure d.dataKind?) := by
    have hact := of_bind_sure_error (fun _ ↦ .pure _) hrun
    rw [onResources, on_apply] at hact
    rcases h' : act (s.resources, l) with ⟨b, r, l₁⟩ | ⟨e₁, r, l₁⟩ <;>
      rw [h'] at hact <;> cases hact
    obtain ⟨rfl, rfl⟩ := h R _ _ _ _ _ hs.fits h'
    exact ⟨rfl, rfl⟩
  cases d with
  | uniform name type =>
    exact hresources .var (.of_firm (firm_declareUniform name type) (by simp [dataKind?])) hrun
  | «attribute» name type kind =>
    exact hfirm (StageDraft.firm_declareAttribute name type kind) rfl hrun
  | output name type => exact hfirm (StageDraft.firm_declareOutput name type) rfl hrun
  | builtin which => exact hfirm (StageDraft.firm_declareBuiltin which) rfl hrun
  | interStage name type =>
    exact hresources .var (.of_firm (firm_declareInterStage name type) (by simp [dataKind?])) hrun
  | armature maxBones => exact hresources (.data ∘ .armature) (leaves_declareArmature maxBones) hrun
  | morphWeights => exact hresources (.data ∘ .morphWeights) leaves_declareMorphWeights hrun
  | data kind => exact hresources .data (leaves_declareData kind) hrun

/-- A declaration in a program or in a stage fails. What kind of data block it asks for is known. -/
inductive Refuses : Draft → Ledger → Option DataKind → Draft → Ledger → Prop
  | program {p p' : Program} {l l' : Ledger} {e : BuildError} (a : ProgramAction)
      (handles : List (Option Handle))
      (h : (ProgramStep.act a handles).run (p, l) = .error e (p', l')) :
      Refuses (.program p) l a.dataKind? (.program p') l'
  | stage {s s' : StageDraft} {l l' : Ledger} {e : BuildError} (d : Declaration)
      (h : d.run (s, l) = .error e (s', l')) :
      Refuses (.stage s) l d.dataKind? (.stage s') l'

namespace Draft

def withShared (r : Resources) : Draft → Draft
  | .program p => .program { p with resources := r }
  | .resources _ => .resources r
  | .stage s => .stage (s.withResources r)
  | .scope s => .scope (s.withResources r)
  | .block b => .block { b with scope := b.scope.withResources r }

@[simp] theorem shared_withShared (r : Resources) (d : Draft) : (d.withShared r).shared = r := by
  cases d <;> rfl

@[simp] theorem withShared_shared (d : Draft) : d.withShared d.shared = d := by cases d <;> rfl

end Draft

/-- A declaration that fails changes nothing of the program or the stage, unless it asks for the
morph weights and the name of their second register alone is taken. Then, and only then, the first
register is declared. -/
theorem declaration_error_leaves {d d' : Draft} {l l' : Ledger} {asked : Option DataKind}
    (hd : Reached d l) (h : Refuses d l asked d' l') :
    l' = l ∧ d' = d.withShared (d.shared.afterFailure asked) ∧
      (d' = d ↔ ¬(asked = some .morphWeights ∧ d.shared.SecondRegisterTaken)) := by
  obtain ⟨R, -, hinvariant⟩ := hd.sound
  have hleaves : l' = l ∧ d' = d.withShared (d.shared.afterFailure asked) := by
    cases h with
    | program a handles hrun =>
      obtain ⟨hl, rfl⟩ := a.run_error hinvariant handles hrun
      exact ⟨hl, rfl⟩
    | stage d hrun =>
      obtain ⟨hl, rfl⟩ := d.run_error hinvariant hrun
      exact ⟨hl, rfl⟩
  obtain ⟨hl, rfl⟩ := hleaves
  refine ⟨hl, rfl, fun heq hmorph ↦ ?_, fun hmorph ↦ ?_⟩
  · have hshared := congrArg Draft.shared heq
    rw [Draft.shared_withShared, afterFailure, if_pos hmorph] at hshared
    exact withFirstRegister_ne _ hshared
  · rw [afterFailure, if_neg hmorph, Draft.withShared_shared]

/-- Declares a number under the name of the second register. -/
def collidingStep : ProgramStep := .act (.uniform MorphWeightData.nameB (.float .one)) []

def collidingStart : Program × Ledger := collidingStep.run.final (.new "colliding") .empty

theorem reached_collidingStart : Reached (.program collidingStart.1) collidingStart.2 :=
  (Reached.start "colliding").programStep collidingStep

/-- The morph weights fail after their first register, and an attribute of a fragment stage at
once. -/
theorem declaration_error_leaves_colliding :
    (∃ p' l', Refuses (.program collidingStart.1) collidingStart.2 (some .morphWeights)
        (.program p') l' ∧
      p' = { collidingStart.1 with resources := collidingStart.1.resources.withFirstRegister } ∧
        Draft.program p' ≠ .program collidingStart.1) ∧
    ∃ s' l', Refuses (.stage (.start .fragment collidingStart.1.resources)) collidingStart.2 none
        (.stage s') l' ∧
      Draft.stage s' = .stage (.start .fragment collidingStart.1.resources) := by
  have hstage : Reached (.stage (.start .fragment collidingStart.1.resources)) collidingStart.2 :=
    reached_collidingStart.openStage rfl
  constructor
  · have htaken : collidingStart.1.resources.SecondRegisterTaken := by decide +kernel
    have hfails : (match (ProgramStep.act .morphWeights []).run collidingStart with
        | .ok .. => false
        | .error .. => true) = true := by decide +kernel
    rcases hrun : (ProgramStep.act .morphWeights []).run collidingStart with
      ⟨a, p', l'⟩ | ⟨e, p', l'⟩
    · simp [hrun] at hfails
    · have hrefuses : Refuses (.program collidingStart.1) collidingStart.2 (some .morphWeights)
          (.program p') l' := .program .morphWeights [] hrun
      obtain ⟨-, hp, hsame⟩ := declaration_error_leaves reached_collidingStart hrefuses
      rw [afterFailure, if_pos ⟨rfl, htaken⟩] at hp
      exact ⟨p', l', hrefuses, Draft.program.inj hp, fun heq ↦ hsame.mp heq ⟨rfl, htaken⟩⟩
  · rcases hrun : (Declaration.attribute "uv" (.float .two) .vertexAttribute).run
        (.start .fragment collidingStart.1.resources, collidingStart.2) with
      ⟨a, s', l'⟩ | ⟨e, s', l'⟩
    · cases hrun
    · have hrefuses : Refuses (.stage (.start .fragment collidingStart.1.resources))
          collidingStart.2 none (.stage s') l' :=
        .stage (.attribute "uv" (.float .two) .vertexAttribute) hrun
      obtain ⟨-, -, hsame⟩ := declaration_error_leaves hstage hrefuses
      exact ⟨s', l', hrefuses, hsame.mpr nofun⟩

/-- Morph weights that fail leave a uniform of a program, its name and its number behind. -/
theorem colliding_not_restored : ∃ p l, Reached (.program p) l ∧ ∃ e p' l',
    (ProgramStep.act .morphWeights []).run (p, l) = .error e (p', l') ∧
      p'.resources.uniforms.length = p.resources.uniforms.length + 1 ∧
        p'.resources.names.size = p.resources.names.size + 1 ∧
          p'.resources.variableCount = p.resources.variableCount + 1 := by
  refine ⟨collidingStart.1, collidingStart.2, reached_collidingStart, ?_⟩
  have hfails : (match (ProgramStep.act .morphWeights []).run collidingStart with
      | .ok .. => false
      | .error _ (p, _) => p.resources.uniforms.length == 2 && p.resources.names.size == 2 &&
        p.resources.variableCount == 2) = true := by decide +kernel
  rcases hrun : (ProgramStep.act .morphWeights []).run collidingStart with
    ⟨a, p', l'⟩ | ⟨e, p', l'⟩
  · simp [hrun] at hfails
  · simp only [hrun, Bool.and_eq_true, beq_iff_eq, and_assoc] at hfails
    exact ⟨e, p', l', rfl, hfails⟩

end ShaderGraph
