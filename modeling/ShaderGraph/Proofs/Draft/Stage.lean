import ShaderGraph.Proofs.Draft.Resources

/-!
# Following the declarations of a stage

Attributes, outputs and built-ins are made like all variables, and put into a
table of the stage. Attributes and built-ins may be there already.
-/

namespace ShaderGraph

namespace StageDraft

variable {σ α : Type} {C : Client σ} {R R₁ : Registry} {s : StageDraft} {c : σ}

theorem takeName_cases (s : StageDraft) (c : σ) (wanted : Option String) (stem : String) :
    (∃ name q, s.resources.names.Gives name q ∧
      Build.onResources (Resources.takeName wanted stem) (s, c) = .ok name (s.withNames q, c)) ∨
      ∃ e, Build.onResources (Resources.takeName wanted stem) (s, c) = .error e (s, c) := by
  rcases Resources.takeName_cases s.resources c wanted stem with ⟨name, q, hq, h⟩ | ⟨e, h⟩
  · exact .inl ⟨name, q, hq, by rw [Build.onResources, Build.on_apply, h]; rfl⟩
  · exact .inr ⟨e, by rw [Build.onResources, Build.on_apply, h]⟩

theorem follows_expectStage_bind {item : String} {required : StageKind} {d : Draft}
    {Q : Registry → StageDraft → α → Prop} {f : Unit → Build σ StageDraft α}
    (h : Evolves R d R₁ (draft s)) (hc : C.Knows R₁ c)
    (hf : s.kind = required → Follows C R d Q (f () (s, c))) :
    Follows C R d Q ((expectStage item required >>= f) (s, c)) := by
  by_cases hkind : s.kind = required
  · have hok : (expectStage item required : Build σ StageDraft Unit) (s, c) = .ok () (s, c) := by
      unfold expectStage
      rw [Build.draft_bind, if_pos hkind]
      rfl
    rw [Build.bind_ok hok]
    exact hf hkind
  · have herror : (expectStage item required : Build σ StageDraft Unit) (s, c) =
        .error (.wrongStage item required s.kind) (s, c) := by
      unfold expectStage
      rw [Build.draft_bind, if_neg hkind]
      rfl
    rw [Build.bind_error herror]
    exact .error h hc

theorem newStageVariable_cases (s : StageDraft) (c : σ) (name : String) (type : ValueType)
    (kind : VariableKind) :
    (∃ v r, s.resources.Makes v r ∧ v.name = name ∧ v.type = type ∧ v.scope = .stage s.kind ∧
      v.kind = kind ∧ newStageVariable name type kind (s, c) = .ok v (s.withResources r, c)) ∨
      ∃ e, newStageVariable name type kind (s, c) = .error e (s, c) := by
  unfold newStageVariable
  rw [Build.draft_bind, Build.onResources,
    Build.on_apply]
  rcases Resources.makeNamed_cases s.resources c name type (.stage s.kind) kind with
    ⟨v, r, hmake, hname, htype, hscope, hkind, h⟩ | ⟨e, h⟩
  · exact .inl ⟨v, r, hmake, hname, htype, hscope, hkind, by rw [h]; rfl⟩
  · exact .inr ⟨e, by rw [h]⟩

theorem traced_declareAttribute (name : String) (type : ValueType) (kind : VariableKind) :
    Traced C R (declareAttribute name type kind)
      (fun R' v ↦ v ∈ R'.vars ∧ v.name = name ∧ v.type = type) := by
  intro R₁ hR s c hs hc
  refine follows_expectStage_bind (.refl _ _) hc ?_
  intro hstage
  rw [Build.draft_bind]
  cases hfind : s.attributes.find? (·.name == name) with
  | some v =>
    by_cases hmatch : v.type = type ∧ v.kind = kind
    · simp only [if_pos hmatch]
      have hname : v.name = name := by simpa using List.find?_some hfind
      have hmem := List.mem_of_find?_eq_some hfind
      exact .ok (.refl _ _) hc ⟨hs.tables v (by simp [hmem]), hname, hmatch.1⟩
    · simp only [if_neg hmatch]
      exact .error (.refl _ _) hc
  | none =>
    rcases newStageVariable_cases s c name type kind with
      ⟨v, r, hmake, hname, htype, hscope, hkind, h⟩ | ⟨e, h⟩
    · simp only [Build.bind_ok h]
      refine .ok (.stageAttribute hstage hmake hscope fun w hw ↦ ?_)
        (C.mono (Registry.le_addVariable R₁ v) hc) ⟨Registry.mem_addVariable R₁ v, hname, htype⟩
      simpa [hname] using List.find?_eq_none.mp hfind w hw
    · simp only [Build.bind_error h]
      exact .error (.refl _ _) hc

theorem traced_declareOutput (name : String) (type : ValueType) :
    Traced C R (declareOutput name type)
      (fun R' v ↦ v ∈ R'.vars ∧ v.name = name ∧ v.type = type) := by
  intro R₁ hR s c hs hc
  refine follows_expectStage_bind (.refl _ _) hc ?_
  intro hstage
  rcases newStageVariable_cases s c name type .fragmentOutput with
    ⟨v, r, hmake, hname, htype, hscope, hkind, h⟩ | ⟨e, h⟩
  · rw [Build.bind_ok h]
    exact .ok (.stageOutput hstage hmake hscope hkind)
      (C.mono (Registry.le_addVariable R₁ v) hc) ⟨Registry.mem_addVariable R₁ v, hname, htype⟩
  · rw [Build.bind_error h]
    exact .error (.refl _ _) hc

theorem traced_declareBuiltin (b : BuiltIn) :
    Traced C R (declareBuiltin b) (fun R' v ↦ v ∈ R'.vars) := by
  intro R₁ hR s c hs hc
  refine follows_expectStage_bind (.refl _ _) hc ?_
  intro hstage
  rw [Build.draft_bind]
  cases hfind : s.builtins.find? (·.kind == .builtIn b) with
  | some v =>
    have hmem := List.mem_of_find?_eq_some hfind
    exact .ok (.refl _ _) hc (hs.tables v (by simp [hmem]))
  | none =>
    rcases newStageVariable_cases s c b.name b.type (.builtIn b) with
      ⟨v, r, hmake, hname, htype, hscope, hkind, h⟩ | ⟨e, h⟩
    · simp only [Build.bind_ok h]
      refine .ok (.stageBuiltin b hstage hmake hscope hkind hname htype fun w hw ↦ ?_)
        (C.mono (Registry.le_addVariable R₁ v) hc) (Registry.mem_addVariable R₁ v)
      simpa using List.find?_eq_none.mp hfind w hw
    · simp only [Build.bind_error h]
      exact .error (.refl _ _) hc

theorem traced_declareUniform (name : String) (type : ValueType) :
    Traced C R (declareUniform name type)
      (fun R' v ↦ v ∈ R'.vars ∧ v.name = name ∧ v.type = type) :=
  (Resources.traced_declareUniform name type).onResources

theorem traced_declareInterStage (name : String) (type : ValueType) :
    Traced C R (declareInterStage name type)
      (fun R' v ↦ v ∈ R'.vars ∧ v.name = name ∧ v.type = type) :=
  (Resources.traced_declareInterStage name type).onResources

end StageDraft

end ShaderGraph
