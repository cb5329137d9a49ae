import ShaderGraph.Proofs.Draft.Tracing

/-!
# Following the declarations of resources

A declaration of something new takes a name and makes a variable, which is then
put into its table. What is there already is given back, and is in the registry
since the tables fit it. Rejected declarations change nothing.
-/

namespace ShaderGraph

variable {σ : Type}

theorem NamePool.Gives.makes {r : Resources} {name : String} {q : NamePool}
    (h : r.names.Gives name q) (type : ValueType) (scope : ScopeId) (kind : VariableKind) :
    r.Makes ⟨r.variableCount, name, type, scope, kind⟩
      { r with names := q, variableCount := r.variableCount + 1 } :=
  ⟨h, rfl, rfl⟩

def DataBlock.vars : DataBlock → List Variable
  | .armature data => [data.joints]
  | .morphWeights data => [data.weightsA, data.weightsB]

theorem Expr.Known.weight {R : Registry} {data : MorphWeightData} {i : Nat} {e : Expr}
    (ha : data.weightsA ∈ R.vars) (hb : data.weightsB ∈ R.vars)
    (h : data.weight i = .ok e) : e.Known R := by
  unfold MorphWeightData.weight at h
  split at h
  · cases h
  · refine .select (.var ?_) h
    split
    · exact ha
    · exact hb

namespace Resources

variable {r : Resources} {c : σ}

theorem reserveName_cases (r : Resources) (c : σ) (name : String) :
    (∃ q, r.names.Gives name q ∧ reserveName name (r, c) = .ok () ({ r with names := q }, c)) ∨
      ∃ e, reserveName name (r, c) = .error e (r, c) := by
  cases h : r.names.reserve name with
  | error e => exact .inr ⟨e, by simp [reserveName, h]⟩
  | ok q => exact .inl ⟨q, .inr h, by simp [reserveName, h]⟩

theorem freshName_spec (r : Resources) (c : σ) (stem : String) : ∃ name q,
    r.names.Gives name q ∧ freshName stem (r, c) = .ok name ({ r with names := q }, c) :=
  ⟨_, _, .inl ⟨stem, rfl⟩, rfl⟩

theorem takeName_cases (r : Resources) (c : σ) (wanted : Option String) (stem : String) :
    (∃ name q, r.names.Gives name q ∧
      takeName wanted stem (r, c) = .ok name ({ r with names := q }, c)) ∨
      ∃ e, takeName wanted stem (r, c) = .error e (r, c) := by
  cases wanted with
  | none => exact .inl (freshName_spec r c stem)
  | some name =>
    rcases reserveName_cases r c name with ⟨q, hq, h⟩ | ⟨e, h⟩
    · exact .inl ⟨name, q, hq, Build.bind_ok h⟩
    · exact .inr ⟨e, Build.bind_error h⟩

theorem makeNamed_cases (r : Resources) (c : σ) (name : String) (type : ValueType)
    (scope : ScopeId) (kind : VariableKind) :
    (∃ v r', r.Makes v r' ∧ v.name = name ∧ v.type = type ∧ v.scope = scope ∧ v.kind = kind ∧
      (do reserveName name; newVariable name type scope kind : Build σ Resources Variable) (r, c) =
        .ok v (r', c)) ∨
      ∃ e, (do reserveName name; newVariable name type scope kind : Build σ Resources Variable)
        (r, c) = .error e (r, c) := by
  rcases reserveName_cases r c name with ⟨q, hq, h⟩ | ⟨e, h⟩
  · exact .inl ⟨_, _, hq.makes type scope kind, rfl, rfl, rfl, rfl, Build.bind_ok h⟩
  · exact .inr ⟨e, Build.bind_error h⟩

/-- A declaration gives back what there is, makes a variable and adds it, or changes nothing. -/
theorem lookupOrDeclare_cases (r : Resources) (c : σ) (known : List Variable)
    (add : Variable → Resources → Resources) (kind : VariableKind) (name : String)
    (type : ValueType) :
    (∃ v ∈ known, v.name = name ∧ v.type = type ∧
      lookupOrDeclare known add kind name type (r, c) = .ok v (r, c)) ∨
    (∃ v r', r.Makes v r' ∧ v.name = name ∧ v.type = type ∧ v.scope = .program ∧ v.kind = kind ∧
      (∀ w ∈ known, w.name ≠ v.name) ∧
      lookupOrDeclare known add kind name type (r, c) = .ok v (add v r', c)) ∨
    ∃ e, lookupOrDeclare known add kind name type (r, c) = .error e (r, c) := by
  cases hfind : known.find? (·.name == name) with
  | some v =>
    have hact : lookupOrDeclare known add kind name type (r, c) =
        (if v.type = type then pure v else throw (.nameTaken name) : Build σ Resources Variable)
          (r, c) := by simp only [lookupOrDeclare, hfind]
    rw [hact]
    by_cases htype : v.type = type
    · have hname : v.name = name := by simpa using List.find?_some hfind
      exact .inl ⟨v, List.mem_of_find?_eq_some hfind, hname, htype, by rw [if_pos htype]; rfl⟩
    · exact .inr (.inr ⟨.nameTaken name, by rw [if_neg htype]; rfl⟩)
  | none =>
    have hact : lookupOrDeclare known add kind name type (r, c) =
        (do
          reserveName name
          let v ← newVariable name type .program kind
          Build.change (add v)
          return v : Build σ Resources Variable) (r, c) := by simp only [lookupOrDeclare, hfind]
    rw [hact]
    rcases reserveName_cases r c name with ⟨q, hq, h⟩ | ⟨e, h⟩
    · refine .inr (.inl ⟨_, _, hq.makes type .program kind, rfl, rfl, rfl, rfl, fun w hw ↦ ?_,
        Build.bind_ok h⟩)
      simpa using List.find?_eq_none.mp hfind w hw
    · exact .inr (.inr ⟨e, Build.bind_error h⟩)

/-- A uniform that was declared is in its table and the data blocks are as before. -/
theorem follows_declareUniform {C : Client σ} {R : Registry} (hr : R.Fits r) (hc : C.Knows R c)
    (name : String) (type : ValueType) :
    Follows C R (.resources r)
      (fun R' r' v ↦ v ∈ R'.vars ∧ v ∈ r'.uniforms ∧ v.name = name ∧ v.type = type ∧
        r'.armature = r.armature ∧ r'.morphWeights = r.morphWeights)
      (declareUniform name type (r, c)) := by
  change Follows C R _ _ (lookupOrDeclare _ _ _ _ _ (r, c))
  rcases lookupOrDeclare_cases r c r.uniforms
      (fun v r ↦ { r with uniforms := r.uniforms ++ [v] }) .uniform name type with
    ⟨v, hv, hname, htype, h⟩ | ⟨v, r', hmake, hname, htype, hscope, hkind, hnew, h⟩ | ⟨e, h⟩ <;>
    rw [h]
  · exact .ok (.refl _ _) hc ⟨hr.uniforms v hv, hv, hname, htype, rfl, rfl⟩
  · have hR := Registry.mem_addVariable R v
    refine .ok (.uniform hmake hscope hkind hnew) (C.mono (Registry.le_addVariable R v) hc)
      ⟨hR, List.mem_append_right _ List.mem_cons_self, hname, htype, ?_⟩
    rw [hmake.eq]
    exact ⟨rfl, rfl⟩
  · exact .error (.refl _ _) hc

variable {C : Client σ} {R : Registry}

theorem traced_declareUniform (name : String) (type : ValueType) :
    Traced C R (declareUniform name type)
      (fun R' v ↦ v ∈ R'.vars ∧ v.name = name ∧ v.type = type) := by
  intro R₁ hR r c hr hc
  exact (follows_declareUniform hr hc name type).mono
    fun R' r' v ⟨hv, _, hname, htype, _⟩ ↦ ⟨hv, hname, htype⟩

theorem traced_declareInterStage (name : String) (type : ValueType) :
    Traced C R (declareInterStage name type)
      (fun R' v ↦ v ∈ R'.vars ∧ v.name = name ∧ v.type = type) := by
  intro R₁ hR r c hr hc
  change Follows C R₁ _ _ (lookupOrDeclare _ _ _ _ _ (r, c))
  rcases lookupOrDeclare_cases r c r.interStage
      (fun v r ↦ { r with interStage := r.interStage ++ [v] }) .interStage name type with
    ⟨v, hv, hname, htype, h⟩ | ⟨v, r', hmake, hname, htype, hscope, hkind, hnew, h⟩ | ⟨e, h⟩ <;>
    rw [h]
  · exact .ok (.refl _ _) hc ⟨Registry.Fits.interStage hr v hv, hname, htype⟩
  · exact .ok (.interStage hmake hscope hkind hnew) (C.mono (Registry.le_addVariable R₁ v) hc)
      ⟨Registry.mem_addVariable R₁ v, hname, htype⟩
  · exact .error (.refl _ _) hc

theorem traced_declareArmature (maxBones : Nat) :
    Traced C R (declareArmature maxBones) (fun R' data ↦
      data.joints ∈ R'.vars ∧ data.joints.type = ArmatureData.uniformType data.maxBones) := by
  intro R₁ hR r c hr hc
  unfold declareArmature
  rw [Build.draft_bind]
  cases hdata : r.armature with
  | some data =>
    by_cases hroom : data.maxBones < maxBones
    · simp only [if_pos hroom]
      exact .error (.refl _ _) hc
    · simp only [if_neg hroom]
      exact .ok (.refl _ _) hc (Registry.Fits.armature hr data hdata)
  | none =>
    refine (follows_declareUniform hr hc _ _).bind ?_
    intro R' joints r' c' hev hc' hjoints
    obtain ⟨hmem, huniform, hname, htype, harmature, -⟩ := hjoints
    have hjoints : (ArmatureData.mk maxBones joints).joints ∈ r'.uniforms := huniform
    exact .ok (hev.trans (.armature (harmature.trans hdata) hjoints hname htype)) hc'
      ⟨hmem, htype⟩

theorem traced_declareMorphWeights : Traced C R declareMorphWeights
    (fun R' data ↦ ∀ v ∈ [data.weightsA, data.weightsB],
      v ∈ R'.vars ∧ v.type = MorphWeightData.uniformType) := by
  intro R₁ hR r c hr hc
  unfold declareMorphWeights
  rw [Build.draft_bind]
  cases hdata : r.morphWeights with
  | some data => exact .ok (.refl _ _) hc (Registry.Fits.morphWeights hr data hdata)
  | none =>
    refine (follows_declareUniform hr hc _ _).bind ?_
    intro R' a r' c' hev hc' ha
    obtain ⟨-, huniformA, hnameA, htypeA, -, hnoneA⟩ := ha
    refine Follows.after hev ?_
    refine (follows_declareUniform (hev.invariant hr) hc' _ _).bind ?_
    intro R'' b r'' c'' hev' hc'' hb
    obtain ⟨-, huniformB, hnameB, htypeB, -, hnoneB⟩ := hb
    have hregisters : ∀ v ∈ [(MorphWeightData.mk a b).weightsA, (MorphWeightData.mk a b).weightsB],
        v ∈ r''.uniforms ∧ v.type = MorphWeightData.uniformType := by
      intro v hv
      simp only [List.mem_cons, List.not_mem_nil, or_false] at hv
      rcases hv with rfl | rfl
      · exact ⟨hev'.extends.2.uniforms.subset huniformA, htypeA⟩
      · exact ⟨huniformB, htypeB⟩
    have hstep := Evolves.morphWeights (R := R'') (hnoneB.trans (hnoneA.trans hdata)) hregisters
      ⟨hnameA, hnameB⟩
    refine .ok (hev'.trans hstep) hc'' fun v hv ↦ ?_
    have hknown := (hev'.trans hstep).invariant (hev.invariant hr)
    exact ⟨Registry.Fits.uniforms hknown v (hregisters v hv).1, (hregisters v hv).2⟩

theorem traced_declareData (kind : DataKind) :
    Traced C R (declareData kind) (fun R' data ↦ ∀ v ∈ data.vars, v ∈ R'.vars) := by
  intro R₁ hR r c hr hc
  unfold declareData
  rw [Build.draft_bind]
  cases hdata : r.dataBlock? kind with
  | some data =>
    refine .ok (.refl _ _) hc ?_
    intro v hv
    cases kind with
    | armature =>
      obtain ⟨a, ha, rfl⟩ := Option.map_eq_some_iff.mp hdata
      exact List.mem_singleton.mp hv ▸ (Registry.Fits.armature hr a ha).1
    | morphWeights =>
      obtain ⟨a, ha, rfl⟩ := Option.map_eq_some_iff.mp hdata
      exact (Registry.Fits.morphWeights hr a ha v hv).1
  | none =>
    cases kind with
    | armature =>
      refine (Traced.bind (traced_declareArmature _) fun R' data _ h ↦
        .pure fun R'' hR'' v hv ↦ ?_) R₁ le_rfl r c hr hc
      exact List.mem_singleton.mp hv ▸ Registry.mem_vars hR'' h.1
    | morphWeights =>
      refine (Traced.bind traced_declareMorphWeights fun R' data _ h ↦
        .pure fun R'' hR'' v hv ↦ ?_) R₁ le_rfl r c hr hc
      exact Registry.mem_vars hR'' (h v hv).1

end Resources

end ShaderGraph
