import ShaderGraph.Proofs.Draft.Nesting

/-!
# Constructions that are not rejected

What a construction gives is as expected, or it is rejected for a reason that is
allowed. Declarations are rejected for names that are taken already, unless they
are made in the wrong stage; what they give is visible wherever they are made,
since the tables hold variables of the program and of the stage only.
-/

namespace ShaderGraph

variable {σ S T α β : Type} {E : BuildError → Prop}

/-- From a draft on, a construction gives what is expected or is rejected for an allowed reason,
whatever its client has got. -/
def Build.Yields (E : BuildError → Prop) (x : Build σ S α) (s : S) (Q : α → S → Prop) : Prop :=
  ∀ c, match x (s, c) with
    | .ok a (s', _) => Q a s'
    | .error e _ => E e

namespace Build.Yields

variable {s : S} {x : Build σ S α} {P : α → S → Prop} {Q : β → S → Prop}

theorem of_ok {s' : S} {a : α} (h : ∀ c, x (s, c) = .ok a (s', c)) (ha : P a s') :
    x.Yields E s P := by
  intro c
  rw [h]
  exact ha

theorem of_error {e : BuildError} (h : ∀ c, x (s, c) = .error e (s, c)) (he : E e) :
    x.Yields E s P := by
  intro c
  rw [h]
  exact he

theorem mono {P' : α → S → Prop} (h : x.Yields E s P) (hP : ∀ a s', P a s' → P' a s') :
    x.Yields E s P' := by
  intro c
  have hc := h c
  rcases hx : x (s, c) with ⟨a, s', c'⟩ | ⟨e, s', c'⟩ <;> rw [hx] at hc
  · exact hP a s' hc
  · exact hc

theorem bind {f : α → Build σ S β} (hx : x.Yields E s P)
    (hf : ∀ a s', P a s' → (f a).Yields E s' Q) : (x >>= f).Yields E s Q := by
  intro c
  have hc := hx c
  rcases h : x (s, c) with ⟨a, s', c'⟩ | ⟨e, s', c'⟩ <;> rw [h] at hc
  · rw [Build.bind_ok h]
    exact hf a s' hc c'
  · rw [Build.bind_error h]
    exact hc

theorem pure {a : α} (h : P a s) : (Pure.pure a : Build σ S α).Yields E s P := fun _ ↦ h

theorem throw {e : BuildError} (h : E e) : (throw e : Build σ S α).Yields E s P := fun _ ↦ h

theorem change {f : S → S} {P : Unit → S → Prop} (h : P () (f s)) :
    (Build.change f : Build σ S Unit).Yields E s P :=
  fun _ ↦ h

theorem draft_bind {f : S → Build σ S β} (h : (f s).Yields E s Q) :
    (Build.draft >>= f).Yields E s Q :=
  h

theorem ofExcept_bind {r : Except BuildError α} {f : α → Build σ S β} {a : α} (hr : r = .ok a)
    (hf : (f a).Yields E s Q) : (Build.ofExcept r >>= f).Yields E s Q := by
  subst hr
  exact hf

theorem ofExcept_bind_error {r : Except BuildError α} {f : α → Build σ S β} {e : BuildError}
    (hr : r = .error e) (he : E e) : (Build.ofExcept r >>= f).Yields E s Q := by
  subst hr
  exact throw he

theorem via {into : S → T} {back : S → T → S} {x : Build σ T α} {P : α × T → S → Prop}
    (h : x.Yields E (into s) fun a t ↦ P (a, t) (back s t)) :
    (Build.via into back x).Yields E s P := by
  intro c
  have hc := h c
  rcases hx : x (into s, c) with ⟨a, t, c'⟩ | ⟨e, t, c'⟩ <;> rw [hx] at hc
  · rw [Build.via_eq_ok.mpr ⟨hx, rfl⟩]
    exact hc
  · rw [Build.via_eq_error.mpr ⟨t, hx, rfl⟩]
    exact hc

theorem on {part : S → T} {set : S → T → S} {x : Build σ T α} {P : α → S → Prop}
    (h : x.Yields E (part s) fun a t ↦ P a (set s t)) : (Build.on part set x).Yields E s P := by
  rw [Build.on, map_eq_pure_bind]
  exact (via (P := fun y s' ↦ P y.1 s') h).bind fun _ _ h ↦ .pure h

end Build.Yields

/-- What is in the tables belongs to the program. An armature that is there has enough room. -/
structure Resources.Tidy (bones : Nat) (r : Resources) : Prop where
  uniforms : ∀ v ∈ r.uniforms, v.scope = .program
  interStage : ∀ v ∈ r.interStage, v.scope = .program ∧ v.kind = .interStage
  armature : ∀ data ∈ r.armature, bones ≤ data.maxBones ∧ data.joints.scope = .program ∧
    data.joints.type = ArmatureData.uniformType data.maxBones
  morphWeights : ∀ data ∈ r.morphWeights, ∀ v ∈ [data.weightsA, data.weightsB],
    v.scope = .program ∧ v.type = MorphWeightData.uniformType

/-- Resources that others become. Numbers of variables only go up. -/
structure Resources.Onward (bones : Nat) (r r' : Resources) : Prop where
  tidy : r'.Tidy bones
  count : r.variableCount ≤ r'.variableCount

namespace Resources

variable {bones : Nat} {r r' r'' : Resources}

theorem tidy_empty (bones : Nat) : empty.Tidy bones where
  uniforms _ h := (List.not_mem_nil h).elim
  interStage _ h := (List.not_mem_nil h).elim
  armature _ h := (Option.some_ne_none _ h.symm).elim
  morphWeights _ h := (Option.some_ne_none _ h.symm).elim

theorem Tidy.names (h : r.Tidy bones) (q : NamePool) : { r with names := q }.Tidy bones :=
  ⟨h.uniforms, h.interStage, h.armature, h.morphWeights⟩

theorem Tidy.counts (h : r.Tidy bones) (q : NamePool) (n : Nat) :
    { r with names := q, variableCount := n }.Tidy bones :=
  ⟨h.uniforms, h.interStage, h.armature, h.morphWeights⟩

theorem Tidy.newScope (h : r.Tidy bones) (n : Nat) : { r with scopeCount := n }.Tidy bones :=
  ⟨h.uniforms, h.interStage, h.armature, h.morphWeights⟩

theorem Tidy.onward (h : r.Tidy bones) : r.Onward bones r := ⟨h, Nat.le_refl _⟩

theorem Onward.trans (h : r.Onward bones r') (h' : r'.Onward bones r'') : r.Onward bones r'' :=
  ⟨h'.tidy, h.count.trans h'.count⟩

theorem yields_freshName (hr : r.Tidy bones) (stem : String) :
    (freshName stem : Build σ Resources String).Yields E r fun _ r' ↦
      r'.Tidy bones ∧ r'.variableCount = r.variableCount :=
  .of_ok (fun _ ↦ rfl) ⟨hr.names _, rfl⟩

theorem yields_newVariable (hr : r.Tidy bones) (name : String) (type : ValueType)
    (scope : ScopeId) (kind : VariableKind) :
    (newVariable name type scope kind : Build σ Resources Variable).Yields E r fun v r' ↦
      r'.Tidy bones ∧ (v.type = type ∧ v.scope = scope ∧ v.kind = kind) ∧
        v.id = r.variableCount ∧ r'.variableCount = v.id + 1 :=
  .of_ok (fun _ ↦ rfl) ⟨hr.counts _ _, ⟨rfl, rfl, rfl⟩, rfl, rfl⟩

section Named

variable (hE : ∀ name, E (.nameTaken name))
include hE

theorem yields_reserveName (hr : r.Tidy bones) (name : String) :
    (reserveName name : Build σ Resources Unit).Yields E r fun _ r' ↦
      r'.Tidy bones ∧ r'.variableCount = r.variableCount := by
  cases h : r.names.reserve name with
  | ok q =>
    have hreserve (c : σ) : reserveName name (r, c) = .ok () ({ r with names := q }, c) := by
      simp only [reserveName, h]
    exact .of_ok hreserve ⟨hr.names q, rfl⟩
  | error e =>
    have hreserve (c : σ) : reserveName name (r, c) = .error e (r, c) := by
      simp only [reserveName, h]
    refine .of_error hreserve ?_
    unfold NamePool.reserve at h
    split at h
    · cases h
      exact hE name
    · cases h

theorem yields_makeNamed (hr : r.Tidy bones) (name : String) (type : ValueType)
    (scope : ScopeId) (kind : VariableKind) :
    (do reserveName name; newVariable name type scope kind : Build σ Resources Variable).Yields E r
      fun v r' ↦ r'.Tidy bones ∧ (v.type = type ∧ v.scope = scope ∧ v.kind = kind) ∧
        v.id = r.variableCount ∧ r'.variableCount = v.id + 1 := by
  refine (yields_reserveName hE hr name).bind fun _ r₁ h₁ ↦ ?_
  exact h₁.2 ▸ yields_newVariable h₁.1 name type scope kind

/-- What is there already has the property that new variables of the kind have. -/
theorem yields_lookupOrDeclare (hr : r.Tidy bones) {known : List Variable}
    {add : Variable → Resources → Resources} {kind : VariableKind} {P : Variable → Prop}
    (hknown : ∀ v ∈ known, P v) (hnew : ∀ v, v.scope = .program → v.kind = kind → P v)
    (hadd : ∀ v r', P v → r'.Tidy bones →
      (add v r').Tidy bones ∧ (add v r').variableCount = r'.variableCount)
    (name : String) (type : ValueType) :
    (lookupOrDeclare known add kind name type : Build σ Resources Variable).Yields E r fun v r' ↦
      r.Onward bones r' ∧ v.type = type ∧ P v := by
  unfold lookupOrDeclare
  split
  · next v hfind =>
    have hv := hknown v (List.mem_of_find?_eq_some hfind)
    split
    · next htype => exact .pure ⟨hr.onward, htype, hv⟩
    · exact .throw (hE name)
  · refine (yields_reserveName hE hr name).bind fun _ r₁ h₁ ↦ ?_
    refine (yields_newVariable h₁.1 name type .program kind).bind fun v r₂ h₂ ↦ ?_
    obtain ⟨htidy, ⟨htype, hscope, hkind⟩, hid, hcount⟩ := h₂
    have hv := hnew v hscope hkind
    obtain ⟨htidy, hadded⟩ := hadd v r₂ hv htidy
    refine Build.Yields.bind (.change ⟨htidy, ?_⟩) fun _ r₃ h₃ ↦ .pure ⟨h₃, htype, hv⟩
    omega

theorem yields_declareUniform (hr : r.Tidy bones) (name : String) (type : ValueType) :
    (declareUniform name type : Build σ Resources Variable).Yields E r fun v r' ↦
      r.Onward bones r' ∧ v.type = type ∧ v.scope = .program := by
  refine yields_lookupOrDeclare hE hr hr.uniforms (fun v hscope _ ↦ hscope) ?_ name type
  intro v r' hv hr'
  refine ⟨⟨fun w hw ↦ ?_, hr'.interStage, hr'.armature, hr'.morphWeights⟩, rfl⟩
  rcases List.mem_append.mp hw with hw | hw
  · exact hr'.uniforms w hw
  · exact List.mem_singleton.mp hw ▸ hv

theorem yields_declareInterStage (hr : r.Tidy bones) (name : String) (type : ValueType) :
    (declareInterStage name type : Build σ Resources Variable).Yields E r fun v r' ↦
      r.Onward bones r' ∧ v.type = type ∧ v.scope = .program ∧ v.kind = .interStage := by
  refine yields_lookupOrDeclare hE hr hr.interStage (fun v hscope hkind ↦ ⟨hscope, hkind⟩) ?_
    name type
  intro v r' hv hr'
  refine ⟨⟨hr'.uniforms, fun w hw ↦ ?_, hr'.armature, hr'.morphWeights⟩, rfl⟩
  rcases List.mem_append.mp hw with hw | hw
  · exact hr'.interStage w hw
  · exact List.mem_singleton.mp hw ▸ hv

/-- An armature always has room for the bones that all resources here have room for. -/
theorem yields_declareArmature (hr : r.Tidy bones) :
    (declareArmature bones : Build σ Resources ArmatureData).Yields E r fun data r' ↦
      r.Onward bones r' ∧ data.joints.scope = .program ∧
        data.joints.type = ArmatureData.uniformType data.maxBones := by
  refine Build.Yields.draft_bind ?_
  cases hdata : r.armature with
  | some data =>
    obtain ⟨hroom, hjoints⟩ := hr.armature data hdata
    have hroom : ¬data.maxBones < bones := by omega
    simp only [if_neg hroom]
    exact .pure ⟨hr.onward, hjoints⟩
  | none =>
    refine (yields_declareUniform hE hr _ _).bind fun joints r₁ h₁ ↦ ?_
    obtain ⟨hon, htype, hscope⟩ := h₁
    refine Build.Yields.bind (P := fun _ r' ↦ r.Onward bones r')
      (.change ⟨⟨hon.tidy.uniforms, hon.tidy.interStage, ?_, hon.tidy.morphWeights⟩, hon.count⟩)
      fun _ r₂ h₂ ↦ .pure ⟨h₂, hscope, htype⟩
    intro data hdata
    obtain rfl := Option.some.inj hdata
    exact ⟨Nat.le_refl bones, hscope, htype⟩

theorem yields_declareMorphWeights (hr : r.Tidy bones) :
    (declareMorphWeights : Build σ Resources MorphWeightData).Yields E r fun data r' ↦
      r.Onward bones r' ∧ ∀ v ∈ [data.weightsA, data.weightsB],
        v.scope = .program ∧ v.type = MorphWeightData.uniformType := by
  refine Build.Yields.draft_bind ?_
  cases hdata : r.morphWeights with
  | some data => exact .pure ⟨hr.onward, hr.morphWeights data hdata⟩
  | none =>
    refine (yields_declareUniform hE hr _ _).bind fun a r₁ ha ↦ ?_
    refine (yields_declareUniform hE ha.1.tidy _ _).bind fun b r₂ hb ↦ ?_
    have hon := ha.1.trans hb.1
    have hweights : ∀ v ∈ [a, b], v.scope = .program ∧ v.type = MorphWeightData.uniformType := by
      simp only [List.forall_mem_cons]
      exact ⟨⟨ha.2.2, ha.2.1⟩, ⟨hb.2.2, hb.2.1⟩, List.forall_mem_nil _⟩
    refine Build.Yields.bind (P := fun _ r' ↦ r.Onward bones r')
      (.change ⟨⟨hon.tidy.uniforms, hon.tidy.interStage, hon.tidy.armature, ?_⟩, hon.count⟩)
      fun _ r₃ h₃ ↦ .pure ⟨h₃, hweights⟩
    intro data hdata
    obtain rfl := Option.some.inj hdata
    exact hweights

end Named

end Resources

/-! ## Stages -/

/-- What is in the tables of a stage belongs to the stage. -/
structure StageDraft.Tidy (bones : Nat) (s : StageDraft) : Prop where
  resources : s.resources.Tidy bones
  attributes : ∀ v ∈ s.attributes, v.scope = .stage s.kind
  builtins : ∀ v ∈ s.builtins, v.scope = .stage s.kind ∧ ∀ b, v.kind = .builtIn b → v.type = b.type

/-- A stage that another one becomes while the current scope stays what it is. -/
structure StageDraft.Onward (bones : Nat) (s s' : StageDraft) : Prop where
  tidy : s'.Tidy bones
  kind : s'.kind = s.kind
  frames : s'.frames = s.frames
  main : s'.main = s.main
  count : s.resources.variableCount ≤ s'.resources.variableCount

namespace StageDraft

variable {bones : Nat} {s s' s'' : StageDraft}

theorem Tidy.onward (h : s.Tidy bones) : s.Onward bones s := ⟨h, rfl, rfl, rfl, Nat.le_refl _⟩

theorem Onward.trans (h : s.Onward bones s') (h' : s'.Onward bones s'') : s.Onward bones s'' :=
  ⟨h'.tidy, h'.kind.trans h.kind, h'.frames.trans h.frames, h'.main.trans h.main,
    h.count.trans h'.count⟩

theorem Tidy.withResources (h : s.Tidy bones) {r : Resources} (hr : s.resources.Onward bones r) :
    s.Onward bones (s.withResources r) :=
  ⟨⟨hr.tidy, h.attributes, h.builtins⟩, rfl, rfl, rfl, hr.count⟩

theorem yields_onResources (hs : s.Tidy bones) {x : Build σ Resources α} {P : α → Prop}
    (hx : x.Yields E s.resources fun a r ↦ s.resources.Onward bones r ∧ P a) :
    (Build.onResources x).Yields E s fun a s' ↦ s.Onward bones s' ∧ P a :=
  .on (hx.mono fun _ _ h ↦ ⟨hs.withResources h.1, h.2⟩)

theorem yields_expectStage {item : String} {required : StageKind} (hkind : s.kind = required) :
    (expectStage item required : Build σ StageDraft Unit).Yields E s fun _ s' ↦ s' = s := by
  refine Build.Yields.draft_bind ?_
  rw [if_pos hkind]
  exact .pure rfl

section Named

variable (hE : ∀ name, E (.nameTaken name))
include hE

theorem yields_declareUniform (hs : s.Tidy bones) (name : String) (type : ValueType) :
    (declareUniform name type : Build σ StageDraft Variable).Yields E s fun v s' ↦
      s.Onward bones s' ∧ v.type = type ∧ v.scope = .program :=
  yields_onResources hs (Resources.yields_declareUniform hE hs.resources name type)

theorem yields_declareInterStage (hs : s.Tidy bones) (name : String) (type : ValueType) :
    (declareInterStage name type : Build σ StageDraft Variable).Yields E s fun v s' ↦
      s.Onward bones s' ∧ v.type = type ∧ v.scope = .program ∧ v.kind = .interStage :=
  yields_onResources hs (Resources.yields_declareInterStage hE hs.resources name type)

theorem yields_newStageVariable (hs : s.Tidy bones) (name : String) (type : ValueType)
    (kind : VariableKind) :
    (newStageVariable name type kind : Build σ StageDraft Variable).Yields E s fun v s' ↦
      s.Onward bones s' ∧ v.type = type ∧ v.scope = .stage s.kind ∧ v.kind = kind := by
  refine Build.Yields.draft_bind (.on ?_)
  refine (Resources.yields_makeNamed hE hs.resources name type _ kind).mono fun v r h ↦ ?_
  obtain ⟨htidy, hv, hid, hcount⟩ := h
  exact ⟨hs.withResources ⟨htidy, by omega⟩, hv⟩

theorem yields_declareAttribute (hs : s.Tidy bones) (hkind : s.kind = .vertex) (name : String)
    (type : ValueType) (kind : VariableKind) :
    (declareAttribute name type kind : Build σ StageDraft Variable).Yields E s fun v s' ↦
      s.Onward bones s' ∧ v.type = type ∧ v.scope = .stage s.kind := by
  refine (yields_expectStage hkind).bind fun _ s₁ h₁ ↦ ?_
  subst h₁
  refine Build.Yields.draft_bind ?_
  split
  · next v hfind =>
    split
    · next h =>
      exact .pure ⟨hs.onward, h.1, hs.attributes v (List.mem_of_find?_eq_some hfind)⟩
    · exact .throw (hE name)
  · refine (yields_newStageVariable hE hs name type kind).bind fun v s₂ h₂ ↦ ?_
    obtain ⟨hon, htype, hscope, -⟩ := h₂
    refine Build.Yields.bind (P := fun _ s' ↦ s₁.Onward bones s')
      (.change ⟨⟨hon.tidy.resources, fun w hw ↦ ?_, hon.tidy.builtins⟩, hon.kind, hon.frames,
        hon.main, hon.count⟩) fun _ s₃ h₃ ↦ .pure ⟨h₃, htype, hscope⟩
    rcases List.mem_append.mp hw with hw | hw
    · exact hon.tidy.attributes w hw
    · rw [List.mem_singleton.mp hw, hscope]
      exact congrArg _ hon.kind.symm

theorem yields_declareOutput (hs : s.Tidy bones) (hkind : s.kind = .fragment) (name : String)
    (type : ValueType) :
    (declareOutput name type : Build σ StageDraft Variable).Yields E s fun v s' ↦
      s.Onward bones s' ∧ v.type = type ∧ v.scope = .stage s.kind ∧ v.kind = .fragmentOutput := by
  refine (yields_expectStage hkind).bind fun _ s₁ h₁ ↦ ?_
  subst h₁
  refine (yields_newStageVariable hE hs name type .fragmentOutput).bind fun v s₂ h₂ ↦ ?_
  obtain ⟨hon, hv⟩ := h₂
  refine Build.Yields.bind (P := fun _ s' ↦ s₁.Onward bones s')
    (.change ⟨⟨hon.tidy.resources, hon.tidy.attributes, hon.tidy.builtins⟩, hon.kind, hon.frames,
      hon.main, hon.count⟩) fun _ s₃ h₃ ↦ .pure ⟨h₃, hv⟩

theorem yields_declareBuiltin (hs : s.Tidy bones) (b : BuiltIn) (hkind : s.kind = b.stage) :
    (declareBuiltin b : Build σ StageDraft Variable).Yields E s fun v s' ↦
      s.Onward bones s' ∧ v.type = b.type ∧ v.scope = .stage s.kind ∧ v.kind = .builtIn b := by
  refine (yields_expectStage hkind).bind fun _ s₁ h₁ ↦ ?_
  subst h₁
  refine Build.Yields.draft_bind ?_
  split
  · next v hfind =>
    have hbuiltin : v.kind = .builtIn b := by simpa using List.find?_some hfind
    obtain ⟨hscope, htype⟩ := hs.builtins v (List.mem_of_find?_eq_some hfind)
    exact .pure ⟨hs.onward, htype b hbuiltin, hscope, hbuiltin⟩
  · refine (yields_newStageVariable hE hs b.name b.type (.builtIn b)).bind fun v s₂ h₂ ↦ ?_
    obtain ⟨hon, htype, hscope, hbuiltin⟩ := h₂
    refine Build.Yields.bind (P := fun _ s' ↦ s₁.Onward bones s')
      (.change ⟨⟨hon.tidy.resources, hon.tidy.attributes, fun w hw ↦ ?_⟩, hon.kind, hon.frames,
        hon.main, hon.count⟩) fun _ s₃ h₃ ↦ .pure ⟨h₃, htype, hscope, hbuiltin⟩
    rcases List.mem_append.mp hw with hw | hw
    · exact hon.tidy.builtins w hw
    · obtain rfl := List.mem_singleton.mp hw
      refine ⟨hon.kind ▸ hscope, fun b' hb' ↦ ?_⟩
      rw [hbuiltin] at hb'
      cases hb'
      exact htype

end Named

end StageDraft

end ShaderGraph
