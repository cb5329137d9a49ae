import ShaderGraph.Proofs.Draft.Preservation

/-!
# Kinds and places

Outputs and built-ins are declared in the scope of the one stage that their
kind belongs to. An attribute may be given any kind, but is declared in the scope
of a vertex stage all the same. A stage has in its tables what is declared in its
own scope, and the bodies of its functions are scopes other than that.
-/

namespace ShaderGraph

/-- The stage that variables of a kind belong to. -/
def VariableKind.stage? : VariableKind → Option StageKind
  | vertexAttribute | instanceAttribute => some .vertex
  | fragmentOutput => some .fragment
  | builtIn which => some which.stage
  | localVar | uniform | interStage | argument | blockInput | blockOutput => none

/-- A variable of a kind that belongs to a stage is declared there, unless it is an attribute. -/
def Variable.Housed (v : Variable) : Prop :=
  v.scope = .stage .vertex ∨ ∀ k, v.kind.stage? = some k → v.scope = .stage k

/-- The tables of a stage have variables of its own scope, and its functions have scopes of their
own. -/
structure Stage.Housed (s : Stage) : Prop where
  attributes : ∀ v ∈ s.attributes, v.scope = .stage s.kind
  outputs : ∀ v ∈ s.outputs, v.scope = .stage s.kind
  builtins : ∀ v ∈ s.builtins, v.scope = .stage s.kind
  functions : ∀ f ∈ s.functions, 3 ≤ f.body.id.index
  main : ∀ f ∈ s.main, 3 ≤ f.body.id.index

theorem Stage.Housed.id_of_mem {s : Stage} (h : s.Housed) {f : Function}
    (hf : f ∈ s.functions ++ s.main.toList) : 3 ≤ f.body.id.index :=
  (List.mem_append.mp hf).elim (h.functions f) fun hf ↦ h.main f (Option.mem_toList.mp hf)

/-- The scopes around the statements of a function come after those of programs and stages. -/
theorem WellScoped.inner {V : List Variable} {k : StageKind} {id : ScopeId} {ss : List Stmt}
    {path : List ScopeId} {t : Stmt} (h : WellScoped V k [id] ss) (hid : 3 ≤ id.index)
    (ht : Nested ss path t) : ∀ i ∈ path ++ [id], 3 ≤ i.index := by
  intro i hi
  rcases List.mem_append.mp hi with hi | hi
  · obtain ⟨r, hr, rfl⟩ := ht.exists_holds_of_mem hi
    exact (h.fresh hr).1
  · exact List.mem_singleton.mp hi ▸ hid

theorem ScopeId.stage_injective {k k' : StageKind} (h : ScopeId.stage k = .stage k') : k = k' := by
  cases k <;> cases k' <;> first | rfl | cases h

/-- From within functions, no variable in the scope of the other stage is in reach. -/
theorem Variable.InReach.stage_eq {v : Variable} {k k' : StageKind} {chain : List ScopeId}
    (h : v.InReach k chain) (hchain : ∀ i ∈ chain, 3 ≤ i.index) (hscope : v.scope = .stage k') :
    k' = k := by
  rcases h with hprogram | hstage | hmem
  · rw [hscope] at hprogram
    cases k' <;> cases hprogram
  · exact ScopeId.stage_injective (hscope.symm.trans hstage)
  · have hlow := hchain v.scope hmem
    rw [hscope] at hlow
    exact absurd hlow (Nat.not_le_of_lt (ScopeId.stage_lt k'))

def Draft.Housed : Draft → Prop
  | .program p => ∀ s ∈ p.stages, s.Housed
  | .resources _ => True
  | .stage s => s.finish.Housed
  | .scope s => s.stage.finish.Housed
  | .block b => b.scope.stage.finish.Housed

theorem Stage.housed_start (kind : StageKind) (r : Resources) :
    (StageDraft.start kind r).finish.Housed where
  attributes v hv := by cases hv
  outputs v hv := by cases hv
  builtins v hv := by cases hv
  functions f hf := by cases hf
  main f hf := by cases hf

namespace Variable.Housed

variable {v : Variable}

theorem of_stage?_eq_none (h : v.kind.stage? = none) : v.Housed := by
  refine .inr fun k hk ↦ ?_
  rw [h] at hk
  cases hk

end Variable.Housed

namespace Registry

/-- All variables that were made are where their kind belongs. -/
def Housed (R : Registry) : Prop := ∀ v ∈ R.vars, v.Housed

theorem Housed.addVariable {R : Registry} {v : Variable} (hR : R.Housed) (hv : v.Housed) :
    (R.addVariable v).Housed := by
  intro w hw
  rcases List.mem_append.mp hw with hw | hw
  · exact hR w hw
  · exact List.mem_singleton.mp hw ▸ hv

end Registry

theorem Arguments.housed {types : List ValueType} {R R' : Registry} {s s' : ScopeDraft}
    {vs : List Variable} (h : Arguments types R s vs R' s') (hR : R.Housed) : R'.Housed := by
  induction h with
  | nil => exact hR
  | cons _ _ hkind _ ih => exact ih (hR.addVariable (.of_stage?_eq_none (by rw [hkind]; rfl)))

theorem Arguments.stage_housed {types : List ValueType} {R R' : Registry} {s s' : ScopeDraft}
    {vs : List Variable} (h : Arguments types R s vs R' s') (hs : s.stage.finish.Housed) :
    s'.stage.finish.Housed := by
  rw [h.finish_eq]
  exact hs

/-- Entries of a table that were there and a new one. -/
theorem housed_concat {k : StageKind} {vs : List Variable} {v : Variable}
    (h : ∀ w ∈ vs, w.scope = .stage k) (hv : v.scope = .stage k) :
    ∀ w ∈ vs ++ [v], w.scope = .stage k := by
  intro w hw
  rcases List.mem_append.mp hw with hw | hw
  · exact h w hw
  · exact List.mem_singleton.mp hw ▸ hv

/-- Whatever is done, the tables of all stages have what belongs there. -/
theorem Evolves.housed {R R' : Registry} {d d' : Draft} (h : Evolves R d R' d') (hd : d.Housed) :
    d'.Housed := by
  induction h with
  | refl | add | declare | declareUnseen | blockInput | blockOutput => exact hd
  | trans _ _ ih₁ ih₂ => exact ih₂ (ih₁ hd)
  | name | uniform | interStage | armature | morphWeights => trivial
  | programResources | stageResources | abandonedStage => exact hd
  | scopeStage _ ih | blockScope _ ih | branch _ _ _ _ ih | loopFor _ _ _ _ _ _ _ _ _ _ ih
  | loopWhile _ _ _ _ ih | block _ _ _ _ ih | abandoned _ ih | abandonedLoop _ _ _ _ ih
  | abandonedBlock _ _ ih => exact ih hd
  | elseIf _ _ _ _ ih | otherwise _ _ ih =>
    simp only [Draft.Housed, ScopeDraft.extendConditional]
    split <;> exact ih hd
  | stageAttribute _ _ hscope =>
    exact { hd with attributes := housed_concat hd.attributes hscope }
  | stageOutput _ _ hscope =>
    exact { hd with outputs := housed_concat hd.outputs hscope }
  | stageBuiltin _ _ _ hscope =>
    exact { hd with builtins := housed_concat hd.builtins hscope }
  | @function _ _ _ s name q _ result _ start body _ _ hargs hbody _ _ _ ih =>
    have hafter : body.stage.finish.Housed := ih (hargs.stage_housed hd)
    refine { hafter with functions := fun f hf ↦ ?_ }
    rcases List.mem_append.mp hf with hf | hf
    · exact hafter.functions f hf
    · obtain rfl := List.mem_singleton.mp hf
      have hid := ScopeDraft.Extends.id_of_opened (hargs.extends.2.trans hbody.extends.2)
      exact hid ▸ Nat.le_add_right 3 _
  | @main _ _ s body _ hbody _ ih =>
    have hafter : body.stage.finish.Housed := ih hd
    refine { hafter with main := fun f hf ↦ ?_ }
    obtain rfl := Option.some.inj hf
    have hid := ScopeDraft.Extends.id_of_opened hbody.extends.2
    exact hid ▸ Nat.le_add_right 3 _
  | abandonedFunction hargs _ ih => exact ih (hargs.stage_housed hd)
  | @finished _ _ p kind s _ _ ih =>
    intro t ht
    rcases Program.mem_stages_setStage ht with rfl | ht
    · exact ih (Stage.housed_start kind p.resources)
    · exact hd t ht

end ShaderGraph
