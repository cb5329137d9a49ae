import ShaderGraph.Proofs.Draft.Kinds
import ShaderGraph.Proofs.Draft.Tables

/-!
# Where inter-stage values are

Only declarations make inter-stage values, and they put them into the table of
the program, where they stay. So all that there are can be found in the table,
but for attributes that are declared with their kind, which only a vertex stage
has in reach.
-/

namespace ShaderGraph

variable {R R' : Registry} {d d' : Draft} {v : Variable}

/-- The inter-stage values that are new in a registry are in a list, or in a vertex stage. -/
def Registry.LeadsTo (R R' : Registry) (table : List Variable) : Prop :=
  ∀ v ∈ R'.vars, v.kind = .interStage → v.scope ≠ .stage .vertex → v ∈ R.vars ∨ v ∈ table

namespace Registry.LeadsTo

variable {R₁ : Registry} {table : List Variable}

theorem refl (R : Registry) (table : List Variable) : R.LeadsTo R table := fun _ hv _ _ ↦ .inl hv

theorem trans {table₁ : List Variable} (h : R.LeadsTo R₁ table₁) (h' : R₁.LeadsTo R' table)
    (hsub : table₁ ⊆ table) : R.LeadsTo R' table := fun v hv hkind hscope ↦
  (h' v hv hkind hscope).elim (fun hv ↦ (h v hv hkind hscope).imp_right (hsub ·)) .inr

theorem addVariable (R : Registry) (h : v.kind = .interStage → v.scope = .stage .vertex)
    (table : List Variable) : R.LeadsTo (R.addVariable v) table := by
  intro w hw hkind hscope
  rcases List.mem_append.mp hw with hw | hw
  · exact .inl hw
  · obtain rfl := List.mem_singleton.mp hw
    exact absurd (h hkind) hscope

theorem after_addVariable (h : (R.addVariable v).LeadsTo R' table) (hv : v.kind ≠ .interStage) :
    R.LeadsTo R' table :=
  (addVariable R (absurd · hv) table).trans h (List.Subset.refl _)

end Registry.LeadsTo

theorem Arguments.leadsTo {types : List ValueType} {s s' : ScopeDraft} {vs : List Variable}
    (h : Arguments types R s vs R' s') (table : List Variable) : R.LeadsTo R' table := by
  induction h with
  | nil => exact .refl _ _
  | cons _ _ hkind _ ih => exact ih.after_addVariable (by rw [hkind]; decide)

/-- Whatever is done, the inter-stage values that were made are in the table. -/
theorem Evolves.leadsTo (h : Evolves R d R' d') : R.LeadsTo R' d'.tables.interStage := by
  induction h with
  | refl | name | armature | morphWeights | add => exact .refl _ _
  | trans _ h₂ ih₁ ih₂ => exact ih₁.trans ih₂ h₂.keeps.interStage.subset
  | interStage =>
    intro w hw _ _
    rcases List.mem_append.mp hw with hw | hw
    · exact .inl hw
    · exact .inr (List.mem_append_right _ hw)
  | uniform _ _ hkind | declare _ _ _ hkind | declareUnseen _ _ _ _ _ hkind
  | blockInput _ _ _ _ _ hkind | blockOutput _ _ _ hkind =>
    exact .addVariable _ (by rw [hkind]; exact nofun) _
  | stageAttribute hstage _ hscope =>
    exact .addVariable _ (fun _ ↦ hstage ▸ hscope) _
  | stageOutput _ _ _ hkind | stageBuiltin _ _ _ _ hkind =>
    exact .addVariable _ (by rw [hkind]; exact nofun) _
  | programResources _ ih | stageResources _ ih | scopeStage _ ih | blockScope _ ih
  | main _ _ _ ih | branch _ _ _ _ ih | loopWhile _ _ _ _ ih | block _ _ _ _ ih
  | abandoned _ ih | abandonedBlock _ _ ih | abandonedStage _ _ ih => exact ih
  | elseIf _ _ _ _ ih | otherwise _ _ ih =>
    simp only [Draft.tables, ScopeDraft.stage_extendConditional]
    exact ih
  | finished _ _ ih =>
    simp only [Draft.tables, Program.resources_setStage]
    exact ih
  | function _ hargs _ _ _ _ ih | abandonedFunction hargs _ ih =>
    exact (hargs.leadsTo _).trans ih (List.Subset.refl _)
  | loopFor _ _ _ hkind _ _ _ _ _ _ ih | abandonedLoop _ _ hkind _ ih =>
    exact ih.after_addVariable (by rw [hkind]; decide)

/-- All inter-stage values that a fragment stage can use are in the table of the program. -/
theorem Evolves.mem_interStage {signatures : Set Signature} {checked : Prop} {name : String}
    {p : Program} (h : Evolves (.start signatures checked) (.program (.new name)) R (.program p))
    (hv : v ∈ R.vars) (hkind : v.kind = .interStage) (hscope : v.scope ≠ .stage .vertex) :
    v ∈ p.resources.interStage :=
  (h.leadsTo v hv hkind hscope).resolve_left List.not_mem_nil

end ShaderGraph
