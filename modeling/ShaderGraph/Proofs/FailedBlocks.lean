import ShaderGraph.Proofs.Containment
import ShaderGraph.Proofs.Draft.Outputs
import ShaderGraph.Proofs.Rejection

/-!
# Outputs of failed blocks

The output of a block belongs to the scope around it from the moment that it is
made. So it may be used in all of that scope, whether the block succeeds or
not. What depends on this is only whether it is declared there: if the block
fails, no statement ever gives the output, and no scope ever declares it.
-/

namespace ShaderGraph

open Scripted

/-- A block statement somewhere in a stage has a variable as an output. -/
def Stage.Gives (stage : Stage) (v : Variable) : Prop :=
  ∃ f ∈ stage.definitions, ∃ path b, Nested f.body.statements path (.block b) ∧
    v ∈ b.outputs.map BlockOutput.slot

/-- A scope of a stage declares a variable. -/
def Stage.Declares (stage : Stage) (v : Variable) : Prop :=
  ∃ f ∈ stage.definitions, ∃ r, f.Has r ∧ v ∈ r.declared

theorem Nested.of_region {ss : List Stmt} {path rest : List ScopeId} {s t : Stmt} {r : Region}
    (hs : Nested ss path s) (hr : r ∈ s.regions) (ht : Nested r.statements rest t) :
    ∃ path', Nested ss path' t := by
  induction hs with
  | here hs => exact ⟨_, .inside hs hr ht⟩
  | inside hs hbody _ ih =>
    obtain ⟨path', ht'⟩ := ih hr
    exact ⟨_, .inside hs hbody ht'⟩

/-- What stands in the body of a function is a statement of one of its regions. -/
theorem Function.exists_nested_iff {f : Function} {t : Stmt} :
    (∃ path, Nested f.body.statements path t) ↔ ∃ r, f.Has r ∧ t ∈ r.statements := by
  have hregion {ss : List Stmt} {path : List ScopeId} (h : Nested ss path t) :
      t ∈ ss ∨ ∃ r, Holds ss r ∧ t ∈ r.statements := by
    induction h with
    | here hs => exact .inl hs
    | inside hs hbody _ ih =>
      rcases ih with ht | ⟨r, hr, ht⟩
      · exact .inr ⟨_, .of_mem hs hbody, ht⟩
      · exact .inr ⟨r, hr.inside hs hbody, ht⟩
  constructor
  · rintro ⟨path, h⟩
    rcases hregion h with ht | ⟨r, hr, ht⟩
    · exact ⟨f.body, .inl rfl, ht⟩
    · exact ⟨r, .inr hr, ht⟩
  · rintro ⟨r, rfl | ⟨path, s, hs, hr⟩, ht⟩
    · exact ⟨[], .here ht⟩
    · exact hs.of_region hr (.here ht)

theorem Region.mem_outputs {r : Region} {v : Variable} :
    v ∈ r.outputs ↔ ∃ b, Stmt.block b ∈ r.statements ∧ v ∈ b.outputs.map BlockOutput.slot := by
  constructor
  · intro hv
    obtain ⟨t, ht, hv⟩ := List.mem_flatMap.mp hv
    cases t with
    | block b => exact ⟨b, ht, hv⟩
    | _ => cases hv
  · rintro ⟨b, hb, hv⟩
    exact List.mem_flatMap.mpr ⟨_, hb, hv⟩

theorem Stage.gives_iff {stage : Stage} {v : Variable} :
    stage.Gives v ↔ ∃ f ∈ stage.definitions, ∃ r, f.Has r ∧ v ∈ r.outputs := by
  refine exists_congr fun f ↦ and_congr_right fun _ ↦ ?_
  constructor
  · rintro ⟨path, b, hb, hv⟩
    obtain ⟨r, hr, hmem⟩ := Function.exists_nested_iff.mp ⟨path, hb⟩
    exact ⟨r, hr, Region.mem_outputs.mpr ⟨b, hmem, hv⟩⟩
  · rintro ⟨r, hr, hv⟩
    obtain ⟨b, hmem, hv⟩ := Region.mem_outputs.mp hv
    obtain ⟨path, hb⟩ := Function.exists_nested_iff.mpr ⟨r, hr, hmem⟩
    exact ⟨path, b, hb, hv⟩

/-- The functions of a program that was built declare the outputs of blocks that they record. -/
theorem Program.Built.records {p : Program} (hp : p.Built) {stage : Stage}
    (hstage : stage ∈ p.stages) : ∀ f ∈ stage.definitions, f.Records := by
  obtain ⟨name, signatures, R, hev⟩ := hp.evolves
  exact (hev.gains stage hstage).resolve_left List.not_mem_nil

theorem Program.Built.gives_iff_declares {p : Program} (hp : p.Built) {stage : Stage}
    (hstage : stage ∈ p.stages) {v : Variable} (hkind : v.kind = .blockOutput) :
    stage.Gives v ↔ stage.Declares v := by
  rw [Stage.gives_iff]
  refine exists_congr fun f ↦ and_congr_right fun hf ↦ ?_
  have hrecords := hp.records hstage f hf
  exact exists_congr fun r ↦ and_congr_right fun hr ↦ (hrecords r hr).mem_outputs_iff hkind

/-! ## Blocks under construction -/

namespace ScopeDraft

variable {α : Type} {s s' : ScopeDraft} {l l' : Ledger} {build : Scripted BlockDraft α}
  {kind : String}

/-- The construction of a block, on its own, evolves to where the block is or is given up. -/
theorem evolves_block (hs : Reached (.scope s) l) (hbuild : BlockBody l build) (kind : String) :
    ∃ R R', l.Known R ∧ s.Invariant R ∧
      Evolves (R.addBody (s.newBlock kind).name) (.block (s.newBlock kind)) R'
        (.block (build.final (s.newBlock kind) l).1) := by
  obtain ⟨R, hl, hd⟩ := hs.sound
  obtain ⟨Q, htraced⟩ := hbuild.traced hl
  have hR := Registry.le_addBody R (s.newBlock kind).name
  have hstart : (s.newBlock kind).Invariant (R.addBody (s.newBlock kind).name) :=
    ScopeDraft.Invariant.newBlock hd kind
  obtain ⟨R', hev⟩ := Sound.evolves_final (htraced.weaken hR) (hl.mono hR) hstart
  exact ⟨R, R', hl, hd, hev⟩

/-- A variable of the scope of a region is seen from where this region is open. -/
theorem sees_iff_of_scope (hs : Reached (.scope s) l) {v : Variable} (hv : v.scope = s.region.id)
    (t : StageDraft) : t.sees v = true ↔ s.region.id ∈ t.frames.map Frame.id := by
  obtain ⟨R, -, hd⟩ := hs.sound
  obtain ⟨rest, hrest⟩ := hd.frame
  have hframe : ⟨s.region.id, s.region.kind⟩ ∈ s.stage.frames := by simp [hrest]
  have hlow : 3 ≤ s.region.id.index := (hd.stage.frames _ hframe).1
  rw [sees_iff, Variable.InReach, hv]
  constructor
  · rintro (hprogram | hstage | hmem)
    · rw [hprogram] at hlow
      exact absurd hlow (by decide)
    · have hlt := ScopeId.stage_lt t.kind
      rw [← hstage] at hlt
      exact absurd hlow (Nat.not_le_of_lt hlt)
    · exact hmem
  · exact fun hmem ↦ .inr (.inr hmem)

theorem scope_of_block_output (hs : Reached (.scope s) l) (hbuild : BlockBody l build)
    {out : BlockOutput} (hout : out ∈ (build.final (s.newBlock kind) l).1.interface.outputs) :
    out.slot.scope = s.region.id := by
  obtain ⟨R, R', -, hd, hev⟩ := evolves_block hs hbuild kind
  have hb : BlockDraft.Invariant R' _ := hev.invariant (ScopeDraft.Invariant.newBlock hd kind)
  have hext : (s.newBlock kind).Extends _ := hev.extends.2
  rw [(hb.outputs out hout).2, hext.parent]
  rfl

/-- A block that is added declares its outputs. -/
theorem declared_of_block_ok {a : α} (h : block kind build (s, l) = .ok a (s', l'))
    {out : BlockOutput} (hout : out ∈ (build.final (s.newBlock kind) l).1.interface.outputs) :
    out.slot ∈ s'.region.declared := by
  rw [block_apply] at h
  rcases hbuild : build (s.newBlock kind, l) with ⟨a', b, l₁⟩ | ⟨e, b, l₁⟩ <;> rw [hbuild] at h
  · rw [Build.final_ok hbuild] at hout
    simp only at h
    split at h
    · cases h
    · cases h
    · cases h
      exact List.mem_append_right _ (List.mem_map_of_mem hout)
  · cases h

/-- The outputs of a block that failed are never declared in the scope around it. -/
theorem not_declared_of_block_error (hs : Reached (.scope s) l) (hbuild : BlockBody l build)
    {e : BuildError} (h : block kind build (s, l) = .error e (s', l')) {out : BlockOutput}
    (hout : out ∈ (build.final (s.newBlock kind) l).1.interface.outputs)
    (post : List ScopeStep) :
    out.slot ∉ ((ScopeStep.runAll post).final s' l').1.region.declared := by
  obtain ⟨R, hl, hd⟩ := hs.sound
  obtain ⟨Q, htraced⟩ := hbuild.traced hl
  have hR := Registry.le_addBody R (s.newBlock kind).name
  have hstart : (s.newBlock kind).Invariant (R.addBody (s.newBlock kind).name) :=
    ScopeDraft.Invariant.newBlock hd kind
  obtain ⟨R₁, hbody⟩ := Sound.evolves_final (htraced.weaken hR) (hl.mono hR) hstart
  -- The number of the output is one of those that were given out while the block was built.
  have hgains : (s.newBlock kind).Gains _ := hbody.gains
  have hlow := (hgains.outputs_of_opened out hout).2
  have hb : BlockDraft.Invariant R₁ _ := hbody.invariant hstart
  have hhigh := hb.scope.stage.fits.id_lt (hb.outputs out hout).1
  have hfollows := traced_block kind htraced R le_rfl s l hd hl
  rw [h] at hfollows
  obtain ⟨R₂, hev, hl'⟩ := hfollows
  obtain ⟨R₃, hpost⟩ :=
    Sound.evolves_final (ScopeStep.runs_runAll post (fun _ _ ↦ trivial) R₂) hl' (hev.invariant hd)
  intro hdeclared
  have hafter : ScopeDraft.Gains s' _ := hpost.gains
  obtain ⟨b, hfinal, rfl⟩ := block_error h
  rw [hfinal] at hhigh
  -- So it was not given out later, and was not given out before.
  have hold : out.slot ∈ s.region.declared := hafter.region.mem_of_lt hdeclared hhigh
  have hlt := hd.stage.fits.id_lt (hd.declared _ hold).1
  exact absurd hlow (Nat.not_le_of_lt hlt)

end ScopeDraft

def leakingSteps : List BlockStep := [.output "out" (.int .one) [some "out"]]

/-- The body of a block that does not assign to its output. -/
def leakingBody : Scripted BlockDraft String := do
  BlockStep.runAll leakingSteps
  return (← Build.draft).name

/-- The main function goes on with the output of a block that failed. -/
def leakingScript : Script :=
  ⟨"leaking", [.buildStage .fragment [.main [
    .attempt (.block "customBlock" leakingSteps),
    .act (.assign (.var "out") (.lit (.int1 1))) []]]]⟩

/-- An output of a block is given by a statement of a finished stage exactly if a scope of the stage
declares it. From the start an output may be used wherever the scope around its block is open, and
nowhere else, whatever becomes of the block. It is declared in that scope if the block succeeds. If
the block fails, then it never is, whatever steps come after. -/
theorem output_given_iff_declared (v : Variable) :
    (∀ p : Program, p.Built → ∀ stage ∈ p.stages, v.kind = .blockOutput →
      (stage.Gives v ↔ stage.Declares v)) ∧
    ∀ s l, Reached (.scope s) l → ∀ kind (α : Type) (build : Scripted BlockDraft α),
      BlockBody l build →
      v ∈ (build.final (s.newBlock kind) l).1.interface.outputs.map BlockOutput.slot →
        v.kind = .blockOutput ∧
        (∀ t : StageDraft, t.sees v = true ↔ s.region.id ∈ t.frames.map Frame.id) ∧
        (∀ a s' l', ScopeDraft.block kind build (s, l) = .ok a (s', l') →
          v ∈ s'.region.declared) ∧
        ∀ e s' l', ScopeDraft.block kind build (s, l) = .error e (s', l') → ∀ post,
          v ∉ ((ScopeStep.runAll post).final s' l').1.region.declared := by
  refine ⟨fun p hp stage hstage ↦ hp.gives_iff_declares hstage, ?_⟩
  intro s l hs kind α build hbuild hv
  obtain ⟨out, hout, rfl⟩ := List.mem_map.mp hv
  obtain ⟨R, R', -, -, hev⟩ := ScopeDraft.evolves_block hs hbuild kind
  have hgains : (s.newBlock kind).Gains _ := hev.gains
  refine ⟨(hgains.outputs_of_opened out hout).1, ?_, fun a s' l' h ↦ ?_, fun e s' l' h post ↦ ?_⟩
  · exact ScopeDraft.sees_iff_of_scope hs (ScopeDraft.scope_of_block_output hs hbuild hout)
  · exact ScopeDraft.declared_of_block_ok h hout
  · exact ScopeDraft.not_declared_of_block_error hs hbuild h hout post

theorem output_given_iff_declared_leaking :
    (∃ stage ∈ leakingScript.run.program.stages, ∃ f ∈ stage.definitions,
      ∃ t ∈ f.body.statements, ∃ v ∈ t.writtenVariables, v.kind = .blockOutput ∧
        (stage.Gives v ↔ stage.Declares v)) ∧
    ∃ out ∈ (leakingBody.final (emptyMain.newBlock "customBlock") .empty).1.interface.outputs,
      ∃ e s' l',
        ScopeDraft.block "customBlock" leakingBody (emptyMain, .empty) = .error e (s', l') ∧
        s'.stage.sees out.slot = true ∧
          ∀ post, out.slot ∉ ((ScopeStep.runAll post).final s' l').1.region.declared := by
  constructor
  · have hfound : (leakingScript.run.program.stages.any fun stage ↦
        stage.definitions.any fun f ↦ f.body.statements.any fun t ↦
          t.writtenVariables.any fun v ↦ v.kind = .blockOutput) = true := by decide +kernel
    simp only [List.any_eq_true, decide_eq_true_eq] at hfound
    obtain ⟨stage, hstage, f, hf, t, ht, v, hv, hkind⟩ := hfound
    exact ⟨stage, hstage, f, hf, t, ht, v, hv, hkind,
      (output_given_iff_declared v).1 _ (.script leakingScript) stage hstage hkind⟩
  · have hmade : (leakingBody.final (emptyMain.newBlock "customBlock")
        .empty).1.interface.outputs.isEmpty = false := by decide +kernel
    have hfails : (match ScopeDraft.block "customBlock" leakingBody (emptyMain, .empty) with
        | .ok _ _ => false
        | .error _ (s', _) => s'.stage.frames.any (·.id = emptyMain.region.id)) = true := by
      decide +kernel
    obtain ⟨out, hout⟩ := List.exists_mem_of_ne_nil _ (by simpa using hmade)
    obtain ⟨-, hsees, -, hnever⟩ := (output_given_iff_declared out.slot).2 emptyMain .empty
      reached_emptyMain "customBlock" _ _ (.steps leakingSteps) (List.mem_map_of_mem hout)
    rcases h : ScopeDraft.block "customBlock" leakingBody (emptyMain, .empty) with
      ⟨a, s', l'⟩ | ⟨e, s', l'⟩
    · simp [h] at hfails
    · simp only [h, List.any_eq_true, decide_eq_true_eq] at hfails
      obtain ⟨frame, hframe, hid⟩ := hfails
      refine ⟨out, hout, e, s', l', rfl, ?_, hnever e s' l' h⟩
      exact (hsees s'.stage).mpr (List.mem_map.mpr ⟨frame, hframe, hid⟩)

/-- An output of a block is assigned to in a finished stage without any block. -/
theorem leaking_not_given : ∃ stage ∈ leakingScript.run.program.stages,
    ∃ f ∈ stage.definitions, ∃ path e, f.Located path e ∧
      ∃ v ∈ e.vars, v.kind = .blockOutput ∧ ¬stage.Gives v := by
  have hfound : (leakingScript.run.program.stages.any fun stage ↦
      (stage.definitions.all fun f ↦ f.body.statements.all fun t ↦ t.regions.isEmpty) &&
      stage.definitions.any fun f ↦ f.body.statements.any fun t ↦ t.operands.any fun e ↦
        e.vars.any fun v ↦ v.kind = .blockOutput) = true := by
    decide +kernel
  simp only [List.any_eq_true, List.all_eq_true, Bool.and_eq_true, decide_eq_true_eq,
    List.isEmpty_iff] at hfound
  obtain ⟨stage, hstage, hleaves, f, hf, t, ht, e, he, v, hv, hkind⟩ := hfound
  refine ⟨stage, hstage, f, hf, _, e, .operand (.here ht) he, v, hv, hkind, ?_⟩
  -- No statement of the stage has regions, so none of them is a block.
  rintro ⟨g, hg, path, b, hb, -⟩
  have hnil {u : Stmt} (hu : u ∈ g.body.statements) : u.regions = [] := hleaves g hg u hu
  cases hb with
  | here hs => exact List.cons_ne_nil _ _ (hnil hs)
  | inside hs hbody _ =>
    rw [hnil hs] at hbody
    cases hbody

end ShaderGraph
