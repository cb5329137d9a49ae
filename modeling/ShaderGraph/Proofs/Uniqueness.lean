import ShaderGraph.Proofs.Draft.Placement
import ShaderGraph.Proofs.Rejection

/-!
# Names and numbers are unique

Every variable takes the next number and a new name, and so does the name of
every block and function come from the same pool. Nothing is given back when a
stage, a function or a block fails. So in all runs variables are told apart by
their numbers and by their names alike.
-/

namespace ShaderGraph

/-- The resources that a draft works with. -/
def Draft.shared : Draft → Resources
  | .program p => p.resources
  | .resources r => r
  | .stage s => s.resources
  | .scope s => s.stage.resources
  | .block b => b.scope.stage.resources

/-- The variables that were made are numbered in order. Their names and those of blocks and
functions are all different, and they are what the pool has. -/
structure Registry.Unique (R : Registry) (r : Resources) : Prop where
  ids : R.vars.map Variable.id = List.range r.variableCount
  names : (R.vars.map Variable.name ++ R.bodies).Nodup
  taken : r.names.taken.Perm (R.vars.map Variable.name ++ R.bodies)
  same : ∀ v ∈ R.vars, ∀ w ∈ R.vars, (v.id = w.id ↔ v = w) ∧ (v.name = w.name ↔ v = w)

/-- A step of a script leads from a draft and a ledger to others, whether it succeeds or not. -/
inductive Leads : Draft → Ledger → Draft → Ledger → Prop
  | program {p : Program} {l : Ledger} (step : ProgramStep) :
      Leads (.program p) l (.program (step.run.final p l).1) (step.run.final p l).2
  | stage {s : StageDraft} {l : Ledger} (step : StageStep) :
      Leads (.stage s) l (.stage (step.run.final s l).1) (step.run.final s l).2
  | scope {s : ScopeDraft} {l : Ledger} (step : ScopeStep) :
      Leads (.scope s) l (.scope (step.run.final s l).1) (step.run.final s l).2
  | block {b : BlockDraft} {l : Ledger} (step : BlockStep) :
      Leads (.block b) l (.block (step.run.final b l).1) (step.run.final b l).2

variable {R : Registry} {r : Resources}

theorem Registry.Fits.unique (h : R.Fits r) : R.Unique r where
  ids := by
    refine List.ext_getElem (by simp [h.count]) fun i hi _ ↦ ?_
    rw [List.length_map] at hi
    simpa using h.id i R.vars[i] (List.getElem?_eq_getElem hi)
  names := h.nodup_names
  taken := h.names
  same v hv w hw := by
    have hnames : (R.vars.map Variable.name).Nodup := (List.nodup_append.mp h.nodup_names).1
    refine ⟨⟨h.distinct v hv w hw, congrArg _⟩, ⟨?_, congrArg _⟩⟩
    exact fun heq ↦ List.inj_on_of_nodup_map hnames hv hw heq

theorem Draft.Invariant.fits {d : Draft} (h : d.Invariant R) : R.Fits d.shared := by
  cases d with
  | program p => exact Program.Invariant.fits h
  | resources r => exact h
  | stage s => exact StageDraft.Invariant.fits h
  | scope s => exact (ScopeDraft.Invariant.stage h).fits
  | block b => exact (BlockDraft.Invariant.scope h).stage.fits

theorem Draft.taken_tables (d : Draft) : d.tables.names = d.shared.names.taken := by
  cases d <;> rfl

theorem Leads.evolves {d d' : Draft} {l l' : Ledger} (h : Leads d l d' l') (hl : l.Known R)
    (hd : d.Invariant R) : ∃ R', Evolves R d R' d' ∧ l'.Known R' := by
  cases h with
  | program step => exact Sound.evolves_known (step.answers_run (fun _ _ ↦ trivial) R) hl hd
  | stage step => exact Sound.evolves_known (step.answers_run (fun _ _ ↦ trivial) R) hl hd
  | scope step => exact Sound.evolves_known (step.answers_run (fun _ _ ↦ trivial) R) hl hd
  | block step => exact Sound.evolves_known (step.answers_run (fun _ _ ↦ trivial) R) hl hd

/-- A vertex stage that is given up, with a variable in it. -/
def abandonedStage : ProgramStep :=
  .attempt (.buildStage .vertex [
    .declare (.attribute "position" (.float .three) .vertexAttribute) [some "position"],
    .main [.act .discard []]])

/-- Two stages with variables of the same types. A stage is given up before them, and in the
fragment stage a function and a block are. -/
def interleavingScript : Script :=
  ⟨"interleaving", [
    abandonedStage,
    .act (.uniform "tint" (.float .four)) [some "tint"],
    .buildStage .vertex [.main [.act (.bindNothing (.int .one)) [some "n"]]],
    .buildStage .fragment [
      .attempt (.function ⟨none, [.int .one], some (.int .one), ["a"], none, false⟩ [] []),
      .function ⟨none, [.int .one], some (.int .one), ["a"], some (.var "a"), false⟩ [] [some "f"],
      .main [
        .attempt (.block "mix" [.output "out" (.int .one) [some "out"]]),
        .act (.bindNothing (.int .one)) [some "n"],
        .block "mix" [
          .input "in" (.int .one) (some (.var "n")) none false [some "in"],
          .output "out" (.int .one) [some "out"],
          .scope (.act (.assign (.var "out") (.callHandle "f" [.var "in"])) [])]]]]⟩

/-- In all runs variables are told apart by their numbers and by their names. What a pool gives it
did not have before. Whatever the script does next, all that was made stays, and so do the names;
what is new is different from it. In a program each variable is in one place, and so is each
function or block. -/
theorem ids_names_unique :
    (∀ (p : NamePool) name q, p.Gives name q → name ∉ p.taken ∧ q.taken = name :: p.taken) ∧
    (∀ d l, Reached d l → ∃ R, l.Known R ∧ R.Unique d.shared ∧
      ∀ d' l', Leads d l d' l' → ∃ R', Evolves R d R' d' ∧ R ≤ R' ∧ l'.Known R' ∧
        R'.Unique d'.shared ∧ d.shared.names.taken <:+ d'.shared.names.taken) ∧
    ∀ p : Program, p.Built → ∃ name signatures R,
      Evolves (.start signatures False) (.program (.new name)) R (.program p) ∧
        R.Unique p.resources ∧ p.slots.Subperm R.vars ∧ p.bodyNames.Subperm R.bodies := by
  refine ⟨fun p name q h ↦ ⟨h.notMem, h.taken⟩, fun d l h ↦ ?_, fun p h ↦ ?_⟩
  · obtain ⟨R, hl, hd⟩ := h.sound
    refine ⟨R, hl, hd.fits.unique, fun d' l' hleads ↦ ?_⟩
    obtain ⟨R', hev, hl'⟩ := hleads.evolves hl hd
    refine ⟨R', hev, hev.extends.1, hl', (hev.invariant hd).fits.unique, ?_⟩
    rw [← d.taken_tables, ← d'.taken_tables]
    exact hev.keeps.names
  · obtain ⟨name, signatures, R, hev⟩ := h.evolves
    have hp : p.Invariant R := hev.invariant (Program.invariant_new name signatures False)
    exact ⟨name, signatures, R, hev, hp.fits.unique, hev.slots_subperm, hev.bodyNames_subperm⟩

theorem ids_names_unique_interleaving :
    (NamePool.empty.next "mix").1 ∉ NamePool.empty.taken ∧
    (∃ R : Registry, R.vars.length = 1 ∧
      (abandonedStage.run.final (.new "interleaving") .empty).1.slots = [] ∧
        R.Unique (abandonedStage.run.final (.new "interleaving") .empty).1.resources) ∧
    ∃ R : Registry, R.vars.length = 9 ∧ R.bodies.length = 4 ∧
      R.Unique interleavingScript.run.program.resources ∧
        interleavingScript.run.program.bodyNames = ["fun_2", "mix_2"] ∧
          interleavingScript.run.program.bodyNames.Subperm R.bodies ∧
            interleavingScript.run.program.slots.length = 6 ∧
              interleavingScript.run.program.slots.Subperm R.vars := by
  have hlength {R : Registry} {r : Resources} (h : R.Unique r) :
      R.vars.length = r.variableCount := by
    simpa using congrArg List.length h.ids
  refine ⟨(ids_names_unique.1 _ _ _ (.inl ⟨"mix", rfl⟩)).1, ?_, ?_⟩
  · obtain ⟨R, -, -, hleads⟩ := ids_names_unique.2.1 _ _ (.start "interleaving")
    obtain ⟨R', -, -, -, hunique, -⟩ := hleads _ _ (.program abandonedStage)
    exact ⟨R', (hlength hunique).trans (by decide +kernel), by decide +kernel, hunique⟩
  · obtain ⟨-, -, R, -, hunique, hslots, hnames⟩ :=
      ids_names_unique.2.2 _ (.script interleavingScript)
    have hcount : interleavingScript.run.program.resources.variableCount = 9 := by decide +kernel
    have hsize : interleavingScript.run.program.resources.names.taken.length = 13 := by
      decide +kernel
    have hbodies : R.bodies.length = 4 := by
      have htaken := hunique.taken.length_eq
      rw [hsize, List.length_append, List.length_map, hlength hunique, hcount] at htaken
      omega
    exact ⟨R, (hlength hunique).trans hcount, hbodies, hunique, by decide +kernel, hnames,
      by decide +kernel, hslots⟩

end ShaderGraph
