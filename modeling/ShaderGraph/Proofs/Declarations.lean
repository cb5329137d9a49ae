import ShaderGraph.Proofs.Draft.Declaring
import ShaderGraph.Proofs.Draft.Placement

/-!
# Declarations

Variables come into the list of a region in five ways, with a statement or
without one. In finished programs the lists have all that was introduced and
nothing else, each variable in one place, and no statement uses a variable
before it is introduced.
-/

namespace ShaderGraph

/-- What the regions of a program declare is among its variables. -/
theorem Program.declared_sublist (p : Program) :
    (p.regions.flatMap Region.declared).Sublist p.slots := by
  have hstages : (p.stages.flatMap fun s ↦ s.regions.flatMap Region.declared).Sublist
      (p.stages.flatMap Stage.slots) :=
    .flatMap_right _ fun s _ ↦ List.sublist_append_right _ _
  rw [regions, List.flatMap_assoc]
  exact hstages.trans (List.sublist_append_right _ _)

/-- A function that adds up numbers in a loop, and a main function with a block that declares a
variable of its own before it takes its input. -/
def declaringScript : Script :=
  ⟨"declaring", [.buildStage .fragment [
    .function ⟨some "sum", [.int .one], some (.int .one), ["n"], some (.var "t"), false⟩ [
      .act (.bind (.lit (.int1 0))) [some "t"],
      .loopRange "i" (.lit (.int1 0)) (.var "n") [
        .act (.bind (.var "i")) [some "k"],
        .act (.augment (.var "t") .add (.var "k")) []]] [some "sum"],
    .main [
      .act (.bind (.callHandle "sum" [.lit (.int1 4)])) [some "x"],
      .block "step" [
        .scope (.act (.bind (.lit (.int1 1))) [some "y"]),
        .input "in" (.int .one) (some (.var "x")) none false [some "in"],
        .output "out" (.int .one) [some "out"],
        .scope (.act (.assign (.var "out") (.binary .add (.var "in") (.var "y"))) [])],
      .act (.bind (.var "out")) [some "z"]]]]⟩

/-- In finished programs every region declares just what was given to it and what its statements
introduce, in the order in which the variables were made, and no variable stands before the place
where it is introduced. No variable is declared twice in a program. -/
theorem Program.Built.declarations_exact {p : Program} (h : p.Built) :
    (∀ stage ∈ p.stages, ∀ f ∈ stage.definitions, f.WellDeclared) ∧
      (p.regions.flatMap Region.declared).Nodup := by
  obtain ⟨name, signatures, R, hev⟩ := h.evolves
  have hnew := Program.invariant_new name signatures False
  have hp : p.Invariant R := hev.invariant hnew
  have hdeclared : ∀ stage ∈ p.stages, stage.WellDeclared :=
    hev.wellDeclared hnew fun s hs ↦ by cases hs
  refine ⟨hdeclared, ?_⟩
  obtain ⟨l, hperm, hsub⟩ := hev.slots_subperm
  exact p.declared_sublist.nodup (hperm.nodup_iff.mp (hsub.nodup hp.fits.nodup_vars))

theorem Program.Built.declarations_exact_declaring :
    (∃ stage ∈ declaringScript.run.program.stages, ∃ f ∈ stage.definitions,
      f.args.length = 1 ∧ f.body.declared.length = 2 ∧ f.WellDeclared) ∧
    (∃ stage ∈ declaringScript.run.program.stages, ∃ f ∈ stage.definitions,
      ∃ s ∈ f.body.statements, s.given.length = 1 ∧ s.introduced.length = 1 ∧ f.WellDeclared) ∧
    (declaringScript.run.program.regions.flatMap Region.declared).length = 9 ∧
    (declaringScript.run.program.regions.flatMap Region.declared).Nodup := by
  obtain ⟨hdeclared, hnodup⟩ := Program.Built.declarations_exact (.script declaringScript)
  have hfunction : (declaringScript.run.program.stages.any fun stage ↦
      stage.definitions.any fun f ↦
        decide (f.args.length = 1 ∧ f.body.declared.length = 2)) = true := by
    decide +kernel
  have hblock : (declaringScript.run.program.stages.any fun stage ↦
      stage.definitions.any fun f ↦ f.body.statements.any fun s ↦
        decide (s.given.length = 1 ∧ s.introduced.length = 1)) = true := by
    decide +kernel
  simp only [List.any_eq_true, decide_eq_true_eq] at hfunction hblock
  obtain ⟨stage, hstage, f, hf, hargs, hlength⟩ := hfunction
  obtain ⟨stage', hstage', f', hf', s, hs, hgiven, hintroduced⟩ := hblock
  exact ⟨⟨stage, hstage, f, hf, hargs, hlength, hdeclared stage hstage f hf⟩,
    ⟨stage', hstage', f', hf', s, hs, hgiven, hintroduced, hdeclared stage' hstage' f' hf'⟩,
    by decide +kernel, hnodup⟩

end ShaderGraph
