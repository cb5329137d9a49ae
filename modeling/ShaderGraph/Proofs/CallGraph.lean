import ShaderGraph.Proofs.Draft.Defining
import ShaderGraph.Proofs.Script.Building

/-!
# The call graph of a stage

A call is checked for the types of its arguments only. Clients get functions by
defining them, so what a function calls was defined before it: in its own stage,
where it stands at a lower index, or else before the stage was begun. Functions
of the latter kind are in another stage, or in none if theirs was given up.
-/

namespace ShaderGraph

/-- What the functions of a stage call, for the names that were taken when the stage was begun. -/
structure Stage.CallsBefore (stage : Stage) (taken : List String) : Prop where
  /-- What a function calls comes before it in the stage, or else before the stage. -/
  function : ∀ (i : Nat) f, stage.functions[i]? = some f → ∀ g, CallsWithin f.code g →
    (g ∈ (stage.functions.take i).map Function.signature ↔ g.name ∉ taken) ∧
      (g ∈ stage.functions.map Function.signature ↔ g.name ∉ taken)
  main : ∀ f ∈ stage.main, ∀ g, CallsWithin f.code g →
    (g ∈ stage.functions.map Function.signature ↔ g.name ∉ taken)
  acyclic : ∀ f ∈ stage.functions, ¬stage.Calls f.code f

/-- What statements can come to call is among the first functions of a stage, if these are all that
they call themselves, and each function calls only functions before it. -/
theorem Stage.Calls.mem_take {stage : Stage} {ss : List Stmt} {g : Function}
    (h : stage.Calls ss g) {n : Nat}
    (hown : ∀ g ∈ stage.functions, CallsWithin ss g.signature → g ∈ stage.functions.take n)
    (hbackward : ∀ (i : Nat) f, stage.functions[i]? = some f → ∀ g ∈ stage.functions,
      CallsWithin f.code g.signature → g ∈ stage.functions.take i) :
    g ∈ stage.functions.take n := by
  induction h generalizing n with
  | direct hg hcall => exact hown _ hg hcall
  | @through ss g h hg hcall _ ih =>
    obtain ⟨i, hi, hgi⟩ := List.mem_take_iff_getElem.mp (hown g hg hcall)
    have hget : stage.functions[i]? = some g := by
      rw [← hgi]
      exact List.getElem?_eq_getElem _
    have hfirst := ih (hbackward i g hget)
    exact (List.take_subset_take_left _ (by omega)) hfirst

namespace Defines

variable {given given' : Set Signature} {t t' : Tables} {fs : List Function}

/-- Of functions that clients have, those that were defined here have new names. -/
theorem mem_iff (h : Defines given t fs given' t') (hgiven : ∀ g ∈ given, g.name ∈ t.names)
    {gs : List Function} (hgs : gs ⊆ fs) {g : Signature} (hg : g ∈ Function.giving gs given) :
    g ∈ gs.map Function.signature ↔ g.name ∉ t.names := by
  constructor
  · intro hmem
    obtain ⟨f, hf, rfl⟩ := List.mem_map.mp hmem
    exact (h.fresh f (hgs hf)).1
  · intro hnew
    exact hg.resolve_left fun hold ↦ hnew (hgiven g hold)

/-- The functions are told apart by their signatures. -/
theorem eq_of_signature (h : Defines given t fs given' t') {f g : Function} (hf : f ∈ fs)
    (hg : g ∈ fs) (heq : f.signature = g.signature) : f = g :=
  List.inj_on_of_nodup_map h.names hf hg (congrArg Signature.name heq)

theorem not_mem_take (h : Defines given t fs given' t') {i : Nat} {f : Function}
    (hi : fs[i]? = some f) : f ∉ fs.take i := by
  intro hmem
  obtain ⟨j, hj, rfl⟩ := List.mem_take_iff_getElem.mp hmem
  obtain ⟨hlt, heq⟩ := List.getElem?_eq_some_iff.mp hi
  have hsame := (List.Nodup.getElem_inj_iff (.of_map _ h.names)).mp heq
  omega

theorem callsBefore {stage : Stage} (h : Defines given t stage.functions given' t')
    (hgiven : ∀ g ∈ given, g.name ∈ t.names) (hmain : t'.main = stage.main)
    (hnone : t.main = none) : stage.CallsBefore t.names := by
  have htake {i : Nat} {f : Function} (hi : stage.functions[i]? = some f) {g : Signature}
      (hg : CallsWithin f.code g) :
      g ∈ (stage.functions.take i).map Function.signature ↔ g.name ∉ t.names :=
    h.mem_iff hgiven (List.take_subset i _) (h.calls.mem_take hi hg)
  have hbackward : ∀ (i : Nat) f, stage.functions[i]? = some f → ∀ g ∈ stage.functions,
      CallsWithin f.code g.signature → g ∈ stage.functions.take i := by
    intro i f hi g hg hcall
    obtain ⟨g', hg', heq⟩ := List.mem_map.mp ((htake hi hcall).mpr (h.fresh g hg).1)
    exact h.eq_of_signature (List.mem_of_mem_take hg') hg heq ▸ hg'
  refine ⟨fun i f hi g hg ↦ ⟨htake hi hg, ?_⟩, fun f hf g hg ↦ ?_, fun f hf hcalls ↦ ?_⟩
  · have hcalled : g ∈ Function.giving stage.functions given :=
      (h.calls.mem_take hi hg).imp_right fun hmem ↦ (List.map_subset _ (List.take_subset i _)) hmem
    exact h.mem_iff hgiven (List.Subset.refl _) hcalled
  · obtain ⟨-, hall⟩ := (h.main f (hmain ▸ hf)).resolve_left (by simp [hnone])
    exact h.mem_iff hgiven (List.Subset.refl _) (h.signatures (hall g hg))
  · obtain ⟨i, hi⟩ := List.mem_iff_getElem?.mp hf
    exact h.not_mem_take hi (hcalls.mem_take (hbackward i f hi) hbackward)

end Defines

/-- A function of one stage, that the other stage calls, and one of its own. -/
def borrowingScript : Script :=
  ⟨"borrowing", [
    .buildStage .vertex [.function ⟨some "lent", [], none, [], none, false⟩ [] [some "lent"]],
    .buildStage .fragment [
      .function ⟨some "own", [], none, [], none, false⟩ [] [some "own"],
      .main [.act (.invoke "own" [] false) [], .attempt (.act (.invoke "lent" [] false) [])]]]⟩

/-- A script has functions by their definitions alone if no term of it has a signature of its own.
Then a stage that it builds calls functions of its own, at lower indices from its functions, except
for those that were defined before the stage was begun. -/
theorem calls_before (s : Script) (h : ∀ t ∈ s.terms, t.callee? = none) :
    (∀ stage ∈ s.run.program.stages, ∃ b : s.StageBuild, b.turn ∈ s.turns ∧
      b.turn.inside = b.turns ∧ b.stage = stage) ∧
    ∀ b : s.StageBuild, b.stage.CallsBefore b.program.resources.names.taken := by
  refine ⟨fun stage hstage ↦ s.exists_stageBuild hstage, fun b ↦ ?_⟩
  have hterms : ∀ t ∈ s.terms, t.Permitted (.start ∅ False) := fun t ht ↦
    ⟨False.elim, fun f hf ↦ by simp [h t ht] at hf⟩
  obtain ⟨R, R', hprogram, hstage⟩ := b.evolves hterms
  have hgiven := hprogram.named rfl fun g hg ↦ hg.elim
  obtain ⟨fs, hfs⟩ := hstage.defines (StageDraft.accepted_start _ _) (by simp)
  obtain rfl : b.stage.functions = fs := hfs.functions
  exact hfs.callsBefore hgiven rfl rfl

theorem calls_before_borrowing : (∀ t ∈ borrowingScript.terms, t.callee? = none) ∧
    ∃ stage ∈ borrowingScript.run.program.stages, ∃ b : borrowingScript.StageBuild,
      b.turn ∈ borrowingScript.turns ∧ b.stage = stage ∧
        stage.CallsBefore b.program.resources.names.taken ∧
          ∃ f ∈ stage.main, ∃ g ∈ stage.functions, CallsWithin f.code g.signature ∧
            g.signature.name ∉ b.program.resources.names.taken := by
  have hterms : ∀ t ∈ borrowingScript.terms, t.callee? = none := by decide +kernel
  have hfound : (borrowingScript.run.program.stages.any fun stage ↦ stage.main.any fun f ↦
      f.body.statements.any fun t ↦ stage.functions.any fun g ↦
        t.callees.any (· = g.signature)) = true := by
    decide +kernel
  simp only [List.any_eq_true, Option.any_eq_true, decide_eq_true_eq] at hfound
  obtain ⟨stage, hstage, f, hf, t, ht, g, hg, c, hc, rfl⟩ := hfound
  obtain ⟨b, hturn, -, rfl⟩ := (calls_before borrowingScript hterms).1 stage hstage
  have hcalls := (calls_before borrowingScript hterms).2 b
  have hcall : CallsWithin f.code g.signature :=
    ⟨[], t, .here (List.mem_append_left _ ht), hc⟩
  exact ⟨hterms, b.stage, hstage, b, hturn, rfl, hcalls, f, hf, g, hg, hcall,
    (hcalls.main f hf _ hcall).mp (List.mem_map_of_mem hg)⟩

/-- A stage calls a function that it does not have. -/
theorem borrowing_not_own : (∀ t ∈ borrowingScript.terms, t.callee? = none) ∧
    ∃ stage ∈ borrowingScript.run.program.stages, ∃ f ∈ stage.main, ∃ g : Signature,
      CallsWithin f.code g ∧ g ∉ stage.functions.map Function.signature := by
  have hterms : ∀ t ∈ borrowingScript.terms, t.callee? = none := by decide +kernel
  have hfound : (borrowingScript.run.program.stages.any fun stage ↦ stage.main.any fun f ↦
      f.body.statements.any fun t ↦ t.callees.any fun g ↦
        !(stage.functions.map Function.signature).contains g) = true := by
    decide +kernel
  simp only [List.any_eq_true, Option.any_eq_true, Bool.not_eq_true', List.contains_eq_mem,
    decide_eq_false_iff_not] at hfound
  obtain ⟨stage, hstage, f, hf, t, ht, g, hg, hnot⟩ := hfound
  exact ⟨hterms, stage, hstage, f, hf, g, ⟨[], t, .here (List.mem_append_left _ ht), hg⟩, hnot⟩

end ShaderGraph
