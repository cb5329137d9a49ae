import ShaderGraph.Proofs.Script.Reached

/-!
# Effects of statements in finished programs

The read and write sets of every statement of a finished program are made of
what occurs in its tree, and hide what the regions in it declare. There is one
gap: a value wired to a block may mention variables of the block's own body,
and these get out of the block.
-/

namespace ShaderGraph

theorem Program.exists_statement {p : Program} {q : Stmt → Bool}
    (h : (p.stages.any fun stage ↦ stage.definitions.any fun f ↦ f.body.statements.any q) = true) :
    ∃ stage ∈ p.stages, ∃ f ∈ stage.definitions, ∃ s ∈ f.body.statements, q s = true := by
  simpa only [List.any_eq_true] using h

/-- In every block nested in some statements, the values wired to it mention no variables that its
body declares. -/
def WiredFromOutside (ss : List Stmt) : Prop :=
  ∀ path b, Nested ss path (.block b) → ∀ i ∈ b.inputs, ∀ v ∈ i.value.vars,
    v ∉ b.body.declared

/-- A conditional with all kinds of branches. The first one has a variable of its own. -/
def branchingScript : Script :=
  ⟨"branching", [.buildStage .fragment [.main [
    .act (.bind (.lit (.int1 1))) [some "x"],
    .act (.bind (.lit (.int1 2))) [some "y"],
    .branch .checked (.binary .eq (.var "x") (.lit (.int1 1))) [
      .act (.bind (.var "x")) [some "z"],
      .act (.assign (.var "y") (.var "z")) []]
    (.elseIf (.binary .eq (.var "y") (.lit (.int1 2))) [
      .act (.augment (.var "x") .add (.lit (.int1 1))) []]
    (.otherwise [
      .loopWhile (.lit (.bool1 true)) [.act (.assign (.var "y") (.var "x")) []]]))]]]⟩

/-- A block whose body declares a variable, which is then wired to an input of the block. -/
def selfWiredScript : Script :=
  ⟨"wired", [.buildStage .fragment [.main [
    .block "customBlock" [
      .scope (.act (.bind (.lit (.int1 1))) [some "x"]),
      .input "in" (.int .one) (some (.var "x")) none false [some "i"]]]]]⟩

namespace Program.Built

variable {p : Program} {stage : Stage} {f : Function} {path : List ScopeId} {s : Stmt}

/-- The read set of a statement has only variables that are read in its tree, and all of these but
some that nested regions declare. The write set has exactly the variables that are written in the
tree and declared in no nested region. -/
theorem effects_exact (hp : p.Built) (hstage : stage ∈ p.stages) (hf : f ∈ stage.definitions)
    (hs : Nested f.body.statements path s) :
    (∀ v ∈ s.reads, ReadsWithin [s] v) ∧
      (∀ v, ReadsWithin [s] v → v ∈ s.reads ∨ DeclaresWithin [s] v) ∧
        ∀ v, v ∈ s.writes ↔ WritesWithin [s] v ∧ ¬DeclaresWithin [s] v := by
  obtain ⟨V, hV, hfunctions⟩ := hp.wellScoped
  have h := (hfunctions stage hstage f hf).body.of_nested hs
  have hreads := WellScoped.gathers_reads (k := stage.kind) hV
  have hwrites := WellScoped.gathers_writes (k := stage.kind) hV
  refine ⟨?_, ?_, ?_⟩
  · intro v hv
    obtain ⟨path, t, ht, hown, -⟩ := hreads.exists_own h (h.mem_of_mem_reads hv) hv
    exact ⟨path, t, ht, hown⟩
  · rintro v ⟨path, t, ht, hown⟩
    have hv := ((h.placed ht).inReach_of_mem_readVariables hown).1
    exact hreads.of_own h hv ht hown
  · intro v
    constructor
    · intro hv
      obtain ⟨path, t, ht, hown, -⟩ := hwrites.exists_own h (h.mem_of_mem_writes hv) hv
      exact ⟨⟨path, t, ht, hown⟩, fun hhidden ↦ h.not_mem_writes hV hhidden hv⟩
    · rintro ⟨⟨path, t, ht, hown⟩, hhidden⟩
      have hv := ((h.placed ht).written v hown).1
      exact (hwrites.of_own h hv ht hown).resolve_right hhidden

/-- The conditional reads and writes the two variables around it, and not the one of its branch. -/
theorem effects_exact_branching : ∃ stage ∈ branchingScript.run.program.stages,
    ∃ f ∈ stage.definitions, ∃ s ∈ f.body.statements,
      (s.reads.toList.map Variable.id = [0, 1] ∧ s.writes.toList.map Variable.id = [0, 1]) ∧
        (∀ v ∈ s.reads, ReadsWithin [s] v) ∧
          (∀ v, ReadsWithin [s] v → v ∈ s.reads ∨ DeclaresWithin [s] v) ∧
            ∀ v, v ∈ s.writes ↔ WritesWithin [s] v ∧ ¬DeclaresWithin [s] v := by
  obtain ⟨stage, hstage, f, hf, s, hs, hq⟩ := Program.exists_statement
    (p := branchingScript.run.program)
    (q := fun s ↦ s.reads.toList.map Variable.id = [0, 1] ∧
      s.writes.toList.map Variable.id = [0, 1])
    (by decide +kernel)
  exact ⟨stage, hstage, f, hf, s, hs, by simpa using hq,
    effects_exact (.script branchingScript) hstage hf (.here hs)⟩

/-- What a nested region declares is in no write set around the region. It is in a read set around
it exactly if the region is the body of a block, and the variable is wired to this block. So no
variable gets out of any region of a statement exactly if all blocks in it are wired from
outside. -/
theorem internal_iff_wiredFromOutside (hp : p.Built) (hstage : stage ∈ p.stages)
    (hf : f ∈ stage.definitions) (hs : Nested f.body.statements path s) :
    ((∀ v, DeclaresWithin [s] v → v ∉ s.reads ∧ v ∉ s.writes) ↔ WiredFromOutside [s]) ∧
      ∀ v, DeclaresWithin [s] v → v ∉ s.writes ∧
        (v ∈ s.reads ↔ ∃ path b, Nested [s] path (.block b) ∧ v ∈ b.body.declared ∧
          ∃ i ∈ b.inputs, v ∈ i.value.vars) := by
  obtain ⟨V, hV, hfunctions⟩ := hp.wellScoped
  have h := (hfunctions stage hstage f hf).body.of_nested hs
  have hiff : ∀ v, DeclaresWithin [s] v → v ∉ s.writes ∧
      (v ∈ s.reads ↔ ∃ path b, Nested [s] path (.block b) ∧ v ∈ b.body.declared ∧
        ∃ i ∈ b.inputs, v ∈ i.value.vars) := by
    intro v hv
    exact ⟨h.not_mem_writes hV hv, h.mem_reads_iff_of_declaresWithin hV hv⟩
  refine ⟨⟨?_, ?_⟩, hiff⟩
  · intro hinternal path b hb i hi v hv hdecl
    have hv' : DeclaresWithin [s] v := ⟨b.body, ⟨path, .block b, hb, List.mem_cons_self⟩, hdecl⟩
    exact (hinternal v hv').1 ((hiff v hv').2.mpr ⟨path, b, hb, hdecl, i, hi, hv⟩)
  · intro hwired v hv
    refine ⟨?_, (hiff v hv).1⟩
    intro hread
    obtain ⟨path, b, hb, hdecl, i, hi, hmem⟩ := (hiff v hv).2.mp hread
    exact hwired path b hb i hi v hmem hdecl

theorem internal_iff_wiredFromOutside_selfWired : ∃ stage ∈ selfWiredScript.run.program.stages,
    ∃ f ∈ stage.definitions, ∃ s ∈ f.body.statements, s.regions.length = 1 ∧
      ((∀ v, DeclaresWithin [s] v → v ∉ s.reads ∧ v ∉ s.writes) ↔ WiredFromOutside [s]) ∧
        ∀ v, DeclaresWithin [s] v → v ∉ s.writes ∧
          (v ∈ s.reads ↔ ∃ path b, Nested [s] path (.block b) ∧ v ∈ b.body.declared ∧
            ∃ i ∈ b.inputs, v ∈ i.value.vars) := by
  obtain ⟨stage, hstage, f, hf, s, hs, hq⟩ := Program.exists_statement
    (p := selfWiredScript.run.program) (q := fun s ↦ s.regions.length = 1) (by decide +kernel)
  exact ⟨stage, hstage, f, hf, s, hs, by simpa using hq,
    internal_iff_wiredFromOutside (.script selfWiredScript) hstage hf (.here hs)⟩

end Program.Built

/-- A variable of the body is read by the block around it. -/
theorem selfWired_escapes : ∃ stage ∈ selfWiredScript.run.program.stages,
    ∃ f ∈ stage.definitions, ∃ s ∈ f.body.statements, ∃ v,
      DeclaresWithin [s] v ∧ v ∈ s.reads := by
  obtain ⟨stage, hstage, f, hf, s, hs, hq⟩ := Program.exists_statement
    (p := selfWiredScript.run.program)
    (q := fun s ↦ s.regions.any fun r ↦ r.declared.any fun v ↦ s.reads.toList.any (· = v))
    (by decide +kernel)
  simp only [List.any_eq_true, decide_eq_true_eq, exists_eq_right] at hq
  obtain ⟨r, hr, v, hv, hread⟩ := hq
  exact ⟨stage, hstage, f, hf, s, hs, v, ⟨r, .of_mem List.mem_cons_self hr, hv⟩, hread⟩

end ShaderGraph
