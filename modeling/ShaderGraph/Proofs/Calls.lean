import ShaderGraph.Proofs.Effects

/-!
# Effects of calls

A function may read and write what the program and its stage share, so a
statement that calls it does so as well, in its own expressions or through
further calls. The sets of a statement have only what stands in its own tree.
What is missing is in the bodies of the functions it can come to call, and is
found there by following the calls.
-/

namespace ShaderGraph

def Callee.signature? : Callee → Option Signature
  | .builtin _ => none
  | .user f => some f

namespace Expr

mutual

/-- The functions of the client that an expression calls. -/
def callees : Expr → List Signature
  | lit _ | var _ => []
  | unary _ a => a.callees
  | binary _ _ a b => a.callees ++ b.callees
  | call _ callee args => callee.signature?.toList ++ calleesOfList args
  | swizzle _ source _ => source.callees
  | lookup _ object index => object.callees ++ index.callees

def calleesOfList : List Expr → List Signature
  | [] => []
  | e :: rest => e.callees ++ calleesOfList rest

end

theorem mem_calleesOfList {es : List Expr} {g : Signature} :
    g ∈ calleesOfList es ↔ ∃ e ∈ es, g ∈ e.callees := by
  induction es with
  | nil => simp [calleesOfList]
  | cons e rest ih => simp [calleesOfList, ih]

end Expr

/-- The function that a statement is itself a call of. -/
def Stmt.invoked? : Stmt → Option Signature
  | .invoke f _ => some f
  | .declare .. | .assign .. | .augment .. | .branch .. | .loopFor .. | .loopWhile .. | .breakLoop
  | .continueLoop | .discard | .leave _ | .inline _ | .block _ => none

/-- The functions that a statement calls, those called within its regions apart. -/
def Stmt.callees (s : Stmt) : List Signature :=
  s.invoked?.toList ++ Expr.calleesOfList (s.operands ++ s.header)

/-- A function is called somewhere in some statements. -/
def CallsWithin (ss : List Stmt) (f : Signature) : Prop :=
  ∃ path t, Nested ss path t ∧ f ∈ t.callees

/-- The statements of a function, where the value at its end is returned by a statement as well. -/
def Function.code (f : Function) : List Stmt := f.body.statements ++ [.leave f.result]

/-- Statements can come to call a function of their stage. -/
inductive Stage.Calls (stage : Stage) : List Stmt → Function → Prop
  | direct {ss : List Stmt} {g : Function} (hg : g ∈ stage.functions)
      (hcall : CallsWithin ss g.signature) : Calls stage ss g
  | through {ss : List Stmt} {g h : Function} (hg : g ∈ stage.functions)
      (hcall : CallsWithin ss g.signature) (hrest : Calls stage g.code h) : Calls stage ss h

/-- Some statements have an effect on a variable, themselves or by functions that they call. What
statements have of their own is given, as their reads or their writes. -/
inductive Stage.Affects (stage : Stage) (own : Stmt → List Variable) : List Stmt → Variable → Prop
  | own {ss : List Stmt} {path : List ScopeId} {t : Stmt} {v : Variable} (ht : Nested ss path t)
      (hv : v ∈ own t) : Affects stage own ss v
  | called {ss : List Stmt} {g : Function} {v : Variable} (hg : g ∈ stage.functions)
      (hcall : CallsWithin ss g.signature) (hbody : Affects stage own g.code v) :
      Affects stage own ss v

namespace Stage

/-- Some statements read a variable when they are run. -/
def Reads (stage : Stage) : List Stmt → Variable → Prop := stage.Affects Stmt.readVariables

/-- Some statements write a variable when they are run. -/
def Writes (stage : Stage) : List Stmt → Variable → Prop := stage.Affects Stmt.writtenVariables

variable {stage : Stage} {own : Stmt → List Variable} {ss : List Stmt} {v : Variable}

theorem Calls.mem {g : Function} (h : stage.Calls ss g) : g ∈ stage.functions := by
  induction h with
  | direct hg _ => exact hg
  | through _ _ _ ih => exact ih

/-- An effect is an own one, or an own one of a function that can come to be called. -/
theorem affects_iff : stage.Affects own ss v ↔
    (∃ path t, Nested ss path t ∧ v ∈ own t) ∨
      ∃ g, stage.Calls ss g ∧ ∃ path t, Nested g.code path t ∧ v ∈ own t := by
  constructor
  · intro h
    induction h with
    | own ht hv => exact .inl ⟨_, _, ht, hv⟩
    | called hg hcall _ ih =>
      rcases ih with hown | ⟨g', hg', hown⟩
      · exact .inr ⟨_, .direct hg hcall, hown⟩
      · exact .inr ⟨g', .through hg hcall hg', hown⟩
  · rintro (⟨path, t, ht, hv⟩ | ⟨g, hg, path, t, ht, hv⟩)
    · exact .own ht hv
    · induction hg with
      | direct hg hcall => exact .called hg hcall (.own ht hv)
      | through hg hcall _ ih => exact .called hg hcall (ih ht)

end Stage

/-! ## Shared variables -/

/-- A variable of the program or of a stage. -/
def Variable.Shared (k : StageKind) (v : Variable) : Prop :=
  v.scope = .program ∨ v.scope = .stage k

section Shared

variable {V : List Variable} {k : StageKind} {chain : List ScopeId} {s : Stmt} {v : Variable}

/-- No region declares a variable of the program or of a stage. -/
theorem WellScoped.not_declaresWithin_of_shared {ss : List Stmt} (h : WellScoped V k chain ss)
    (hv : v.Shared k) : ¬DeclaresWithin ss v := by
  rintro ⟨r, hr, hdeclared⟩
  have hlow := (h.fresh hr).1
  obtain ⟨path, t, ht, hrt⟩ := hr
  have hscope := ((h.placed ht).declared r hrt v hdeclared).2
  rw [← hscope] at hlow
  rcases hv with heq | heq <;> rw [heq] at hlow
  · simp [ScopeId.program] at hlow
  · cases k <;> simp [ScopeId.stage] at hlow

/-- A shared variable is gathered by a statement exactly if something in its tree has it. -/
theorem Gathers.mem_iff_of_shared {f : Stmt → VarSet} {own : Stmt → List Variable}
    (hf : Gathers V k f own) (h : WellScoped V k chain [s]) (hv : v ∈ V) (hshared : v.Shared k) :
    v ∈ f s ↔ ∃ path t, Nested [s] path t ∧ v ∈ own t := by
  constructor
  · intro hmem
    obtain ⟨path, t, ht, hown, -⟩ := hf.exists_own h hv hmem
    exact ⟨path, t, ht, hown⟩
  · rintro ⟨path, t, ht, hown⟩
    exact (hf.of_own h hv ht hown).resolve_right (h.not_declaresWithin_of_shared hshared)

theorem WellScoped.mem_reads_iff_of_shared (hV : Distinct V) (h : WellScoped V k chain [s])
    (hshared : v.Shared k) : v ∈ s.reads ↔ ReadsWithin [s] v := by
  have hgathers := WellScoped.gathers_reads (k := k) hV
  refine ⟨fun hv ↦ (hgathers.mem_iff_of_shared h (h.mem_of_mem_reads hv) hshared).mp hv, ?_⟩
  rintro ⟨path, t, ht, hown⟩
  have hv := ((h.placed ht).inReach_of_mem_readVariables hown).1
  exact (hgathers.mem_iff_of_shared h hv hshared).mpr ⟨path, t, ht, hown⟩

theorem WellScoped.mem_writes_iff_of_shared (hV : Distinct V) (h : WellScoped V k chain [s])
    (hshared : v.Shared k) : v ∈ s.writes ↔ WritesWithin [s] v := by
  have hgathers := WellScoped.gathers_writes (k := k) hV
  refine ⟨fun hv ↦ (hgathers.mem_iff_of_shared h (h.mem_of_mem_writes hv) hshared).mp hv, ?_⟩
  rintro ⟨path, t, ht, hown⟩
  have hv := ((h.placed ht).written v hown).1
  exact (hgathers.mem_iff_of_shared h hv hshared).mpr ⟨path, t, ht, hown⟩

theorem Function.WellScoped.code {f : Function} (h : f.WellScoped V k) :
    ShaderGraph.WellScoped V k [f.body.id] f.code := by
  refine h.body.concat (.leaf rfl nofun ?_ nofun) rfl
  intro e he v hv
  exact h.result e (Option.mem_toList.mp he) v hv

/-- The effects of a statement on a shared variable are in its set, or in the sets of a function
that it can come to call. -/
theorem WellScoped.affects_iff {stage : Stage} {f : Stmt → VarSet} {own : Stmt → List Variable}
    (hf : ∀ {chain s}, WellScoped V k chain [s] →
      (v ∈ f s ↔ ∃ path t, Nested [s] path t ∧ v ∈ own t))
    (hstage : ∀ g ∈ stage.functions, g.WellScoped V k) (h : WellScoped V k chain [s]) :
    stage.Affects own [s] v ↔ v ∈ f s ∨ ∃ g, stage.Calls [s] g ∧ ∃ t ∈ g.code, v ∈ f t := by
  rw [Stage.affects_iff, hf h]
  refine or_congr_right (exists_congr fun g ↦ and_congr_right fun hg ↦ ?_)
  have hcode := (hstage g hg.mem).code
  constructor
  · rintro ⟨path, u, hu, hown⟩
    obtain ⟨t, ht, hu⟩ := hu.exists_mem
    exact ⟨t, ht, (hf (hcode.of_mem ht)).mpr ⟨path, u, hu, hown⟩⟩
  · rintro ⟨t, ht, hv⟩
    obtain ⟨path, u, hu, hown⟩ := (hf (hcode.of_mem ht)).mp hv
    exact ⟨path, u, hu.mono (by simpa using ht), hown⟩

end Shared

/-! ## Effects through calls -/

/-- The sets of a statement have exactly the shared variables that stand in its own tree. With the
sets of the functions that it can come to call, they have all its effects on shared variables. So
the effects of a function that it calls are in the sets of the statement exactly if they stand in
its own tree as well. -/
structure Stage.BlindToCalls (stage : Stage) (s : Stmt) : Prop where
  reads : ∀ v, v.Shared stage.kind → (v ∈ s.reads ↔ ReadsWithin [s] v)
  writes : ∀ v, v.Shared stage.kind → (v ∈ s.writes ↔ WritesWithin [s] v)
  allReads : ∀ v, v.Shared stage.kind →
    (stage.Reads [s] v ↔ v ∈ s.reads ∨ ∃ g, stage.Calls [s] g ∧ ∃ t ∈ g.code, v ∈ t.reads)
  allWrites : ∀ v, v.Shared stage.kind →
    (stage.Writes [s] v ↔ v ∈ s.writes ∨ ∃ g, stage.Calls [s] g ∧ ∃ t ∈ g.code, v ∈ t.writes)
  calleeReads : ∀ g ∈ stage.functions, CallsWithin [s] g.signature →
    ((∀ v, v.Shared stage.kind → stage.Reads g.code v → v ∈ s.reads) ↔
      ∀ v, v.Shared stage.kind → stage.Reads g.code v → ReadsWithin [s] v)
  calleeWrites : ∀ g ∈ stage.functions, CallsWithin [s] g.signature →
    ((∀ v, v.Shared stage.kind → stage.Writes g.code v → v ∈ s.writes) ↔
      ∀ v, v.Shared stage.kind → stage.Writes g.code v → WritesWithin [s] v)

/-- A function fills the output of its stage with a uniform, and the main function calls it. -/
def paintingScript : Script :=
  ⟨"painting", [
    .act (.uniform "tint" (.float .four)) [some "tint"],
    .buildStage .fragment [
      .declare (.output "color" (.float .four)) [some "color"],
      .function ⟨some "paint", [], none, [], none, false⟩
        [.act (.assign (.var "color") (.var "tint")) []] [some "paint"],
      .main [.act (.invoke "paint" [] false) []]]]⟩

theorem Program.Built.blindToCalls {p : Program} (hp : p.Built) {stage : Stage}
    (hstage : stage ∈ p.stages) {f : Function} (hf : f ∈ stage.definitions)
    {path : List ScopeId} {s : Stmt} (hs : Nested f.body.statements path s) :
    stage.BlindToCalls s := by
  obtain ⟨V, hV, hfunctions⟩ := hp.wellScoped
  have h := (hfunctions stage hstage f hf).body.of_nested hs
  have hcallees : ∀ g ∈ stage.functions, g.WellScoped V stage.kind := fun g hg ↦
    hfunctions stage hstage g (List.mem_append_left _ hg)
  have hreads : ∀ v, v.Shared stage.kind → (v ∈ s.reads ↔ ReadsWithin [s] v) := fun v hv ↦
    h.mem_reads_iff_of_shared hV hv
  have hwrites : ∀ v, v.Shared stage.kind → (v ∈ s.writes ↔ WritesWithin [s] v) := fun v hv ↦
    h.mem_writes_iff_of_shared hV hv
  refine ⟨hreads, hwrites, fun v hv ↦ ?_, fun v hv ↦ ?_, fun g _ _ ↦ ?_, fun g _ _ ↦ ?_⟩
  · exact h.affects_iff (fun ht ↦ ht.mem_reads_iff_of_shared hV hv) hcallees
  · exact h.affects_iff (fun ht ↦ ht.mem_writes_iff_of_shared hV hv) hcallees
  · exact forall₂_congr fun v hv ↦ imp_congr_right fun _ ↦ hreads v hv
  · exact forall₂_congr fun v hv ↦ imp_congr_right fun _ ↦ hwrites v hv

theorem Program.Built.blindToCalls_painting : ∃ stage ∈ paintingScript.run.program.stages,
    ∃ f ∈ stage.definitions, ∃ s ∈ f.body.statements,
      s.invoked?.isSome = true ∧ stage.BlindToCalls s := by
  obtain ⟨stage, hstage, f, hf, s, hs, hq⟩ := Program.exists_statement
    (p := paintingScript.run.program) (q := fun s ↦ s.invoked?.isSome) (by decide +kernel)
  exact ⟨stage, hstage, f, hf, s, hs, hq,
    Program.Built.blindToCalls (.script paintingScript) hstage hf (.here hs)⟩

/-- A statement calls a function that reads one shared variable and writes another, and neither is
in its sets. -/
theorem painting_not_in_call : ∃ stage ∈ paintingScript.run.program.stages,
    ∃ f ∈ stage.definitions, ∃ s ∈ f.body.statements, ∃ g ∈ stage.functions,
      CallsWithin [s] g.signature ∧
        (∃ v, v.Shared stage.kind ∧ ReadsWithin g.body.statements v ∧ v ∉ s.reads) ∧
        ∃ v, v.Shared stage.kind ∧ WritesWithin g.body.statements v ∧ v ∉ s.writes := by
  have hfound : (paintingScript.run.program.stages.any fun stage ↦
      stage.definitions.any fun f ↦ f.body.statements.any fun s ↦ stage.functions.any fun g ↦
        s.callees.any (· = g.signature) &&
        (g.body.statements.any fun t ↦ t.readVariables.any fun v ↦
          v.scope = .program && !s.reads.toList.any (· = v)) &&
        (g.body.statements.any fun t ↦ t.writtenVariables.any fun v ↦
          v.scope = .stage stage.kind && !s.writes.toList.any (· = v))) = true := by
    decide +kernel
  simp only [List.any_eq_true, Bool.and_eq_true, decide_eq_true_eq, Bool.not_eq_true',
    List.any_eq_false] at hfound
  obtain ⟨stage, hstage, f, hf, s, hs, g, hg, ⟨⟨c, hc, rfl⟩, t, ht, v, hv, hscope, hnot⟩, u, hu,
    w, hw, hscope', hnot'⟩ := hfound
  refine ⟨stage, hstage, f, hf, s, hs, g, hg, ⟨[], s, .here List.mem_cons_self, hc⟩, ?_, ?_⟩
  · exact ⟨v, .inl hscope, ⟨[], t, .here ht, hv⟩, fun hmem ↦ hnot v hmem rfl⟩
  · exact ⟨w, .inr hscope', ⟨[], u, .here hu, hw⟩, fun hmem ↦ hnot' w hmem rfl⟩

end ShaderGraph
