import ShaderGraph.Program.Listing
import ShaderGraph.Proofs.Listing.Statements

/-!
# Listings with and without effects

A program is listed with the effects of its statements or without. What stands
before the markers in the one listing is the other, if nothing in the program
looks like a marker. It is not enough that no name and no inline code contain
one: a listing has blanks around them, and these can complete a marker.
-/

namespace ShaderGraph

namespace Function

/-- The statements of a function at any depth, where the value at its end is returned by one. -/
def statements (f : Function) : List Stmt := f.code.flatMap Stmt.tree

def names (f : Function) : List String :=
  f.signature.name :: f.args.map Variable.name ++ f.statements.flatMap Stmt.names

end Function

namespace Stage

/-- The variables that the lines at the top of a stage declare. -/
def declared (s : Stage) : List Variable := s.attributes ++ s.outputs ++ s.builtins

def names (s : Stage) : List String :=
  s.declared.map Variable.name ++ s.definitions.flatMap Function.names

end Stage

namespace Program

/-- The variables that the lines at the top of a program declare. -/
def declared (p : Program) : List Variable := p.resources.uniforms ++ p.resources.interStage

/-- The statements of a program, in all functions and at any depth. -/
def statements (p : Program) : List Stmt :=
  p.stages.flatMap fun s ↦ s.definitions.flatMap Function.statements

/-- All names that stand in a program. -/
def names (p : Program) : List String :=
  p.name :: p.declared.map Variable.name ++ p.stages.flatMap Stage.names

def inlineCodes (p : Program) : List String := p.statements.filterMap Stmt.inlineCode?

end Program

/-! ## Clean lines -/

theorem Line.clean_blank : blank.Clean := .plain 0 .of_empty

theorem Variable.clean_line {v : Variable} (hv : Unmarked v.name) (depth : Nat)
    {qualifier : String} (hqualifier : '/' ∉ qualifier.toList) : (v.line depth qualifier).Clean :=
  have hdeclaration := Unmarked.blank hqualifier (unmarked_declaration hv)
  .plain depth (hdeclaration.before ";" (by decide))

theorem Variable.clean_lines {vs : List Variable} (hvs : ∀ v ∈ vs, Unmarked v.name) (depth : Nat)
    {qualifier : String} (hqualifier : '/' ∉ qualifier.toList) :
    ∀ l ∈ vs.map (Variable.line depth qualifier), l.Clean :=
  List.forall_mem_map.mpr fun v hv ↦ clean_line (hvs v hv) depth hqualifier

namespace Function

theorem unmarked_head {f : Function} (hname : Unmarked f.signature.name)
    (hargs : ∀ v ∈ f.args, Unmarked v.name) : Unmarked f.head := by
  have hdeclarations : ∀ s ∈ f.args.map Variable.declaration, Unmarked s :=
    List.forall_mem_map.mpr fun v hv ↦ v.unmarked_declaration (hargs v hv)
  have hcall {result : String} (hresult : '/' ∉ result.toList) : Unmarked (result ++ " " ++
      f.signature.name ++ "(" ++ commaSeparated (f.args.map Variable.declaration) ++ r") {") :=
    have hopened := (Unmarked.blank hresult hname).join "(" (.commaSeparated hdeclarations)
      (by decide)
    hopened.before r") {" (by decide)
  unfold head
  split
  · exact hcall (ValueType.slash_notMem_text _)
  · exact hcall (by decide)

theorem clean_lines {f : Function} (hname : Unmarked f.signature.name)
    (hargs : ∀ v ∈ f.args, Unmarked v.name) (hstatements : ∀ u ∈ f.statements, u.Plain)
    (depth : Nat) : ∀ l ∈ f.lines depth, l.Clean := by
  have hcode : ∀ s ∈ f.code, ∀ u ∈ s.tree, u.Plain := fun s hs u hu ↦
    hstatements u (List.mem_flatMap.mpr ⟨s, hs, hu⟩)
  have hbody : ∀ l ∈ f.body.lines (depth + 1), l.Clean :=
    Region.clean_lines (fun s hs ↦ hcode s (List.mem_append_left _ hs)) (depth + 1)
  have hend : ∀ l ∈ [Line.plain depth r"}"], l.Clean :=
    List.forall_mem_singleton.mpr (.plain depth (by decide))
  unfold lines
  refine List.forall_mem_cons.mpr ⟨.plain depth (unmarked_head hname hargs),
    List.forall_mem_append.mpr ⟨List.forall_mem_append.mpr ⟨hbody, ?_⟩, hend⟩⟩
  split
  · next value heq =>
    have hreturn : (Stmt.leave f.result).Plain :=
      hcode _ (List.mem_append_right _ List.mem_cons_self) _ List.mem_cons_self
    have hvalue := hreturn.operand (e := value) (Option.mem_toList.mpr heq)
    exact List.forall_mem_singleton.mpr
      (.plain _ ((hvalue.behind "return " (by decide)).before ";" (by decide)))
  · nofun

end Function

theorem Stage.clean_lines {s : Stage} (hdeclared : ∀ v ∈ s.declared, Unmarked v.name)
    (hdefinitions : ∀ f ∈ s.definitions, ∀ l ∈ f.lines 1, l.Clean) : ∀ l ∈ s.lines, l.Clean := by
  have hstart : Unmarked (s.kind.text ++ r" stage {") := by cases s.kind <;> decide
  have hend : ∀ l ∈ [Line.plain 0 r"}"], l.Clean :=
    List.forall_mem_singleton.mpr (.plain 0 (by decide))
  have hattributes := Variable.clean_lines
    (fun v hv ↦ hdeclared v (List.mem_append_left _ (List.mem_append_left _ hv))) 1
    (by decide : '/' ∉ "in".toList)
  have houtputs := Variable.clean_lines
    (fun v hv ↦ hdeclared v (List.mem_append_left _ (List.mem_append_right _ hv))) 1
    (by decide : '/' ∉ "out".toList)
  have hbuiltins := Variable.clean_lines
    (fun v hv ↦ hdeclared v (List.mem_append_right _ hv)) 1 (by decide : '/' ∉ "builtin".toList)
  have hfunctions : ∀ l ∈ s.definitions.flatMap (fun f ↦ .blank :: f.lines 1), l.Clean :=
    List.forall_mem_flatMap.mpr fun f hf ↦
      List.forall_mem_cons.mpr ⟨Line.clean_blank, hdefinitions f hf⟩
  have htop := List.forall_mem_append.mpr
    ⟨List.forall_mem_append.mpr ⟨hattributes, houtputs⟩, hbuiltins⟩
  exact List.forall_mem_cons.mpr ⟨.plain 0 hstart, List.forall_mem_append.mpr
    ⟨List.forall_mem_append.mpr ⟨htop, hfunctions⟩, hend⟩⟩

namespace Program

variable {p : Program}

theorem plain_of_mem_statements (hnames : ∀ name ∈ p.names, Unmarked name ∧ '\n' ∉ name.toList)
    (hcodes : ∀ code ∈ p.inlineCodes, Unmarked code) {u : Stmt} (hu : u ∈ p.statements) :
    u.Plain where
  names name hname := by
    obtain ⟨s, hs, hu⟩ := List.mem_flatMap.mp hu
    obtain ⟨f, hf, hu⟩ := List.mem_flatMap.mp hu
    have hfunction : name ∈ f.names :=
      List.mem_append_right _ (List.mem_flatMap.mpr ⟨u, hu, hname⟩)
    have hstage : name ∈ s.names :=
      List.mem_append_right _ (List.mem_flatMap.mpr ⟨f, hf, hfunction⟩)
    exact hnames name (List.mem_append_right _ (List.mem_flatMap.mpr ⟨s, hs, hstage⟩))
  code code hcode := hcodes code (List.mem_filterMap.mpr ⟨u, hu, hcode⟩)

theorem clean_lines (hnames : ∀ name ∈ p.names, Unmarked name ∧ '\n' ∉ name.toList)
    (hcodes : ∀ code ∈ p.inlineCodes, Unmarked code) : ∀ l ∈ p.lines, l.Clean := by
  have hname : Unmarked p.name := (hnames p.name List.mem_cons_self).1
  have hdeclared : ∀ v ∈ p.declared, Unmarked v.name := fun v hv ↦
    (hnames _ (List.mem_append_left _ (List.mem_cons_of_mem _ (List.mem_map_of_mem hv)))).1
  have hstages : ∀ s ∈ p.stages, ∀ name ∈ s.names, Unmarked name := fun s hs name hname ↦
    (hnames name (List.mem_append_right _ (List.mem_flatMap.mpr ⟨s, hs, hname⟩))).1
  have huniforms := Variable.clean_lines
    (fun v hv ↦ hdeclared v (List.mem_append_left _ hv)) 0 (by decide : '/' ∉ "uniform".toList)
  have hinterStage := Variable.clean_lines
    (fun v hv ↦ hdeclared v (List.mem_append_right _ hv)) 0 (by decide : '/' ∉ "varying".toList)
  have hlines : ∀ l ∈ p.stages.flatMap (fun s ↦ .blank :: s.lines), l.Clean := by
    refine List.forall_mem_flatMap.mpr fun s hs ↦
      List.forall_mem_cons.mpr ⟨Line.clean_blank, Stage.clean_lines (fun v hv ↦ ?_) fun f hf ↦ ?_⟩
    · exact hstages s hs _ (List.mem_append_left _ (List.mem_map_of_mem hv))
    · have hfunction : ∀ name ∈ f.names, Unmarked name := fun name hname ↦
        hstages s hs name (List.mem_append_right _ (List.mem_flatMap.mpr ⟨f, hf, hname⟩))
      refine Function.clean_lines (hfunction _ List.mem_cons_self) (fun v hv ↦ ?_) (fun u hu ↦ ?_) 1
      · exact hfunction _ (List.mem_append_left _ (List.mem_cons_of_mem _ (List.mem_map_of_mem hv)))
      · exact plain_of_mem_statements hnames hcodes
          (List.mem_flatMap.mpr ⟨s, hs, List.mem_flatMap.mpr ⟨f, hf, hu⟩⟩)
  have htop := List.forall_mem_append.mpr ⟨huniforms, hinterStage⟩
  exact List.forall_mem_cons.mpr ⟨.plain 0 (hname.behind "program " (by decide)),
    List.forall_mem_append.mpr ⟨htop, hlines⟩⟩

/-- If no name and no inline code of a program has a marker, with the blanks around it, and no name
has a line break, then the lines of the listing with effects, up to the first marker in each, are
the lines of the listing without effects. -/
theorem cut_text (p : Program) (hnames : ∀ name ∈ p.names, Unmarked name ∧ '\n' ∉ name.toList)
    (hcodes : ∀ code ∈ p.inlineCodes, Unmarked code) :
    (textLines (p.text .effects)).map beforeMarker = textLines (p.text .none) :=
  cut_listingText (clean_lines hnames hcodes)

end Program

/-- A conditional in a block in a loop, with code that looks like the start of a marker. -/
def nestingScript : Script :=
  ⟨"nesting", [
    .act (.uniform "limit" (.int .one)) [some "limit"],
    .buildStage .fragment [
      .function ⟨some "twice", [.int .one], some (.int .one), ["n"],
        some (.binary .add (.var "n") (.var "n")), false⟩ [] [some "twice"],
      .main [
        .act (.bind (.lit (.int1 0))) [some "x"],
        .loopRange "i" (.lit (.int1 0)) (.var "limit") [
          .block "step" [
            .input "in" (.int .one) (some (.var "i")) none false [some "in"],
            .output "out" (.int .one) [some "out"],
            .scope (.act (.assign (.var "out") (.callHandle "twice" [.var "in"])) []),
            .scope (.branch .checked (.binary .lt (.var "out") (.lit (.int1 4)))
              [.act (.inline "x //") []]
              (.elseIf (.binary .lt (.var "in") (.lit (.int1 2)))
                [.act (.augment (.var "x") .div (.lit (.int1 3))) []]
              (.otherwise [.loopWhile (.lit (.bool1 true)) [.act .breakLoop []]])))]]]]]⟩

theorem Program.cut_text_nesting :
    (nestingScript.run.program.statements.length = 11 ∧
      nestingScript.run.program.inlineCodes = ["x //"]) ∧
    (textLines (nestingScript.run.program.text .effects)).map beforeMarker =
      textLines (nestingScript.run.program.text .none) :=
  ⟨by decide +kernel,
    Program.cut_text nestingScript.run.program (by decide +kernel) (by decide +kernel)⟩

/-- No name and no inline code of a program has a marker in itself, whatever blanks are around it,
and no name has a line break. -/
def Program.MarkerFree (p : Program) : Prop :=
  (∀ name ∈ p.names, ¬marker <:+: name.toList ∧ '\n' ∉ name.toList) ∧
    ∀ code ∈ p.inlineCodes, ¬marker <:+: code.toList

instance (p : Program) : Decidable p.MarkerFree := inferInstanceAs (Decidable (_ ∧ _))

/-- A program whose name is all of a marker but its first blank. -/
def slashedScript : Script := ⟨"// reads: p", []⟩

/-- A main function with code that ends in all of a marker but its last blank. -/
def trailingScript : Script :=
  ⟨"trailing", [.buildStage .fragment [.main [.act (.inline "x // reads:") []]]]⟩

/-- The blank before a name and the one after inline code complete a marker. -/
theorem Program.blanks_complete_marker :
    (slashedScript.run.program.MarkerFree ∧
      (textLines (slashedScript.run.program.text .effects)).map beforeMarker ≠
        textLines (slashedScript.run.program.text .none)) ∧
    trailingScript.run.program.MarkerFree ∧
      (textLines (trailingScript.run.program.text .effects)).map beforeMarker ≠
        textLines (trailingScript.run.program.text .none) := by
  decide +kernel

end ShaderGraph
