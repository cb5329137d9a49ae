import ShaderGraph.Proofs.Containment
import ShaderGraph.Proofs.Draft.Acceptance
import ShaderGraph.Proofs.Expr.Typed

/-!
# Typing

Each form of statement is checked in its own way, by classes of types or by
types alone, and against the nearest function around it if it returns from one.
Together these checks are a type system. Where clients put expressions together
by the checked constructors only, stages are well typed throughout when they
are finished, and so are those that the library builds itself.
-/

namespace ShaderGraph

/-- The types of a statement fit, in a function with such a result. -/
def Stmt.WellTyped (result : Option ValueType) : Stmt → Prop
  | .declare v init => ∀ e ∈ init, e.type = v.type
  | .assign target value => value.type = target.type
  | .augment target op value => op.binary.resultType target.type value.type = .ok target.type
  | .branch condition _ otherwise => ∀ e ∈ condition :: otherwise.conditions, e.type = .bool
  | .loopFor v init condition update _ =>
    init.type = v.type ∧ condition.type = .bool ∧ update.type = v.type
  | .loopWhile condition _ => condition.type = .bool
  | .leave value => value.map Expr.type = result
  | .block b => ∀ i ∈ b.inputs, i.value.type = i.slot.type
  | .invoke f args => args.map Expr.type = f.params
  | .breakLoop | .continueLoop | .discard | .inline _ => True

/-- The types of all statements and expressions in a function fit. It gives a value of its type
at the end, or no value if it has no type, or ends with a statement that does. -/
structure Function.WellTyped (f : Function) : Prop where
  statements : ∀ path s, Nested f.body.statements path s → s.WellTyped f.signature.result
  expressions : ∀ path e, f.Located path e → e.Checked
  result : f.result.map Expr.type = f.signature.result ∨
    f.result = none ∧ StageDraft.endsWithValue f.body = true

structure Stage.WellTyped (stage : Stage) : Prop where
  definitions : ∀ f ∈ stage.definitions, f.WellTyped
  main : ∀ f ∈ stage.main, f.signature.result = none ∧ f.result = none

theorem ScopeDraft.leaveCheck_eq_ok {result : Option ValueType} {value : Option Expr} :
    leaveCheck result value = .ok () ↔ value.map Expr.type = result := by
  cases result <;> cases value <;> simp [leaveCheck]

theorem StageDraft.returnCheck_eq_ok {name : String} {result : Option ValueType}
    {value : Option Expr} {body : Region} : returnCheck name result value body = .ok () ↔
      value.map Expr.type = result ∨ value = none ∧ result.isSome = true ∧
        endsWithValue body = true := by
  cases result with
  | none => cases value <;> simp [returnCheck]
  | some t => cases value <;> simp [returnCheck, @eq_comm _ t]

/-! ## Accepted statements -/

namespace Stmt.Accepted

variable {R : Registry} {k : StageKind} {frames : List Frame} {s : Stmt}

theorem known (h : s.Accepted R k frames) {e : Expr} (he : e ∈ s.operands ∨ e ∈ s.header) :
    e.Known R := by
  cases h with
  | declare hinit => exact (hinit e (by simpa [operands, header] using he)).1
  | assign htarget hvalue | augment htarget hvalue =>
    rcases he with he | he
    · rcases List.mem_cons.mp he with rfl | he
      · exact htarget
      · exact List.mem_singleton.mp he ▸ hvalue
    · cases he
  | branch hconditions => exact (hconditions e (he.resolve_right List.not_mem_nil)).1
  | loopFor hinit hcondition hupdate =>
    rcases he with he | he
    · exact List.mem_singleton.mp he ▸ hinit.1
    · rcases List.mem_cons.mp he with rfl | he
      · exact hcondition.1
      · exact List.mem_singleton.mp he ▸ hupdate.1
  | loopWhile hcondition =>
    exact List.mem_singleton.mp (he.resolve_right List.not_mem_nil) ▸ hcondition.1
  | leave hvalue => exact hvalue e (by simpa [operands, header] using he)
  | block hinputs =>
    obtain ⟨i, hi, rfl⟩ := List.mem_map.mp (he.resolve_left List.not_mem_nil)
    exact (hinputs i hi).1
  | invoke _ hargs => exact hargs e (he.resolve_right List.not_mem_nil)
  | breakLoop | continueLoop | discard | inline => cases he <;> contradiction

theorem wellTyped {result : Option ValueType} (h : s.Accepted R k frames)
    (hresult : ScopeDraft.framesResult? frames = some result) : s.WellTyped result := by
  cases h with
  | declare hinit => exact fun e he ↦ (hinit e he).2
  | assign _ _ _ htype => exact htype.symm
  | augment _ _ _ htype => exact htype
  | branch hconditions => exact fun e he ↦ (hconditions e he).2
  | loopFor hinit hcondition hupdate => exact ⟨hinit.2, hcondition.2, hupdate.2⟩
  | loopWhile hcondition => exact hcondition.2
  | leave _ hfound hcheck =>
    obtain rfl := Option.some.inj (hfound.symm.trans hresult)
    exact ScopeDraft.leaveCheck_eq_ok.mp hcheck
  | block hinputs => exact fun i hi ↦ (hinputs i hi).2
  | invoke _ _ hcheck => exact Signature.checkArgs_eq_ok.mp hcheck
  | breakLoop | continueLoop | discard | inline => trivial

end Stmt.Accepted

theorem Function.Accepted.wellTyped {R : Registry} {k : StageKind} {f : Function}
    (h : f.Accepted R k) (hR : R.checked) : f.WellTyped where
  statements path s hs := by
    obtain ⟨frames, hs, hframes⟩ := h.body.of_nested hs
    have hresult : ScopeDraft.framesResult? frames = some f.signature.result := by
      rw [hframes]
      simp [ScopeDraft.framesResult?, Region.frame, h.kind]
    exact hs.wellTyped hresult
  expressions path e he := by
    have hknown : e.Known R := by
      cases he with
      | operand ht he =>
        obtain ⟨frames, ht, -⟩ := h.body.of_nested ht
        exact ht.known (.inl he)
      | header ht _ he =>
        obtain ⟨frames, ht, -⟩ := h.body.of_nested ht
        exact ht.known (.inr he)
      | result he => exact h.result e he
    exact hknown.checked hR
  result := (StageDraft.returnCheck_eq_ok.mp h.returned).imp_right fun h ↦ ⟨h.1, h.2.2⟩

theorem Stage.Accepted.wellTyped {R : Registry} {stage : Stage} (h : stage.Accepted R)
    (hR : R.checked) : stage.WellTyped where
  definitions f hf := by
    rcases List.mem_append.mp hf with hf | hf
    · exact (h.functions f hf).wellTyped hR
    · exact (h.main f (Option.mem_toList.mp hf)).1.wellTyped hR
  main f hf := by
    obtain ⟨hmain, hresult⟩ := h.main f hf
    refine ⟨hresult, ?_⟩
    rcases (hmain.wellTyped hR).result with hvalue | ⟨hvalue, -⟩
    · exact Option.map_eq_none_iff.mp (hvalue.trans hresult)
    · exact hvalue

/-- A script puts expressions together by checked constructors only. -/
def Script.Checked (s : Script) : Prop := ∀ t ∈ s.terms, t.isChecked = true

instance (s : Script) : Decidable s.Checked :=
  inferInstanceAs (Decidable (∀ t ∈ s.terms, t.isChecked = true))

/-- A program was built by a checked script, or by the library as an unlit program. -/
inductive Program.BuiltChecked : Program → Prop
  | script {s : Script} (h : s.Checked) : BuiltChecked s.run.program
  | unlit {cfg : UnlitConfig} {p : Program} (h : cfg.program = .ok p) : BuiltChecked p

theorem Program.BuiltChecked.evolves {p : Program} (h : p.BuiltChecked) :
    ∃ name R, Evolves (.start Set.univ True) (.program (.new name)) R (.program p) := by
  cases h with
  | @script s h =>
    have hpermitted : ∀ t ∈ s.terms, t.Permitted (.start Set.univ True) := fun t ht ↦
      ⟨fun _ ↦ h t ht, fun f _ ↦ Set.mem_univ f⟩
    exact ⟨s.name, s.evolves_run hpermitted⟩
  | unlit h => exact ⟨_, UnlitConfig.evolves_program h _ _⟩

/-- A script with most forms of statements, and a function that returns from within a loop. -/
def typingScript : Script :=
  ⟨"typing", [
    .act (.uniform "scale" (.int .one)) [some "scale"],
    .buildStage .fragment [
      .function ⟨some "pick", [.int .one], some (.int .one), ["n"],
        some (.unary .neg (.var "n")), false⟩ [
        .loopWhile (.binary .lt (.var "n") (.var "scale")) [
          .branch .checked (.binary .eq (.var "n") (.lit (.int1 2)))
            [.act (.leave (some (.binary .mul (.var "n") (.var "scale")))) []]
            (.otherwise [.act .breakLoop []])]] [some "pick"],
      .main [
        .act (.bind (.lit (.int1 1))) [some "x"],
        .loopFor "i" (.var "x") (.binary .lt (.var "i") (.var "scale"))
          (.binary .add (.var "i") (.lit (.int1 1))) [
          .act (.augment (.var "x") .add (.callHandle "pick" [.var "i"])) [],
          .act (.invoke "pick" [.var "x"] false) []],
        .block "kind" [
          .input "in" (.int .one) (some (.var "x")) none false [some "in"],
          .output "out" (.int .one) [some "out"],
          .scope (.act (.assign (.var "out") (.var "in")) [])],
        .act (.leave none) []]]]⟩

/-- Nothing of wrong type gets into a finished stage, however constructions fail on the way. -/
theorem Program.BuiltChecked.type_safe {p : Program} (h : p.BuiltChecked) {stage : Stage}
    (hstage : stage ∈ p.stages) : stage.WellTyped := by
  obtain ⟨name, R, hev⟩ := h.evolves
  have hnew : (Draft.program (.new name)).Accepted (.start Set.univ True) := fun s hs ↦ by cases hs
  have hchecked : R.checked := (Registry.checked_iff hev.extends.1).mp trivial
  exact (hev.accepted hnew stage hstage).wellTyped hchecked

theorem Program.BuiltChecked.type_safe_typing : typingScript.Checked ∧
    ∃ stage ∈ typingScript.run.program.stages,
      stage.definitions.length = 2 ∧ stage.WellTyped := by
  have hscript : typingScript.Checked := by decide +kernel
  have hfinished : (typingScript.run.program.stages.any (·.definitions.length = 2)) = true := by
    decide +kernel
  obtain ⟨stage, hstage, hlength⟩ := List.any_eq_true.mp hfinished
  exact ⟨hscript, stage, hstage, by simpa using hlength,
    Program.BuiltChecked.type_safe (.script hscript) hstage⟩

end ShaderGraph
