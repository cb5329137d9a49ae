import ShaderGraph.Proofs.Kit.Unlit
import ShaderGraph.Proofs.Script.Known

/-!
# Following scripts

Every step of a script follows the operations of drafts and gives an answer
that the script may use. As the steps nest in one another, so does the argument.
-/

namespace ShaderGraph

open Scripted

/-- A construction by a script, made of terms from a set, that gives a usable answer. -/
def Answers {S : Type} [Drafted S] (T : Set Term) (R : Registry) (act : Scripted S Answer) : Prop :=
  Traced (Ledger.clientFor T) R act (fun R' a ↦ a.Known R')

def Runs {S : Type} [Drafted S] (T : Set Term) (R : Registry) (act : Scripted S Unit) : Prop :=
  Traced (Ledger.clientFor T) R act (fun _ _ ↦ True)

namespace Scripted

variable {S α β : Type} [Drafted S] {T : Set Term} {R : Registry} {Q : Registry → β → Prop}

theorem traced_note {f : Ledger → Ledger}
    (hf : ∀ R' l, R ≤ R' → l.KnownFor T R' → (f l).KnownFor T R') :
    Runs T R (note f : Scripted S Unit) :=
  .client fun R' l hR hl ↦ ⟨trivial, hf R' l hR hl⟩

theorem traced_eval_bind {f : Ledger → Except BuildError α} {g : α → Scripted S β}
    (hg : ∀ R₁ l a, R ≤ R₁ → l.KnownFor T R₁ → f l = .ok a →
      Traced (Ledger.clientFor T) R₁ (g a) Q) :
    Traced (Ledger.clientFor T) R (Scripted.eval f >>= g) Q := by
  refine Traced.bind (P := fun R' a ↦ ∃ l, l.KnownFor T R' ∧ f l = .ok a) ?_
    fun R₁ a hR ⟨l, hl, ha⟩ ↦ hg R₁ l a hR hl ha
  refine Traced.bind (P := fun R' l ↦ l.KnownFor T R') (.client fun R' l _ hl ↦ ⟨hl, hl⟩)
    fun R₁ l _ hl ↦ .ofExcept fun R' a hR ha ↦ ⟨l, hl.mono hR, ha⟩

theorem answers_pure {a : Answer} (ha : a.Known R) : Answers T R (pure a : Scripted S Answer) :=
  .pure fun _ hR ↦ ha.mono hR

theorem answers_done {act : Scripted S α} {P : Registry → α → Prop}
    (h : Traced (Ledger.clientFor T) R act P) : Answers T R (act >>= fun _ ↦ pure .done) :=
  h.bind fun _ _ _ _ ↦ answers_pure (Answer.known_of_bindings_eq_nil rfl)

theorem answers_variable {act : Scripted S Variable} {P : Registry → Variable → Prop}
    (h : Traced (Ledger.clientFor T) R act (fun R' v ↦ v ∈ R'.vars ∧ P R' v)) :
    Answers T R (act >>= fun v ↦ pure (.var v)) :=
  h.bind fun _ _ _ hv ↦ answers_pure (Answer.known_var hv.1)

theorem answers_data {act : Scripted S α} {made : α → DataBlock}
    (h : Traced (Ledger.clientFor T) R act (fun R' a ↦ ∀ v ∈ (made a).vars, v ∈ R'.vars)) :
    Answers T R (act >>= fun a ↦ pure (.data (made a))) :=
  h.bind fun _ _ _ hv ↦ answers_pure (Answer.known_data hv)

/-- A question about the draft is answered by an answer that brings nothing. -/
theorem answers_draft {f : S → Answer} (hf : ∀ s, (f s).bindings = []) :
    Answers T R (Build.draft >>= fun s ↦ pure (f s)) :=
  Traced.getDraft.bind fun _ s _ _ ↦ answers_pure (Answer.known_of_bindings_eq_nil (hf s))

theorem answers_answered {a : Answer} (handles : List (Option Handle)) (ha : a.Known R) :
    Answers T R (answered handles a : Scripted S Answer) :=
  (traced_note fun _ _ hR hl ↦ hl.bindAll handles (ha.mono hR)).bind fun _ _ hR _ ↦
    answers_pure (ha.mono hR)

theorem answers_attempted {act : Scripted S Answer} (h : Answers T R act) :
    Answers T R (attempted act) := by
  refine (Traced.outcome h).bind fun R₁ r _ hr ↦ ?_
  cases r with
  | ok a => exact answers_pure (hr a rfl)
  | error e => exact answers_pure (Answer.known_of_bindings_eq_nil rfl)

theorem runs_logged {act : Scripted S Answer} (h : Answers T R act) : Runs T R (logged act) := by
  refine (Traced.outcome h).bind fun R₁ r _ _ ↦ ?_
  have hlog (a : Answer) : Runs T R₁ (note (·.log a) : Scripted S Unit) :=
    traced_note fun _ _ _ hl ↦ hl.log a
  cases r with
  | ok a => exact hlog a
  | error e => exact (hlog _).bind fun _ _ _ _ ↦ .throw

end Scripted

section Steps

variable {T : Set Term} {R : Registry}

theorem Inquiry.answers_run {S : Type} [Drafted S] (q : Inquiry) (hq : ∀ t ∈ q.terms, t ∈ T) :
    Answers T R (q.run : Scripted S Answer) := by
  cases q with
  | evaluate e =>
    exact traced_eval_bind fun R₁ l a _ hl ha ↦
      answers_pure (Answer.known_expr (Term.known_eval hl e hq ha))
  | sameData a b =>
    refine traced_eval_bind fun R₁ l _ _ _ _ ↦ traced_eval_bind fun R₂ l' _ _ _ _ ↦ ?_
    exact answers_pure (Answer.known_of_bindings_eq_nil rfl)

theorem Resources.traced_armatureVariables (maxBones : Nat) :
    Traced (Ledger.clientFor T) R (declareArmature maxBones)
      (fun R' data ↦ ∀ v ∈ (DataBlock.armature data).vars, v ∈ R'.vars) :=
  (traced_declareArmature maxBones).mono fun _ _ _ h _ hv ↦ List.mem_singleton.mp hv ▸ h.1

theorem Resources.traced_morphVariables : Traced (Ledger.clientFor T) R declareMorphWeights
    (fun R' data ↦ ∀ v ∈ (DataBlock.morphWeights data).vars, v ∈ R'.vars) :=
  traced_declareMorphWeights.mono fun _ _ _ h v hv ↦ (h v hv).1

theorem ProgramAction.answers_run (a : ProgramAction) : Answers T R a.run := by
  cases a with
  | uniform name type => exact answers_variable (Resources.traced_declareUniform name type)
  | lookup name => exact answers_draft fun _ ↦ rfl
  | taken name => exact answers_draft fun _ ↦ rfl
  | armature maxBones => exact answers_data (Resources.traced_armatureVariables maxBones)
  | morphWeights => exact answers_data Resources.traced_morphVariables
  | data kind => exact answers_data (Resources.traced_declareData kind)
  | registered kind => exact answers_draft fun _ ↦ rfl

theorem Declaration.answers_run : ∀ d : Declaration, Answers T R d.run
  | .uniform name type => answers_variable (StageDraft.traced_declareUniform name type)
  | .attribute name type kind =>
    answers_variable (StageDraft.traced_declareAttribute name type kind)
  | .output name type => answers_variable (StageDraft.traced_declareOutput name type)
  | .builtin which =>
    (StageDraft.traced_declareBuiltin which).bind fun _ _ _ hv ↦ answers_pure (Answer.known_var hv)
  | .interStage name type => answers_variable (StageDraft.traced_declareInterStage name type)
  | .armature maxBones => answers_data (Resources.traced_armatureVariables maxBones).onResources
  | .morphWeights => answers_data Resources.traced_morphVariables.onResources
  | .data kind => answers_data (Resources.traced_declareData kind).onResources

theorem Action.answers_run (a : Action) (ha : ∀ t ∈ a.terms, t ∈ T) : Answers T R a.run := by
  cases a with
  | declare type init name =>
    refine traced_eval_bind fun R₁ l e _ hl he ↦ ?_
    exact answers_variable (ScopeDraft.traced_declareVariable name
      (Term.known_evalOptional hl ha he))
  | bind init =>
    refine traced_eval_bind fun R₁ l e _ hl he ↦ ?_
    exact answers_variable (ScopeDraft.traced_bind (Term.known_eval hl init ha he))
  | bindNothing type => exact answers_variable (ScopeDraft.traced_bindNothing type)
  | bindNamed name init =>
    refine traced_eval_bind fun R₁ l e _ hl he ↦ ?_
    exact answers_variable (ScopeDraft.traced_bindNamed name (Term.known_eval hl init ha he))
  | assign target value =>
    obtain ⟨htarget, hvalue⟩ := List.forall_mem_append.mp ha
    refine traced_eval_bind fun R₁ l t _ hl ht ↦ traced_eval_bind fun R₂ l' e hR hl' he ↦ ?_
    exact answers_done (ScopeDraft.traced_assign ((Term.known_eval hl target htarget ht).mono hR)
      (Term.known_eval hl' value hvalue he))
  | augment target op value =>
    obtain ⟨htarget, hvalue⟩ := List.forall_mem_append.mp ha
    refine traced_eval_bind fun R₁ l t _ hl ht ↦ traced_eval_bind fun R₂ l' e hR hl' he ↦ ?_
    have hknown := (Term.known_eval hl target htarget ht).mono hR
    exact answers_done (ScopeDraft.traced_augment op hknown (Term.known_eval hl' value hvalue he))
  | set target op value =>
    obtain ⟨htarget, hvalue⟩ := List.forall_mem_append.mp ha
    refine traced_eval_bind fun R₁ l t _ hl ht ↦ traced_eval_bind fun R₂ l' e hR hl' he ↦ ?_
    exact answers_done (ScopeDraft.traced_set op ((Term.known_eval hl target htarget ht).mono hR)
      (Term.known_evalAs hl' hvalue he).1)
  | breakLoop => exact answers_done ScopeDraft.traced_breakLoop
  | continueLoop => exact answers_done ScopeDraft.traced_continueLoop
  | discard => exact answers_done ScopeDraft.traced_discard
  | leave value =>
    refine traced_eval_bind fun R₁ l e _ hl he ↦ ?_
    exact answers_done (ScopeDraft.traced_leaveFunction (Term.known_evalOptional hl ha he))
  | inline code => exact answers_done (ScopeDraft.traced_inlineCode code)
  | invoke function args typed =>
    refine traced_eval_bind fun R₁ l es _ hl hes ↦ traced_eval_bind fun R₂ l' f hR hl' hf ↦ ?_
    have hcall {R₃ : Registry} (hR₃ : R₂ ≤ R₃) : Answers T R₃ (do
        ScopeDraft.invoke f es
        return Answer.done) := by
      refine answers_done (ScopeDraft.traced_invoke ?_ fun e he ↦ ?_)
      · exact Registry.mem_signatures hR₃ (hl'.function hf)
      · exact (Term.known_evalAll hl args ha hes e he).mono (hR.trans hR₃)
    split
    · exact Traced.bind (P := fun _ _ ↦ True) (.ofExcept fun _ _ _ _ ↦ trivial)
        fun R₃ _ hR₃ _ ↦ hcall hR₃
    · exact hcall le_rfl
  | checkReads e =>
    refine traced_eval_bind fun R₁ l e' _ _ _ ↦ ?_
    exact answers_done (ScopeDraft.traced_checkReads e')
  | info => exact answers_draft fun _ ↦ rfl
  | armatureBlock weights joints maxBones =>
    obtain ⟨hweights, hjoints⟩ := List.forall_mem_append.mp ha
    refine traced_eval_bind fun R₁ l w _ hl hw ↦ traced_eval_bind fun R₂ l' j hR hl' hj ↦ ?_
    exact answers_variable (ArmatureBlend.traced_block
      ((Term.known_evalAs hl hweights hw).1.mono hR) (Term.known_evalAs hl' hjoints hj).1)
  | morphBlock attributes position normal tangent =>
    obtain ⟨hposition, hrest⟩ := List.forall_mem_append.mp ha
    obtain ⟨hnormal, htangent⟩ := List.forall_mem_append.mp hrest
    refine traced_eval_bind fun R₁ l p _ hl hp ↦ traced_eval_bind fun R₂ l₂ n hR₂ hl₂ hn ↦
      traced_eval_bind fun R₃ l₃ t hR₃ hl₃ ht ↦ ?_
    have hes : R₃.KnowsAll [p, n, t] := by
      intro e he
      simp only [List.mem_cons, List.not_mem_nil, or_false] at he
      rcases he with rfl | rfl | rfl
      · exact (Term.known_evalAs hl hposition hp).1.mono (hR₂.trans hR₃)
      · exact (Term.known_evalAs hl₂ hnormal hn).1.mono hR₃
      · exact (Term.known_evalAs hl₃ htangent ht).1
    refine (MorphBlend.traced_block hes).bind fun R₄ v _ hv ↦ answers_pure (Answer.known_vars ?_)
    exact fun w hw ↦ (hv.known (.var w) (List.mem_map_of_mem hw)).of_var
  | displacementBlock sources => exact answers_variable (PropertySource.traced_block sources)
  | colorVertexBlock sources => exact answers_done (ColorSource.traced_vertexBlock sources)
  | colorBlock sources => exact answers_variable (ColorSource.traced_block sources)
  | vertexBlock config model position normal tangent =>
    obtain ⟨hmodel, hrest⟩ := List.forall_mem_append.mp ha
    obtain ⟨hposition, hrest⟩ := List.forall_mem_append.mp hrest
    obtain ⟨hnormal, htangent⟩ := List.forall_mem_append.mp hrest
    refine traced_eval_bind fun R₁ l₁ m _ hl₁ hm ↦ traced_eval_bind fun R₂ l₂ p hR₂ hl₂ hp ↦
      traced_eval_bind fun R₃ l₃ n hR₃ hl₃ hn ↦ traced_eval_bind fun R₄ l₄ t hR₄ hl₄ ht ↦ ?_
    have hinputs : VertexTransform.InputsKnown R₄ ⟨config, m, p, n, t⟩ := {
      model := (Term.known_evalAs hl₁ hmodel hm).1.mono (hR₂.trans (hR₃.trans hR₄))
      position := (Term.known_evalAs hl₂ hposition hp).1.mono (hR₃.trans hR₄)
      normal := fun e he ↦ (Term.known_evalOptionalAs hl₃ hnormal hn e he).mono hR₄
      tangent := Term.known_evalOptionalAs hl₄ htangent ht }
    refine (VertexTransform.traced_block hinputs).bind fun R₅ v _ hv ↦
      answers_pure (Answer.known_vars ?_)
    exact fun w hw ↦ (hv.known (.var w) (List.mem_map_of_mem hw)).of_var

/-- What a script makes of the variable of a loop. -/
def LoopHeader.make (v : Handle) (type : ValueType) (condition update : Term) (i : Expr)
    (l : Ledger) : (Expr × Expr) × Ledger :=
  let l := l.bind v (.expr i)
  let header := LoopHeader.of l type i condition update
  ((header.condition, header.update), l)

/-- The body of a loop whose header may have failed. -/
def LoopHeader.body (type : ValueType) (condition update : Term) (steps : List ScopeStep)
    (i : Expr) : Scripted ScopeDraft Unit := do
  let l ← ledger
  match (LoopHeader.of l type i condition update).failure with
  | some e => throw e
  | none => ScopeStep.runAll steps

/-- The body of a loop that counts. -/
def LoopHeader.rangeBody (v : Handle) (steps : List ScopeStep) (i : Expr) :
    Scripted ScopeDraft Unit := do
  note (fun l ↦ l.bind v (.expr i))
  ScopeStep.runAll steps

/-- What a script makes of a loop variable is known, stand-ins included. -/
theorem LoopHeader.headerKnown (v : Handle) (type : ValueType) {condition update : Term}
    (hcondition : ∀ t ∈ condition.parts, t ∈ T) (hupdate : ∀ t ∈ update.parts, t ∈ T) :
    ScopeDraft.HeaderKnown (Ledger.clientFor T) R type
      (LoopHeader.make v type condition update) := by
  intro R₁ i l _ hi htype hl
  have hl' : (l.bind v (.expr (.var i))).KnownFor T R₁ := hl.bind v (.var hi)
  simp only [LoopHeader.make, LoopHeader.of]
  cases hc : condition.evalAs (l.bind v (.expr (.var i))) .bool with
  | error e =>
    cases hu : update.evalAs (l.bind v (.expr (.var i))) type with
    | error e' => exact ⟨⟨.lit _, rfl⟩, ⟨.var hi, htype⟩, hl'⟩
    | ok u => exact ⟨⟨.lit _, rfl⟩, Term.known_evalAs hl' hupdate hu, hl'⟩
  | ok c =>
    cases hu : update.evalAs (l.bind v (.expr (.var i))) type with
    | error e' => exact ⟨Term.known_evalAs hl' hcondition hc, ⟨.var hi, htype⟩, hl'⟩
    | ok u =>
      exact ⟨Term.known_evalAs hl' hcondition hc, Term.known_evalAs hl' hupdate hu, hl'⟩

theorem LoopHeader.runs_body {type : ValueType} {condition update : Term} {steps : List ScopeStep}
    (hsteps : ∀ R, Runs T R (ScopeStep.runAll steps)) (i : Expr) :
    Runs T R (LoopHeader.body type condition update steps i) := by
  refine Traced.bind (P := fun _ _ ↦ True) (.client fun R' l _ hl ↦ ⟨trivial, hl⟩) fun R₁ l _ _ ↦ ?_
  split
  · exact .throw
  · exact hsteps R₁

theorem LoopHeader.runs_rangeBody {steps : List ScopeStep}
    (hsteps : ∀ R, Runs T R (ScopeStep.runAll steps)) (v : Handle) {i : Variable}
    (hi : i ∈ R.vars) : Runs T R (LoopHeader.rangeBody v steps (.var i)) := by
  refine Traced.bind (traced_note fun R' l hR hl ↦ hl.bind v ?_) fun R₁ _ _ _ ↦ hsteps R₁
  exact Expr.Known.var (Registry.mem_vars hR hi)

/-- What a script builds for the body of a function. -/
def FunctionHead.body (head : FunctionHead) (steps : List ScopeStep) (args : List Variable) :
    Scripted ScopeDraft (Option Expr) := do
  note (fun l ↦ l.bindAll (head.args.map some) (args.map fun v ↦ .expr (.var v)))
  ScopeStep.runAll steps
  let value ← Scripted.eval (fun l ↦ Term.evalOptional l head.value)
  Build.ofExcept (head.takeValue value)

theorem FunctionHead.known_takeValue {head : FunctionHead} {value value' : Option Expr}
    (hvalue : ∀ e ∈ value, e.Known R) (h : head.takeValue value = .ok value') :
    ∀ e ∈ value', e.Known R := by
  unfold takeValue at h
  split at h
  · obtain ⟨e', he', h⟩ := bind_eq_ok.mp h
    obtain rfl := Except.ok.inj h
    exact fun e he ↦ Option.some.inj he ▸ .convert (hvalue _ rfl) he'
  · exact Except.ok.inj h ▸ hvalue

theorem FunctionHead.traced_body {head : FunctionHead} {steps : List ScopeStep}
    (hhead : ∀ t ∈ Term.partsOfOption head.value, t ∈ T)
    (hsteps : ∀ R, Runs T R (ScopeStep.runAll steps)) {args : List Variable}
    (hargs : ∀ v ∈ args, v ∈ R.vars) : Traced (Ledger.clientFor T) R (head.body steps args)
      (fun R' value ↦ ∀ e ∈ value, e.Known R') := by
  -- The arguments are bound first, and then the steps of the body are run.
  have hbound : Runs T R (note (fun l ↦
      l.bindAll (head.args.map some) (args.map fun v ↦ .expr (.var v))) :
        Scripted ScopeDraft Unit) := by
    refine traced_note fun R' l hR' hl ↦ hl.bindAll _ fun b hb ↦ ?_
    obtain ⟨v, hv, rfl⟩ := List.mem_map.mp hb
    exact Expr.Known.var (Registry.mem_vars hR' (hargs v hv))
  refine hbound.bind fun R₂ _ _ _ ↦ (hsteps R₂).bind fun R₃ _ _ _ ↦ ?_
  refine traced_eval_bind fun R₄ l value _ hl hvalue ↦ .ofExcept fun R' value' hR' htake e he ↦ ?_
  have hknown := FunctionHead.known_takeValue (Term.known_evalOptional hl hhead hvalue) htake
  exact (hknown e he).mono hR'

theorem BlockStep.known_wiredValue {type : ValueType} {typed : Bool}
    {value fallback wired : Option Expr} (hvalue : ∀ e ∈ value, e.Known R)
    (hfallback : ∀ e ∈ fallback, e.Known R)
    (h : BlockStep.wiredValue type typed value fallback = .ok wired) :
    ∀ e ∈ wired, e.Known R := by
  have horelse : ∀ e ∈ value.orElse (fun _ ↦ fallback), e.Known R := by
    cases value with
    | none => exact hfallback
    | some e => exact hvalue
  have hwired : wired = value.orElse (fun _ ↦ fallback) := by
    unfold wiredValue at h
    cases typed with
    | false => exact (Except.ok.inj h).symm
    | true =>
      obtain ⟨-, h⟩ := unit_bind_eq_ok.mp h
      obtain ⟨-, h⟩ := unit_bind_eq_ok.mp h
      exact (Except.ok.inj h).symm
  exact hwired ▸ horelse

theorem ConditionMode.known_first {mode : ConditionMode} {e e' : Expr} (he : e.Known R)
    (h : mode.first e = .ok e') : e'.Known R := by
  cases mode with
  | checked => exact Except.ok.inj h ▸ he
  | typed => exact .convert he h
  | negated =>
    obtain ⟨a, ha, hnegated⟩ := bind_eq_ok.mp h
    obtain ⟨rfl, htype⟩ := Expr.convert_eq_ok.mp ha
    have hnode : Expr.apply .not a = .ok (.unary .not a) := by
      rw [Expr.apply, htype]
      rfl
    exact Except.ok.inj hnegated ▸ .apply he hnode

theorem ConditionMode.known_later {mode : ConditionMode} {e e' : Expr} (he : e.Known R)
    (h : mode.later e = .ok e') : e'.Known R := by
  cases mode with
  | checked => exact Except.ok.inj h ▸ he
  | typed | negated => exact .convert he h

end Steps

/-! ## Steps with other steps in them -/

section Nested

variable {T : Set Term}

mutual

theorem StageStep.answers_run :
    ∀ (step : StageStep), (∀ t ∈ step.terms, t ∈ T) → ∀ R : Registry, Answers T R step.run
  | .inquire q handles, h, R => by
    rw [StageStep.run]
    rw [StageStep.terms] at h
    exact (q.answers_run h).bind fun _ _ _ ha ↦ answers_answered handles ha
  | .declare d handles, _, R => by
    rw [StageStep.run]
    exact (d.answers_run).bind fun _ _ _ ha ↦ answers_answered handles ha
  | .function head body handles, h, R => by
    rw [StageStep.run]
    rw [StageStep.terms, List.forall_mem_append] at h
    exact Traced.bind (StageDraft.traced_defineFunction fun R₁ args _ hargs ↦
      head.traced_body h.2 (fun R' ↦ ScopeStep.runs_runAll body h.1 R') hargs)
      fun R₂ f _ hf ↦ answers_answered handles (Answer.known_function hf)
  | .main body, h, R => by
    rw [StageStep.run]
    rw [StageStep.terms] at h
    exact answers_done (StageDraft.traced_defineMain (ScopeStep.runs_runAll body h R))
  | .attempt step, h, R => by
    rw [StageStep.run]
    rw [StageStep.terms] at h
    exact answers_attempted (StageStep.answers_run step h R)

theorem ScopeStep.answers_run :
    ∀ (step : ScopeStep), (∀ t ∈ step.terms, t ∈ T) → ∀ R : Registry, Answers T R step.run
  | .stage step, h, R => by
    rw [ScopeStep.run]
    rw [ScopeStep.terms] at h
    exact (StageStep.answers_run step h R).onStage
  | .act a handles, h, R => by
    rw [ScopeStep.run]
    rw [ScopeStep.terms] at h
    exact (a.answers_run h).bind fun _ _ _ ha ↦ answers_answered handles ha
  | .branch mode condition body rest, h, R => by
    rw [ScopeStep.run]
    rw [ScopeStep.terms, List.forall_mem_append, List.forall_mem_append] at h
    obtain ⟨hcondition, hbody, hrest⟩ := h
    refine traced_eval_bind fun R₁ l e _ hl he ↦ ?_
    refine Traced.bind (P := fun R' e' ↦ e'.Known R') (.ofExcept fun R' e' hR' he' ↦ ?_)
      fun R₂ e' _ he' ↦ ?_
    · exact (ConditionMode.known_first (Term.known_eval hl condition hcondition he) he').mono hR'
    refine (ScopeDraft.traced_branch he' (ScopeStep.runs_runAll body hbody R₂)).bind
      fun R₃ _ _ _ ↦ ?_
    exact answers_done (ElseSteps.runs_run mode rest hrest R₃)
  | .loopFor v init condition update body, h, R => by
    rw [ScopeStep.run]
    rw [ScopeStep.terms, List.forall_mem_append, List.forall_mem_append,
      List.forall_mem_append] at h
    obtain ⟨hinit, hcondition, hupdate, hbody⟩ := h
    refine traced_eval_bind fun R₁ l e _ hl he ↦ ?_
    refine answers_done (ScopeDraft.traced_loopFor (Term.known_eval hl init hinit he)
      (LoopHeader.headerKnown v e.type hcondition hupdate) fun R₂ i _ _ _ ↦
        LoopHeader.runs_body (fun R' ↦ ScopeStep.runs_runAll body hbody R') _)
  | .loopRange v first stop body, h, R => by
    rw [ScopeStep.run]
    rw [ScopeStep.terms, List.forall_mem_append, List.forall_mem_append] at h
    obtain ⟨hfirst, hstop, hbody⟩ := h
    refine traced_eval_bind fun R₁ l e _ hl he ↦ traced_eval_bind fun R₂ l' e' hR hl' he' ↦ ?_
    obtain ⟨hknown, htype⟩ := Term.known_evalAs hl hfirst he
    obtain ⟨hknown', htype'⟩ := Term.known_evalAs hl' hstop he'
    refine answers_done (ScopeDraft.traced_loopRange (hknown.mono hR) htype hknown' htype'
      fun R₃ i _ hi ↦
        LoopHeader.runs_rangeBody (fun R' ↦ ScopeStep.runs_runAll body hbody R') v hi)
  | .loopWhile condition body, h, R => by
    rw [ScopeStep.run]
    rw [ScopeStep.terms, List.forall_mem_append] at h
    refine traced_eval_bind fun R₁ l e _ hl he ↦ ?_
    exact answers_done (ScopeDraft.traced_loopWhile (Term.known_evalAs hl h.1 he).1
      (ScopeStep.runs_runAll body h.2 R₁))
  | .block kind body, h, R => by
    rw [ScopeStep.run]
    rw [ScopeStep.terms] at h
    refine Traced.bind (ScopeDraft.traced_block (Q := fun _ _ ↦ True) kind ?_) fun _ _ _ _ ↦
      answers_pure (Answer.known_of_bindings_eq_nil rfl)
    exact (BlockStep.runs_runAll body h R).bind fun _ _ _ _ ↦ Traced.getDraft.bind fun _ _ _ _ ↦
      .pure fun _ _ ↦ trivial
  | .attempt step, h, R => by
    rw [ScopeStep.run]
    rw [ScopeStep.terms] at h
    exact answers_attempted (ScopeStep.answers_run step h R)

theorem ElseSteps.runs_run (mode : ConditionMode) :
    ∀ (rest : ElseSteps), (∀ t ∈ rest.terms, t ∈ T) → ∀ R : Registry, Runs T R (rest.run mode)
  | .done, _, R => by
    rw [ElseSteps.run]
    exact .pure fun _ _ ↦ trivial
  | .otherwise body, h, R => by
    rw [ElseSteps.run]
    rw [ElseSteps.terms] at h
    exact ScopeDraft.traced_otherwise (ScopeStep.runs_runAll body h R)
  | .elseIf condition body rest, h, R => by
    rw [ElseSteps.run]
    rw [ElseSteps.terms, List.forall_mem_append, List.forall_mem_append] at h
    obtain ⟨hcondition, hbody, hrest⟩ := h
    refine traced_eval_bind fun R₁ l e _ hl he ↦ ?_
    refine Traced.bind (P := fun R' e' ↦ e'.Known R') (.ofExcept fun R' e' hR' he' ↦ ?_)
      fun R₂ e' _ he' ↦ ?_
    · exact (ConditionMode.known_later (Term.known_eval hl condition hcondition he) he').mono hR'
    exact (ScopeDraft.traced_elseIf he' (ScopeStep.runs_runAll body hbody R₂)).bind
      fun R₃ _ _ _ ↦ ElseSteps.runs_run mode rest hrest R₃

theorem BlockStep.answers_run :
    ∀ (step : BlockStep), (∀ t ∈ step.terms, t ∈ T) → ∀ R : Registry, Answers T R step.run
  | .scope step, h, R => by
    rw [BlockStep.run]
    rw [BlockStep.terms] at h
    exact (ScopeStep.answers_run step h R).onScope
  | .input name type value fallback typed handles, h, R => by
    rw [BlockStep.run]
    rw [BlockStep.terms, List.forall_mem_append] at h
    refine traced_eval_bind fun R₁ l e _ hl he ↦ traced_eval_bind fun R₂ l' e' hR hl' he' ↦ ?_
    refine Traced.bind (P := fun R' wired ↦ ∀ e ∈ wired, e.Known R')
      (.ofExcept fun R' wired hR' hwired x hx ↦ ?_) fun R₃ wired _ hwired ↦ ?_
    · refine (BlockStep.known_wiredValue (fun x hx ↦ ?_) (Term.known_evalOptional hl' h.2 he')
        hwired x hx).mono hR'
      exact (Term.known_evalOptional hl h.1 he x hx).mono hR
    exact (BlockDraft.traced_input hwired).bind fun _ _ _ hv ↦
      answers_answered handles (Answer.known_var hv.1)
  | .output name type handles, _, R => by
    rw [BlockStep.run]
    exact (BlockDraft.traced_output name type).bind fun _ _ _ hv ↦
      answers_answered handles (Answer.known_var hv.1)
  | .attempt step, h, R => by
    rw [BlockStep.run]
    rw [BlockStep.terms] at h
    exact answers_attempted (BlockStep.answers_run step h R)

theorem ScopeStep.runs_runAll : ∀ (steps : List ScopeStep),
    (∀ t ∈ ScopeStep.termsOfList steps, t ∈ T) → ∀ R : Registry, Runs T R (ScopeStep.runAll steps)
  | [], _, R => by
    rw [ScopeStep.runAll]
    exact .pure fun _ _ ↦ trivial
  | step :: rest, h, R => by
    rw [ScopeStep.runAll]
    rw [ScopeStep.termsOfList, List.forall_mem_append] at h
    exact (runs_logged (ScopeStep.answers_run step h.1 R)).bind fun R₁ _ _ _ ↦
      ScopeStep.runs_runAll rest h.2 R₁

theorem BlockStep.runs_runAll : ∀ (steps : List BlockStep),
    (∀ t ∈ BlockStep.termsOfList steps, t ∈ T) → ∀ R : Registry, Runs T R (BlockStep.runAll steps)
  | [], _, R => by
    rw [BlockStep.runAll]
    exact .pure fun _ _ ↦ trivial
  | step :: rest, h, R => by
    rw [BlockStep.runAll]
    rw [BlockStep.termsOfList, List.forall_mem_append] at h
    exact (runs_logged (BlockStep.answers_run step h.1 R)).bind fun R₁ _ _ _ ↦
      BlockStep.runs_runAll rest h.2 R₁

end

theorem StageStep.runs_runAll (steps : List StageStep)
    (h : ∀ t ∈ steps.flatMap StageStep.terms, t ∈ T) (R : Registry) :
    Runs T R (StageStep.runAll steps) := by
  induction steps generalizing R with
  | nil => exact .pure fun _ _ ↦ trivial
  | cons step rest ih =>
    rw [List.flatMap_cons, List.forall_mem_append] at h
    exact (runs_logged (step.answers_run h.1 R)).bind fun R₁ _ _ _ ↦ ih h.2 R₁

theorem ProgramStep.answers_run (step : ProgramStep) (h : ∀ t ∈ step.terms, t ∈ T)
    (R : Registry) : Answers T R step.run := by
  induction step with
  | inquire q handles =>
    exact (q.answers_run h).bind fun _ _ _ ha ↦ answers_answered handles ha
  | act a handles =>
    exact (a.answers_run).onProgram.bind fun _ _ _ ha ↦ answers_answered handles ha
  | buildStage kind body =>
    exact answers_done (Program.traced_buildStage kind (StageStep.runs_runAll body h R))
  | attempt step ih => exact answers_attempted (ih h)

theorem ProgramStep.runs_runAll (steps : List ProgramStep)
    (h : ∀ t ∈ steps.flatMap ProgramStep.terms, t ∈ T) (R : Registry) :
    Runs T R (ProgramStep.runAll steps) := by
  induction steps generalizing R with
  | nil => exact .pure fun _ _ ↦ trivial
  | cons step rest ih =>
    rw [List.flatMap_cons, List.forall_mem_append] at h
    exact (runs_logged (step.answers_run h.1 R)).bind fun R₁ _ _ _ ↦ ih h.2 R₁

end Nested

end ShaderGraph
