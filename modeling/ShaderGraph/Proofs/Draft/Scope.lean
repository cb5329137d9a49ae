import ShaderGraph.Proofs.Draft.Stage

/-!
# Following the statements of a scope

A statement is added after its checks have passed on the very scope that it is
added to, so each operation is one step of its own kind.
-/

namespace ShaderGraph

variable {σ α : Type} {C : Client σ} {R R₁ : Registry}

theorem Build.onShared_apply (act : Build σ Resources α) (s : ScopeDraft) (c : σ) :
    Build.onShared act (s, c) =
      match act (s.stage.resources, c) with
      | .ok a (r, c') => .ok a (s.withResources r, c')
      | .error e (r, c') => .error e (s.withResources r, c') := by
  rw [onShared, onStage, on_apply, onResources, on_apply]
  rcases act (s.stage.resources, c) with ⟨a, r, c'⟩ | ⟨e, r, c'⟩ <;> rfl

namespace ScopeDraft

variable {s : ScopeDraft} {c : σ} {d : Draft} {Q : Registry → ScopeDraft → α → Prop}

def withNames (q : NamePool) (s : ScopeDraft) : ScopeDraft := s.withStage (s.stage.withNames q)

theorem takeName_cases (s : ScopeDraft) (c : σ) (wanted : Option String) (stem : String) :
    (∃ name q, s.stage.resources.names.Gives name q ∧
      Build.onShared (Resources.takeName wanted stem) (s, c) = .ok name (s.withNames q, c)) ∨
      ∃ e, Build.onShared (Resources.takeName wanted stem) (s, c) = .error e (s, c) := by
  rcases s.stage.takeName_cases c wanted stem with ⟨name, q, hq, h⟩ | ⟨e, h⟩
  · exact .inl ⟨name, q, hq, by rw [Build.onShared, Build.onStage, Build.on_apply, h]; rfl⟩
  · exact .inr ⟨e, by rw [Build.onShared, Build.onStage, Build.on_apply, h]⟩

theorem freshName_spec (s : ScopeDraft) (c : σ) (stem : String) : ∃ name q,
    s.stage.resources.names.Gives name q ∧
      Build.onShared (Resources.freshName stem) (s, c) = .ok name (s.withNames q, c) := by
  obtain ⟨name, q, hq, h⟩ := Resources.freshName_spec s.stage.resources c stem
  exact ⟨name, q, hq, by rw [Build.onShared_apply, h]; rfl⟩

theorem newVariable_spec (c : σ) {name : String} {q : NamePool}
    (hq : s.stage.resources.names.Gives name q) (type : ValueType) (kind : VariableKind) :
    ∃ v r, s.stage.resources.Makes v r ∧ v.type = type ∧ v.scope = s.region.id ∧
      v.kind = kind ∧ newVariable name type kind (s.withNames q, c) = .ok v (s.introduce v r, c) :=
  ⟨_, _, hq.makes type s.region.id kind, rfl, rfl, rfl, rfl⟩

theorem addDeclaration_spec (c : σ) {name : String} {q : NamePool}
    (hq : s.stage.resources.names.Gives name q) (type : ValueType) (init : Option Expr) :
    ∃ v r, s.stage.resources.Makes v r ∧ v.type = type ∧ v.scope = s.region.id ∧
      v.kind = .localVar ∧ addDeclaration name type init (s.withNames q, c) =
        .ok v ((s.introduce v r).push (.declare v init), c) :=
  ⟨_, _, hq.makes type s.region.id .localVar, rfl, rfl, rfl, rfl⟩

theorem checkReads_apply (e : Expr) (s : ScopeDraft) (c : σ) : checkReads e (s, c) =
    match s.readsCheck e with
    | .ok () => .ok () (s, c)
    | .error err => .error err (s, c) := by
  unfold checkReads
  rw [Build.draft_bind]
  cases h : s.readsCheck e <;> rfl

theorem follows_checkReads_bind {e : Expr} {f : Unit → Build σ ScopeDraft α}
    (h : Evolves R d R₁ (draft s)) (hc : C.Knows R₁ c)
    (hf : s.readsCheck e = .ok () → Follows C R d Q (f () (s, c))) :
    Follows C R d Q ((checkReads e >>= f) (s, c)) :=
  Follows.ofExcept_bind (r := s.readsCheck e) h hc fun () hcheck ↦ hf hcheck

theorem follows_checkAllReads_bind {es : List Expr} {f : Unit → Build σ ScopeDraft α}
    (h : Evolves R d R₁ (draft s)) (hc : C.Knows R₁ c)
    (hf : (∀ e ∈ es, s.readsCheck e = .ok ()) → Follows C R d Q (f () (s, c))) :
    Follows C R d Q ((checkAllReads es >>= f) (s, c)) := by
  induction es generalizing f with
  | nil => exact hf fun e he ↦ by cases he
  | cons e rest ih =>
    rw [checkAllReads, bind_assoc]
    refine follows_checkReads_bind h hc fun hfirst ↦ ih fun hrest ↦ hf ?_
    intro e' he'
    rcases List.mem_cons.mp he' with rfl | he'
    · exact hfirst
    · exact hrest e' he'

theorem follows_addDeclaration {name : String} {q : NamePool}
    (hq : s.stage.resources.names.Gives name q) (hc : C.Knows R c) {type : ValueType}
    {init : Option Expr} (hinit : ∀ e ∈ init, s.Sees R e ∧ e.type = type) :
    Follows C R (.scope s) (fun R' _ v ↦ v ∈ R'.vars ∧ v.type = type)
      (addDeclaration name type init (s.withNames q, c)) := by
  obtain ⟨v, r, hmake, htype, hscope, hkind, h⟩ := addDeclaration_spec c hq type init
  rw [h]
  exact .ok (.declare (fun e he ↦ htype ▸ hinit e he) hmake hscope hkind)
    (C.mono (Registry.le_addVariable R v) hc) ⟨Registry.mem_addVariable R v, htype⟩

theorem traced_declareVariable {type : ValueType} {init : Option Expr} (name : Option String)
    (hinit : ∀ e ∈ init, e.Known R) : Traced C R (declareVariable type init name)
      (fun R' v ↦ v ∈ R'.vars ∧ v.type = type) := by
  intro R₁ hR s c hs hc
  have hdeclare (hchecked : ∀ e ∈ init, s.Sees R₁ e ∧ e.type = type) :
      Follows C R₁ (.scope s) (fun R' _ v ↦ v ∈ R'.vars ∧ v.type = type)
        ((do
          let name ← Build.onShared (Resources.takeName name type.nameStem)
          addDeclaration name type init : Build σ ScopeDraft Variable) (s, c)) := by
    rcases takeName_cases s c name type.nameStem with ⟨name', q, hq, h⟩ | ⟨e, h⟩
    · rw [Build.bind_ok h]
      exact follows_addDeclaration hq hc hchecked
    · rw [Build.bind_error h]
      exact .error (.refl _ _) hc
  cases init with
  | none => exact hdeclare fun e he ↦ by cases he
  | some e =>
    refine Follows.ofExcept_bind (.refl _ _) hc fun () htype ↦ ?_
    refine follows_checkReads_bind (.refl _ _) hc fun hreads ↦ hdeclare ?_
    intro e' he'
    obtain rfl := Option.some.inj he'
    exact ⟨⟨(hinit e rfl).mono hR, hreads⟩, (ValueType.expect_eq_ok.mp htype).symm⟩

/-- A variable whose value is out of reach is declared all the same, and an error is deferred. -/
theorem bind_unseen_apply {init : Expr} {e : BuildError} (hcheck : s.readsCheck init = .error e)
    (c : σ) : ∃ v r, s.stage.resources.Makes v r ∧ v.type = init.type ∧ v.scope = s.region.id ∧
      v.kind = .localVar ∧ bind init (s, c) =
        .ok v (((s.defer e).introduce v r).push (.declare v (some init)), c) := by
  obtain ⟨name, q, hq, h⟩ := freshName_spec (s.defer e) c init.type.nameStem
  obtain ⟨v, r, hmake, htype, hscope, hkind, hadd⟩ :=
    addDeclaration_spec c hq init.type (some init)
  refine ⟨v, r, hmake, htype, hscope, hkind, ?_⟩
  unfold bind
  rw [Build.draft_bind]
  simp only [hcheck]
  rw [Build.bind_ok (show Build.change (defer e) (s, c) = .ok () (s.defer e, c) from rfl),
    Build.bind_ok h, hadd]

theorem traced_bind {init : Expr} (hinit : init.Known R) : Traced C R (bind init)
    (fun R' v ↦ v ∈ R'.vars ∧ v.type = init.type) := by
  intro R₁ hR s c hs hc
  cases hcheck : s.readsCheck init with
  | ok u =>
    obtain ⟨name, q, hq, h⟩ := freshName_spec s c init.type.nameStem
    unfold bind
    rw [Build.draft_bind]
    simp only [hcheck, Build.bind_ok h]
    refine follows_addDeclaration hq hc ?_
    intro e he
    obtain rfl := Option.some.inj he
    exact ⟨⟨hinit.mono hR, hcheck⟩, rfl⟩
  | error e =>
    obtain ⟨v, r, hmake, htype, hscope, hkind, hact⟩ := bind_unseen_apply hcheck c
    rw [hact]
    exact .ok (.declareUnseen (hinit.mono hR) hcheck htype.symm hmake hscope hkind)
      (C.mono (Registry.le_addVariable R₁ v) hc) ⟨Registry.mem_addVariable R₁ v, htype⟩

theorem traced_bindNothing (type : ValueType) : Traced C R (bindNothing type)
    (fun R' v ↦ v ∈ R'.vars ∧ v.type = type) := by
  intro R₁ hR s c hs hc
  obtain ⟨name, q, hq, h⟩ := freshName_spec s c type.nameStem
  unfold bindNothing
  rw [Build.bind_ok h]
  exact follows_addDeclaration hq hc fun e he ↦ by cases he

theorem traced_bindNamed (name : String) {init : Expr} (hinit : init.Known R) :
    Traced C R (bindNamed name init) (fun R' v ↦ v ∈ R'.vars ∧ v.type = init.type) := by
  intro R₁ hR s c hs hc
  refine follows_checkReads_bind (.refl _ _) hc ?_
  intro hreads
  rcases Resources.reserveName_cases s.stage.resources c name with ⟨q, hq, h⟩ | ⟨e, h⟩
  · have hname : Build.onShared (Resources.reserveName name) (s, c) =
        .ok () (s.withNames q, c) := by
      rw [Build.onShared_apply, h]
      rfl
    rw [Build.bind_ok hname]
    refine follows_addDeclaration hq hc ?_
    intro e he
    obtain rfl := Option.some.inj he
    exact ⟨⟨hinit.mono hR, hreads⟩, rfl⟩
  · have hname : Build.onShared (Resources.reserveName name) (s, c) = .error e (s, c) := by
      rw [Build.onShared_apply, h]
      rfl
    rw [Build.bind_error hname]
    exact .error (.refl _ _) hc

theorem follows_add {stmt : Stmt} (h : s.Admits R stmt) (hc : C.Knows R c) :
    Follows C R (.scope s) (fun _ _ _ ↦ True) (add stmt (s, c)) :=
  .ok (.add h) hc trivial

theorem traced_assign {target value : Expr} (htarget : target.Known R) (hvalue : value.Known R) :
    Traced C R (assign target value) (fun _ _ ↦ True) := by
  intro R₁ hR s c hs hc
  unfold assign
  rw [Build.draft_bind]
  refine Follows.ofExcept_bind (.refl _ _) hc fun () hcheck ↦ ?_
  exact follows_add (.assign (htarget.mono hR) (hvalue.mono hR) hcheck) hc

theorem traced_augment {target value : Expr} (op : AugmentOp) (htarget : target.Known R)
    (hvalue : value.Known R) : Traced C R (augment target op value) (fun _ _ ↦ True) := by
  intro R₁ hR s c hs hc
  unfold augment
  rw [Build.draft_bind]
  refine Follows.ofExcept_bind (.refl _ _) hc fun () hcheck ↦ ?_
  exact follows_add (.augment (htarget.mono hR) (hvalue.mono hR) hcheck) hc

theorem traced_set {target value : Expr} (op : Option AugmentOp) (htarget : target.Known R)
    (hvalue : value.Known R) : Traced C R (set target op value) (fun _ _ ↦ True) := by
  cases op with
  | none => exact traced_assign htarget hvalue
  | some op => exact traced_augment op htarget hvalue

theorem traced_addJump (statement : String) {stmt : Stmt}
    (hstmt : ∀ R' (s : ScopeDraft), s.inLoop = true → s.Admits R' stmt) :
    Traced C R (addJump statement stmt) (fun _ _ ↦ True) := by
  intro R₁ hR s c hs hc
  unfold addJump
  rw [Build.draft_bind]
  by_cases hloop : s.inLoop = true
  · simp only [if_pos hloop]
    exact follows_add (hstmt R₁ s hloop) hc
  · simp only [if_neg hloop]
    exact .error (.refl _ _) hc

theorem traced_breakLoop : Traced C R breakLoop (fun _ _ ↦ True) :=
  traced_addJump "break" fun _ _ ↦ .breakLoop

theorem traced_continueLoop : Traced C R continueLoop (fun _ _ ↦ True) :=
  traced_addJump "continue" fun _ _ ↦ .continueLoop

theorem traced_discard : Traced C R discard (fun _ _ ↦ True) := by
  intro R₁ hR s c hs hc
  unfold discard
  rw [Build.draft_bind]
  by_cases hkind : s.stage.kind = .fragment
  · simp only [if_pos hkind]
    exact follows_add (.discard hkind) hc
  · simp only [if_neg hkind]
    exact .error (.refl _ _) hc

theorem traced_leaveFunction {value : Option Expr} (hvalue : ∀ e ∈ value, e.Known R) :
    Traced C R (leaveFunction value) (fun _ _ ↦ True) := by
  intro R₁ hR s c hs hc
  unfold leaveFunction
  rw [Build.draft_bind]
  cases hresult : framesResult? s.stage.frames with
  | none => exact .error (.refl _ _) hc
  | some result =>
    refine Follows.ofExcept_bind (.refl _ _) hc fun () hcheck ↦ ?_
    refine follows_checkAllReads_bind (.refl _ _) hc ?_
    intro hreads
    refine follows_add (.leave (fun e he ↦ ?_) hresult hcheck) hc
    exact ⟨(hvalue e he).mono hR, hreads e (Option.mem_toList.mpr he)⟩

theorem traced_inlineCode (code : String) : Traced C R (inlineCode code) (fun _ _ ↦ True) :=
  fun _ _ _ _ _ hc ↦ follows_add (.inline code) hc

theorem traced_invoke {f : Signature} {args : List Expr} (hf : f ∈ R.signatures)
    (hargs : ∀ e ∈ args, e.Known R) : Traced C R (invoke f args) (fun _ _ ↦ True) := by
  intro R₁ hR s c hs hc
  refine Follows.ofExcept_bind (.refl _ _) hc fun () hcheck ↦ ?_
  refine follows_checkAllReads_bind (.refl _ _) hc ?_
  intro hreads
  refine follows_add (.invoke (Registry.mem_signatures hR hf) (fun e he ↦ ?_) hcheck) hc
  exact ⟨(hargs e he).mono hR, hreads e he⟩

theorem traced_checkReads (e : Expr) : Traced C R (checkReads e) (fun _ _ ↦ True) :=
  Traced.getDraft.bind fun _ _ _ _ ↦ .ofExcept fun _ _ _ _ ↦ trivial

end ScopeDraft

end ShaderGraph
