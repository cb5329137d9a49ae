import ShaderGraph.Proofs.Draft.Scope

/-!
# Following nested scopes

A nested construction evolves from the draft that was opened for it, and when
it is over the scope around it evolves by one step: with its statement if the
construction succeeded and deferred no error, and without one otherwise.
-/

namespace ShaderGraph

variable {σ α β : Type} {C : Client σ} {R R₁ : Registry}

/-- A region has a scope of its own, which is left in any case. It fails with its deferred error. -/
theorem StageDraft.withRegion_apply (kind : RegionKind) (body : Build σ ScopeDraft α)
    (s : StageDraft) (c : σ) : withRegion kind body (s, c) =
      match body (s.opened kind, c) with
      | .ok a (t, c') =>
        match t.deferred with
        | none => .ok (a, t.region) (t.leave, c')
        | some e => .error e (t.leave, c')
      | .error e (t, c') => .error e (t.leave, c') := by
  unfold withRegion
  have hscope : Build.onResources Resources.newScope (s, c) =
      .ok (.nested s.resources.scopeCount)
        (s.withResources { s.resources with scopeCount := s.resources.scopeCount + 1 }, c) := rfl
  rw [Build.bind_ok hscope]
  rcases h : body (s.opened kind, c) with ⟨a, t, c'⟩ | ⟨e, t, c'⟩
  · have hvia : Build.via (ScopeDraft.enter (.nested s.resources.scopeCount) kind)
        (fun _ scope ↦ scope.leave) body
        (s.withResources { s.resources with scopeCount := s.resources.scopeCount + 1 }, c) =
          .ok (a, t) (t.leave, c') := Build.via_eq_ok.mpr ⟨h, rfl⟩
    rw [Build.bind_ok hvia]
    cases hdeferred : t.deferred <;> simp only [hdeferred] <;> rfl
  · have hvia : Build.via (ScopeDraft.enter (.nested s.resources.scopeCount) kind)
        (fun _ scope ↦ scope.leave) body
        (s.withResources { s.resources with scopeCount := s.resources.scopeCount + 1 }, c) =
          .error e (t.leave, c') := Build.via_eq_error.mpr ⟨t, h, rfl⟩
    exact Build.bind_error hvia

theorem ScopeDraft.withRegion_apply (kind : RegionKind) (body : Build σ ScopeDraft α)
    (s : ScopeDraft) (c : σ) : Build.onStage (StageDraft.withRegion kind body) (s, c) =
      match body (s.stage.opened kind, c) with
      | .ok a (t, c') =>
        match t.deferred with
        | none => .ok (a, t.region) (s.withStage t.leave, c')
        | some e => .error e (s.withStage t.leave, c')
      | .error e (t, c') => .error e (s.withStage t.leave, c') := by
  rw [Build.onStage, Build.on_apply, StageDraft.withRegion_apply]
  rcases body (s.stage.opened kind, c) with ⟨a, t, c'⟩ | ⟨e, t, c'⟩
  · cases hdeferred : t.deferred <;> simp only [hdeferred] <;> rfl
  · rfl

namespace ScopeDraft

variable {s : ScopeDraft} {c : σ} {K : Registry} {d : Draft}

/-- A region in a scope. Its construction may be known to evolve from a draft that is further on
than the new scope. -/
theorem follows_withRegion_bind {kind : RegionKind} {body : Build σ ScopeDraft α}
    {f : α × Region → Build σ ScopeDraft β} {P : Registry → ScopeDraft → α → Prop}
    {Q : Registry → ScopeDraft → β → Prop}
    (hbody : Follows C K d P (body (s.stage.opened kind, c)))
    (habandoned : ∀ R' t, Evolves K d R' (.scope t) →
      Evolves R (.scope s) R' (.scope (s.withStage t.leave)))
    (hf : ∀ R' t c' a, Evolves K d R' (.scope t) → C.Knows R' c' → P R' t a →
      t.deferred = none → Follows C R (.scope s) Q (f (a, t.region) (s.withStage t.leave, c'))) :
    Follows C R (.scope s) Q ((Build.onStage (StageDraft.withRegion kind body) >>= f) (s, c)) := by
  have happly := withRegion_apply kind body s c
  rcases h : body (s.stage.opened kind, c) with ⟨a, t, c'⟩ | ⟨e, t, c'⟩ <;>
    rw [h] at happly hbody
  · obtain ⟨R', hev, hc', ha⟩ := hbody
    cases hdeferred : t.deferred with
    | none =>
      simp only [hdeferred] at happly
      rw [Build.bind_ok happly]
      exact hf R' t c' a hev hc' ha hdeferred
    | some e =>
      simp only [hdeferred] at happly
      rw [Build.bind_error happly]
      exact .error (habandoned R' t hev) hc'
  · obtain ⟨R', hev, hc'⟩ := hbody
    rw [Build.bind_error happly]
    exact .error (habandoned R' t hev) hc'

theorem follows_nested_bind {kind : RegionKind} {body : Build σ ScopeDraft Unit}
    {f : Region → Build σ ScopeDraft β} {Q : Registry → ScopeDraft → β → Prop}
    (hs : s.Invariant R) (hc : C.Knows R c) (hbody : Traced C R body (fun _ _ ↦ True))
    (hf : ∀ R' t c', Evolves R (.scope (s.stage.opened kind)) R' (.scope t) → C.Knows R' c' →
      t.deferred = none → Follows C R (.scope s) Q (f t.region (s.withStage t.leave, c'))) :
    Follows C R (.scope s) Q ((nested kind body >>= f) (s, c)) := by
  rw [nested, bind_map_left]
  refine follows_withRegion_bind (hbody R le_rfl _ c (hs.stage.opened kind) hc)
    (fun R' t ↦ .abandoned) fun R' t c' _ hev hc' _ ↦ hf R' t c' hev hc'

theorem traced_branch {condition : Expr} {body : Build σ ScopeDraft Unit}
    (hcondition : condition.Known R) (hbody : Traced C R body (fun _ _ ↦ True)) :
    Traced C R (branch condition body) (fun _ _ ↦ True) := by
  intro R₁ hR s c hs hc
  refine Follows.ofExcept_bind (.refl _ _) hc fun () htype ↦ ?_
  refine follows_checkReads_bind (.refl _ _) hc fun hreads ↦ ?_
  refine follows_nested_bind hs hc (hbody.weaken hR) fun R' t c' hev hc' hend ↦ ?_
  exact .ok (.branch ⟨hcondition.mono hR, hreads⟩ (TypeClass.expect_eq_ok.mp htype) hev hend) hc'
    trivial

theorem traced_elseIf {condition : Expr} {body : Build σ ScopeDraft Unit}
    (hcondition : condition.Known R) (hbody : Traced C R body (fun _ _ ↦ True)) :
    Traced C R (elseIf condition body) (fun _ _ ↦ True) := by
  intro R₁ hR s c hs hc
  refine Follows.ofExcept_bind (.refl _ _) hc fun () htype ↦ ?_
  refine follows_checkReads_bind (.refl _ _) hc fun hreads ↦ ?_
  refine follows_nested_bind hs hc (hbody.weaken hR) fun R' t c' hev hc' hend ↦ ?_
  exact .ok (.elseIf ⟨hcondition.mono hR, hreads⟩ (TypeClass.expect_eq_ok.mp htype) hev hend) hc'
    trivial

theorem traced_otherwise {body : Build σ ScopeDraft Unit}
    (hbody : Traced C R body (fun _ _ ↦ True)) :
    Traced C R (otherwise body) (fun _ _ ↦ True) := by
  intro R₁ hR s c hs hc
  refine follows_nested_bind hs hc (hbody.weaken hR) fun R' t c' hev hc' hend ↦ ?_
  exact .ok (.otherwise hev hend) hc' trivial

theorem traced_loopWhile {condition : Expr} {body : Build σ ScopeDraft Unit}
    (hcondition : condition.Known R) (hbody : Traced C R body (fun _ _ ↦ True)) :
    Traced C R (loopWhile condition body) (fun _ _ ↦ True) := by
  intro R₁ hR s c hs hc
  refine Follows.ofExcept_bind (.refl _ _) hc fun () htype ↦ ?_
  refine follows_checkReads_bind (.refl _ _) hc fun hreads ↦ ?_
  refine follows_nested_bind hs hc (hbody.weaken hR) fun R' t c' hev hc' hend ↦ ?_
  exact .ok (.loopWhile ⟨hcondition.mono hR, hreads⟩ (TypeClass.expect_eq_ok.mp htype) hev hend)
    hc' trivial

/-- What a client makes of a loop variable: a condition, which is a truth value, and a next value
of its type. -/
def HeaderKnown (C : Client σ) (R : Registry) (type : ValueType)
    (header : Expr → σ → (Expr × Expr) × σ) : Prop :=
  ∀ R₁ v c, R ≤ R₁ → v ∈ R₁.vars → v.type = type → C.Knows R₁ c →
    ((header (.var v) c).1.1.Known R₁ ∧ (header (.var v) c).1.1.type = .bool) ∧
      ((header (.var v) c).1.2.Known R₁ ∧ (header (.var v) c).1.2.type = type) ∧
        C.Knows R₁ (header (.var v) c).2

theorem traced_loopFor {init : Expr} {header : Expr → σ → (Expr × Expr) × σ}
    {body : Expr → Build σ ScopeDraft Unit} (hinit : init.Known R)
    (hheader : HeaderKnown C R init.type header)
    (hbody : ∀ R₁ v, R ≤ R₁ → v ∈ R₁.vars → v.type = init.type →
      Traced C R₁ (body (.var v)) (fun _ _ ↦ True)) :
    Traced C R (loopFor init header body) (fun _ _ ↦ True) := by
  intro R₁ hR s c hs hc
  refine follows_checkReads_bind (.refl _ _) hc fun hreads ↦ ?_
  obtain ⟨name, q, hq, hname⟩ := freshName_spec (s.stage.opened .loop) c init.type.nameStem
  obtain ⟨v, r, hmake, htype, hscope, hkind, hnew⟩ := newVariable_spec c hq init.type .localVar
  have hR' := Registry.le_addVariable R₁ v
  have hv := Registry.mem_addVariable R₁ v
  have hstart : ((s.stage.opened .loop).introduce v r).Invariant (R₁.addVariable v) :=
    (hs.stage.opened .loop).introduce hmake hscope
  have hmade := hheader _ v c (hR.trans hR') hv htype (C.mono hR' hc)
  rcases hclient : header (.var v) c with ⟨⟨condition, update⟩, c'⟩
  rw [hclient] at hmade
  obtain ⟨⟨hcondition, hbool⟩, ⟨hupdate, hnext⟩, hc'⟩ := hmade
  -- The region evolves from the scope that the loop variable was introduced in.
  refine follows_withRegion_bind (K := R₁.addVariable v)
    (d := .scope ((s.stage.opened .loop).introduce v r))
    (P := fun _ _ x ↦ x = (v, condition, update) ∧
      ∀ e ∈ [condition, update], ((s.stage.opened .loop).introduce v r).Sees (R₁.addVariable v) e)
    ?_ (fun R' t ↦ .abandonedLoop hmake hscope hkind) fun R' t c₁ x hev hc₁ hx hend ↦ ?_
  · have hmake : Build.client (header (.var v)) ((s.stage.opened .loop).introduce v r, c) =
        .ok (condition, update) ((s.stage.opened .loop).introduce v r, c') := by
      simp only [Build.client, hclient]
    rw [Build.bind_ok hname, Build.bind_ok hnew, Build.bind_ok hmake]
    refine follows_checkReads_bind (.refl _ _) hc' fun hfirst ↦ ?_
    refine follows_checkReads_bind (.refl _ _) hc' fun hsecond ↦ ?_
    have hrun := hbody _ v (hR.trans hR') hv htype _ le_rfl _ c' hstart hc'
    refine hrun.bind fun R' _ t c₁ hev hc₁ _ ↦ .ok hev hc₁ ⟨rfl, fun e he ↦ ?_⟩
    simp only [List.mem_cons, List.not_mem_nil, or_false] at he
    rcases he with rfl | rfl
    · exact ⟨hcondition, hfirst⟩
    · exact ⟨hupdate, hsecond⟩
  · obtain ⟨rfl, hsees⟩ := hx
    exact .ok (.loopFor ⟨hinit.mono hR, hreads⟩ hmake hscope hkind htype hsees hbool hnext hev hend)
      hc₁ trivial

/-- A loop that counts has a truth value for its condition and an int for its next value. -/
theorem headerKnown_loopRange {type : ValueType} {stop : Expr} (htype : type = .int .one)
    (hstop : stop.Known R) (hstopType : stop.type = .int .one) :
    HeaderKnown C R type fun i c ↦
      ((.binary .bool .lt i stop, .binary (.int .one) .add i (.lit (.int1 1))), c) := by
  intro R₁ v c hR hv hvtype hc
  have hint : (Expr.var v).type = .int .one := hvtype.trans htype
  refine ⟨⟨?_, rfl⟩, ⟨?_, htype.symm⟩, hc⟩
  · exact .binary_of_type (.var hv) (hstop.mono hR) hint hstopType rfl
  · exact .binary_of_type (.var hv) (.lit _) hint rfl rfl

theorem traced_loopRange {first stop : Expr} {body : Expr → Build σ ScopeDraft Unit}
    (hfirst : first.Known R) (htype : first.type = .int .one) (hstop : stop.Known R)
    (hstopType : stop.type = .int .one)
    (hbody : ∀ R₁ v, R ≤ R₁ → v ∈ R₁.vars → Traced C R₁ (body (.var v)) (fun _ _ ↦ True)) :
    Traced C R (loopRange first stop body) (fun _ _ ↦ True) :=
  traced_loopFor hfirst (headerKnown_loopRange htype hstop hstopType)
    fun R₁ v hR hv _ ↦ hbody R₁ v hR hv

end ScopeDraft

/-! ## Functions -/

namespace StageDraft

variable {s : StageDraft} {c : σ}

theorem newArguments_spec (types : List ValueType) (R : Registry) (s : ScopeDraft) (c : σ) :
    ∃ args R' t, Arguments types R s args R' t ∧ newArguments types (s, c) = .ok args (t, c) ∧
      ∀ v ∈ args, v ∈ R'.vars := by
  induction types generalizing R s with
  | nil => exact ⟨[], R, s, .nil, rfl, fun v hv ↦ by cases hv⟩
  | cons type rest ih =>
    obtain ⟨name, q, hq, hname⟩ := ScopeDraft.freshName_spec s c "arg"
    obtain ⟨v, r, hmake, rfl, hscope, hkind, hnew⟩ :=
      ScopeDraft.newVariable_spec c hq type .argument
    obtain ⟨args, R', t, hargs, hrest, hmem⟩ := ih (R.addVariable v) (s.introduce v r)
    refine ⟨v :: args, R', t, .cons hmake hscope hkind hargs, ?_, fun w hw ↦ ?_⟩
    · rw [newArguments, Build.bind_ok hname, Build.bind_ok hnew, Build.bind_ok hrest]
      rfl
    · rcases List.mem_cons.mp hw with rfl | hw
      · exact Registry.mem_vars hargs.extends.1 (Registry.mem_addVariable R w)
      · exact hmem w hw

/-- The region of a function is built in a stage without frames, which come back after it. -/
theorem apart_withRegion_apply (result : Option ValueType) (body : Build σ ScopeDraft α)
    (s : StageDraft) (c : σ) : apart (withRegion (.function result) body) (s, c) =
      match body (s.openedFunction result, c) with
      | .ok a (t, c') =>
        match t.deferred with
        | none => .ok (a, t.region) (s.resumed t, c')
        | some e => .error e (s.resumed t, c')
      | .error e (t, c') => .error e (s.resumed t, c') := by
  have happly := withRegion_apply (.function result) body { s with frames := [] } c
  rw [apart, Build.on_apply, happly]
  rcases h : body (s.openedFunction result, c) with ⟨a, t, c'⟩ | ⟨e, t, c'⟩ <;>
    rw [StageDraft.openedFunction] at h <;> rw [h]
  · cases hdeferred : t.deferred <;> simp only [hdeferred] <;> rfl
  · rfl

/-- What is built in the scope of a function: its arguments and the value that it returns. -/
def functionBody (params : List ValueType)
    (body : List Variable → Build σ ScopeDraft (Option Expr)) :
    Build σ ScopeDraft (List Variable × Option Expr) := do
  let args ← newArguments params
  let value ← body args
  ScopeDraft.checkAllReads value.toList
  return (args, value)

theorem follows_functionBody (params : List ValueType) {t : ScopeDraft}
    {body : List Variable → Build σ ScopeDraft (Option Expr)} (ht : t.Invariant R)
    (hc : C.Knows R c)
    (hbody : ∀ R₁ args, R ≤ R₁ → (∀ v ∈ args, v ∈ R₁.vars) →
      Traced C R₁ (body args) (fun R' value ↦ ∀ e ∈ value, e.Known R')) :
    ∃ args R₁ start, Arguments params R t args R₁ start ∧
      Follows C R₁ (.scope start) (fun R' t' x ↦ x.1 = args ∧ ∀ e ∈ x.2, t'.Sees R' e)
        (functionBody params body (t, c)) := by
  obtain ⟨args, R₁, start, hargs, hnew, hmem⟩ := newArguments_spec params R t c
  have hstart : start.Invariant R₁ := hargs.invariant ht
  have hR := hargs.extends.1
  refine ⟨args, R₁, start, hargs, ?_⟩
  unfold functionBody
  rw [Build.bind_ok hnew]
  refine (hbody R₁ args hR hmem R₁ le_rfl start c hstart (C.mono hR hc)).bind
    fun R' value t' c' hev hc' hvalue ↦ ?_
  refine ScopeDraft.follows_checkAllReads_bind hev hc' fun hreads ↦ ?_
  exact .ok hev hc' ⟨rfl, fun e he ↦ ⟨hvalue e he, hreads e (Option.mem_toList.mpr he)⟩⟩

/-- A function that is defined. It is kept in the end, or its body is given up. -/
theorem follows_define_bind {K : Registry} {d : Draft} {name : String} {params : List ValueType}
    {result : Option ValueType} {body : List Variable → Build σ ScopeDraft (Option Expr)}
    {f : Function → Build σ StageDraft β} {Q : Registry → StageDraft → β → Prop}
    (hs : s.Invariant R) (hc : C.Knows R c)
    (hbody : ∀ R₁ args, R ≤ R₁ → (∀ v ∈ args, v ∈ R₁.vars) →
      Traced C R₁ (body args) (fun R' value ↦ ∀ e ∈ value, e.Known R'))
    (habandoned : ∀ {R₁ R₂ args start t},
      Arguments params R (s.openedFunction result) args R₁ start →
      Evolves R₁ (.scope start) R₂ (.scope t) → Evolves K d R₂ (.stage (s.resumed t)))
    (hf : ∀ {R₁ R₂ args start t value} (c'),
      Arguments params R (s.openedFunction result) args R₁ start →
      Evolves R₁ (.scope start) R₂ (.scope t) → t.deferred = none →
      (∀ e ∈ value, t.Sees R₂ e) → returnCheck name result value t.region = .ok () →
      C.Knows R₂ c' → Follows C K d Q
        (f ⟨⟨name, params, result⟩, args, t.region, value⟩ (s.resumed t, c'))) :
    Follows C K d Q ((define name params result body >>= f) (s, c)) := by
  obtain ⟨args, R₁, start, hargs, hrun⟩ :=
    follows_functionBody params (hs.openedFunction result) hc hbody
  have happly := apart_withRegion_apply result (functionBody params body) s c
  change Follows C K d Q ((((apart (withRegion (.function result) (functionBody params body)))
    >>= _) >>= f) (s, c))
  rw [bind_assoc]
  rcases h : functionBody params body (s.openedFunction result, c) with
    ⟨⟨args', value⟩, t, c'⟩ | ⟨e, t, c'⟩ <;> rw [h] at hrun happly
  · obtain ⟨R', hev, hc', hargs', hvalue⟩ := hrun
    obtain rfl : args' = args := hargs'
    cases hdeferred : t.deferred with
    | none =>
      simp only [hdeferred] at happly
      rw [Build.bind_ok happly]
      simp only [bind_assoc]
      refine Follows.ofExcept_bind (habandoned hargs hev) hc' fun () hreturn ↦ ?_
      exact hf c' hargs hev hdeferred hvalue hreturn hc'
    | some e =>
      simp only [hdeferred] at happly
      rw [Build.bind_error happly]
      exact .error (habandoned hargs hev) hc'
  · obtain ⟨R', hev, hc'⟩ := hrun
    rw [Build.bind_error happly]
    exact .error (habandoned hargs hev) hc'

theorem traced_defineFunction {name : Option String} {params : List ValueType}
    {result : Option ValueType} {body : List Variable → Build σ ScopeDraft (Option Expr)}
    (hbody : ∀ R₁ args, R ≤ R₁ → (∀ v ∈ args, v ∈ R₁.vars) →
      Traced C R₁ (body args) (fun R' value ↦ ∀ e ∈ value, e.Known R')) :
    Traced C R (defineFunction name params result body) (fun R' f ↦ f ∈ R'.signatures) := by
  intro R₁ hR s c hs hc
  unfold defineFunction
  rcases takeName_cases s c name "fun" with ⟨name', q, hq, hname⟩ | ⟨e, hname⟩
  · rw [Build.bind_ok hname]
    have hR' := Registry.le_addBody R₁ name'
    have hnamed : Evolves R₁ (.stage s) (R₁.addBody name') (.stage (s.withNames q)) :=
      .stageResources (.name hq)
    refine follows_define_bind (hs.withBody hq) (C.mono hR' hc)
      (fun R₂ args hR₂ hargs ↦ hbody R₂ args ((hR.trans hR').trans hR₂) hargs)
      (fun hargs hev ↦ hnamed.trans (.abandonedFunction hargs hev)) ?_
    intro R₂ R₃ args start t value c' hargs hev hend hvalue hreturn hc'
    exact .ok (.function hq hargs hev hend hvalue hreturn)
      (C.mono (Registry.le_addSignature _ _) hc') (Registry.mem_addSignature _ _)
  · rw [Build.bind_error hname]
    exact .error (.refl _ _) hc

theorem traced_defineMain {body : Build σ ScopeDraft Unit}
    (hbody : Traced C R body (fun _ _ ↦ True)) :
    Traced C R (defineMain body) (fun _ _ ↦ True) := by
  intro R₁ hR s c hs hc
  unfold defineMain
  rw [Build.draft_bind]
  by_cases hmain : s.main.isSome = true
  · simp only [if_pos hmain]
    exact .error (.refl _ _) hc
  · simp only [if_neg hmain]
    refine follows_define_bind hs hc (fun R₂ args hR₂ _ ↦ ?_)
      (fun hargs hev ↦ .abandonedFunction hargs hev) ?_
    · exact (hbody.weaken (hR.trans hR₂)).bind fun R₃ _ _ _ ↦ .pure fun R' _ e he ↦ by cases he
    · intro R₂ R₃ args start t value c' hargs hev hend hvalue hreturn hc'
      cases hargs
      cases value with
      | some e => cases hreturn
      | none => exact .ok (.main (Option.not_isSome_iff_eq_none.mp hmain) hev hend) hc' trivial

end StageDraft

/-! ## Blocks -/

namespace Block

theorem outputsCheck_eq_ok_iff {b : Block} {outputs : List BlockOutput} :
    b.outputsCheck outputs = .ok () ↔ ∀ out ∈ outputs, b.outputCheck out = .ok () := by
  induction outputs with
  | nil => simp [outputsCheck]
  | cons out rest ih =>
    rw [List.forall_mem_cons, ← ih, outputsCheck]
    cases b.outputCheck out <;> simp

/-- An output passes if one statement writes it, which assigns it as a whole. -/
theorem outputCheck_eq_ok_iff {b : Block} {out : BlockOutput} :
    b.outputCheck out = .ok () ↔ ∃ pre t post, b.body.statements = pre ++ t :: post ∧
      (t.writes.contains out.slot = true ∧ t.assignsWhole out.slot = true) ∧
        (∀ u ∈ pre, ¬u.writes.contains out.slot = true) ∧
          ∀ u ∈ post, ¬u.writes.contains out.slot = true := by
  have hcheck : b.outputCheck out = .ok () ↔ ∃ t,
      b.body.statements.filter (·.writes.contains out.slot) = [t] ∧
        t.assignsWhole out.slot = true := by
    simp only [outputCheck]
    constructor
    · intro h
      split at h
      · cases h
      · next hwhole =>
        split at h
        · next hlength =>
          obtain ⟨t, ht⟩ := List.length_eq_one_iff.mp hlength
          rw [ht] at hwhole
          refine ⟨t, ht, ?_⟩
          by_contra hnot
          exact hwhole (by simp [hnot])
        · cases h
    · rintro ⟨t, ht, hwhole⟩
      simp [ht, hwhole]
  rw [hcheck]
  constructor
  · rintro ⟨t, ht, hwhole⟩
    obtain ⟨pre, post, heq, hpre, hwrites, hpost⟩ := List.filter_eq_cons_iff.mp ht
    exact ⟨pre, t, post, heq, ⟨hwrites, hwhole⟩, hpre, List.filter_eq_nil_iff.mp hpost⟩
  · rintro ⟨pre, t, post, heq, ⟨hwrites, hwhole⟩, hpre, hpost⟩
    exact ⟨t, List.filter_eq_cons_iff.mpr
      ⟨pre, post, heq, hpre, hwrites, List.filter_eq_nil_iff.mpr hpost⟩, hwhole⟩

end Block

namespace BlockDraft

variable {b : BlockDraft} {c : σ}

theorem interfaceVariable_cases (b : BlockDraft) (c : σ) (name : String) (type : ValueType)
    (scope : ScopeId) (kind : VariableKind) :
    (∃ v r, b.scope.stage.resources.Makes v r ∧ v.name = b.name ++ "_" ++ name ∧ v.type = type ∧
      v.scope = scope ∧ v.kind = kind ∧ interfaceVariable name type scope kind (b, c) =
        .ok v ({ b with scope := b.scope.withResources r }, c)) ∨
      ∃ e, interfaceVariable name type scope kind (b, c) = .error e (b, c) := by
  unfold interfaceVariable
  rw [Build.draft_bind, Build.onScope, Build.on_apply, Build.onShared_apply]
  rcases Resources.makeNamed_cases b.scope.stage.resources c (b.name ++ "_" ++ name) type scope kind
    with ⟨v, r, hmake, hname, htype, hscope, hkind, h⟩ | ⟨e, h⟩
  · exact .inl ⟨v, r, hmake, hname, htype, hscope, hkind, by rw [h]⟩
  · exact .inr ⟨e, by rw [h]; rfl⟩

theorem traced_input {name : String} {type : ValueType} {value : Option Expr}
    (hvalue : ∀ e ∈ value, e.Known R) : Traced C R (input name type value)
      (fun R' v ↦ v ∈ R'.vars ∧ v.type = type) := by
  intro R₁ hR b c hb hc
  unfold input
  rw [Build.draft_bind]
  cases value with
  | none => exact .error (.refl _ _) hc
  | some e =>
    refine Follows.ofExcept_bind (.refl _ _) hc fun () htype ↦ ?_
    have hcheck := ScopeDraft.checkReads_apply e b.scope c
    cases hreads : b.scope.readsCheck e with
    | error err =>
      have happly : Build.onScope (ScopeDraft.checkReads e) (b, c) = .error err (b, c) := by
        rw [Build.onScope, Build.on_apply, hcheck, hreads]
      rw [Build.bind_error happly]
      exact .error (.refl _ _) hc
    | ok u =>
      have happly : Build.onScope (ScopeDraft.checkReads e) (b, c) = .ok () (b, c) := by
        rw [Build.onScope, Build.on_apply, hcheck, hreads]
      rw [Build.bind_ok happly]
      rcases interfaceVariable_cases b c name type b.scope.region.id .blockInput with
        ⟨v, r, hmake, hname, hvtype, hscope, hkind, h⟩ | ⟨err, h⟩
      · rw [Build.bind_ok h]
        have hmatch : e.type = v.type := (hvtype.trans (ValueType.expect_eq_ok.mp htype)).symm
        exact .ok (.blockInput ⟨(hvalue e rfl).mono hR, hreads⟩ hmatch hmake hname hscope hkind)
          (C.mono (Registry.le_addVariable R₁ v) hc) ⟨Registry.mem_addVariable R₁ v, hvtype⟩
      · rw [Build.bind_error h]
        exact .error (.refl _ _) hc

theorem traced_output (name : String) (type : ValueType) : Traced C R (output name type)
    (fun R' v ↦ v ∈ R'.vars ∧ v.type = type) := by
  intro R₁ hR b c hb hc
  unfold output
  rw [Build.draft_bind]
  rcases interfaceVariable_cases b c name type b.parent .blockOutput with
    ⟨v, r, hmake, hname, htype, hscope, hkind, h⟩ | ⟨e, h⟩
  · rw [Build.bind_ok h]
    exact .ok (.blockOutput hmake hname hscope hkind)
      (C.mono (Registry.le_addVariable R₁ v) hc) ⟨Registry.mem_addVariable R₁ v, htype⟩
  · rw [Build.bind_error h]
    exact .error (.refl _ _) hc

end BlockDraft

namespace ScopeDraft

variable {s : ScopeDraft} {c : σ}

theorem declare_outputs (outputs : List BlockOutput) (s : ScopeDraft) :
    outputs.foldl (fun s out ↦ s.declare out.slot) s =
      s.declareAll (outputs.map BlockOutput.slot) := by
  induction outputs generalizing s with
  | nil =>
    obtain ⟨stage, ⟨id, kind, statements, declared⟩, deferred⟩ := s
    simp [declareAll]
  | cons out rest ih =>
    rw [List.foldl_cons, ih]
    simp [declareAll, declare]

/-- The body of a block is built in a scope of its own, and the draft of the block is given up for
its region. -/
theorem block_withRegion_apply (name : String) (parent : ScopeId) (build : Build σ BlockDraft α)
    (s : ScopeDraft) (c : σ) :
    Build.onStage (StageDraft.withRegion .block (Build.via
      (fun scope ↦ ⟨scope, name, parent, ⟨[], []⟩⟩) (fun _ b ↦ b.scope) build)) (s, c) =
      match build (⟨s.stage.opened .block, name, parent, ⟨[], []⟩⟩, c) with
      | .ok a (b, c') =>
        match b.scope.deferred with
        | none => .ok ((a, b), b.scope.region) (s.withStage b.scope.leave, c')
        | some e => .error e (s.withStage b.scope.leave, c')
      | .error e (b, c') => .error e (s.withStage b.scope.leave, c') := by
  rw [withRegion_apply]
  simp only [Build.via]
  rcases build (⟨s.stage.opened .block, name, parent, ⟨[], []⟩⟩, c) with ⟨a, b, c'⟩ | ⟨e, b, c'⟩ <;>
    rfl

/-- The body of a new block in the scope, under a name made up from its kind. -/
def newBlock (kind : String) (s : ScopeDraft) : BlockDraft :=
  s.openedBlock (s.stage.resources.names.next kind).1 (s.stage.resources.names.next kind).2

theorem Invariant.newBlock (h : s.Invariant R) (kind : String) :
    (s.newBlock kind).Invariant (R.addBody (s.newBlock kind).name) :=
  .openedBlock h (.inl ⟨kind, rfl⟩)

/-- A block is added with its outputs declared if its body is built, defers no error and writes the
outputs as it should. Otherwise only what the body did to the stage remains. -/
theorem block_apply (kind : String) (build : Build σ BlockDraft α) (s : ScopeDraft) (c : σ) :
    block kind build (s, c) =
      match build (s.newBlock kind, c) with
      | .ok a (b, c') =>
        match b.scope.deferred,
          (b.toBlock (s.newBlock kind).name kind).outputsCheck b.interface.outputs with
        | some e, _ | none, .error e => .error e (s.withStage b.scope.leave, c')
        | none, .ok () =>
          .ok a (((s.withStage b.scope.leave).declareAll (b.interface.outputs.map
            BlockOutput.slot)).push (.block (b.toBlock (s.newBlock kind).name kind)), c')
      | .error e (b, c') => .error e (s.withStage b.scope.leave, c') := by
  have hname : Build.onShared (Resources.freshName kind) (s, c) =
      .ok (s.newBlock kind).name (s.withNames (s.stage.resources.names.next kind).2, c) := by
    rw [Build.onShared_apply]
    rfl
  have happly := block_withRegion_apply (s.newBlock kind).name s.region.id build
    (s.withNames (s.stage.resources.names.next kind).2) c
  unfold block
  rw [Build.draft_bind, Build.bind_ok hname]
  rcases h : build (s.newBlock kind, c) with ⟨a, b, c'⟩ | ⟨e, b, c'⟩ <;>
    rw [newBlock, openedBlock] at h <;>
    rw [withNames, withStage, newBlock, openedBlock, h] at happly
  · cases hdeferred : b.scope.deferred with
    | some e =>
      simp only [hdeferred] at happly ⊢
      exact Build.bind_error happly
    | none =>
      simp only [hdeferred] at happly ⊢
      refine (Build.bind_ok happly).trans ?_
      cases hcheck : (b.toBlock (s.newBlock kind).name kind).outputsCheck b.interface.outputs with
      | error e => exact Build.ofExcept_bind_error hcheck
      | ok u =>
        refine (Build.ofExcept_bind_ok hcheck).trans ?_
        rw [← declare_outputs]
        rfl
  · exact Build.bind_error happly

theorem traced_block (kind : String) {build : Build σ BlockDraft α} {Q : Registry → α → Prop}
    (hbuild : Traced C R build Q) : Traced C R (block kind build) Q := by
  intro R₁ hR s c hs hc
  have hq : s.stage.resources.names.Gives (s.newBlock kind).name
      (s.stage.resources.names.next kind).2 := .inl ⟨kind, rfl⟩
  have hR' := Registry.le_addBody R₁ (s.newBlock kind).name
  have hrun := hbuild _ (hR.trans hR') (s.newBlock kind) c (hs.newBlock kind) (C.mono hR' hc)
  rw [block_apply]
  rcases h : build (s.newBlock kind, c) with ⟨a, b, c'⟩ | ⟨e, b, c'⟩ <;> rw [h] at hrun
  · obtain ⟨R', hev, hc', ha⟩ := hrun
    cases hdeferred : b.scope.deferred with
    | some e =>
      simp only [hdeferred]
      exact .error (.abandonedBlock hq hev) hc'
    | none =>
      cases hcheck : (b.toBlock (s.newBlock kind).name kind).outputsCheck b.interface.outputs with
      | error e =>
        simp only [hdeferred, hcheck]
        exact .error (.abandonedBlock hq hev) hc'
      | ok u =>
        simp only [hdeferred, hcheck]
        exact .ok (.block hq hev hdeferred hcheck) hc' ha
  · obtain ⟨R', hev, hc'⟩ := hrun
    exact .error (.abandonedBlock hq hev) hc'

end ScopeDraft

theorem Program.traced_buildStage (kind : StageKind) {build : Build σ StageDraft Unit}
    (hbuild : Traced C R build (fun _ _ ↦ True)) :
    Traced C R (buildStage kind build) (fun _ _ ↦ True) := by
  intro R₁ hR p c hp hc
  unfold buildStage
  rw [Build.draft_bind]
  by_cases hstage : (p.stage? kind).isSome = true
  · simp only [if_pos hstage]
    exact .error (.refl _ _) hc
  · simp only [if_neg hstage]
    have hnone := Option.not_isSome_iff_eq_none.mp hstage
    refine Follows.via_bind
      (hbuild R₁ hR (.start kind p.resources) c (StageDraft.invariant_start hp.fits kind) hc)
      (fun R' _ s c' hev hc' _ ↦ .ok (.finished hnone hev) hc' trivial)
      fun R' s hev ↦ .abandonedStage hnone hev

end ShaderGraph
