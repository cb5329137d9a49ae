import ShaderGraph.Proofs.Script.Reached

/-!
# How operations are rejected

Operations check before they change anything, and what comes after the last
check cannot be rejected. So an operation without a body changes nothing when
it is rejected, whatever the draft and the client. One with a body may be
rejected while its body is built or after that, and the stage is then left at
the point that the body came to.
-/

namespace ShaderGraph

namespace Build

variable {σ S α β : Type}

/-- A construction never changes anything. -/
def Looks (act : Build σ S α) : Prop := ∀ st, (∃ a, act st = .ok a st) ∨ ∃ e, act st = .error e st

/-- A construction is never rejected. -/
def Sure (act : Build σ S α) : Prop := ∀ st, ∃ a st', act st = .ok a st'

/-- A construction changes nothing when it is rejected. -/
def Firm (act : Build σ S α) : Prop := ∀ st e st', act st = .error e st' → st' = st

namespace Looks

theorem pure (a : α) : Looks (pure a : Build σ S α) := fun _ ↦ .inl ⟨a, rfl⟩

theorem throw (e : BuildError) : Looks (throw e : Build σ S α) := fun _ ↦ .inr ⟨e, rfl⟩

theorem draft : Looks (Build.draft : Build σ S S) := fun (s, _) ↦ .inl ⟨s, rfl⟩

theorem ofExcept (r : Except BuildError α) : Looks (Build.ofExcept r : Build σ S α) := fun st ↦ by
  cases r with
  | ok a => exact .inl ⟨a, rfl⟩
  | error e => exact .inr ⟨e, rfl⟩

theorem bind {x : Build σ S α} {f : α → Build σ S β} (hx : x.Looks) (hf : ∀ a, (f a).Looks) :
    (x >>= f).Looks := fun st ↦ by
  rcases hx st with ⟨a, h⟩ | ⟨e, h⟩
  · rw [Build.bind_ok h]
    exact hf a st
  · exact .inr ⟨e, Build.bind_error h⟩

theorem firm {act : Build σ S α} (h : act.Looks) : act.Firm := fun st e st' herror ↦ by
  rcases h st with ⟨a, hok⟩ | ⟨e', herror'⟩
  · simp [hok] at herror
  · simp_all

/-- If the construction is rejected, it is so by what comes after the look, or at once. -/
theorem bind_error {x : Build σ S α} {f : α → Build σ S β} (hx : x.Looks) {st st' : S × σ}
    {e : BuildError} (h : (x >>= f) st = .error e st') : st' = st ∨ ∃ a, f a st = .error e st' := by
  rcases hx st with ⟨a, hok⟩ | ⟨e', herror⟩
  · rw [Build.bind_ok hok] at h
    exact .inr ⟨a, h⟩
  · rw [Build.bind_error herror] at h
    simp_all

theorem bind_firm {x : Build σ S α} {f : α → Build σ S β} (hx : x.Looks) (hf : ∀ a, (f a).Firm) :
    (x >>= f).Firm := fun st e st' h ↦ by
  rcases hx.bind_error h with hst | ⟨a, ha⟩
  · exact hst
  · exact hf a st e st' ha

end Looks

namespace Sure

theorem pure (a : α) : Sure (pure a : Build σ S α) := fun st ↦ ⟨a, st, rfl⟩

theorem change (f : S → S) : Sure (Build.change f : Build σ S Unit) := fun (s, c) ↦
  ⟨(), (f s, c), rfl⟩

theorem bind {x : Build σ S α} {f : α → Build σ S β} (hx : x.Sure) (hf : ∀ a, (f a).Sure) :
    (x >>= f).Sure := fun st ↦ by
  obtain ⟨a, st', h⟩ := hx st
  rw [Build.bind_ok h]
  exact hf a st'

theorem firm {act : Build σ S α} (h : act.Sure) : act.Firm := fun st e st' herror ↦ by
  obtain ⟨a, st'', hok⟩ := h st
  simp [hok] at herror

end Sure

theorem Firm.bind_sure {x : Build σ S α} {f : α → Build σ S β} (hx : x.Firm)
    (hf : ∀ a, (f a).Sure) : (x >>= f).Firm := fun st e st' h ↦ by
  rcases hact : x st with ⟨a, st₁⟩ | ⟨e₁, st₁⟩
  · obtain ⟨b, st₂, hb⟩ := hf a st₁
    rw [Build.bind_ok hact, hb] at h
    cases h
  · rw [Build.bind_error hact] at h
    cases h
    exact hx st _ _ hact

end Build

namespace ScopeDraft

open Build

variable {σ α : Type}

theorem looks_checkReads (e : Expr) : Looks (checkReads e : Build σ ScopeDraft Unit) :=
  Looks.draft.bind fun _ ↦ .ofExcept _

theorem looks_checkAllReads (es : List Expr) :
    Looks (checkAllReads es : Build σ ScopeDraft Unit) := by
  induction es with
  | nil => exact .pure ()
  | cons e rest ih => exact (looks_checkReads e).bind fun _ ↦ ih

theorem firm_takeName (wanted : Option String) (stem : String) :
    Firm (onShared (Resources.takeName wanted stem) : Build σ ScopeDraft String) := by
  rintro ⟨s, c⟩ e st' h
  rcases takeName_cases s c wanted stem with ⟨name, q, -, hok⟩ | ⟨e', herror⟩
  · simp [hok] at h
  · simp_all

theorem sure_addDeclaration (name : String) (type : ValueType) (init : Option Expr) :
    Sure (addDeclaration name type init : Build σ ScopeDraft Variable) := fun _ ↦ ⟨_, _, rfl⟩

theorem firm_declareVariable (type : ValueType) (init : Option Expr) (name : Option String) :
    Firm (declareVariable type init name : Build σ ScopeDraft Variable) := by
  have hdeclare : Firm (do
      let name ← onShared (Resources.takeName name type.nameStem)
      addDeclaration name type init : Build σ ScopeDraft Variable) :=
    (firm_takeName name _).bind_sure fun _ ↦ sure_addDeclaration _ _ _
  cases init with
  | none => exact hdeclare
  | some e =>
    exact (Looks.ofExcept _).bind_firm fun _ ↦ (looks_checkReads e).bind_firm fun _ ↦ hdeclare

theorem firm_bindNamed (name : String) (init : Expr) :
    Firm (bindNamed name init : Build σ ScopeDraft Variable) := by
  refine (looks_checkReads init).bind_firm fun _ ↦ Firm.bind_sure ?_ fun _ ↦
    sure_addDeclaration _ _ _
  rintro ⟨s, c⟩ e st' h
  rw [onShared_apply] at h
  rcases Resources.reserveName_cases s.stage.resources c name with ⟨q, -, hok⟩ | ⟨e', herror⟩
  · simp [hok] at h
  · simp only [herror, EStateM.Result.error.injEq] at h
    exact h.2.symm

theorem firm_assign (target value : Expr) :
    Firm (assign target value : Build σ ScopeDraft Unit) :=
  Looks.draft.bind_firm fun _ ↦ (Looks.ofExcept _).bind_firm fun _ ↦ (Sure.change _).firm

theorem firm_augment (target : Expr) (op : AugmentOp) (value : Expr) :
    Firm (augment target op value : Build σ ScopeDraft Unit) :=
  Looks.draft.bind_firm fun _ ↦ (Looks.ofExcept _).bind_firm fun _ ↦ (Sure.change _).firm

theorem firm_set (target : Expr) (op : Option AugmentOp) (value : Expr) :
    Firm (set target op value : Build σ ScopeDraft Unit) := by
  cases op with
  | none => exact firm_assign target value
  | some op => exact firm_augment target op value

theorem firm_addJump (statement : String) (stmt : Stmt) :
    Firm (addJump statement stmt : Build σ ScopeDraft Unit) := by
  refine Looks.draft.bind_firm fun s ↦ ?_
  by_cases hloop : s.inLoop = true
  · simp only [if_pos hloop]
    exact (Sure.change _).firm
  · simp only [if_neg hloop]
    exact (Looks.throw _).bind_firm fun _ ↦ (Sure.change _).firm

theorem firm_discard : Firm (discard : Build σ ScopeDraft Unit) := by
  refine Looks.draft.bind_firm fun s ↦ ?_
  by_cases hkind : s.stage.kind = .fragment
  · simp only [if_pos hkind]
    exact (Sure.change _).firm
  · simp only [if_neg hkind]
    exact (Looks.throw _).bind_firm fun _ ↦ (Sure.change _).firm

theorem firm_leaveFunction (value : Option Expr) :
    Firm (leaveFunction value : Build σ ScopeDraft Unit) := by
  refine Looks.draft.bind_firm fun s ↦ ?_
  cases hresult : framesResult? s.stage.frames with
  | none => exact (Looks.throw _).firm
  | some result =>
    exact (Looks.ofExcept _).bind_firm fun _ ↦ (looks_checkAllReads _).bind_firm fun _ ↦
      (Sure.change _).firm

theorem firm_invoke (f : Signature) (args : List Expr) :
    Firm (invoke f args : Build σ ScopeDraft Unit) :=
  (Looks.ofExcept _).bind_firm fun _ ↦ (looks_checkAllReads _).bind_firm fun _ ↦
    (Sure.change _).firm

end ScopeDraft

/-! ## Bodies -/

namespace Build

variable {σ S α β : Type}

/-- What follows a construction and only looks does not matter for where it ends. -/
theorem final_bind_of_looks {x : Build σ S α} {f : α → Build σ S β} (hf : ∀ a, (f a).Looks) (s : S)
    (c : σ) : (x >>= f).final s c = x.final s c := by
  rcases h : x (s, c) with ⟨a, s', c'⟩ | ⟨e, s', c'⟩
  · rw [final_ok h]
    unfold final
    rw [Build.bind_ok h]
    rcases hf a (s', c') with ⟨b, hok⟩ | ⟨e, herror⟩
    · rw [hok]
    · rw [herror]
  · rw [final_error h, final_error (Build.bind_error h)]

theorem final_bind_ok {x : Build σ S α} {f : α → Build σ S β} {s s' : S} {c c' : σ} {a : α}
    (h : x (s, c) = .ok a (s', c')) : (x >>= f).final s c = (f a).final s' c' := by
  unfold final
  rw [Build.bind_ok h]

theorem Looks.final_bind {x : Build σ S α} {f : α → Build σ S β} (hx : x.Looks) (s : S) (c : σ) :
    (x >>= f).final s c = (s, c) ∨ ∃ a, (x >>= f).final s c = (f a).final s c := by
  rcases hx (s, c) with ⟨a, hok⟩ | ⟨e, herror⟩
  · exact .inr ⟨a, final_bind_ok hok⟩
  · exact .inl (final_error (Build.bind_error herror))

end Build

namespace ScopeDraft

open Build

variable {σ α β : Type} {s s' : ScopeDraft} {c c' : σ} {e : BuildError}

/-- If a region is rejected and nothing after it can be, its scope was built up to somewhere and
then left. -/
theorem withRegion_bind_error {kind : RegionKind} {body : Build σ ScopeDraft α}
    {f : α × Region → Build σ ScopeDraft β} (hf : ∀ a, (f a).Sure)
    (h : (onStage (StageDraft.withRegion kind body) >>= f) (s, c) = .error e (s', c')) :
    ∃ t, body.final (s.stage.opened kind) c = (t, c') ∧ s' = s.withStage t.leave := by
  have happly := withRegion_apply kind body s c
  rcases hbody : body (s.stage.opened kind, c) with ⟨a, t, c₁⟩ | ⟨e', t, c₁⟩ <;>
    rw [hbody] at happly
  · cases hdeferred : t.deferred with
    | none =>
      simp only [hdeferred] at happly
      obtain ⟨b, st, hb⟩ := hf (a, t.region) (s.withStage t.leave, c₁)
      rw [Build.bind_ok happly, hb] at h
      cases h
    | some e' =>
      simp only [hdeferred] at happly
      rw [Build.bind_error happly] at h
      cases h
      exact ⟨t, final_ok hbody, rfl⟩
  · rw [Build.bind_error happly] at h
    cases h
    exact ⟨t, final_error hbody, rfl⟩

theorem nested_bind_error {kind : RegionKind} {body : Build σ ScopeDraft Unit}
    {f : Region → Build σ ScopeDraft β} (hf : ∀ r, (f r).Sure)
    (h : (nested kind body >>= f) (s, c) = .error e (s', c')) :
    ∃ t, body.final (s.stage.opened kind) c = (t, c') ∧ s' = s.withStage t.leave := by
  rw [nested, bind_map_left] at h
  exact withRegion_bind_error (fun a ↦ hf a.2) h

/-- A conditional or a loop is rejected for its condition, or after its body was begun. -/
theorem guarded_error {kind : RegionKind} {check : Except BuildError Unit} {condition : Expr}
    {body : Build σ ScopeDraft Unit} {f : Region → Build σ ScopeDraft β} (hf : ∀ r, (f r).Sure)
    (h : (do
      Build.ofExcept check
      checkReads condition
      let region ← nested kind body
      f region : Build σ ScopeDraft β) (s, c) = .error e (s', c')) : (s', c') = (s, c) ∨
      ∃ t, body.final (s.stage.opened kind) c = (t, c') ∧ s' = s.withStage t.leave := by
  rcases (Looks.ofExcept check).bind_error h with h | ⟨-, h⟩
  · exact .inl h
  rcases (looks_checkReads condition).bind_error h with h | ⟨-, h⟩
  · exact .inl h
  exact .inr (nested_bind_error hf h)

/-- The loop variable is made in the scope of the loop, and from there the body is built if
condition and next value may be read. -/
theorem loopFor_error {init : Expr} {header : Expr → σ → (Expr × Expr) × σ}
    {body : Expr → Build σ ScopeDraft Unit}
    (h : loopFor init header body (s, c) = .error e (s', c')) : (s', c') = (s, c) ∨
      ∃ i r t, (s.stage.opened .loop).stage.resources.Makes i r ∧
        i.scope = (s.stage.opened .loop).region.id ∧ s' = s.withStage t.leave ∧
        ((t, c') = ((s.stage.opened .loop).introduce i r, (header (.var i) c).2) ∨
          (body (.var i)).final ((s.stage.opened .loop).introduce i r) (header (.var i) c).2 =
            (t, c')) := by
  rcases (looks_checkReads init).bind_error h with h | ⟨-, h⟩
  · exact .inl h
  obtain ⟨t, hfinal, hs'⟩ := withRegion_bind_error (fun _ ↦ .change _) h
  obtain ⟨name, q, hq, hname⟩ := freshName_spec (s.stage.opened .loop) c init.type.nameStem
  obtain ⟨i, r, hmake, -, hscope, -, hnew⟩ := newVariable_spec c hq init.type .localVar
  refine .inr ⟨i, r, t, hmake, hscope, hs', ?_⟩
  have hclient : Build.client (header (.var i)) ((s.stage.opened .loop).introduce i r, c) =
      .ok (header (.var i) c).1 ((s.stage.opened .loop).introduce i r, (header (.var i) c).2) := rfl
  rw [final_bind_ok hname, final_bind_ok hnew, final_bind_ok hclient] at hfinal
  rcases Looks.final_bind (looks_checkReads _) _ _ with hend | ⟨_, hend⟩
  · exact .inl (hfinal.symm.trans hend)
  rcases Looks.final_bind (looks_checkReads _) _ _ with hend' | ⟨_, hend'⟩
  · exact .inl (hfinal.symm.trans (hend.trans hend'))
  · refine .inr ?_
    rw [← hfinal, hend, hend', final_bind_of_looks fun _ ↦ .pure _]

/-- A block is rejected after its body was begun, if at all. -/
theorem block_error {kind : String} {build : Build σ BlockDraft α}
    (h : block kind build (s, c) = .error e (s', c')) :
    ∃ b, build.final (s.newBlock kind) c = (b, c') ∧ s' = s.withStage b.scope.leave := by
  rw [block_apply] at h
  rcases hbuild : build (s.newBlock kind, c) with ⟨a, b, c₁⟩ | ⟨e₁, b, c₁⟩ <;>
    rw [hbuild] at h
  · refine ⟨b, ?_⟩
    rw [final_ok hbuild]
    cases hdeferred : b.scope.deferred with
    | some e₁ =>
      simp only [hdeferred] at h
      cases h
      exact ⟨rfl, rfl⟩
    | none =>
      simp only [hdeferred] at h
      cases hcheck : (b.toBlock (s.newBlock kind).name kind).outputsCheck b.interface.outputs with
      | ok u =>
        simp only [hcheck] at h
        cases h
      | error e₁ =>
        simp only [hcheck] at h
        cases h
        exact ⟨rfl, rfl⟩
  · cases h
    exact ⟨b, final_error hbuild, rfl⟩

end ScopeDraft

namespace StageDraft

open Build

variable {σ : Type} {s s' : StageDraft} {c c' : σ} {e : BuildError}

/-- A function is defined from where its body has ended, if at all. -/
theorem define_cases (name : String) (params : List ValueType) (result : Option ValueType)
    (body : List Variable → Build σ ScopeDraft (Option Expr)) (s : StageDraft) (c : σ) :
    ∃ t c', (functionBody params body).final (s.openedFunction result) c = (t, c') ∧
      ((∃ e, define name params result body (s, c) = .error e (s.resumed t, c')) ∨
        ∃ f, f.signature = ⟨name, params, result⟩ ∧ f.body = t.region ∧
          define name params result body (s, c) = .ok f (s.resumed t, c')) := by
  have happly := apart_withRegion_apply result (functionBody params body) s c
  have hdefine : define name params result body =
      (apart (withRegion (.function result) (functionBody params body)) >>= fun x ↦
        Build.ofExcept (returnCheck name result x.1.2 x.2) >>= fun _ ↦
          pure ⟨⟨name, params, result⟩, x.1.1, x.2, x.1.2⟩) := rfl
  rw [hdefine]
  rcases h : functionBody params body (s.openedFunction result, c) with
    ⟨⟨args, value⟩, t, c'⟩ | ⟨e, t, c'⟩ <;> rw [h] at happly
  · refine ⟨t, c', final_ok h, ?_⟩
    cases hdeferred : t.deferred with
    | some e =>
      simp only [hdeferred] at happly
      exact .inl ⟨e, Build.bind_error happly⟩
    | none =>
      simp only [hdeferred] at happly
      rw [Build.bind_ok happly]
      cases hreturn : returnCheck name result value t.region with
      | error e => exact .inl ⟨e, Build.ofExcept_bind_error rfl⟩
      | ok u => exact .inr ⟨⟨⟨name, params, result⟩, args, t.region, value⟩, rfl, rfl,
          Build.ofExcept_bind_ok rfl⟩
  · exact ⟨t, c', final_error h, .inl ⟨e, Build.bind_error happly⟩⟩

/-- Once its arguments are made, the body of a function is built up to somewhere. -/
theorem final_functionBody (R : Registry) (params : List ValueType)
    (body : List Variable → Build σ ScopeDraft (Option Expr)) (s : ScopeDraft) (c : σ) :
    ∃ args R' start, Arguments params R s args R' start ∧ (∀ v ∈ args, v ∈ R'.vars) ∧
      (functionBody params body).final s c = (body args).final start c := by
  obtain ⟨args, R', start, hargs, hnew, hmem⟩ := newArguments_spec params R s c
  refine ⟨args, R', start, hargs, hmem, ?_⟩
  rw [functionBody, final_bind_ok hnew, final_bind_of_looks fun value ↦ ?_]
  exact (ScopeDraft.looks_checkAllReads _).bind fun _ ↦ .pure _

theorem define_error {name : String} {params : List ValueType} {result : Option ValueType}
    {body : List Variable → Build σ ScopeDraft (Option Expr)} (R : Registry)
    (h : define name params result body (s, c) = .error e (s', c')) :
    ∃ args R' start t, Arguments params R (s.openedFunction result) args R' start ∧
      (∀ v ∈ args, v ∈ R'.vars) ∧ (body args).final start c = (t, c') ∧ s' = s.resumed t := by
  obtain ⟨args, R', start, hargs, hmem, hbody⟩ :=
    final_functionBody R params body (s.openedFunction result) c
  obtain ⟨t, c₁, hfinal, ⟨e', hdefine⟩ | ⟨f, -, -, hdefine⟩⟩ :=
    define_cases name params result body s c
  · rw [hdefine] at h
    cases h
    exact ⟨args, R', start, t, hargs, hmem, hbody.symm.trans hfinal, rfl⟩
  · rw [hdefine] at h
    cases h

theorem defineFunction_error {name : Option String} {params : List ValueType}
    {result : Option ValueType} {body : List Variable → Build σ ScopeDraft (Option Expr)}
    (R : Registry) (h : defineFunction name params result body (s, c) = .error e (s', c')) :
    (s', c') = (s, c) ∨ ∃ name' q args R' start t, s.resources.names.Gives name' q ∧
      Arguments params (R.addBody name') ((s.withNames q).openedFunction result) args R' start ∧
        (∀ v ∈ args, v ∈ R'.vars) ∧ (body args).final start c = (t, c') ∧ s' = s.resumed t := by
  unfold defineFunction at h
  rcases takeName_cases s c name "fun" with ⟨name', q, hq, hname⟩ | ⟨e', hname⟩
  · rw [Build.bind_ok hname] at h
    rcases hdefine : define name' params result body (s.withNames q, c) with
      ⟨f, st⟩ | ⟨e', s₁, c₁⟩
    · obtain ⟨a, st', hrest⟩ := ((Sure.change fun s : StageDraft ↦
        { s with functions := s.functions ++ [f] }).bind fun _ ↦ .pure f.signature) st
      rw [Build.bind_ok hdefine, hrest] at h
      cases h
    · rw [Build.bind_error hdefine] at h
      cases h
      obtain ⟨args, R', start, t, hargs, hmem, hfinal, rfl⟩ :=
        define_error (R.addBody name') hdefine
      exact .inr ⟨name', q, args, R', start, t, hq, hargs, hmem, hfinal, rfl⟩
  · rw [Build.bind_error hname] at h
    cases h
    exact .inl rfl

theorem defineMain_error {body : Build σ ScopeDraft Unit}
    (h : defineMain body (s, c) = .error e (s', c')) : (s', c') = (s, c) ∨
      ∃ t, body.final (s.openedFunction none) c = (t, c') ∧ s' = s.resumed t := by
  unfold defineMain at h
  rw [draft_bind] at h
  by_cases hmain : s.main.isSome = true
  · simp only [if_pos hmain] at h
    cases h
    exact .inl rfl
  · simp only [if_neg hmain] at h
    rcases hdefine : define "main" [] none (fun _ ↦ do
        body
        return none) (s, c) with ⟨f, st⟩ | ⟨e', s₁, c₁⟩
    · obtain ⟨a, st', hrest⟩ := Sure.change (fun s : StageDraft ↦ { s with main := some f }) st
      rw [Build.bind_ok hdefine, hrest] at h
      cases h
    · rw [Build.bind_error hdefine] at h
      cases h
      obtain ⟨args, R', start, t, hargs, -, hfinal, rfl⟩ :=
        define_error (.start Set.univ False) hdefine
      cases hargs
      rw [final_bind_of_looks fun _ ↦ .pure _] at hfinal
      exact .inr ⟨t, hfinal, rfl⟩

end StageDraft

end ShaderGraph
