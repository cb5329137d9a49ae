import ShaderGraph.Proofs.Draft.Rejecting
import ShaderGraph.Proofs.Draft.Tables
import ShaderGraph.Proofs.Script.History

/-!
# Steps with bodies

A step with steps nested in it makes some checks, opens a draft, runs the
nested steps on it, and comes back. So it is rejected by its checks, with
nothing changed, or the stage ends as the nested steps have left it.
-/

namespace ShaderGraph

open Scripted

theorem Build.final_on {σ S T α : Type} (part : S → T) (set : S → T → S) (act : Build σ T α) (s : S)
    (c : σ) : (Build.on part set act).final s c =
      (set s (act.final (part s) c).1, (act.final (part s) c).2) := by
  have happly := Build.on_apply part set act s c
  rcases h : act (part s, c) with ⟨a, t, c'⟩ | ⟨e, t, c'⟩ <;> rw [h] at happly
  · rw [Build.final_ok happly, Build.final_ok h]
  · rw [Build.final_error happly, Build.final_error h]

theorem Scripted.final_attempted {S : Type} (act : Scripted S Answer) (s : S) (l : Ledger) :
    (attempted act).final s l = act.final s l := by
  rcases h : act (s, l) with ⟨a, s', l'⟩ | ⟨e, s', l'⟩
  · have houtcome : act.outcome (s, l) = .ok (.ok a) (s', l') := by simp only [Build.outcome, h]
    rw [attempted, Build.final_bind_ok houtcome, Build.final_ok h]
    rfl
  · have houtcome : act.outcome (s, l) = .ok (.error e) (s', l') := by
      simp only [Build.outcome, h]
    rw [attempted, Build.final_bind_ok houtcome, Build.final_error h]
    rfl

namespace ScopeDraft

variable {α β : Type} {s : ScopeDraft} {l : Ledger}

theorem stage_withRegion_bind {kind : RegionKind} {body : Scripted ScopeDraft α}
    {f : α × Region → Scripted ScopeDraft β}
    (hf : ∀ x s l, ((f x).final s l).1.stage = s.stage) (s : ScopeDraft) (l : Ledger) :
    ((Build.onStage (StageDraft.withRegion kind body) >>= f).final s l).1.stage =
      (body.final (s.stage.opened kind) l).1.leave := by
  have happly := withRegion_apply kind body s l
  rcases h : body (s.stage.opened kind, l) with ⟨a, t, l'⟩ | ⟨e, t, l'⟩ <;> rw [h] at happly
  · rw [Build.final_ok h]
    cases hdeferred : t.deferred <;> simp only [hdeferred] at happly
    · rw [Build.final_bind_ok happly, hf]
      rfl
    · rw [Build.final_error (Build.bind_error happly)]
      rfl
  · rw [Build.final_error h, Build.final_error (Build.bind_error happly)]
    rfl

theorem stage_nested_bind (kind : RegionKind) (body : Scripted ScopeDraft Unit)
    {f : Region → Scripted ScopeDraft β} (hf : ∀ r s l, ((f r).final s l).1.stage = s.stage)
    (s : ScopeDraft) (l : Ledger) : ((nested kind body >>= f).final s l).1.stage =
      (body.final (s.stage.opened kind) l).1.leave := by
  rw [nested, bind_map_left]
  exact stage_withRegion_bind (fun x ↦ hf x.2) s l

theorem stage_block {kind : String} {build : Scripted BlockDraft α} (s : ScopeDraft) (l : Ledger) :
    ((block kind build).final s l).1.stage =
      (build.final (s.newBlock kind) l).1.scope.leave := by
  have happly := block_apply kind build s l
  rcases h : build (s.newBlock kind, l) with ⟨a, b, l'⟩ | ⟨e, b, l'⟩ <;> rw [h] at happly
  · rw [Build.final_ok h]
    cases hdeferred : b.scope.deferred with
    | some e =>
      simp only [hdeferred] at happly
      rw [Build.final_error happly]
      rfl
    | none =>
      cases hcheck : (b.toBlock (s.newBlock kind).name kind).outputsCheck b.interface.outputs <;>
        simp only [hdeferred, hcheck] at happly
      · rw [Build.final_error happly]
        rfl
      · rw [Build.final_ok happly]
        rfl
  · rw [Build.final_error h, Build.final_error happly]
    rfl

end ScopeDraft

theorem Scripted.looks_eval {S α : Type} (f : Ledger → Except BuildError α) :
    (Scripted.eval f : Scripted S α).Looks :=
  Build.Looks.bind (fun (_, l) ↦ .inl ⟨l, rfl⟩) fun _ ↦ .ofExcept _

theorem Scripted.eval_eq_ok {S α : Type} {f : Ledger → Except BuildError α} {s : S} {l : Ledger}
    {a : α} {state : S × Ledger} (h : Scripted.eval f (s, l) = .ok a state) : f l = .ok a := by
  change (Build.ofExcept (f l) : Scripted S α) (s, l) = _ at h
  cases hf : f l with
  | ok b =>
    rw [hf] at h
    cases h
    rfl
  | error e =>
    rw [hf] at h
    cases h

theorem Scripted.eval_bind {S α β : Type} (f : Ledger → Except BuildError α)
    (g : α → Except BuildError β) : (Scripted.eval (fun l ↦ f l >>= g) : Scripted S β) =
      Scripted.eval f >>= fun a ↦ Build.ofExcept (g a) := by
  funext (s, l)
  change (Build.ofExcept (f l >>= g) : Scripted S β) (s, l) =
    ((Build.ofExcept (f l) : Scripted S α) >>= fun a ↦ Build.ofExcept (g a)) (s, l)
  cases f l <;> rfl

theorem LoopHeader.runs_check {type : ValueType} {condition update : Term} {R : Registry}
    {i : Expr} :
    Runs Set.univ R (LoopHeader.check type condition update i) := by
  refine Traced.bind (P := fun _ _ ↦ True) (.client fun R' l _ hl ↦ ⟨trivial, hl⟩) fun R₁ l _ _ ↦ ?_
  split
  · exact .throw
  · exact .pure fun _ _ ↦ trivial

namespace ScopeDraft

open Build

variable {s : ScopeDraft} {l : Ledger} {R : Registry}

theorem looks_enterGuarded (what : String) (condition : Term)
    (take : Expr → Except BuildError Expr) : (enterGuarded what condition take).Looks :=
  (looks_eval _).bind fun _ ↦ (Looks.ofExcept _).bind fun _ ↦ (Looks.ofExcept _).bind fun _ ↦
    (looks_checkReads _).bind fun _ ↦ .pure _

theorem enterLoop_spec {type : ValueType} {header : Expr → Ledger → (Expr × Expr) × Ledger}
    {first : Expr → Scripted ScopeDraft Unit} (hl : l.Known R) (hs : s.Invariant R)
    (hheader : HeaderKnown Ledger.client R type header)
    (hfirst : ∀ R' v, R ≤ R' → v ∈ R'.vars → Runs Set.univ R' (first (.var v))) :
    Sound (.scope ((enterLoop type header first).final s l).1)
        ((enterLoop type header first).final s l).2 ∧
      s.stage.tables.Keeps ((enterLoop type header first).final s l).1.stage.tables := by
  obtain ⟨name, q, hq, hname⟩ := freshName_spec s l type.nameStem
  obtain ⟨v, r, hmake, htype, hscope, -, hnew⟩ := newVariable_spec l hq type .localVar
  have hR := Registry.le_addVariable R v
  have hv := Registry.mem_addVariable R v
  have hmade := (hheader _ v l hR hv htype (hl.mono hR)).2.2
  have hrest (made : Expr × Expr) : Traced Ledger.client (R.addVariable v) (do
      checkReads made.1
      checkReads made.2
      first (.var v)
      return (v, made)) (fun _ _ ↦ True) :=
    (traced_checkReads _).bind fun R₁ _ hR₁ _ ↦ (traced_checkReads _).bind fun R₂ _ hR₂ _ ↦
      (hfirst R₂ v (hR.trans (hR₁.trans hR₂)) (Registry.mem_vars (hR₁.trans hR₂) hv)).bind
        fun _ _ _ _ ↦ .pure fun _ _ ↦ trivial
  have hclient : Build.client (header (.var v)) (s.introduce v r, l) =
      .ok (header (.var v) l).1 (s.introduce v r, (header (.var v) l).2) := rfl
  rw [enterLoop, final_bind_ok hname, final_bind_ok hnew, final_bind_ok hclient]
  have hstart : (s.introduce v r).Invariant (R.addVariable v) := hs.introduce hmake hscope
  obtain ⟨R', hev, hl'⟩ := Sound.evolves_known (hrest _) hmade hstart
  exact ⟨⟨R', hl', hev.invariant hstart⟩, (StageDraft.keeps_of_makes hmake).trans hev.keeps⟩

theorem keeps_beginFunction (s : ScopeDraft) (l : Ledger) (handles : List Handle)
    (params : List ValueType) : s.stage.tables.Keeps
      ((beginFunction handles params).final s l).1.stage.tables := by
  obtain ⟨args, R, t, hargs, hnew, -⟩ := StageDraft.newArguments_spec params (.start ∅ False) s l
  rw [beginFunction, final_bind_ok hnew]
  exact hargs.keeps

end ScopeDraft

/-! ## Steps with bodies, begun -/

namespace ScopeStep

theorem run_branch (mode : ConditionMode) (condition : Term) (body : List ScopeStep)
    (rest : ElseSteps) : (branch mode condition body rest).run =
      (branch mode condition body .done).run >>= fun _ ↦ rest.run mode >>= fun _ ↦
        pure .done := by
  simp only [run, ElseSteps.run, bind_assoc, pure_bind]

theorem run_branch_done (mode : ConditionMode) (condition : Term) (body : List ScopeStep) :
    (branch mode condition body .done).run =
      ScopeDraft.enterGuarded "if" condition mode.first >>= fun e ↦
        ScopeDraft.nested .branch (runAll body) >>= fun region ↦
          ScopeDraft.add (.branch e region .done) >>= fun _ ↦ pure .done := by
  simp only [run, ElseSteps.run, ScopeDraft.branch, ScopeDraft.enterGuarded, bind_assoc, pure_bind]

theorem run_loopWhile (condition : Term) (body : List ScopeStep) :
    (loopWhile condition body).run =
      ScopeDraft.enterGuarded "while" condition (·.convert .bool) >>= fun e ↦
        ScopeDraft.nested .loop (runAll body) >>= fun region ↦
          ScopeDraft.add (.loopWhile e region) >>= fun _ ↦ pure .done := by
  have heval : (Scripted.eval (fun l ↦ condition.evalAs l .bool) : Scripted ScopeDraft Expr) =
      Scripted.eval (fun l ↦ condition.eval l) >>= fun e ↦ Build.ofExcept (e.convert .bool) :=
    eval_bind _ _
  simp only [run, ScopeDraft.loopWhile, ScopeDraft.enterGuarded, heval, bind_assoc, pure_bind]

theorem run_block (kind : String) (body : List BlockStep) : (block kind body).run =
    ScopeDraft.block kind (BlockStep.runAll body >>= fun _ ↦ Build.draft >>= fun b ↦ pure b.name)
      >>= fun name ↦ pure (.block name) := by
  rw [run]

/-- What is built in the region of a loop, with its variable and header as the result. -/
def loopRegion (type : ValueType) (header : Expr → Ledger → (Expr × Expr) × Ledger)
    (first : Expr → Scripted ScopeDraft Unit) (body : List ScopeStep) :
    Scripted ScopeDraft (Variable × Expr × Expr) :=
  ScopeDraft.enterLoop type header first >>= fun x ↦ runAll body >>= fun _ ↦ pure x

theorem loopFor_eq (init : Expr) (header : Expr → Ledger → (Expr × Expr) × Ledger)
    (first : Expr → Scripted ScopeDraft Unit) (body : List ScopeStep) :
    ScopeDraft.loopFor init header (fun i ↦ first i >>= fun _ ↦ runAll body) =
      ScopeDraft.checkReads init >>= fun _ ↦
        Build.onStage (StageDraft.withRegion .loop (loopRegion init.type header first body))
          >>= fun x ↦ ScopeDraft.add (.loopFor x.1.1 init x.1.2.1 x.1.2.2 x.2) := by
  simp only [ScopeDraft.loopFor, loopRegion, ScopeDraft.enterLoop, bind_assoc, pure_bind]

theorem run_loopFor (v : Handle) (init condition update : Term) (body : List ScopeStep) :
    (loopFor v init condition update body).run =
      Scripted.eval (fun l ↦ init.eval l) >>= fun init ↦
      ScopeDraft.checkReads init >>= fun _ ↦
      Build.onStage (StageDraft.withRegion .loop (loopRegion init.type
        (LoopHeader.make v init.type condition update) (LoopHeader.check init.type condition update)
          body)) >>= fun x ↦
        ScopeDraft.add (.loopFor x.1.1 init x.1.2.1 x.1.2.2 x.2) >>= fun _ ↦ pure .done := by
  have hbody (e : Expr) : LoopHeader.body e.type condition update body =
      fun i ↦ LoopHeader.check e.type condition update i >>= fun _ ↦ runAll body := by
    funext i
    rw [LoopHeader.body, LoopHeader.check, bind_assoc]
    refine congrArg _ (funext fun l ↦ ?_)
    cases (LoopHeader.of l e.type i condition update).failure <;> rfl
  have hrun : (loopFor v init condition update body).run =
      Scripted.eval (fun l ↦ init.eval l) >>= fun e ↦
        ScopeDraft.loopFor e (LoopHeader.make v e.type condition update)
          (LoopHeader.body e.type condition update body) >>= fun _ ↦ pure .done := by
    rw [run]
    rfl
  rw [hrun]
  simp only [hbody, loopFor_eq, bind_assoc]

theorem run_loopRange (v : Handle) (first stop : Term) (body : List ScopeStep) :
    (loopRange v first stop body).run =
      Scripted.eval (fun l ↦ first.evalAs l (.int .one)) >>= fun first ↦
      Scripted.eval (fun l ↦ stop.evalAs l (.int .one)) >>= fun stop ↦
      ScopeDraft.checkReads first >>= fun _ ↦
      Build.onStage (StageDraft.withRegion .loop (loopRegion first.type (LoopHeader.count stop)
        (fun i ↦ note (fun l ↦ l.bind v (.expr i))) body)) >>= fun x ↦
        ScopeDraft.add (.loopFor x.1.1 first x.1.2.1 x.1.2.2 x.2) >>= fun _ ↦ pure .done := by
  rw [run]
  simp only [ScopeDraft.loopRange, loopFor_eq, bind_assoc]
  rfl

end ScopeStep

theorem ElseSteps.run_elseIf (mode : ConditionMode) (condition : Term) (body : List ScopeStep)
    (rest : ElseSteps) : (elseIf condition body rest).run mode =
      (elseIf condition body .done).run mode >>= fun _ ↦ rest.run mode := by
  simp only [run, bind_assoc, pure_bind]

theorem ElseSteps.run_elseIf_done (mode : ConditionMode) (condition : Term)
    (body : List ScopeStep) : (elseIf condition body .done).run mode =
      ScopeDraft.enterGuarded "else if" condition mode.later >>= fun e ↦
        ScopeDraft.nested .branch (ScopeStep.runAll body) >>= fun region ↦
          Build.change (ScopeDraft.extendConditional (.elseIf e region .done)) := by
  simp only [run, ScopeDraft.elseIf, ScopeDraft.enterGuarded, bind_assoc, pure_bind]
  rfl

/-- The body of a function ends where its steps end. -/
theorem FunctionHead.final_body (head : FunctionHead) (steps : List ScopeStep) (s : ScopeDraft)
    (l : Ledger) : (StageDraft.functionBody head.params (head.body steps)).final s l =
      (ScopeDraft.beginFunction head.args head.params >>= fun _ ↦
        ScopeStep.runAll steps).final s l := by
  obtain ⟨args, R, t, -, hnew, -⟩ :=
    StageDraft.newArguments_spec head.params (.start ∅ False) s l
  rw [StageDraft.functionBody, Build.final_bind_ok hnew, Build.final_bind_of_looks fun _ ↦
    (ScopeDraft.looks_checkAllReads _).bind fun _ ↦ .pure _, ScopeDraft.beginFunction, bind_assoc,
    Build.final_bind_ok hnew, FunctionHead.body]
  simp only [← bind_assoc]
  rw [bind_assoc, Build.final_bind_of_looks fun _ ↦ (looks_eval _).bind fun _ ↦ .ofExcept _]

namespace StageStep

variable (s : StageDraft) (l : Ledger)

theorem run_function_cases (head : FunctionHead) (body : List ScopeStep)
    (handles : List (Option Handle)) :
    (∃ e, Build.onResources (Resources.takeName head.name "fun") (s, l) = .error e (s, l) ∧
      (function head body handles).run (s, l) = .error e (s, l)) ∨
    ∃ name q t l', s.resources.names.Gives name q ∧
      Build.onResources (Resources.takeName head.name "fun") (s, l) =
        .ok name (s.withNames q, l) ∧
      (StageDraft.functionBody head.params (head.body body)).final
        ((s.withNames q).openedFunction head.result) l = (t, l') ∧
      ((∃ e, (function head body handles).run (s, l) = .error e (s.resumed t, l')) ∨
        ∃ f l'', f.signature = ⟨name, head.params, head.result⟩ ∧ f.body = t.region ∧
          (function head body handles).run (s, l) =
            .ok (.function f.signature) ((s.resumed t).addFunction f, l'')) := by
  have hrun : (function head body handles).run =
      StageDraft.defineFunction head.name head.params head.result (head.body body) >>= fun f ↦
        answered handles (.function f) := by
    rw [run]
    rfl
  rw [hrun]
  rcases StageDraft.takeName_cases s l head.name "fun" with ⟨name, q, hq, hname⟩ | ⟨e, hname⟩
  · obtain ⟨t, l', hfinal, hdefine⟩ := StageDraft.define_cases name head.params head.result
      (head.body body) (s.withNames q) l
    refine .inr ⟨name, q, t, l', hq, hname, hfinal, ?_⟩
    rw [StageDraft.defineFunction, bind_assoc, Build.bind_ok hname, bind_assoc]
    rcases hdefine with ⟨e, hdefine⟩ | ⟨f, hsignature, hregion, hdefine⟩
    · exact .inl ⟨e, Build.bind_error hdefine⟩
    · rw [Build.bind_ok hdefine]
      exact .inr ⟨f, _, hsignature, hregion, rfl⟩
  · exact .inl ⟨e, hname, Build.bind_error (Build.bind_error hname)⟩

theorem run_main_of_isSome (body : List ScopeStep) (h : s.main.isSome = true) :
    (StageStep.main body).run (s, l) = .error (.nameTaken "main") (s, l) := by
  rw [run, StageDraft.defineMain, bind_assoc, Build.draft_bind, if_pos h]
  rfl

theorem run_main_cases (body : List ScopeStep) (h : s.main = none) :
    ∃ t l', (ScopeStep.runAll body).final (s.openedFunction none) l = (t, l') ∧
      ((∃ e, (StageStep.main body).run (s, l) = .error e (s.resumed t, l')) ∨
        ∃ f : Function, f.signature = ⟨"main", [], none⟩ ∧ f.body = t.region ∧
          (StageStep.main body).run (s, l) =
            .ok .done ({ s.resumed t with main := some f }, l')) := by
  obtain ⟨t, l', hfinal, hdefine⟩ := StageDraft.define_cases "main" [] none (fun _ ↦ do
    ScopeStep.runAll body
    return none) s l
  refine ⟨t, l', ?_, ?_⟩
  · rw [← hfinal, StageDraft.functionBody, StageDraft.newArguments, pure_bind,
      Build.final_bind_of_looks fun _ ↦
        (ScopeDraft.looks_checkAllReads _).bind fun _ ↦ .pure _,
      Build.final_bind_of_looks fun _ ↦ .pure _]
  · have hmain : ¬s.main.isSome = true := by simp [h]
    rw [run, StageDraft.defineMain, bind_assoc, Build.draft_bind, if_neg hmain]
    rcases hdefine with ⟨e, hdefine⟩ | ⟨f, hsignature, hregion, hdefine⟩
    · exact .inl ⟨e, Build.bind_error (Build.bind_error hdefine)⟩
    · exact .inr ⟨f, hsignature, hregion, Build.bind_ok (Build.bind_ok hdefine)⟩

end StageStep

end ShaderGraph
