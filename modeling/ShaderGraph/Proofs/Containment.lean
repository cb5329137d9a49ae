import ShaderGraph.Proofs.Script.Reached

/-!
# Containment in scopes

Whatever is built and however constructions fail on the way, an expression in
a finished stage mentions only variables of the program, of this stage, and of
the scopes around the place where it stands, up to the function's own. A scope
with an error put off never becomes part of anything, and a function sees
nothing of the scope that it is defined in.
-/

namespace ShaderGraph

open Scripted

/-- An expression stands in a scope of a function. The path has the numbers of the scopes around
it, innermost first, up to the scope of the function. -/
inductive Function.Located (f : Function) : List ScopeId → Expr → Prop
  | operand {path : List ScopeId} {t : Stmt} {e : Expr} (ht : Nested f.body.statements path t)
      (he : e ∈ t.operands) : Located f (path ++ [f.body.id]) e
  | header {path : List ScopeId} {t : Stmt} {body : Region} {e : Expr}
      (ht : Nested f.body.statements path t) (hbody : body ∈ t.regions) (he : e ∈ t.header) :
      Located f (body.id :: path ++ [f.body.id]) e
  | result {e : Expr} (he : f.result = some e) : Located f [f.body.id] e

namespace Function.Located

variable {f : Function} {V : List Variable} {k : StageKind} {path : List ScopeId} {e : Expr}

theorem inReach (h : f.Located path e) (hf : f.WellScoped V k) {v : Variable}
    (hv : v ∈ e.vars) : v.InReach k path := by
  cases h with
  | operand ht he => exact ((hf.body.placed ht).operands e he v hv).2
  | header ht hbody he => exact ((hf.body.placed ht).header _ hbody e he v hv).2
  | result he => exact (hf.result e he v hv).2

/-- The scopes within a function are newer than the function's own. -/
theorem le_of_mem (h : f.Located path e) (hf : f.WellScoped V k) {i : ScopeId} (hi : i ∈ path) :
    f.body.id.index ≤ i.index := by
  have hheld {r : Region} (hr : Holds f.body.statements r) : f.body.id.index ≤ r.id.index :=
    Nat.le_of_lt ((hf.body.fresh hr).2 f.body.id List.mem_cons_self)
  have hnested {path : List ScopeId} {t : Stmt} (ht : Nested f.body.statements path t)
      (hi : i ∈ path ++ [f.body.id]) : f.body.id.index ≤ i.index := by
    rcases List.mem_append.mp hi with hi | hi
    · obtain ⟨r, hr, rfl⟩ := ht.exists_holds_of_mem hi
      exact hheld hr
    · exact List.mem_singleton.mp hi ▸ Nat.le_refl _
  cases h with
  | operand ht _ => exact hnested ht hi
  | header ht hbody _ =>
    rcases List.mem_cons.mp hi with rfl | hi
    · exact hheld ⟨_, _, ht, hbody⟩
    · exact hnested ht hi
  | result _ => exact List.mem_singleton.mp hi ▸ Nat.le_refl _

end Function.Located

/-! ## Errors put off -/

theorem StageDraft.withRegion_ne_ok {σ α : Type} {kind : RegionKind} {body : Build σ ScopeDraft α}
    {s : StageDraft} {c : σ} (h : (body.final (s.opened kind) c).1.deferred ≠ none)
    (r : α × Region) (state : StageDraft × σ) : withRegion kind body (s, c) ≠ .ok r state := by
  rw [withRegion_apply]
  rcases hbody : body (s.opened kind, c) with ⟨a, t, c'⟩ | ⟨e, t, c'⟩
  · rw [Build.final_ok hbody] at h
    obtain ⟨e, he⟩ : ∃ e, t.deferred = some e := Option.ne_none_iff_exists'.mp h
    dsimp only
    rw [he]
    exact nofun
  · exact nofun

namespace Sound

variable {S α : Type} [Drafted S] {s : S} {l : Ledger}

/-- A construction that is traced goes on from where it starts. -/
theorem extends_final {act : Scripted S α} {Q : Registry → α → Prop}
    (h : ∀ R, Traced Ledger.client R act Q) (hs : Sound (draft s) l) :
    (draft s).Extends (draft (act.final s l).1) := by
  obtain ⟨R, hl, hd⟩ := hs
  have hact := h R R le_rfl s l hd hl
  rcases hrun : act (s, l) with ⟨a, s', l'⟩ | ⟨e, s', l'⟩ <;> rw [hrun] at hact
  · obtain ⟨R', hev, -⟩ := hact
    rw [Build.final_ok hrun]
    exact hev.extends.2
  · obtain ⟨R', hev, -⟩ := hact
    rw [Build.final_error hrun]
    exact hev.extends.2

end Sound

namespace ScopeDraft

variable {s : ScopeDraft} {l : Ledger}

theorem deferred_final_ne_none {α : Type} {act : Scripted ScopeDraft α} {Q : Registry → α → Prop}
    (h : ∀ R, Traced Ledger.client R act Q) (hs : Sound (.scope s) l)
    (hdeferred : s.deferred ≠ none) : (act.final s l).1.deferred ≠ none := by
  obtain ⟨e, he⟩ := Option.ne_none_iff_exists'.mp hdeferred
  have hext : s.Extends (act.final s l).1 := Sound.extends_final h hs
  simp [hext.deferred e he]

/-- A step that declares a variable whose value is out of reach succeeds and puts an error off. -/
theorem bindStep_apply {init : Term} {e : Expr} {v : Variable} (hs : Sound (.scope s) l)
    (he : init.eval l = .ok e) (hv : v ∈ e.vars) (hreach : ¬v.InReach s.stage.kind s.chain)
    (handles : List (Option Handle)) : ∃ a t l', t.deferred ≠ none ∧
      (ScopeStep.act (.bind init) handles).run (s, l) = .ok a (t, l') := by
  obtain ⟨R, hl, hd⟩ := hs
  have hknown := Term.known_eval hl init (fun _ _ ↦ trivial) he
  cases hcheck : s.readsCheck e with
  | ok u => exact (hreach (inReach_of_readsCheck hd.stage.fits.distinct hknown hcheck hv).2).elim
  | error err =>
    obtain ⟨w, r, -, -, -, -, hact⟩ := bind_unseen_apply hcheck l
    have heval : Scripted.eval (fun l ↦ init.eval l) (s, l) = .ok e (s, l) := by
      change (Build.ofExcept (init.eval l) : Scripted ScopeDraft Expr) (s, l) = _
      rw [he]
      rfl
    have hrun : (Action.bind init).run (s, l) =
        .ok (.var w) (((s.defer err).introduce w r).push (.declare w (some e)), l) := by
      rw [Action.run, Build.bind_ok heval, Build.bind_ok hact]
      rfl
    refine ⟨.var w, _, _, ?_, by rw [ScopeStep.run, Build.bind_ok hrun]; rfl⟩
    exact deferred_defer_ne_none s err

/-- Once a variable was given a value out of reach, an error stays put off. -/
theorem deferred_runAll_ne_none {init : Term} {e : Expr} {v : Variable} (hs : Reached (.scope s) l)
    (he : init.eval l = .ok e) (hv : v ∈ e.vars) (hreach : ¬v.InReach s.stage.kind s.chain)
    (handles : List (Option Handle)) (post : List ScopeStep) :
    ((ScopeStep.runAll (.act (.bind init) handles :: post)).final s l).1.deferred ≠ none := by
  obtain ⟨a, t, l', hdeferred, hrun⟩ := bindStep_apply hs.sound he hv hreach handles
  have hstep := hs.scopeStep (.act (.bind init) handles)
  rw [Build.final_ok hrun] at hstep
  rw [ScopeStep.runAll, final_logged_bind hrun]
  exact deferred_final_ne_none (ScopeStep.runs_runAll post fun _ _ ↦ trivial)
    (hstep.logged a).sound hdeferred

end ScopeDraft

theorem BlockDraft.deferred_runAll_ne_none {b : BlockDraft} {l : Ledger} {init : Term} {e : Expr}
    {v : Variable} (hb : Reached (.block b) l) (he : init.eval l = .ok e) (hv : v ∈ e.vars)
    (hreach : ¬v.InReach b.scope.stage.kind b.scope.chain) (handles : List (Option Handle))
    (post : List BlockStep) :
    ((BlockStep.runAll (.scope (.act (.bind init) handles) :: post)).final b l).1.scope.deferred ≠
      none := by
  obtain ⟨a, t, l', hdeferred, hrun⟩ :=
    ScopeDraft.bindStep_apply hb.blockScope.sound he hv hreach handles
  have hrun' : (BlockStep.scope (.act (.bind init) handles)).run (b, l) =
      .ok a ({ b with scope := t }, l') := by
    rw [BlockStep.run, Build.onScope, Build.on_apply, hrun]
  have hstep := hb.blockStep (.scope (.act (.bind init) handles))
  rw [Build.final_ok hrun'] at hstep
  rw [BlockStep.runAll, final_logged_bind hrun']
  obtain ⟨e, he⟩ := Option.ne_none_iff_exists'.mp hdeferred
  have hext : BlockDraft.Extends _ _ :=
    Sound.extends_final (s := { b with scope := t }) (BlockStep.runs_runAll post fun _ _ ↦ trivial)
      (hstep.logged a).sound
  exact Option.ne_none_iff_exists'.mpr ⟨e, hext.scope.deferred e he⟩

/-- A function that is new after a step mentions no variable of the scopes around the step. -/
theorem ScopeDraft.scope_not_mem_chain {s : ScopeDraft} {l : Ledger} (hs : Reached (.scope s) l)
    (step : ScopeStep) {f : Function} {path : List ScopeId} {e : Expr} {v : Variable}
    (hf : f ∈ (step.run.final s l).1.stage.finish.definitions)
    (hnew : f ∉ s.stage.finish.definitions) (he : f.Located path e) (hv : v ∈ e.vars) :
    v.scope ∉ s.chain := by
  obtain ⟨R, -, hd⟩ := hs.sound
  obtain ⟨R', -, hd'⟩ := (hs.scopeStep step).sound
  have hext : s.Extends (step.run.final s l).1 :=
    Sound.extends_final (step.answers_run fun _ _ ↦ trivial) hs.sound
  revert hf hd' hext
  generalize (step.run.final s l).1 = s'
  intro hf hd' hext
  have hscoped : f.WellScoped R'.vars s'.stage.kind ∧
      3 + s.stage.resources.scopeCount ≤ f.body.id.index := by
    rcases List.mem_append.mp hf with hf | hf
    · refine ⟨hd'.stage.finished.functions f hf, (hext.stage.newFunctions f hf).resolve_left ?_⟩
      exact fun hold ↦ hnew (List.mem_append_left _ hold)
    · have hmain := Option.mem_toList.mp hf
      refine ⟨hd'.stage.finished.main f hmain, (hext.stage.newMain f hmain).resolve_left ?_⟩
      exact fun hold ↦ hnew (List.mem_append_right _ (Option.mem_toList.mpr hold))
  intro hmem
  -- The scopes around the step were opened before those of the function.
  obtain ⟨frame, hframe, hid⟩ := List.mem_map.mp hmem
  obtain ⟨hlow, hhigh⟩ := hd.stage.frames frame hframe
  rw [hid] at hlow hhigh
  rcases he.inReach hscoped.1 hv with hscope | hscope | hpath
  · rw [hscope] at hlow
    simp [ScopeId.program] at hlow
  · rw [hscope] at hlow
    cases hkind : s'.stage.kind <;> simp [hkind, ScopeId.stage] at hlow
  · have := he.le_of_mem hscoped.1 hpath
    omega

/-! ## Finished stages -/

/-- Every expression in a stage mentions only variables of the program, of the stage, and of the
scopes around the place where it stands. -/
def Stage.Contained (stage : Stage) : Prop :=
  ∀ f ∈ stage.definitions, ∀ path e, f.Located path e → ∀ v ∈ e.vars, v.InReach stage.kind path

theorem Program.Built.contained {p : Program} (hp : p.Built) {stage : Stage}
    (hstage : stage ∈ p.stages) : stage.Contained := by
  obtain ⟨V, -, hfunctions⟩ := hp.wellScoped
  exact fun f hf path e he v hv ↦ he.inReach (hfunctions stage hstage f hf) hv

/-- The stages of all programs are contained in their scopes. A scope, of a block or not, in which
a variable was given a value out of reach has an error put off, whatever steps come after, and
every region that ends with one is rejected. A function that a step defines mentions no variable
of the scopes around this step. -/
theorem scope_containment :
    (∀ p : Program, p.Built → ∀ stage ∈ p.stages, stage.Contained) ∧
    (∀ s l init e v, Reached (.scope s) l → Term.eval l init = .ok e → v ∈ e.vars →
      ¬v.InReach s.stage.kind s.chain → ∀ handles post,
        ((ScopeStep.runAll (.act (.bind init) handles :: post)).final s l).1.deferred ≠ none) ∧
    (∀ b l init e v, Reached (.block b) l → Term.eval l init = .ok e → v ∈ e.vars →
      ¬v.InReach b.scope.stage.kind b.scope.chain → ∀ handles post,
        ((BlockStep.runAll (.scope (.act (.bind init) handles) :: post)).final b
          l).1.scope.deferred ≠ none) ∧
    (∀ (σ α : Type) kind (body : Build σ ScopeDraft α) (s : StageDraft) c,
      (body.final (s.opened kind) c).1.deferred ≠ none →
        ∀ r state, StageDraft.withRegion kind body (s, c) ≠ .ok r state) ∧
    ∀ s l (step : ScopeStep) f, Reached (.scope s) l →
      f ∈ (step.run.final s l).1.stage.finish.definitions → f ∉ s.stage.finish.definitions →
        ∀ path e, f.Located path e → ∀ v ∈ e.vars, v.scope ∉ s.chain := by
  refine ⟨fun p hp stage hstage ↦ hp.contained hstage, ?_, ?_, ?_, ?_⟩
  · exact fun s l init e v hs he hv hreach handles post ↦
      ScopeDraft.deferred_runAll_ne_none hs he hv hreach handles post
  · exact fun b l init e v hb he hv hreach handles post ↦
      BlockDraft.deferred_runAll_ne_none hb he hv hreach handles post
  · exact fun σ α kind body s c h r state ↦ StageDraft.withRegion_ne_ok h r state
  · exact fun s l step f hs hf hnew path e he v hv ↦
      ScopeDraft.scope_not_mem_chain hs step hf hnew he hv

/-- A main function that defines another function in the middle of its body. -/
def definingScript : Script :=
  ⟨"defining", [
    .act (.uniform "scale" (.int .one)) [some "scale"],
    .buildStage .fragment [.main [
      .act (.bind (.lit (.int1 1))) [some "x"],
      .loopWhile (.lit (.bool1 true)) [
        .stage (.function ⟨some "scaled", [.int .one], some (.int .one), ["a"],
          some (.binary .mul (.var "a") (.var "scale")), false⟩ [] [some "f"]),
        .act (.assign (.var "x") (.callHandle "f" [.var "x"])) []]]]]⟩

/-- A loop whose body declares a variable. -/
def escapingLoop : ScopeStep :=
  .loopWhile (.lit (.bool1 true)) [.act (.bind (.lit (.int1 1))) [some "x"]]

/-- A main function behind this loop, where the variable still has a handle. -/
def behindLoop : ScopeDraft × Ledger := escapingLoop.run.final emptyMain .empty

/-- A main function with a variable. -/
def bindingMain : ScopeDraft × Ledger :=
  (ScopeStep.act (.bind (.lit (.int1 1))) [some "x"]).run.final emptyMain .empty

/-- Defines a function of one argument. -/
def squaringStep : ScopeStep :=
  .stage (.function ⟨some "squared", [.int .one], some (.int .one), ["a"],
    some (.binary .mul (.var "a") (.var "a")), false⟩ [] [some "f"])

/-- A variable of a loop body is used behind the loop. -/
def escapingScript : Script :=
  ⟨"escaping", [.attempt (.buildStage .fragment [.main [
    escapingLoop, .act (.bind (.var "x")) [some "y"]]])]⟩

theorem scope_containment_defining :
    (∃ stage ∈ definingScript.run.program.stages,
      stage.definitions.length = 2 ∧ stage.Contained) ∧
    (∀ handles post,
      ((ScopeStep.runAll (.act (.bind (.var "x")) handles :: post)).final
        (behindLoop.1.stage.opened .branch) behindLoop.2).1.deferred ≠ none ∧
      ((BlockStep.runAll [.scope (.act (.bind (.var "x")) handles)]).final
        (behindLoop.1.newBlock "customBlock") behindLoop.2).1.scope.deferred ≠ none ∧
      ∀ r state, StageDraft.withRegion .branch
        (ScopeStep.runAll (.act (.bind (.var "x")) handles :: post))
        (behindLoop.1.stage, behindLoop.2) ≠ .ok r state) ∧
    bindingMain.1.region.declared.length = 1 ∧
    ∃ f ∈ (squaringStep.run.final bindingMain.1 bindingMain.2).1.stage.finish.definitions,
      f.result.isSome ∧
        ∀ path e, f.Located path e → ∀ v ∈ e.vars, v.scope ∉ bindingMain.1.chain := by
  refine ⟨?_, fun handles post ↦ ?_, by decide +kernel, ?_⟩
  · have hfinished : (definingScript.run.program.stages.any (·.definitions.length = 2)) = true := by
      decide +kernel
    obtain ⟨stage, hstage, hlength⟩ := List.any_eq_true.mp hfinished
    exact ⟨stage, hstage, by simpa using hlength,
      scope_containment.1 definingScript.run.program (.script definingScript) stage hstage⟩
  · have hbehind : Reached (.scope behindLoop.1) behindLoop.2 :=
      reached_emptyMain.scopeStep escapingLoop
    have hout : ((Term.eval behindLoop.2 (.var "x")).toOption.any fun e ↦ e.vars.any fun v ↦
        !(behindLoop.1.stage.opened .branch).stage.sees v &&
          !(behindLoop.1.newBlock "customBlock").scope.stage.sees v) = true := by decide +kernel
    rcases he : Term.eval behindLoop.2 (.var "x") with error | e
    · simp [he, Except.toOption] at hout
    · simp only [he, Except.toOption, Option.any_some, List.any_eq_true, Bool.and_eq_true,
        Bool.not_eq_true', ← Bool.not_eq_true, ScopeDraft.sees_iff] at hout
      obtain ⟨v, hv, hbranch, hblock⟩ := hout
      have hdeferred := scope_containment.2.1 _ _ _ e v (hbehind.openRegion .branch) he hv hbranch
        handles post
      exact ⟨hdeferred,
        scope_containment.2.2.1 _ _ _ e v (hbehind.openBlock "customBlock") he hv hblock handles [],
        scope_containment.2.2.2.1 _ _ _ _ _ _ hdeferred⟩
  · have hbinding : Reached (.scope bindingMain.1) bindingMain.2 := reached_emptyMain.scopeStep _
    have hfound : ((squaringStep.run.final bindingMain.1
        bindingMain.2).1.stage.finish.definitions.any fun f ↦ f.result.isSome) = true := by
      decide +kernel
    have hnone : bindingMain.1.stage.finish.definitions.isEmpty = true := by decide +kernel
    obtain ⟨f, hf, hresult⟩ := List.any_eq_true.mp hfound
    have hnew : f ∉ bindingMain.1.stage.finish.definitions := by
      rw [List.isEmpty_iff.mp hnone]
      exact List.not_mem_nil
    exact ⟨f, hf, hresult, scope_containment.2.2.2.2 _ _ squaringStep f hbinding hf hnew⟩

example : escapingScript.run.program.stages.isEmpty = true := by decide +kernel

end ShaderGraph
