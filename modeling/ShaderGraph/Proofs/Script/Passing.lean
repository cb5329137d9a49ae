import ShaderGraph.Proofs.Script.Bodies
import ShaderGraph.Proofs.Script.Chronicle

/-!
# The turns of every step

From a sound draft, the turns inside of a step lead from the tables before it
to those after it, with the step itself as the last turn. As the steps nest in
one another, so does the argument.
-/

namespace ShaderGraph

open Scripted

namespace Sound

variable {S α : Type} [Drafted S] {act : Scripted S α} {Q : Registry → α → Prop} {s s' : S}
  {l l' : Ledger} {a : α}

theorem keeps_final (h : ∀ R, Traced Ledger.client R act Q) (hs : Sound (draft s) l) :
    (draft s).tables.Keeps (draft (act.final s l).1).tables := by
  obtain ⟨R, hl, hd⟩ := hs
  obtain ⟨R', hev, -⟩ := evolves_known (h R) hl hd
  exact hev.keeps

theorem of_ok (h : ∀ R, Traced Ledger.client R act Q) (hs : Sound (draft s) l)
    (hact : act (s, l) = .ok a (s', l')) : Sound (draft s') l' := by
  have hfinal := of_traced h hs
  rwa [Build.final_ok hact] at hfinal

end Sound

namespace Passes

variable {α β : Type} {s : ScopeDraft} {l : Ledger} {body : List ScopeStep}

/-- Steps that are nested in a scope, after checks. -/
theorem guarded {head : Scripted ScopeDraft α} (hhead : head.Looks) {kind : RegionKind}
    {f : α → Region → Scripted ScopeDraft β}
    (hf : ∀ a r s l, ((f a r).final s l).1.stage = s.stage)
    (hbody : Passes s.stage.tables (ScopeStep.turnsOfList (s.stage.opened kind) l body)
      ((ScopeStep.runAll body).final (s.stage.opened kind) l).1.stage.tables) :
    Passes s.stage.tables
      (follow head s l fun _ s l ↦ ScopeStep.turnsOfList (s.stage.opened kind) l body)
      ((head >>= fun a ↦ ScopeDraft.nested kind (ScopeStep.runAll body) >>= f a).final s l
        ).1.stage.tables := by
  refine looks_bind (S := ScopeDraft) hhead fun a _ ↦ ?_
  have hstage := ScopeDraft.stage_nested_bind kind (ScopeStep.runAll body) (hf a)
    s l
  change Passes s.stage.tables _ (StageDraft.tables _)
  rw [hstage]
  exact hbody

/-- The steps in a loop, after its variable is made. -/
theorem loop {type : ValueType} {header : Expr → Ledger → (Expr × Expr) × Ledger}
    {first : Expr → Scripted ScopeDraft Unit} {f : (Variable × Expr × Expr) × Region →
      Scripted ScopeDraft β} (hf : ∀ x s l, ((f x).final s l).1.stage = s.stage)
    (hs : Sound (.scope s) l)
    (hheader : ∀ R, l.Known R → ScopeDraft.HeaderKnown Ledger.client R type header)
    (hfirst : ∀ R v, v ∈ R.vars → Runs Set.univ R (first (.var v)))
    (hbody : ∀ {s : ScopeDraft} {l : Ledger}, Sound (.scope s) l → Passes s.stage.tables
      (ScopeStep.turnsOfList s l body) ((ScopeStep.runAll body).final s l).1.stage.tables) :
    Passes s.stage.tables
      (follow (ScopeDraft.enterLoop type header first) (s.stage.opened .loop) l fun _ s l ↦
        ScopeStep.turnsOfList s l body)
      ((Build.onStage (StageDraft.withRegion .loop (ScopeStep.loopRegion type header first body))
        >>= f).final s l).1.stage.tables := by
  obtain ⟨R, hl, hd⟩ := hs.opened .loop
  obtain ⟨hsound, hkeeps⟩ := ScopeDraft.enterLoop_spec hl hd (hheader R hl)
    fun R' v _ hv ↦ hfirst R' v hv
  rw [ScopeDraft.stage_withRegion_bind hf]
  refine keeps_bind (S := ScopeDraft) _ hkeeps fun x t l' h ↦ ?_
  rw [Build.final_ok h] at hsound
  rw [Build.final_bind_of_looks fun _ ↦ .pure _]
  exact hbody hsound

variable {s : StageDraft}

/-- The steps in a function, after its name is taken and its arguments are made. -/
theorem function_of_body {head : FunctionHead} (handles : List (Option Handle))
    (hs : Sound (.stage s) l)
    (hbody : ∀ {s : ScopeDraft} {l : Ledger}, Sound (.scope s) l → Passes (draft s).tables
      (ScopeStep.turnsOfList s l body) (draft ((ScopeStep.runAll body).final s l).1).tables) :
    Passes s.tables
      ((StageStep.function head body handles).inside s l ++
        [.stage (.function head body handles) s l])
      ((StageStep.function head body handles).run.final s l).1.tables := by
  rcases StageStep.run_function_cases s l head body handles with
    ⟨e, hname, hrun⟩ | ⟨name, q, t, l', hq, hname, hfinal, hrun⟩
  · have hinside : Passes s.tables ((StageStep.function head body handles).inside s l)
        ((StageStep.function head body handles).run.final s l).1.tables := by
      rw [StageStep.inside, follow, hname, Build.final_error hrun]
      exact .nil (.refl _)
    exact turn_of_none (y := .stage (.function head body handles) s l) hs hinside
      (by rw [Turn.function?, hrun]) rfl
  · have hinside : Passes s.tables ((StageStep.function head body handles).inside s l)
        t.stage.tables := by
      have hbegin := ScopeDraft.sound_beginFunction
        ((hs.withNames hq).openedFunction head.result) head.args head.params
      have hkeeps := ScopeDraft.keeps_beginFunction
        ((s.withNames q).openedFunction head.result) l head.args head.params
      rw [FunctionHead.final_body] at hfinal
      rw [StageStep.inside, follow, hname]
      have hsteps := keeps_bind (S := ScopeDraft)
        (fun _ s l ↦ ScopeStep.turnsOfList s l body) hkeeps
        fun _ start l' h ↦ hbody (by rwa [Build.final_ok h] at hbegin)
      rw [hfinal] at hsteps
      exact (nil (StageDraft.keeps_withNames hq)).append hsteps
    rcases hrun with ⟨e, hrun⟩ | ⟨f, l'', hsignature, hregion, hrun⟩
    · have hafter : (Turn.stage (.function head body handles) s l).after.tables =
          t.stage.tables := by
        rw [Turn.after, Build.final_error hrun]
        rfl
      exact turn_of_none (y := .stage (.function head body handles) s l) hs
        (by rw [hafter]; exact hinside) (by rw [Turn.function?, hrun]) rfl
    · have hafter : (Turn.stage (.function head body handles) s l).after.tables =
          { t.stage.tables with functions := t.stage.tables.functions ++ [f] } := by
        rw [Turn.after, Build.final_ok hrun]
        rfl
      have hfunction : (Turn.stage (.function head body handles) s l).function? = some f := by
        rw [Turn.function?, hrun]
        exact List.getLast?_concat
      refine turn (y := .stage (.function head body handles) s l) hs hinside ?_ ?_ ?_
      · rw [hafter]
        exact Tables.Keeps.onward
          { Tables.Keeps.refl t.stage.tables with functions := List.prefix_append _ _ }
      · rw [hafter, hfunction]
        exact List.Sublist.refl _
      · rw [hafter]
        exact fun f hf ↦ hf

/-- The steps in a main function. One that ends well replaces a main function that they have
defined. -/
theorem main_of_body (hs : Sound (.stage s) l)
    (hbody : ∀ {s : ScopeDraft} {l : Ledger}, Sound (.scope s) l → Passes (draft s).tables
      (ScopeStep.turnsOfList s l body) (draft ((ScopeStep.runAll body).final s l).1).tables) :
    Passes s.tables ((StageStep.main body).inside s l ++ [.stage (.main body) s l])
      ((StageStep.main body).run.final s l).1.tables := by
  by_cases hsome : s.main.isSome = true
  · have hrun := StageStep.run_main_of_isSome s l body hsome
    have hinside : Passes s.tables ((StageStep.main body).inside s l)
        ((StageStep.main body).run.final s l).1.tables := by
      rw [StageStep.inside, if_pos hsome, Build.final_error hrun]
      exact .nil (.refl _)
    exact turn_of_none (y := .stage (.main body) s l) hs hinside rfl (by rw [Turn.main?, hrun])
  · obtain ⟨t, l', hfinal, hrun⟩ :=
      StageStep.run_main_cases s l body (Option.not_isSome_iff_eq_none.mp hsome)
    have hinside : Passes s.tables ((StageStep.main body).inside s l) t.stage.tables := by
      have hsteps := hbody (hs.openedFunction none)
      rw [hfinal] at hsteps
      rw [StageStep.inside, if_neg hsome]
      exact hsteps
    rcases hrun with ⟨e, hrun⟩ | ⟨f, hsignature, hregion, hrun⟩
    · have hafter : (Turn.stage (.main body) s l).after.tables = t.stage.tables := by
        rw [Turn.after, Build.final_error hrun]
        rfl
      exact turn_of_none (y := .stage (.main body) s l) hs
        (by rw [hafter]; exact hinside) rfl (by rw [Turn.main?, hrun])
    · have hafter : (Turn.stage (.main body) s l).after.tables =
          { t.stage.tables with main := some f } := by
        rw [Turn.after, Build.final_ok hrun]
        rfl
      have hmain : (Turn.stage (.main body) s l).main? = some f := by rw [Turn.main?, hrun]
      refine turn (y := .stage (.main body) s l) hs hinside ?_ ?_ ?_
      · rw [hafter]
        exact ⟨.refl _, List.prefix_refl _, fun _ ↦ rfl⟩
      · rw [hafter]
        exact (List.append_nil _).symm ▸ List.Sublist.refl _
      · rw [hafter, hmain]
        exact fun f hf ↦ hf

end Passes

mutual

theorem StageStep.passes : ∀ (step : StageStep) {s : StageDraft} {l : Ledger},
    Sound (.stage s) l →
      Passes (draft s).tables (step.inside s l ++ [.stage step s l])
        (draft (step.run.final s l).1).tables
  | .inquire q handles, s, l, hs => by
    refine Passes.turn_of_none (y := .stage (.inquire q handles) s l) hs (.nil ?_) rfl rfl
    exact hs.keeps_final (StageStep.answers_run (.inquire q handles) fun _ _ ↦ trivial)
  | .declare d handles, s, l, hs => by
    refine Passes.turn_of_none (y := .stage (.declare d handles) s l) hs (.nil ?_) rfl rfl
    exact hs.keeps_final (StageStep.answers_run (.declare d handles) fun _ _ ↦ trivial)
  | .function head body handles, s, l, hs =>
    .function_of_body handles hs (ScopeStep.passes_list body)
  | .main body, s, l, hs => .main_of_body hs (ScopeStep.passes_list body)
  | .attempt step, s, l, hs => by
    refine Passes.turn_of_none (y := .stage (.attempt step) s l) hs ?_ rfl rfl
    change Passes _ (StageStep.inside s l (.attempt step)) _
    simp only [Turn.after, StageStep.inside, StageStep.run, final_attempted]
    exact StageStep.passes step hs

theorem ScopeStep.passes : ∀ (step : ScopeStep) {s : ScopeDraft} {l : Ledger},
    Sound (.scope s) l → Passes (draft s).tables (step.inside s l ++ [.scope step s l])
      (draft (step.run.final s l).1).tables
  | .stage step, s, l, hs => by
    refine Passes.turn_of_none (y := .scope (.stage step) s l) hs ?_ rfl rfl
    change Passes _ (ScopeStep.inside s l (.stage step)) _
    simp only [Turn.after, ScopeStep.inside, ScopeStep.run, Build.onStage, Build.final_on]
    exact StageStep.passes step hs.stage
  | .act a handles, s, l, hs => by
    refine Passes.turn_of_none (y := .scope (.act a handles) s l) hs (.nil ?_) rfl rfl
    exact hs.keeps_final (ScopeStep.answers_run (.act a handles) fun _ _ ↦ trivial)
  | .branch mode condition body rest, s, l, hs => by
    refine Passes.turn_of_none (y := .scope (.branch mode condition body rest) s l) hs ?_ rfl rfl
    have hruns := ScopeStep.answers_run (.branch mode condition body .done) fun _ _ ↦ trivial
    change Passes _ (ScopeStep.inside s l (.branch mode condition body rest)) (StageDraft.tables _)
    rw [ScopeStep.inside, ScopeStep.run_branch mode condition body rest, ← bind_assoc,
      Build.final_bind_of_looks fun _ ↦ .pure _]
    refine Passes.bind ?_ fun _ s' l' h ↦ ElseSteps.passes mode rest (hs.of_ok hruns h)
    rw [ScopeStep.run_branch_done]
    exact .guarded (ScopeDraft.looks_enterGuarded _ _ _) (fun _ _ _ _ ↦ rfl)
      (ScopeStep.passes_list body (hs.opened .branch))
  | .loopFor v init condition update body, s, l, hs => by
    refine Passes.turn_of_none (y := .scope (.loopFor v init condition update body) s l) hs ?_
      rfl rfl
    change Passes (draft s).tables (ScopeStep.inside s l (.loopFor v init condition update body))
      (draft ((ScopeStep.loopFor v init condition update body).run.final s l).1).tables
    rw [ScopeStep.inside, ScopeStep.run_loopFor]
    refine Passes.looks_bind (looks_eval _) fun e _ ↦ ?_
    refine Passes.looks_bind (ScopeDraft.looks_checkReads e) fun _ _ ↦ ?_
    exact .loop (fun _ _ _ ↦ rfl) hs
      (fun R _ ↦ LoopHeader.headerKnown v e.type (fun _ _ ↦ trivial) (fun _ _ ↦ trivial))
      (fun R i _ ↦ LoopHeader.runs_check) (ScopeStep.passes_list body)
  | .loopRange v first stop body, s, l, hs => by
    refine Passes.turn_of_none (y := .scope (.loopRange v first stop body) s l) hs ?_ rfl rfl
    change Passes (draft s).tables (ScopeStep.inside s l (.loopRange v first stop body))
      (draft ((ScopeStep.loopRange v first stop body).run.final s l).1).tables
    rw [ScopeStep.inside, ScopeStep.run_loopRange]
    refine Passes.looks_bind (looks_eval _) fun a ha ↦ ?_
    refine Passes.looks_bind (looks_eval _) fun b hb ↦ ?_
    refine Passes.looks_bind (ScopeDraft.looks_checkReads a) fun _ _ ↦ ?_
    refine .loop (fun _ _ _ ↦ rfl) hs (fun R hl ↦ ?_) (fun R i hi ↦ ?_) (ScopeStep.passes_list body)
    · obtain ⟨-, htype⟩ := Term.known_evalAs hl (fun _ _ ↦ trivial) (eval_eq_ok ha)
      obtain ⟨hstop, hstopType⟩ := Term.known_evalAs hl (fun _ _ ↦ trivial) (eval_eq_ok hb)
      exact ScopeDraft.headerKnown_loopRange htype hstop hstopType
    · exact traced_note fun R' l hR hl ↦ hl.bind v (.var (Registry.mem_vars hR hi))
  | .loopWhile condition body, s, l, hs => by
    refine Passes.turn_of_none (y := .scope (.loopWhile condition body) s l) hs ?_ rfl rfl
    change Passes _ (ScopeStep.inside s l (.loopWhile condition body)) (StageDraft.tables _)
    rw [ScopeStep.inside, ScopeStep.run_loopWhile]
    exact .guarded (ScopeDraft.looks_enterGuarded _ _ _) (fun _ _ _ _ ↦ rfl)
      (ScopeStep.passes_list body (hs.opened .loop))
  | .block kind body, s, l, hs => by
    refine Passes.turn_of_none (y := .scope (.block kind body) s l) hs ?_ rfl rfl
    change Passes _ (ScopeStep.inside s l (.block kind body)) (StageDraft.tables _)
    rw [ScopeStep.inside, ScopeStep.run_block, Build.final_bind_of_looks fun _ ↦ .pure _,
      ScopeDraft.stage_block, Build.final_bind_of_looks fun _ ↦ .bind .draft fun _ ↦ .pure _]
    have hnamed : s.stage.tables.Keeps (s.newBlock kind).scope.stage.tables :=
      StageDraft.keeps_withNames (.inl ⟨kind, rfl⟩)
    exact (Passes.nil hnamed).append (BlockStep.passes_list body (hs.newBlock kind))
  | .attempt step, s, l, hs => by
    refine Passes.turn_of_none (y := .scope (.attempt step) s l) hs ?_ rfl rfl
    change Passes _ (ScopeStep.inside s l (.attempt step)) _
    simp only [Turn.after, ScopeStep.inside, ScopeStep.run, final_attempted]
    exact ScopeStep.passes step hs

theorem ElseSteps.passes (mode : ConditionMode) : ∀ (rest : ElseSteps) {s : ScopeDraft}
    {l : Ledger}, Sound (.scope s) l →
      Passes (draft s).tables (rest.inside mode s l) (draft ((rest.run mode).final s l).1).tables
  | .done, s, l, hs => .nil (.refl _)
  | .otherwise body, s, l, hs => by
    have hadd (region : Region) (s : ScopeDraft) (l : Ledger) :
        ((Build.change (ScopeDraft.extendConditional (.otherwise region))).final s l).1.stage =
          s.stage := s.stage_extendConditional _
    change Passes _ _ (StageDraft.tables _)
    rw [ElseSteps.inside, ElseSteps.run, ScopeDraft.otherwise,
      ScopeDraft.stage_nested_bind _ _ hadd]
    exact ScopeStep.passes_list body (hs.opened .branch)
  | .elseIf condition body rest, s, l, hs => by
    have hruns := ElseSteps.runs_run mode (.elseIf condition body .done) fun _ _ ↦ trivial
    rw [ElseSteps.inside, ElseSteps.run_elseIf mode condition body rest]
    refine Passes.bind ?_ fun _ s' l' h ↦ ElseSteps.passes mode rest (hs.of_ok hruns h)
    rw [ElseSteps.run_elseIf_done]
    exact .guarded (ScopeDraft.looks_enterGuarded _ _ _)
      (fun _ _ s _ ↦ s.stage_extendConditional _)
      (ScopeStep.passes_list body (hs.opened .branch))

theorem BlockStep.passes : ∀ (step : BlockStep) {b : BlockDraft} {l : Ledger},
    Sound (.block b) l → Passes (draft b).tables (step.inside b l ++ [.block step b l])
      (draft (step.run.final b l).1).tables
  | .scope step, b, l, hb => by
    refine Passes.turn_of_none (y := .block (.scope step) b l) hb ?_ rfl rfl
    change Passes _ (BlockStep.inside b l (.scope step)) _
    simp only [Turn.after, BlockStep.inside, BlockStep.run, Build.onScope, Build.final_on]
    exact ScopeStep.passes step hb.scope
  | .input name type value fallback typed handles, b, l, hb => by
    refine Passes.turn_of_none (y := .block (.input name type value fallback typed handles) b l) hb
      (.nil ?_) rfl rfl
    exact hb.keeps_final (BlockStep.answers_run (.input name type value fallback typed handles)
      fun _ _ ↦ trivial)
  | .output name type handles, b, l, hb => by
    refine Passes.turn_of_none (y := .block (.output name type handles) b l) hb (.nil ?_) rfl rfl
    exact hb.keeps_final (BlockStep.answers_run (.output name type handles) fun _ _ ↦ trivial)
  | .attempt step, b, l, hb => by
    refine Passes.turn_of_none (y := .block (.attempt step) b l) hb ?_ rfl rfl
    change Passes _ (BlockStep.inside b l (.attempt step)) _
    simp only [Turn.after, BlockStep.inside, BlockStep.run, final_attempted]
    exact BlockStep.passes step hb

theorem ScopeStep.passes_list : ∀ (steps : List ScopeStep) {s : ScopeDraft} {l : Ledger},
    Sound (.scope s) l → Passes (draft s).tables (ScopeStep.turnsOfList s l steps)
      (draft ((ScopeStep.runAll steps).final s l).1).tables
  | [], s, l, hs => .nil (.refl _)
  | step :: rest, s, l, hs => by
    have hruns := ScopeStep.answers_run step fun _ _ ↦ trivial
    rw [ScopeStep.turnsOfList, List.append_cons, ScopeStep.runAll]
    refine Passes.logged_bind (fun s l ↦ ScopeStep.turnsOfList s l rest)
      (ScopeStep.passes step hs) fun a s' l' h ↦ ?_
    exact ScopeStep.passes_list rest ((hs.of_ok hruns h).log a)

theorem BlockStep.passes_list : ∀ (steps : List BlockStep) {b : BlockDraft} {l : Ledger},
    Sound (.block b) l → Passes (draft b).tables (BlockStep.turnsOfList b l steps)
      (draft ((BlockStep.runAll steps).final b l).1).tables
  | [], b, l, hb => .nil (.refl _)
  | step :: rest, b, l, hb => by
    have hruns := BlockStep.answers_run step fun _ _ ↦ trivial
    rw [BlockStep.turnsOfList, List.append_cons, BlockStep.runAll]
    refine Passes.logged_bind (fun b l ↦ BlockStep.turnsOfList b l rest)
      (BlockStep.passes step hb) fun a b' l' h ↦ ?_
    exact BlockStep.passes_list rest ((hb.of_ok hruns h).log a)

end

theorem StageStep.passes_list (steps : List StageStep) {s : StageDraft} {l : Ledger}
    (hs : Sound (.stage s) l) : Passes s.tables (StageStep.turnsOfList s l steps)
      ((StageStep.runAll steps).final s l).1.tables := by
  induction steps generalizing s l with
  | nil => exact .nil (.refl _)
  | cons step rest ih =>
    have hruns := StageStep.answers_run step fun _ _ ↦ trivial
    rw [turnsOfList, List.append_cons, runAll]
    refine Passes.logged_bind (fun s l ↦ turnsOfList s l rest) (step.passes hs) fun a s' l' h ↦ ?_
    exact ih ((hs.of_ok hruns h).log a)

namespace Program

variable {p : Program} {l : Ledger} {kind : StageKind} {build : Scripted StageDraft Unit}

theorem buildStage_of_isSome (h : (p.stage? kind).isSome = true) :
    buildStage kind build (p, l) = .error (.nameTaken (kind.text ++ " stage")) (p, l) := by
  rw [buildStage, Build.draft_bind, if_pos h]
  rfl

theorem buildStage_ok {s : StageDraft} {l' : Ledger} (hnone : p.stage? kind = none)
    (h : build (.start kind p.resources, l) = .ok () (s, l')) :
    buildStage kind build (p, l) =
      .ok () (({ p with resources := s.resources } : Program).setStage s.finish, l') := by
  have hvia : Build.via (fun p : Program ↦ StageDraft.start kind p.resources)
      (fun p s ↦ { p with resources := s.resources }) build (p, l) =
        .ok ((), s) ({ p with resources := s.resources }, l') := Build.via_eq_ok.mpr ⟨h, rfl⟩
  rw [buildStage, Build.draft_bind, if_neg (by simp [hnone])]
  exact Build.bind_ok hvia

theorem buildStage_error {s : StageDraft} {l' : Ledger} {e : BuildError}
    (hnone : p.stage? kind = none) (h : build (.start kind p.resources, l) = .error e (s, l')) :
    buildStage kind build (p, l) = .error e ({ p with resources := s.resources }, l') := by
  have hvia : Build.via (fun p : Program ↦ StageDraft.start kind p.resources)
      (fun p s ↦ { p with resources := s.resources }) build (p, l) =
        .error e ({ p with resources := s.resources }, l') := Build.via_eq_error.mpr ⟨s, h, rfl⟩
  rw [buildStage, Build.draft_bind, if_neg (by simp [hnone])]
  exact Build.bind_error hvia

/-- The resources of a program are those that its stage has ended with. -/
theorem resources_buildStage (hnone : p.stage? kind = none) :
    ((buildStage kind build).final p l).1.resources =
      (build.final (.start kind p.resources) l).1.resources := by
  rcases h : build (.start kind p.resources, l) with ⟨⟨⟩, s, l'⟩ | ⟨e, s, l'⟩
  · rw [Build.final_ok h, Build.final_ok (buildStage_ok hnone h)]
    exact Program.resources_setStage _ _
  · rw [Build.final_error h, Build.final_error (buildStage_error hnone h)]

end Program

theorem ProgramStep.chronicle (step : ProgramStep) {p : Program} {l : Ledger}
    (hp : Sound (.program p) l) : Chronicle Tables.KeepsShared p.resources.tables
      (step.inside p l ++ [.program step p l]) (step.run.final p l).1.resources.tables := by
  have hkeeps (step : ProgramStep) :
      p.resources.tables.KeepsShared (step.run.final p l).1.resources.tables := by
    have h : (draft p).tables.Keeps (draft (step.run.final p l).1).tables :=
      hp.keeps_final (step.answers_run fun _ _ ↦ trivial)
    exact h.shared
  have hturn {step : ProgramStep} (h : Chronicle Tables.KeepsShared p.resources.tables
      (step.inside p l) (step.run.final p l).1.resources.tables) :
      Chronicle Tables.KeepsShared p.resources.tables (step.inside p l ++ [.program step p l])
        (step.run.final p l).1.resources.tables :=
    Chronicle.turn (y := .program step p l) (fun t ↦ Tables.Keeps.refl t.shared) hp h
      (Tables.Keeps.refl _)
  induction step with
  | inquire q handles => exact hturn (.nil (hkeeps (.inquire q handles)))
  | act a handles => exact hturn (.nil (hkeeps (.act a handles)))
  | buildStage kind body =>
    refine hturn ?_
    by_cases hsome : (p.stage? kind).isSome = true
    · rw [inside, if_pos hsome]
      exact .nil (hkeeps (.buildStage kind body))
    · have hnone := Option.not_isSome_iff_eq_none.mp hsome
      have hpasses := StageStep.passes_list body (hp.openedStage kind)
      rw [inside, if_neg hsome, run, Build.final_bind_of_looks fun _ ↦ .pure _,
        Program.resources_buildStage hnone]
      have hended (s : StageDraft) : s.tables.KeepsShared s.resources.tables :=
        Tables.Keeps.refl s.resources.tables.shared
      have hchronicle := (hpasses.toChronicle.mono Tables.Onward.keeps).append (.nil (hended _))
      rwa [List.append_nil] at hchronicle
  | attempt step ih =>
    refine hturn ?_
    rw [inside, run, final_attempted]
    exact ih

theorem ProgramStep.chronicle_list (steps : List ProgramStep) {p : Program} {l : Ledger}
    (hp : Sound (.program p) l) : Chronicle Tables.KeepsShared p.resources.tables
      (ProgramStep.turnsOfList p l steps)
        ((ProgramStep.runAll steps).final p l).1.resources.tables := by
  induction steps generalizing p l with
  | nil => exact .nil (Tables.Keeps.refl _)
  | cons step rest ih =>
    have hstep := step.chronicle hp
    rw [turnsOfList, List.append_cons, runAll, follow]
    rcases h : step.run (p, l) with ⟨a, p', l'⟩ | ⟨e, p', l'⟩
    · have hsound : Sound (.program p') l' :=
        hp.of_ok (step.answers_run fun _ _ ↦ trivial) h
      rw [Build.final_ok h] at hstep
      rw [final_logged_bind h]
      exact hstep.append (ih (hsound.log a))
    · rw [Build.final_error h] at hstep
      rw [final_logged_bind_error h, List.append_nil]
      exact hstep

theorem Script.chronicle (s : Script) : Chronicle Tables.KeepsShared Resources.empty.tables s.turns
    s.run.program.resources.tables := by
  have h := ProgramStep.chronicle_list s.steps (Reached.start s.name).sound
  rwa [s.final_eq] at h

end ShaderGraph
