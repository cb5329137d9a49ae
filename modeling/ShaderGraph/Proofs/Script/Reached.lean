import ShaderGraph.Proofs.Script.Tracing

/-!
# Reached drafts

The drafts of all levels that scripts come across: those that steps end with,
whether they were rejected or not, and those that steps open for the steps
nested in them. The invariant holds of all of them, and so of all programs.
-/

namespace ShaderGraph

open Scripted

/-- The draft and the ledger that a construction ends with, whether it succeeds or not. -/
def Build.final {σ S α : Type} (act : Build σ S α) (s : S) (c : σ) : S × σ :=
  match act (s, c) with
  | .ok _ state | .error _ state => state

namespace Build

variable {σ S α : Type} {act : Build σ S α} {s s' : S} {c c' : σ}

theorem final_ok {a : α} (h : act (s, c) = .ok a (s', c')) : act.final s c = (s', c') := by
  simp only [final, h]

theorem final_error {e : BuildError} (h : act (s, c) = .error e (s', c')) :
    act.final s c = (s', c') := by
  simp only [final, h]

end Build

namespace Scripted

variable {S : Type} {act : Scripted S Answer} {rest : Scripted S Unit} {s s' : S} {l l' : Ledger}

theorem logged_ok {a : Answer} (h : act (s, l) = .ok a (s', l')) :
    logged act (s, l) = .ok () (s', l'.log a) := by
  have houtcome : act.outcome (s, l) = .ok (.ok a) (s', l') := by
    simp only [Build.outcome, h]
  unfold logged
  rw [Build.bind_ok houtcome]
  rfl

theorem logged_error {e : BuildError} (h : act (s, l) = .error e (s', l')) :
    logged act (s, l) = .error e (s', l'.log (.failed e)) := by
  have houtcome : act.outcome (s, l) = .ok (.error e) (s', l') := by
    simp only [Build.outcome, h]
  unfold logged
  rw [Build.bind_ok houtcome]
  rfl

/-- A list of steps goes on from where its first step ended, with an answer more in the ledger. -/
theorem final_logged_bind {a : Answer} (h : act (s, l) = .ok a (s', l')) :
    Build.final (do logged act; rest) s l = rest.final s' (l'.log a) := by
  unfold Build.final
  rw [Build.bind_ok (logged_ok h)]

theorem final_logged_bind_error {e : BuildError} (h : act (s, l) = .error e (s', l')) :
    Build.final (do logged act; rest) s l = (s', l'.log (.failed e)) :=
  Build.final_error (Build.bind_error (logged_error h))

end Scripted

/-- Opens the body of a loop for a script: makes its variable and binds a handle to it. -/
def ScopeDraft.beginLoop (v : Handle) (type : ValueType) : Scripted ScopeDraft Unit := do
  let name ← Build.onShared (Resources.freshName type.nameStem)
  let i ← newVariable name type .localVar
  note (·.bind v (.expr (.var i)))

/-- Opens the body of a function for a script: makes its arguments and binds handles to them. -/
def ScopeDraft.beginFunction (handles : List Handle) (params : List ValueType) :
    Scripted ScopeDraft Unit := do
  let args ← StageDraft.newArguments params
  note (fun l ↦ l.bindAll (handles.map some) (args.map fun v ↦ .expr (.var v)))

/-- Scripts come across a draft with a ledger. -/
inductive Reached : Draft → Ledger → Prop
  | start (name : String) : Reached (.program (.new name)) .empty
  | logged {d : Draft} {l : Ledger} (h : Reached d l) (a : Answer) : Reached d (l.log a)
  | programStep {p : Program} {l : Ledger} (h : Reached (.program p) l) (step : ProgramStep) :
      Reached (.program (step.run.final p l).1) (step.run.final p l).2
  | stageStep {s : StageDraft} {l : Ledger} (h : Reached (.stage s) l) (step : StageStep) :
      Reached (.stage (step.run.final s l).1) (step.run.final s l).2
  | scopeStep {s : ScopeDraft} {l : Ledger} (h : Reached (.scope s) l) (step : ScopeStep) :
      Reached (.scope (step.run.final s l).1) (step.run.final s l).2
  | blockStep {b : BlockDraft} {l : Ledger} (h : Reached (.block b) l) (step : BlockStep) :
      Reached (.block (step.run.final b l).1) (step.run.final b l).2
  /-- The steps of a scope are run on the stage around it as well, and those of a block on its
  scope. -/
  | scopeStage {s : ScopeDraft} {l : Ledger} (h : Reached (.scope s) l) : Reached (.stage s.stage) l
  | blockScope {b : BlockDraft} {l : Ledger} (h : Reached (.block b) l) : Reached (.scope b.scope) l
  | openStage {p : Program} {l : Ledger} (h : Reached (.program p) l) {kind : StageKind}
      (hnone : p.stage? kind = none) : Reached (.stage (.start kind p.resources)) l
  | functionName {s : StageDraft} {l : Ledger} (h : Reached (.stage s) l) {name : String}
      {q : NamePool} (hname : s.resources.names.Gives name q) : Reached (.stage (s.withNames q)) l
  | openFunction {s : StageDraft} {l : Ledger} (h : Reached (.stage s) l) (handles : List Handle)
      (params : List ValueType) (result : Option ValueType) :
      Reached
        (.scope ((ScopeDraft.beginFunction handles params).final (s.openedFunction result) l).1)
        ((ScopeDraft.beginFunction handles params).final (s.openedFunction result) l).2
  | openRegion {s : ScopeDraft} {l : Ledger} (h : Reached (.scope s) l) (kind : RegionKind) :
      Reached (.scope (s.stage.opened kind)) l
  | openLoop {s : ScopeDraft} {l : Ledger} (h : Reached (.scope s) l) (v : Handle)
      (type : ValueType) :
      Reached (.scope ((ScopeDraft.beginLoop v type).final (s.stage.opened .loop) l).1)
        ((ScopeDraft.beginLoop v type).final (s.stage.opened .loop) l).2
  | openBlock {s : ScopeDraft} {l : Ledger} (h : Reached (.scope s) l) (kind : String) :
      Reached (.block (s.newBlock kind)) l

theorem reached_stageStart (kind : StageKind) : Reached (.stage (.start kind .empty)) .empty :=
  (Reached.start "stage").openStage (by cases kind <;> rfl)

/-- The main function of a fragment stage, before its first statement. -/
def emptyMain : ScopeDraft := (StageDraft.start .fragment .empty).openedFunction none

theorem reached_emptyMain : Reached (.scope emptyMain) .empty :=
  (reached_stageStart .fragment).openFunction [] [] none

/-- What a draft and a ledger are when they are reached. -/
def Sound (d : Draft) (l : Ledger) : Prop := ∃ R, l.Known R ∧ d.Invariant R

namespace Sound

variable {S α : Type} [Drafted S] {s : S} {l : Ledger} {R : Registry}

theorem of_follows {d : Draft} {act : Scripted S α} {Q : Registry → S → α → Prop}
    (h : Follows Ledger.client R d Q (act (s, l))) (hd : d.Invariant R) :
    Sound (draft (act.final s l).1) (act.final s l).2 := by
  rcases hact : act (s, l) with ⟨a, s', l'⟩ | ⟨e, s', l'⟩ <;> rw [hact] at h
  · obtain ⟨R', hev, hl, -⟩ := h
    rw [Build.final_ok hact]
    exact ⟨R', hl, hev.invariant hd⟩
  · obtain ⟨R', hev, hl⟩ := h
    rw [Build.final_error hact]
    exact ⟨R', hl, hev.invariant hd⟩

theorem of_traced {act : Scripted S α} {Q : Registry → α → Prop}
    (h : ∀ R, Traced Ledger.client R act Q) (hs : Sound (draft s) l) :
    Sound (draft (act.final s l).1) (act.final s l).2 := by
  obtain ⟨R, hl, hd⟩ := hs
  exact of_follows (h R R le_rfl s l hd hl) hd

/-- A construction that is traced evolves its draft up to wherever it ends, and gives the script
nothing but what was made by then. -/
theorem evolves_known {T : Set Term} {act : Scripted S α} {Q : Registry → α → Prop}
    (h : Traced (Ledger.clientFor T) R act Q) (hl : l.KnownFor T R) (hs : (draft s).Invariant R) :
    ∃ R', Evolves R (draft s) R' (draft (act.final s l).1) ∧
      (act.final s l).2.KnownFor T R' := by
  have hact := h R le_rfl s l hs hl
  rcases hrun : act (s, l) with ⟨a, s', l'⟩ | ⟨e, s', l'⟩ <;> rw [hrun] at hact
  · obtain ⟨R', hev, hl', -⟩ := hact
    exact ⟨R', by rwa [Build.final_ok hrun], by rwa [Build.final_ok hrun]⟩
  · obtain ⟨R', hev, hl'⟩ := hact
    exact ⟨R', by rwa [Build.final_error hrun], by rwa [Build.final_error hrun]⟩

theorem log {d : Draft} (hs : Sound d l) (a : Answer) : Sound d (l.log a) := by
  obtain ⟨R, hl, hd⟩ := hs
  exact ⟨R, hl.log a, hd⟩

theorem openedStage {p : Program} (hp : Sound (.program p) l) (kind : StageKind) :
    Sound (.stage (.start kind p.resources)) l := by
  obtain ⟨R, hl, hd⟩ := hp
  exact ⟨R, hl, StageDraft.invariant_start (Program.Invariant.fits hd) kind⟩

theorem stage {s : ScopeDraft} (hs : Sound (.scope s) l) : Sound (.stage s.stage) l := by
  obtain ⟨R, hl, hd⟩ := hs
  exact ⟨R, hl, ScopeDraft.Invariant.stage hd⟩

theorem scope {b : BlockDraft} (hs : Sound (.block b) l) : Sound (.scope b.scope) l := by
  obtain ⟨R, hl, hd⟩ := hs
  exact ⟨R, hl, BlockDraft.Invariant.scope hd⟩

theorem opened {s : ScopeDraft} (hs : Sound (.scope s) l) (kind : RegionKind) :
    Sound (.scope (s.stage.opened kind)) l := by
  obtain ⟨R, hl, hd⟩ := hs
  exact ⟨R, hl, (ScopeDraft.Invariant.stage hd).opened kind⟩

theorem openedFunction {s : StageDraft} (hs : Sound (.stage s) l) (result : Option ValueType) :
    Sound (.scope (s.openedFunction result)) l := by
  obtain ⟨R, hl, hd⟩ := hs
  exact ⟨R, hl, StageDraft.Invariant.openedFunction hd result⟩

theorem withNames {s : StageDraft} (hs : Sound (.stage s) l) {name : String} {q : NamePool}
    (hq : s.resources.names.Gives name q) : Sound (.stage (s.withNames q)) l := by
  obtain ⟨R, hl, hd⟩ := hs
  exact ⟨R.addBody name, hl.mono (Registry.le_addBody R name), StageDraft.Invariant.withBody hd hq⟩

theorem newBlock {s : ScopeDraft} (hs : Sound (.scope s) l) (kind : String) :
    Sound (.block (s.newBlock kind)) l := by
  obtain ⟨R, hl, hd⟩ := hs
  exact ⟨R.addBody _, hl.mono (Registry.le_addBody R _), ScopeDraft.Invariant.newBlock hd kind⟩

end Sound

namespace ScopeDraft

variable {s : ScopeDraft} {l : Ledger} {R : Registry}

theorem sound_beginLoop (hs : Sound (.scope s) l) (v : Handle) (type : ValueType) :
    Sound (.scope ((beginLoop v type).final s l).1) ((beginLoop v type).final s l).2 := by
  obtain ⟨R, hl, hd⟩ := hs
  obtain ⟨name, q, hq, hname⟩ := freshName_spec s l type.nameStem
  obtain ⟨i, r, hmake, -, hscope, -, hnew⟩ := newVariable_spec l hq type .localVar
  have hbegin : beginLoop v type (s, l) =
      .ok () (s.introduce i r, l.bind v (.expr (.var i))) := by
    unfold beginLoop
    rw [Build.bind_ok hname, Build.bind_ok hnew]
    rfl
  rw [Build.final_ok hbegin]
  have hR := Registry.le_addVariable R i
  exact ⟨R.addVariable i, (hl.mono hR).bind v (.var (Registry.mem_addVariable R i)),
    hd.introduce hmake hscope⟩

theorem sound_beginFunction (hs : Sound (.scope s) l) (handles : List Handle)
    (params : List ValueType) :
    Sound (.scope ((beginFunction handles params).final s l).1)
      ((beginFunction handles params).final s l).2 := by
  obtain ⟨R, hl, hd⟩ := hs
  obtain ⟨args, R', t, hargs, hnew, hmem⟩ := StageDraft.newArguments_spec params R s l
  have hbegin : beginFunction handles params (s, l) =
      .ok () (t, l.bindAll (handles.map some) (args.map fun v ↦ .expr (.var v))) := by
    unfold beginFunction
    rw [Build.bind_ok hnew]
    rfl
  rw [Build.final_ok hbegin]
  refine ⟨R', (hl.mono hargs.extends.1).bindAll _ fun b hb ↦ ?_, hargs.invariant hd⟩
  obtain ⟨v, hv, rfl⟩ := List.mem_map.mp hb
  exact Expr.Known.var (hmem v hv)

end ScopeDraft

/-- The invariant holds of all that is reached. -/
theorem Reached.sound {d : Draft} {l : Ledger} (h : Reached d l) : Sound d l := by
  induction h with
  | start name =>
    exact ⟨.start Set.univ False, .empty fun t _ ↦ t.permitted_start,
      Program.invariant_new name _ _⟩
  | logged _ a ih => exact ih.log a
  | programStep _ step ih => exact .of_traced (step.answers_run fun _ _ ↦ trivial) ih
  | stageStep _ step ih => exact .of_traced (step.answers_run fun _ _ ↦ trivial) ih
  | scopeStep _ step ih => exact .of_traced (step.answers_run fun _ _ ↦ trivial) ih
  | blockStep _ step ih => exact .of_traced (step.answers_run fun _ _ ↦ trivial) ih
  | scopeStage _ ih => exact ih.stage
  | blockScope _ ih => exact ih.scope
  | openStage _ _ ih => exact ih.openedStage _
  | functionName _ hname ih => exact ih.withNames hname
  | openFunction _ handles params result ih =>
    exact ScopeDraft.sound_beginFunction (ih.openedFunction result) handles params
  | openRegion _ kind ih => exact ih.opened kind
  | openLoop _ v type ih => exact ScopeDraft.sound_beginLoop (ih.opened .loop) v type
  | openBlock _ kind ih => exact ih.newBlock kind

/-! ## Programs -/

theorem Reached.runAll {p : Program} {l : Ledger} (h : Reached (.program p) l)
    (steps : List ProgramStep) :
    Reached (.program ((ProgramStep.runAll steps).final p l).1)
      ((ProgramStep.runAll steps).final p l).2 := by
  induction steps generalizing p l with
  | nil => exact h
  | cons step rest ih =>
    have hstep := h.programStep step
    rcases hrun : step.run (p, l) with ⟨a, p', l'⟩ | ⟨e, p', l'⟩
    · rw [Build.final_ok hrun] at hstep
      rw [ProgramStep.runAll, final_logged_bind hrun]
      exact ih (hstep.logged a)
    · rw [Build.final_error hrun] at hstep
      rw [ProgramStep.runAll, final_logged_bind_error hrun]
      exact hstep.logged _

theorem Script.final_eq (s : Script) : (ProgramStep.runAll s.steps).final (.new s.name) .empty =
    (s.run.program, s.run.ledger) := by
  unfold Script.run Build.final
  rcases ProgramStep.runAll s.steps (Program.new s.name, Ledger.empty) with
    ⟨a, p, l⟩ | ⟨e, p, l⟩ <;> rfl

theorem Script.reached_run (s : Script) : Reached (.program s.run.program) s.run.ledger := by
  have h := (Reached.start s.name).runAll s.steps
  rwa [s.final_eq] at h

/-- All terms that a script is made of. -/
def Script.terms (s : Script) : List Term := s.steps.flatMap ProgramStep.terms

/-- The program of a script evolves from any start where the terms of the script are permitted. -/
theorem Script.evolves_run (s : Script) {signatures : Set Signature} {checked : Prop}
    (h : ∀ t ∈ s.terms, t.Permitted (.start signatures checked)) :
    ∃ R, Evolves (.start signatures checked) (.program (.new s.name)) R
      (.program s.run.program) := by
  have hledger : Ledger.empty.KnownFor (fun t ↦ t ∈ s.terms) (.start signatures checked) := .empty h
  obtain ⟨R, hev, -⟩ := Sound.evolves_known
    (ProgramStep.runs_runAll s.steps (fun _ ht ↦ ht) _) hledger
    (Program.invariant_new s.name signatures checked)
  rw [s.final_eq] at hev
  exact ⟨R, hev⟩

/-- A program was built by a script, or as an unlit program. -/
inductive Program.Built : Program → Prop
  | script (s : Script) : Built s.run.program
  | unlit {cfg : UnlitConfig} {p : Program} (h : cfg.program = .ok p) : Built p

/-- The functions of a stage, the main function last. -/
def Stage.definitions (s : Stage) : List Function := s.functions ++ s.main.toList

namespace Program.Built

variable {p : Program}

theorem invariant (h : p.Built) : ∃ R, p.Invariant R := by
  cases h with
  | script s =>
    obtain ⟨R, -, hp⟩ := s.reached_run.sound
    exact ⟨R, hp⟩
  | unlit h => exact UnlitConfig.invariant_program h

theorem evolves (h : p.Built) : ∃ name signatures R,
    Evolves (.start signatures False) (.program (.new name)) R (.program p) := by
  cases h with
  | script s => exact ⟨s.name, _, s.evolves_run fun t _ ↦ t.permitted_start⟩
  | unlit h => exact ⟨"unlit", ∅, UnlitConfig.evolves_program h ∅ False⟩

/-- The functions of a program that was built are well scoped, for a stock of variables that are
told apart by their numbers. -/
theorem wellScoped (h : p.Built) : ∃ V, Distinct V ∧
    ∀ s ∈ p.stages, ∀ f ∈ s.definitions, f.WellScoped V s.kind := by
  obtain ⟨R, hp⟩ := h.invariant
  refine ⟨R.vars, hp.fits.distinct, ?_⟩
  intro s hs f hf
  obtain ⟨hfunctions, hmain⟩ := hp.stages s hs
  rcases List.mem_append.mp hf with hf | hf
  · exact hfunctions f hf
  · exact hmain f (Option.mem_toList.mp hf)

end Program.Built

end ShaderGraph
