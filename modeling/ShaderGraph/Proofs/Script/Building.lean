import ShaderGraph.Proofs.Script.Passing

/-!
# How stages are built

Every stage of a program was built by one turn of its script: by steps that ran
to their end on a draft begun anew, in a program that had no stage of the kind.
-/

namespace ShaderGraph

open Scripted

/-- A script comes across a program and a ledger between its steps, those that are attempted
included. -/
inductive Script.Reaches (s : Script) : Program → Ledger → Prop
  | start : Reaches s (.new s.name) .empty
  | logged {p : Program} {l : Ledger} (h : Reaches s p l) (a : Answer) : Reaches s p (l.log a)
  | step {p : Program} {l : Ledger} (h : Reaches s p l) (step : ProgramStep)
      (hterms : step.terms ⊆ s.terms) : Reaches s (step.run.final p l).1 (step.run.final p l).2

/-- The steps of a script that built a stage, and what they were run on and ended with. -/
structure Script.StageBuild (s : Script) where
  program : Program
  ledger : Ledger
  kind : StageKind
  steps : List StageStep
  draft : StageDraft
  last : Ledger
  reaches : s.Reaches program ledger
  terms : steps.flatMap StageStep.terms ⊆ s.terms
  none_before : program.stage? kind = none
  run_eq : StageStep.runAll steps (.start kind program.resources, ledger) = .ok () (draft, last)

namespace Script.StageBuild

variable {s : Script}

/-- The turn that built a stage. -/
def turn (b : s.StageBuild) : Turn := .program (.buildStage b.kind b.steps) b.program b.ledger

/-- The turns of a stage. -/
def turns (b : s.StageBuild) : List Turn :=
  StageStep.turnsOfList (.start b.kind b.program.resources) b.ledger b.steps

def stage (b : s.StageBuild) : Stage := b.draft.finish

theorem inside_turn (b : s.StageBuild) : b.turn.inside = b.turns := by
  have hnone : ¬(b.program.stage? b.kind).isSome = true := by simp [b.none_before]
  rw [turn, Turn.inside, ProgramStep.inside, if_neg hnone, turns]

end Script.StageBuild

namespace Script

variable {s : Script} {p : Program} {l : Ledger}

theorem Reaches.reached (h : s.Reaches p l) : Reached (.program p) l := by
  induction h with
  | start => exact .start s.name
  | logged _ a ih => exact ih.logged a
  | step _ step _ ih => exact ih.programStep step

/-- A program that a script comes across evolved from any start where the terms of the script are
permitted, and the script keeps nothing else. -/
theorem Reaches.evolves (h : s.Reaches p l) {signatures : Set Signature} {checked : Prop}
    (hterms : ∀ t ∈ s.terms, t.Permitted (.start signatures checked)) :
    ∃ R, Evolves (.start signatures checked) (.program (.new s.name)) R (.program p) ∧
      l.KnownFor (fun t ↦ t ∈ s.terms) R := by
  induction h with
  | start => exact ⟨_, .refl _ _, .empty hterms⟩
  | logged _ a ih =>
    obtain ⟨R, hev, hl⟩ := ih
    exact ⟨R, hev, hl.log a⟩
  | step _ step hstep ih =>
    obtain ⟨R, hev, hl⟩ := ih
    have hanswers := step.answers_run (T := fun t ↦ t ∈ s.terms) (fun _ ht ↦ hstep ht) R
    obtain ⟨R', hev', hl'⟩ := Sound.evolves_known hanswers hl
      (hev.invariant (Program.invariant_new s.name signatures checked))
    exact ⟨R', hev.trans hev', hl'⟩

/-- The draft of a stage evolved from its start, after the program had evolved. -/
theorem StageBuild.evolves (b : s.StageBuild) {signatures : Set Signature} {checked : Prop}
    (hterms : ∀ t ∈ s.terms, t.Permitted (.start signatures checked)) :
    ∃ R R', Evolves (.start signatures checked) (.program (.new s.name)) R (.program b.program) ∧
      Evolves R (.stage (.start b.kind b.program.resources)) R' (.stage b.draft) := by
  obtain ⟨R, hev, hl⟩ := b.reaches.evolves hterms
  have hp : (Draft.program b.program).Invariant R :=
    hev.invariant (Program.invariant_new s.name signatures checked)
  have hruns := StageStep.runs_runAll (T := fun t ↦ t ∈ s.terms) b.steps (fun _ ht ↦ b.terms ht) R
  obtain ⟨R', hev', -⟩ := Sound.evolves_known hruns hl
    (StageDraft.invariant_start (Program.Invariant.fits hp) b.kind)
  rw [Build.final_ok b.run_eq] at hev'
  exact ⟨R, R', hev, hev'⟩

end Script

/-- Binding handles to an answer leaves the draft where the construction has ended. -/
theorem Scripted.draft_answered {S : Type} (act : Scripted S Answer)
    (handles : List (Option Handle)) (s : S) (l : Ledger) :
    ((act >>= fun a ↦ answered handles a).final s l).1 = (act.final s l).1 := by
  rcases h : act (s, l) with ⟨a, s', l'⟩ | ⟨e, s', l'⟩
  · rw [Build.final_bind_ok h, Build.final_ok h]
    rfl
  · rw [Build.final_error (Build.bind_error h), Build.final_error h]

theorem Inquiry.looks_run {S : Type} (q : Inquiry) : (q.run : Scripted S Answer).Looks := by
  cases q with
  | evaluate e => exact (looks_eval _).bind fun _ ↦ .pure _
  | sameData a b => exact (looks_eval _).bind fun _ ↦ (looks_eval _).bind fun _ ↦ .pure _

/-- The stages of a program after a step are those before it, and one that the step built. -/
theorem ProgramStep.stage_cases {s : Script} (step : ProgramStep) {p : Program} {l : Ledger}
    (h : s.Reaches p l) (hterms : step.terms ⊆ s.terms) (stage : Stage)
    (hstage : stage ∈ (step.run.final p l).1.stages) : stage ∈ p.stages ∨
      ∃ b : s.StageBuild, b.turn ∈ step.inside p l ++ [.program step p l] ∧ b.stage = stage := by
  induction step with
  | inquire q handles =>
    rw [run, draft_answered] at hstage
    rcases q.looks_run (p, l) with ⟨a, hrun⟩ | ⟨e, hrun⟩
    · rw [Build.final_ok hrun] at hstage
      exact .inl hstage
    · rw [Build.final_error hrun] at hstage
      exact .inl hstage
  | act a handles =>
    rw [run, draft_answered, Build.final_on] at hstage
    exact .inl hstage
  | buildStage kind body =>
    rw [run, Build.final_bind_of_looks fun _ ↦ .pure _] at hstage
    cases hnone : p.stage? kind with
    | some old =>
      rw [Build.final_error (Program.buildStage_of_isSome (by simp [hnone]))] at hstage
      exact .inl hstage
    | none =>
      rcases hrun : StageStep.runAll body (.start kind p.resources, l) with ⟨⟨⟩, d, l'⟩ | ⟨e, d, l'⟩
      · rw [Build.final_ok (Program.buildStage_ok hnone hrun)] at hstage
        rcases Program.mem_stages_setStage hstage with rfl | hold
        · exact .inr ⟨⟨p, l, kind, body, d, l', h, hterms, hnone, hrun⟩,
            List.mem_append_right _ (List.mem_singleton_self _), rfl⟩
        · exact .inl hold
      · rw [Build.final_error (Program.buildStage_error hnone hrun)] at hstage
        exact .inl hstage
  | attempt step ih =>
    rw [run, final_attempted] at hstage
    refine (ih hterms hstage).imp_right ?_
    rintro ⟨b, hturn, hb⟩
    exact ⟨b, List.mem_append_left _ hturn, hb⟩

theorem ProgramStep.stage_cases_list {s : Script} (steps : List ProgramStep) {p : Program}
    {l : Ledger} (h : s.Reaches p l) (hterms : steps.flatMap ProgramStep.terms ⊆ s.terms)
    (stage : Stage) (hstage : stage ∈ ((runAll steps).final p l).1.stages) : stage ∈ p.stages ∨
      ∃ b : s.StageBuild, b.turn ∈ turnsOfList p l steps ∧ b.stage = stage := by
  induction steps generalizing p l with
  | nil => exact .inl hstage
  | cons step rest ih =>
    rw [List.flatMap_cons, List.append_subset] at hterms
    have hreaches := h.step step hterms.1
    have hfirst := step.stage_cases h hterms.1 stage
    rw [turnsOfList, List.append_cons, follow]
    rw [runAll] at hstage
    rcases hrun : step.run (p, l) with ⟨a, p', l'⟩ | ⟨e, p', l'⟩
    · rw [Build.final_ok hrun] at hreaches hfirst
      rw [final_logged_bind hrun] at hstage
      rcases ih (hreaches.logged a) hterms.2 hstage with hold | ⟨b, hturn, hb⟩
      · refine (hfirst hold).imp_right ?_
        rintro ⟨b, hturn, hb⟩
        exact ⟨b, List.mem_append_left _ hturn, hb⟩
      · exact .inr ⟨b, List.mem_append_right _ hturn, hb⟩
    · rw [Build.final_error hrun] at hfirst
      rw [final_logged_bind_error hrun] at hstage
      simpa using hfirst hstage

/-- Every stage of the program of a script was built by one of its turns. -/
theorem Script.exists_stageBuild (s : Script) {stage : Stage}
    (hstage : stage ∈ s.run.program.stages) :
    ∃ b : s.StageBuild, b.turn ∈ s.turns ∧ b.turn.inside = b.turns ∧ b.stage = stage := by
  have h := congrArg Prod.fst s.final_eq
  rcases ProgramStep.stage_cases_list s.steps .start (fun _ ht ↦ ht) stage (by rwa [h]) with
    hnew | ⟨b, hturn, hb⟩
  · cases hnew
  · exact ⟨b, hturn, b.inside_turn, hb⟩

/-- A script may build one stage and nothing else. -/
theorem Script.exists_only_stageBuild {s : Script} {kind : StageKind} {steps : List StageStep}
    (hs : s.steps = [.buildStage kind steps])
    (h : (match StageStep.runAll steps (.start kind .empty, .empty) with
      | .ok _ _ => true
      | .error _ _ => false) = true) :
    ∃ b : s.StageBuild, b.turn ∈ s.turns ∧
      b.turns = StageStep.turnsOfList (.start kind .empty) .empty steps ∧
        s.run.program.stages = [b.stage] := by
  rcases hrun : StageStep.runAll steps (.start kind .empty, .empty) with ⟨⟨⟩, d, l⟩ | ⟨e, d, l⟩
  · have hnone : (Program.new s.name).stage? kind = none := by cases kind <;> rfl
    have hstep : (ProgramStep.buildStage kind steps).run (.new s.name, .empty) = _ :=
      Build.bind_ok (Program.buildStage_ok hnone hrun)
    have hfinal := s.final_eq
    rw [hs, ProgramStep.runAll, final_logged_bind hstep] at hfinal
    have hprogram : Program.setStage _ d.finish = s.run.program := congrArg Prod.fst hfinal
    have hstages : s.run.program.stages = [d.finish] := by
      rw [← hprogram]
      unfold Program.setStage
      split <;> rfl
    refine ⟨⟨.new s.name, .empty, kind, steps, d, l, .start, ?_, hnone, hrun⟩, ?_, rfl, hstages⟩
    · rw [Script.terms, hs]
      exact List.subset_append_left _ _
    · simp [Script.turns, hs, ProgramStep.turnsOfList, StageBuild.turn]
  · simp [hrun] at h

end ShaderGraph
