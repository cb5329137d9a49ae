import ShaderGraph.Proofs.Draft.Defining
import ShaderGraph.Proofs.Script.Building

/-!
# Definitions of a stage

Every function that is defined in a stage is kept, once and under a name that
no other function has, in the order in which the definitions end. A main
function is rejected once there is one, but only before its own body is run: of
main functions that are defined within one another the outermost is kept. Its
name is not taken in the pool, so another function may have it.
-/

namespace ShaderGraph

open Scripted

/-- A function was built by steps, from a stage and a ledger on. -/
structure FunctionHead.Builds (head : FunctionHead) (body : List ScopeStep) (s : StageDraft)
    (l : Ledger) (f : Function) : Prop where
  params : f.signature.params = head.params
  result : f.signature.result = head.result
  body : ∃ q, s.resources.names.Gives f.signature.name q ∧
    f.body = ((StageDraft.functionBody head.params (head.body body)).final
      ((s.withNames q).openedFunction head.result) l).1.region

/-- A main function was built by steps, from a stage and a ledger on. -/
structure Function.IsMain (body : List ScopeStep) (s : StageDraft) (l : Ledger) (f : Function) :
    Prop where
  signature : f.signature = ⟨"main", [], none⟩
  body : f.body = ((ScopeStep.runAll body).final (s.openedFunction none) l).1.region

namespace Turn

variable {s : StageDraft} {l : Ledger} {a : Answer}

/-- A function is defined under a new name, and the answer is its signature. -/
theorem function?_of_ok {head : FunctionHead} {body : List ScopeStep}
    {handles : List (Option Handle)}
    (h : (stage (.function head body handles) s l).result = .ok a) :
    ∃ f, (stage (.function head body handles) s l).function? = some f ∧
      a = .function f.signature ∧ head.Builds body s l f := by
  rcases StageStep.run_function_cases s l head body handles with
    ⟨e, -, hrun⟩ | ⟨name, q, t, l', hq, -, hfinal, hrun⟩
  · rw [result, Build.result, hrun] at h
    cases h
  · rcases hrun with ⟨e, hrun⟩ | ⟨f, l'', hsignature, hregion, hrun⟩
    · rw [result, Build.result, hrun] at h
      cases h
    · rw [result, Build.result, hrun] at h
      cases h
      refine ⟨f, ?_, rfl, ?_⟩
      · rw [function?, hrun]
        exact List.getLast?_concat
      · refine ⟨by rw [hsignature], by rw [hsignature], q, by rwa [hsignature], ?_⟩
        rw [hregion, hfinal]

/-- A main function is defined only where there is none before its body. -/
theorem main?_of_ok {body : List ScopeStep} (h : (stage (.main body) s l).result = .ok a) :
    s.main = none ∧ ∃ f, (stage (.main body) s l).main? = some f ∧ f.IsMain body s l := by
  cases hmain : s.main with
  | some old =>
    rw [result, Build.result, StageStep.run_main_of_isSome s l body (by simp [hmain])] at h
    cases h
  | none =>
    obtain ⟨t, l', hfinal, ⟨e, hrun⟩ | ⟨f, hsignature, hregion, hrun⟩⟩ :=
      StageStep.run_main_cases s l body hmain
    · rw [result, Build.result, hrun] at h
      cases h
    · refine ⟨rfl, f, by rw [main?, hrun], hsignature, ?_⟩
      rw [hregion, hfinal]

variable {y : Turn} {f : Function}

/-- A turn that has defined a main function began without one and ends with it. -/
theorem main_of_main? (h : y.main? = some f) :
    y.before.tables.main = none ∧ y.after.tables.main = some f := by
  cases y with
  | stage step s l =>
    cases step with
    | main body =>
      rw [main?] at h
      rcases hrun : (StageStep.main body).run (s, l) with ⟨a, s', l'⟩ | ⟨e, s', l'⟩ <;>
        simp only [hrun] at h
      · have hok : (stage (.main body) s l).result = .ok a := by rw [result, Build.result, hrun]
        refine ⟨(main?_of_ok hok).1, ?_⟩
        rw [after, Build.final_ok hrun]
        exact h
      · cases h
    | _ => cases h
  | _ => cases h

end Turn

/-- At most one main function is defined along some turns, unless one is within another. -/
theorem Passes.length_mains_le_one_iff {t t' : Tables} {turns : List Turn}
    (h : Passes t turns t') : (turns.filterMap Turn.main?).length ≤ 1 ↔
      ∀ y ∈ turns, y.main?.isSome = true → ∀ x ∈ y.inside, x.main? = none := by
  constructor
  · intro hlength y hy hmain x hx
    obtain ⟨f, hf⟩ := Option.isSome_iff_exists.mp hmain
    have hpair : [x, y].Sublist turns :=
      ((List.singleton_sublist.mpr hx).append_right [y]).trans (h.closed y hy)
    cases hg : x.main? with
    | none => rfl
    | some g =>
      have htwo := ((hpair.filterMap Turn.main?).length_le).trans hlength
      simp [hf, hg] at htwo
  · intro hapart
    have hnever : (turns.filterMap Turn.main?).Pairwise fun _ _ ↦ False := by
      refine List.pairwise_filterMap.mpr (h.order.imp_of_mem fun {x y} hx hy hxy f hf g hg ↦ ?_)
      rcases hxy with hinside | honward
      · have hnone := hapart y hy (by simp [hg]) x hinside
        simp [hf] at hnone
      · -- A main function of before makes a later one fail.
        have hstays := honward.main (by simp [(Turn.main_of_main? hf).2])
        simp [(Turn.main_of_main? hg).1] at hstays
    match turns.filterMap Turn.main?, hnever with
    | [], _ | [_], _ => simp
    | _ :: _ :: _, hnever => exact (List.rel_of_pairwise_cons hnever List.mem_cons_self).elim

namespace Script.StageBuild

variable {s : Script} (b : s.StageBuild)

theorem passes : Passes (StageDraft.start b.kind b.program.resources).tables b.turns
    b.draft.tables := by
  have h := StageStep.passes_list b.steps (b.reaches.reached.sound.openedStage b.kind)
  rwa [Build.final_ok b.run_eq] at h

theorem defines : ∃ given given',
    Defines given (StageDraft.start b.kind b.program.resources).tables b.stage.functions given'
      b.draft.tables := by
  obtain ⟨R, R', -, hev⟩ := b.evolves fun t _ ↦ t.permitted_start
  obtain ⟨fs, hfs⟩ := hev.defines (StageDraft.accepted_start _ _) (by simp)
  obtain rfl : b.stage.functions = fs := hfs.functions
  exact ⟨_, _, hfs⟩

end Script.StageBuild

/-- What comes of the definitions of a stage. -/
structure Script.StageBuild.KeepsDefinitions {s : Script} (b : s.StageBuild) : Prop where
  /-- A function that was defined is in the stage once. -/
  function : ∀ head body handles d l a, .stage (.function head body handles) d l ∈ b.turns →
    (Turn.stage (.function head body handles) d l).result = .ok a →
      ∃ f ∈ b.stage.functions, a = .function f.signature ∧ head.Builds body d l f ∧
        (b.stage.functions.map Function.signature).count f.signature = 1
  order : (b.turns.filterMap Turn.function?).Sublist b.stage.functions
  names : (b.stage.functions.map (·.signature.name)).Nodup
  /-- A main function that was defined is that of the stage, unless there was another one. -/
  main : ∀ body d l a, .stage (.main body) d l ∈ b.turns →
    (Turn.stage (.main body) d l).result = .ok a →
      ∃ f, (Turn.stage (.main body) d l).main? = some f ∧ f.IsMain body d l ∧
        ((b.turns.filterMap Turn.main?).length ≤ 1 → b.stage.main = some f)
  lastMain : ∀ f ∈ (b.turns.filterMap Turn.main?).getLast?, b.stage.main = some f
  oneMain_iff : (b.turns.filterMap Turn.main?).length ≤ 1 ↔
    ∀ y ∈ b.turns, y.main?.isSome = true → ∀ x ∈ y.inside, x.main? = none
  allNames_iff : (b.stage.definitions.map (·.signature.name)).Nodup ↔
    b.stage.main = none ∨ ∀ f ∈ b.stage.functions, f.signature.name ≠ "main"

/-- A function that is defined within another one, and a definition of either kind that is
rejected. -/
def delegatingScript : Script :=
  ⟨"delegating", [
    .buildStage .fragment [
      .function ⟨some "outer", [], none, [], none, false⟩
        [.stage (.function ⟨none, [], none, [], none, false⟩ [] [])] [some "outer"],
      .attempt (.function ⟨some "outer", [], none, [], none, false⟩ [] []),
      .main [.act (.invoke "outer" [] false) []],
      .attempt (.main [])]]⟩

/-- A main function is defined within the main function. -/
def nestedMainScript : Script :=
  ⟨"nested", [.buildStage .fragment [.attempt (.main [.stage (.main [.act .discard []])])]]⟩

/-- A function has the name of the main function. -/
def sameNameScript : Script :=
  ⟨"same", [.buildStage .fragment [
    .function ⟨some "main", [], none, [], none, false⟩ [] [], .main []]]⟩

/-- Every stage of the program of a script was built by a turn of it. Of any stage that a script
builds, all functions that were defined are kept, once and under different names. Its main function
is the last that was defined; it is the only one exactly if no main function was defined within
another one. All names are different exactly if no other function is named as the main function. -/
theorem definitions_kept (s : Script) :
    (∀ stage ∈ s.run.program.stages, ∃ b : s.StageBuild, b.turn ∈ s.turns ∧
      b.turn.inside = b.turns ∧ b.stage = stage) ∧
    ∀ b : s.StageBuild, b.KeepsDefinitions := by
  refine ⟨fun stage hstage ↦ s.exists_stageBuild hstage, fun b ↦ ?_⟩
  have hpasses := b.passes
  obtain ⟨given, given', hdefines⟩ := b.defines
  have horder : (b.turns.filterMap Turn.function?).Sublist b.stage.functions := hpasses.functions
  have hlast : ∀ f ∈ (b.turns.filterMap Turn.main?).getLast?, b.stage.main = some f := by
    intro f hf
    exact hpasses.main f (by simp [Option.mem_def.mp hf])
  refine ⟨fun head body handles d l a hy hok ↦ ?_, horder, hdefines.names,
    fun body d l a hy hok ↦ ?_, hlast, hpasses.length_mains_le_one_iff, ?_⟩
  · obtain ⟨f, hfunction, ha, hbuilds⟩ := Turn.function?_of_ok hok
    have hf : f ∈ b.stage.functions := horder.mem (List.mem_filterMap.mpr ⟨_, hy, hfunction⟩)
    have hnodup : (b.stage.functions.map Function.signature).Nodup :=
      .of_map Signature.name (by rw [List.map_map]; exact hdefines.names)
    exact ⟨f, hf, ha, hbuilds, List.count_eq_one_of_mem hnodup (List.mem_map_of_mem hf)⟩
  · obtain ⟨-, f, hmain, hbuilds⟩ := Turn.main?_of_ok hok
    refine ⟨f, hmain, hbuilds, fun hlength ↦ hlast f ?_⟩
    have hf : f ∈ b.turns.filterMap Turn.main? := List.mem_filterMap.mpr ⟨_, hy, hmain⟩
    obtain ⟨g, hlist⟩ := List.length_eq_one_iff.mp (hlength.antisymm (List.length_pos_of_mem hf))
    rw [hlist, List.mem_singleton] at hf
    rw [hlist, hf]
    rfl
  · rw [Stage.definitions]
    cases hmain : b.stage.main with
    | none => simp [hdefines.names]
    | some f =>
      obtain ⟨hsignature, -⟩ := (hdefines.main f hmain).resolve_left nofun
      simp [List.nodup_append, hdefines.names, hsignature]

theorem definitions_kept_delegating :
    (∃ stage ∈ delegatingScript.run.program.stages, ∃ b : delegatingScript.StageBuild,
      b.turn ∈ delegatingScript.turns ∧ b.turn.inside = b.turns ∧ b.stage = stage) ∧
    ∃ b : delegatingScript.StageBuild, b.KeepsDefinitions ∧
      (b.turns.filterMap Turn.function?).length = 2 ∧
        (b.turns.filterMap Turn.main?).length = 1 ∧
          b.stage.definitions.map (·.signature.name) = ["fun_1", "outer", "main"] := by
  obtain ⟨b, -, hturns, hstages⟩ :=
    Script.exists_only_stageBuild (s := delegatingScript) rfl (by decide +kernel)
  have hstage : b.stage ∈ delegatingScript.run.program.stages := by
    rw [hstages]
    exact List.mem_cons_self
  have hnames : delegatingScript.run.program.stages.map
      (fun stage ↦ stage.definitions.map (·.signature.name)) = [["fun_1", "outer", "main"]] := by
    decide +kernel
  refine ⟨⟨b.stage, hstage, (definitions_kept delegatingScript).1 b.stage hstage⟩, b,
    (definitions_kept delegatingScript).2 b, ?_, ?_, ?_⟩
  · rw [hturns]
    decide +kernel
  · rw [hturns]
    decide +kernel
  · rw [hstages] at hnames
    exact (List.cons.inj hnames).1

/-- Two main functions are defined in one stage, and in another stage two functions have the same
name. -/
theorem main_defined_twice :
    (∃ b : nestedMainScript.StageBuild, b.turn ∈ nestedMainScript.turns ∧
      nestedMainScript.run.program.stages = [b.stage] ∧
        (b.turns.filterMap Turn.main?).length = 2) ∧
    ∃ b : sameNameScript.StageBuild, b.turn ∈ sameNameScript.turns ∧
      sameNameScript.run.program.stages = [b.stage] ∧
        b.stage.definitions.map (·.signature.name) = ["main", "main"] := by
  constructor
  · obtain ⟨b, hturn, hturns, hstages⟩ :=
      Script.exists_only_stageBuild (s := nestedMainScript) rfl (by decide +kernel)
    refine ⟨b, hturn, hstages, ?_⟩
    rw [hturns]
    decide +kernel
  · obtain ⟨b, hturn, -, hstages⟩ :=
      Script.exists_only_stageBuild (s := sameNameScript) rfl (by decide +kernel)
    have hnames : sameNameScript.run.program.stages.map
        (fun stage ↦ stage.definitions.map (·.signature.name)) = [["main", "main"]] := by
      decide +kernel
    refine ⟨b, hturn, hstages, ?_⟩
    rw [hstages] at hnames
    exact (List.cons.inj hnames).1

end ShaderGraph
