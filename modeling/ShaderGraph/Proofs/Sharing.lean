import ShaderGraph.Proofs.Draft.Sharing
import ShaderGraph.Proofs.Script.Building

/-!
# Declarations are shared

What a turn has declared in a table that is shared, a later turn finds there,
wherever the script is by then and whatever was given up meanwhile. It is given
the variable if it wants the same, and is refused the name for anything else.
-/

namespace ShaderGraph

open Scripted

def ProgramAction.demand? : ProgramAction → Option (String × Demand)
  | .uniform name type => some (name, .shared .uniform type)
  | .lookup _ | .taken _ | .armature _ | .morphWeights | .data _ | .registered _ => none

def Declaration.demand? : Declaration → Option (String × Demand)
  | .uniform name type => some (name, .shared .uniform type)
  | .attribute name type kind => some (name, .shared (.attribute kind) type)
  | .output name _ => some (name, .output)
  | .interStage name type => some (name, .shared .interStage type)
  | .builtin _ | .armature _ | .morphWeights | .data _ => none

def Action.demand? : Action → Option (String × Demand)
  | .declare _ _ (some name) => some (name, .localVar)
  | .bindNamed name _ => some (name, .localVar)
  | _ => none

namespace Turn

/-- The name that a turn wants, and what for. -/
def demand? : Turn → Option (String × Demand)
  | program (.act a _) _ _ => a.demand?
  | stage (.declare d _) _ _ => d.demand?
  | stage (.function head _ _) _ _ => head.name.map fun name ↦ (name, .function)
  | scope (.act a _) _ _ => a.demand?
  | _ => none

/-- A turn that wants the name of a variable is given it if it wants what was made, and is refused
otherwise. Nothing changes. -/
structure Finds (y : Turn) (made q : Demand) (v : Variable) : Prop where
  given : q = made → y.result = .ok (.var v)
  refused : q ≠ made → ∃ e, y.result = .error e ∧
    ∀ k type, q = .shared k type → v ∈ k.entries y.before.tables → e = .nameTaken v.name
  unchanged : y.after = y.before

/-- A turn ends with what a construction on its draft ends with. -/
structure Answers {S : Type} [Drafted S] (y : Turn) (act : Scripted S Answer) (s : S) (l : Ledger) :
    Prop where
  before : y.before = draft s
  result : y.result = act.result s l
  after : y.after = draft (act.final s l).1

theorem Answers.of_answered {S : Type} [Drafted S] {y : Turn} {act : Scripted S Answer} {s : S}
    {l : Ledger} (handles : List (Option Handle))
    (h : y.Answers (act >>= fun a ↦ answered handles a) s l) : y.Answers act s l where
  before := h.before
  result := by
    rw [h.result]
    unfold Build.result
    rcases hact : act (s, l) with ⟨a, s', l'⟩ | ⟨e, s', l'⟩
    · rw [Build.bind_ok hact]
      rfl
    · rw [Build.bind_error hact]
  after := by rw [h.after, draft_answered]

theorem answers_program (a : ProgramAction) (handles : List (Option Handle)) (p : Program)
    (l : Ledger) : (program (.act a handles) p l).Answers
      (Build.on Program.resources (fun p r ↦ { p with resources := r }) a.run) p l :=
  .of_answered handles ⟨rfl, rfl, rfl⟩

theorem answers_declare (d : Declaration) (handles : List (Option Handle)) (s : StageDraft)
    (l : Ledger) : (stage (.declare d handles) s l).Answers d.run s l :=
  .of_answered handles ⟨rfl, rfl, rfl⟩

theorem answers_act (a : Action) (handles : List (Option Handle)) (s : ScopeDraft) (l : Ledger) :
    (scope (.act a handles) s l).Answers a.run s l :=
  .of_answered handles ⟨rfl, rfl, rfl⟩

namespace Answers

variable {S : Type} [Drafted S] {y : Turn} {act : Scripted S Answer} {s : S} {l : Ledger}
  {made q : Demand} {v : Variable}

theorem finds_given (h : y.Answers act s l) (hact : act (s, l) = .ok (.var v) (s, l)) :
    y.Finds q q v where
  given _ := by rw [h.result, Build.result, hact]
  refused hne := absurd rfl hne
  unchanged := by rw [h.after, h.before, Build.final_ok hact]

theorem finds_refused (h : y.Answers act s l) (hne : q ≠ made) {e : BuildError}
    (hact : act (s, l) = .error e (s, l)) (he : ∀ k type, q = .shared k type →
      v ∈ k.entries y.before.tables → e = .nameTaken v.name) : y.Finds made q v where
  given hq := absurd hq hne
  refused _ := ⟨e, by rw [h.result, Build.result, hact], he⟩
  unchanged := by rw [h.after, h.before, Build.final_error hact]

theorem of_ok (h : y.Answers act s l) {a : Answer} (hresult : y.result = .ok a) :
    ∃ s' l', act (s, l) = .ok a (s', l') ∧ y.after = draft s' := by
  rw [h.result, Build.result] at hresult
  rcases hact : act (s, l) with ⟨a', s', l'⟩ | ⟨e, s', l'⟩ <;> rw [hact] at hresult <;>
    cases hresult
  exact ⟨s', l', rfl, by rw [h.after, Build.final_ok hact]⟩

end Answers

variable {y : Turn} {k k' : SharedKind} {q : Demand} {v : Variable} {name : String}
  {type : ValueType} {R : Registry}

/-- The declarations that a step of a stage makes for everyone. -/
theorem run_of_demand? {d : Declaration} (h : d.demand? = some (name, .shared k type)) :
    d.run = (do return .var (← k.declare name type)) := by
  cases d with
  | uniform | interStage | «attribute» =>
    cases h
    rfl
  | _ => cases h

theorem finds_declare {d : Declaration} {s : StageDraft} {l : Ledger}
    (handles : List (Option Handle)) (hs : s.Invariant R)
    (hv : (Demand.shared k type).Describes s.tables v) (h : d.demand? = some (v.name, q)) :
    (stage (.declare d handles) s l).Finds (.shared k type) q v := by
  have hvars : v ∈ R.vars := (Draft.Invariant.of_entry (d := .stage s) hs hv.1).1
  have hanswers := answers_declare d handles s l
  cases q with
  | shared k' type' =>
    rw [run_of_demand? h] at hanswers
    by_cases hq : Demand.shared k' type' = .shared k type
    · rw [hq]
      obtain ⟨rfl, rfl⟩ := Demand.shared.inj hq
      exact hanswers.finds_given (Build.bind_ok (SharedKind.declare_of_describes hs hv l))
    · have hnot : ¬(Demand.shared k' type').Describes s.tables v := fun hd ↦
        hq ((Draft.Invariant.describes_iff (d := .stage s) hs hv _).mp hd)
      obtain ⟨e, hrun, he⟩ := SharedKind.declare_of_not_describes hs hvars hnot l
      refine hanswers.finds_refused hq (Build.bind_error hrun) fun k₁ type₁ heq hmem ↦ ?_
      cases heq
      exact he hmem
  | output =>
    cases d with
    | output name type =>
      cases h
      obtain ⟨e, hrun⟩ := StageDraft.declareOutput_refused hs hvars type l
      exact hanswers.finds_refused nofun (Build.bind_error hrun) nofun
    | _ => cases h
  | localVar | function => cases d <;> cases h

theorem finds_program {a : ProgramAction} {p : Program} {l : Ledger}
    (handles : List (Option Handle)) (hp : R.Fits p.resources)
    (hv : (Demand.shared k type).Describes p.resources.tables v)
    (h : a.demand? = some (v.name, q)) :
    (program (.act a handles) p l).Finds (.shared k type) q v := by
  have hdescribes := Draft.Invariant.describes_iff (d := .resources p.resources) hp hv
  have hvars : v ∈ R.vars := (Draft.Invariant.of_entry (d := .resources p.resources) hp hv.1).1
  have hanswers := answers_program a handles p l
  cases a with
  | uniform name type' =>
    cases h
    have hrun := hp.declareUniform_eq hvars type' l
    by_cases hq : Demand.shared .uniform type' = .shared k type
    · obtain ⟨hmem, -, htype⟩ := (hdescribes _).mpr hq
      rw [if_pos ⟨hmem, htype⟩] at hrun
      rw [hq]
      exact hanswers.finds_given (Build.on_same (Build.bind_ok hrun) rfl)
    · have hnot : ¬(v ∈ p.resources.uniforms ∧ v.type = type') := fun ⟨hmem, htype⟩ ↦
        hq ((hdescribes _).mp ⟨hmem, (hp.uniformKinds v hmem).1, htype⟩)
      rw [if_neg hnot] at hrun
      exact hanswers.finds_refused hq (Build.on_refused (Build.bind_error hrun) rfl)
        fun _ _ _ _ ↦ rfl
  | _ => cases h

theorem finds_act {a : Action} {s : ScopeDraft} {l : Ledger} (handles : List (Option Handle))
    (hs : s.stage.Invariant R) (hv : v ∈ R.vars) (h : a.demand? = some (v.name, q)) :
    (scope (.act a handles) s l).Finds (.shared k type) q v := by
  have hanswers := answers_act a handles s l
  cases a with
  | declare type init name =>
    cases name with
    | none => cases h
    | some name =>
      cases h
      have hrun : ∃ e, (Action.declare type init (some v.name)).run (s, l) = .error e (s, l) := by
        refine (looks_eval _).bind_refused fun init ↦ ?_
        obtain ⟨e, hrun⟩ := ScopeDraft.declareVariable_refused hs hv type init l
        exact ⟨e, Build.bind_error hrun⟩
      obtain ⟨e, hrun⟩ := hrun
      exact hanswers.finds_refused nofun hrun nofun
  | bindNamed name init =>
    cases h
    have hrun : ∃ e, (Action.bindNamed v.name init).run (s, l) = .error e (s, l) := by
      refine (looks_eval _).bind_refused fun init ↦ ?_
      obtain ⟨e, hrun⟩ := ScopeDraft.bindNamed_refused hs hv init l
      exact ⟨e, Build.bind_error hrun⟩
    obtain ⟨e, hrun⟩ := hrun
    exact hanswers.finds_refused nofun hrun nofun
  | _ => cases h

theorem finds_function {head : FunctionHead} {body : List ScopeStep} {s : StageDraft} {l : Ledger}
    (handles : List (Option Handle)) (hs : s.Invariant R) (hv : v ∈ R.vars)
    (h : head.name = some v.name) :
    (stage (.function head body handles) s l).Finds (.shared k type) .function v := by
  have hrun : (StageStep.function head body handles).run (s, l) =
      .error (.nameTaken v.name) (s, l) := by
    have hdefine := StageDraft.defineFunction_refused hs hv head.params head.result
      (head.body body) l
    rw [← h] at hdefine
    exact Build.bind_error hdefine
  have hanswers : (stage (.function head body handles) s l).Answers
      (StageStep.function head body handles).run s l := ⟨rfl, rfl, rfl⟩
  exact hanswers.finds_refused nofun hrun nofun

/-- Whatever a turn wants under the name of a variable that is in a table. -/
theorem finds (hsound : Sound y.before y.ledger)
    (hv : (Demand.shared k type).Describes y.before.tables v)
    (h : y.demand? = some (v.name, q)) : y.Finds (.shared k type) q v := by
  obtain ⟨R, -, hd⟩ := hsound
  have hvars : v ∈ R.vars := (hd.of_entry hv.1).1
  cases y with
  | program step p l =>
    cases step with
    | act a handles => exact finds_program handles (Program.Invariant.fits hd) hv h
    | _ => cases h
  | stage step s l =>
    cases step with
    | declare d handles => exact finds_declare handles hd hv h
    | function head body handles =>
      obtain ⟨name, hname, hq⟩ := Option.map_eq_some_iff.mp h
      cases hq
      exact finds_function handles hd hvars hname
    | _ => cases h
  | scope step s l =>
    cases step with
    | act a handles => exact finds_act handles (ScopeDraft.Invariant.stage hd) hvars h
    | _ => cases h
  | block step b l => cases h

/-- What a turn has declared is as it wanted, and in its table from then on. -/
theorem declared {x : Turn} (hsound : Sound x.before x.ledger)
    (h : x.demand? = some (name, .shared k type)) (hresult : x.result = .ok (.var v)) :
    v.name = name ∧ (Demand.shared k type).Describes x.after.tables v := by
  have hvar {S : Type} {act : Scripted S Variable} {s s' : S} {l l' : Ledger}
      (h : (act >>= fun w ↦ pure (Answer.var w)) (s, l) = .ok (.var v) (s', l')) :
      act (s, l) = .ok v (s', l') := by
    rcases hact : act (s, l) with ⟨w, s₁, l₁⟩ | ⟨e, s₁, l₁⟩
    · rw [Build.bind_ok hact] at h
      cases h
      rfl
    · rw [Build.bind_error hact] at h
      cases h
  obtain ⟨R, -, hd⟩ := hsound
  cases x with
  | program step p l =>
    cases step with
    | act a handles =>
      obtain ⟨p', l', hrun, hafter⟩ := (answers_program a handles p l).of_ok hresult
      cases a with
      | uniform name type =>
        cases h
        rw [Build.on_apply] at hrun
        rcases hact : (ProgramAction.uniform name type).run (p.resources, l) with
          ⟨w, r, l₁⟩ | ⟨e, r, l₁⟩ <;> rw [hact] at hrun <;> cases hrun
        rw [hafter]
        exact Resources.of_declareUniform (Program.Invariant.fits hd) (hvar hact)
      | _ => cases h
    | _ => cases h
  | stage step s l =>
    cases step with
    | declare d handles =>
      have hanswers := answers_declare d handles s l
      rw [run_of_demand? h] at hanswers
      obtain ⟨s', l', hrun, hafter⟩ := hanswers.of_ok hresult
      rw [hafter]
      exact SharedKind.of_declare hd (hvar hrun)
    | function head body handles =>
      obtain ⟨_, _, hq⟩ := Option.map_eq_some_iff.mp h
      cases hq
    | _ => cases h
  | scope step s l =>
    cases step with
    | act a handles =>
      cases a with
      | declare type init name => cases name <;> cases h
      | _ => cases h
    | _ => cases h
  | block step b l => cases h

/-- Only definitions of functions have turns inside of them, among the turns that want a name. -/
theorem inside_of_demand? (h : y.demand? = some (name, q)) (hq : q ≠ .function) :
    y.inside = [] := by
  cases y with
  | program step p l => cases step <;> first | cases h | rfl
  | stage step s l =>
    cases step with
    | function head body handles =>
      obtain ⟨_, _, heq⟩ := Option.map_eq_some_iff.mp h
      cases heq
      exact absurd rfl hq
    | _ => first | cases h | rfl
  | scope step s l => cases step <;> first | cases h | rfl
  | block step b l => cases h

/-- What one turn has declared is as it wanted, stays where it is in its table, and is found by a
later turn that wants the name. -/
structure Shares (x y : Turn) (k : SharedKind) (name : String) (type : ValueType) (v : Variable) :
    Prop where
  name_eq : v.name = name
  describes : v.kind = k.variableKind ∧ v.type = type
  declared : v ∈ k.entries x.after.tables
  grows : k.entries x.after.tables <+: k.entries y.before.tables
  finds : ∀ q, y.demand? = some (name, q) → y.Finds (.shared k type) q v

theorem shares {x : Turn} (hx : Sound x.before x.ledger) (hy : Sound y.before y.ledger)
    (hgrows : k.entries x.after.tables <+: k.entries y.before.tables)
    (h : x.demand? = some (name, .shared k type)) (hresult : x.result = .ok (.var v)) :
    x.Shares y k name type v := by
  obtain ⟨hname, hmem, hd⟩ := declared hx h hresult
  exact ⟨hname, hd, hmem, hgrows, fun q hq ↦ finds hy ⟨hgrows.subset hmem, hd⟩ (hname ▸ hq)⟩

end Turn

theorem Tables.KeepsShared.entries {t t' : Tables} (h : t.KeepsShared t') {k : SharedKind}
    (hk : k.OfProgram) : k.entries t <+: k.entries t' := by
  have hshared : t.shared.Keeps t'.shared := h
  cases k with
  | uniform => exact hshared.uniforms
  | interStage => exact hshared.interStage
  | «attribute» => exact hk.elim

/-! ## All runs -/

/-- Steps of a stage that wants attributes again, for other things, and then is given up. One of
the attributes has the kind of a uniform. -/
def contendingSteps : List StageStep := [
  .declare (.attribute "position" (.float .three) .vertexAttribute) [some "position"],
  .declare (.attribute "gain" (.float .one) .uniform) [some "gain"],
  .declare (.interStage "light" (.float .one)) [some "light"],
  .attempt (.declare (.attribute "position" (.float .three) .instanceAttribute) []),
  .attempt (.declare (.uniform "gain" (.float .one)) []),
  .main [],
  .main []]

/-- The turns of these steps in a vertex stage. -/
def contendingTurns : List Turn :=
  StageStep.turnsOfList (.start .vertex .empty) .empty contendingSteps

/-- Declares the same names over and over, in the program, in a stage that is given up, and in one
that is not. -/
def sharingScript : Script :=
  ⟨"sharing", [
    .act (.uniform "tint" (.float .four)) [some "tint"],
    .attempt (.buildStage .vertex contendingSteps),
    .buildStage .fragment [
      .declare (.uniform "tint" (.float .four)) [some "again"],
      .attempt (.declare (.uniform "light" (.float .one)) []),
      .main [.attempt (.act (.declare .bool none (some "tint")) [])]],
    .attempt (.act (.uniform "tint" (.float .three)) [])]⟩

/-- Whatever scripts do, a uniform or an inter-stage value that a turn has declared is found by all
later turns that want its name, in the program and in its stages, and so is an attribute of any kind
within one stage. The tables of uniforms and inter-stage values only grow at their ends, whatever
operations there are. Any client that wants the name of what is in a table is given it or refused,
and nothing changes. -/
theorem declarations_shared :
    (∀ (s : Script) (x y : Turn), [x, y].Sublist s.turns → x ∉ y.inside →
      ∀ (k : SharedKind) name type v, k.OfProgram → x.demand? = some (name, .shared k type) →
        x.result = .ok (.var v) → x.Shares y k name type v) ∧
    (∀ p l, Reached (.program p) l → ∀ (kind : StageKind) (steps : List StageStep) (x y : Turn),
      [x, y].Sublist (StageStep.turnsOfList (.start kind p.resources) l steps) → x ∉ y.inside →
        ∀ (declared : VariableKind) name type v,
          x.demand? = some (name, .shared (.attribute declared) type) →
            x.result = .ok (.var v) → x.Shares y (.attribute declared) name type v) ∧
    (∀ R d R' d', Evolves R d R' d' → d.shared.uniforms <+: d'.shared.uniforms ∧
      d.shared.interStage <+: d'.shared.interStage) ∧
    ∀ R (s : StageDraft), s.Invariant R → ∀ (k : SharedKind) v, v ∈ k.entries s.tables →
      s.Settles (k.returning v) v := by
  refine ⟨fun s x y hsub hafter k name type v hk hx hresult ↦ ?_,
    fun p l hp kind steps x y hsub hafter declared name type v hx hresult ↦ ?_,
    fun R d R' d' hev ↦ ?_, fun R s hs k v hv ↦ hs.settles hv⟩
  · have hchronicle := s.chronicle
    have horder := List.pairwise_pair.mp (hchronicle.order.sublist hsub)
    have hgrows := (horder.resolve_left hafter).entries hk
    have hmem := hsub.subset
    exact Turn.shares (hchronicle.sound x (hmem (by simp))) (hchronicle.sound y (hmem (by simp)))
      hgrows hx hresult
  · have hpasses := StageStep.passes_list steps (hp.sound.openedStage kind)
    have horder := List.pairwise_pair.mp (hpasses.order.sublist hsub)
    have hgrows := (horder.resolve_left hafter).attributes
    have hmem := hsub.subset
    exact Turn.shares (hpasses.sound x (hmem (by simp))) (hpasses.sound y (hmem (by simp)))
      hgrows hx hresult
  · have hshared (d : Draft) : d.tables.uniforms = d.shared.uniforms ∧
        d.tables.interStage = d.shared.interStage := by cases d <;> exact ⟨rfl, rfl⟩
    rw [← (hshared d).1, ← (hshared d).2, ← (hshared d').1, ← (hshared d').2]
    exact ⟨hev.keeps.uniforms, hev.keeps.interStage⟩

/-- Among turns, there are two that want the name, the first of which is given a variable. -/
theorem exists_contending (turns : List Turn) (n : Nat) (name : String) (q q' : Demand)
    (h : ((turns.take n).any (fun x ↦ decide (x.demand? = some (name, q)) &&
      match x.result with
      | .ok (.var _) => true
      | _ => false) &&
      (turns.drop n).any fun y ↦ decide (y.demand? = some (name, q'))) = true) :
    ∃ x y v, [x, y].Sublist turns ∧ x.demand? = some (name, q) ∧ x.result = .ok (.var v) ∧
      y.demand? = some (name, q') := by
  simp only [Bool.and_eq_true, List.any_eq_true, decide_eq_true_eq] at h
  obtain ⟨⟨x, hx, hdemand, hresult⟩, y, hy, hdemand'⟩ := h
  have hsub : [x, y].Sublist turns := by
    have hpair := (List.singleton_sublist.mpr hx).append (List.singleton_sublist.mpr hy)
    rwa [List.take_append_drop] at hpair
  split at hresult
  · next v hv => exact ⟨x, y, v, hsub, hdemand, hv, hdemand'⟩
  · cases hresult

theorem declarations_shared_declaring :
    (∃ x y v, [x, y].Sublist sharingScript.turns ∧
      y.demand? = some ("tint", .shared .uniform (.float .three)) ∧
        x.Shares y .uniform "tint" (.float .four) v) ∧
    (∃ x y v, [x, y].Sublist contendingTurns ∧
      y.demand? = some ("position", .shared (.attribute .instanceAttribute) (.float .three)) ∧
        x.Shares y (.attribute .vertexAttribute) "position" (.float .three) v) ∧
    (∃ x y v, [x, y].Sublist contendingTurns ∧
      y.demand? = some ("gain", .shared .uniform (.float .one)) ∧
        x.Shares y (.attribute .uniform) "gain" (.float .one) v) ∧
    (∃ R, Evolves (.start Set.univ False) (.program (.new sharingScript.name)) R
        (.program sharingScript.run.program) ∧
      (Draft.program (.new sharingScript.name)).shared.uniforms <+:
          (Draft.program sharingScript.run.program).shared.uniforms ∧
        (Draft.program (.new sharingScript.name)).shared.interStage <+:
          (Draft.program sharingScript.run.program).shared.interStage) ∧
    ∃ s v, s = StageDraft.start .vertex sharingScript.run.program.resources ∧
      v ∈ SharedKind.interStage.entries s.tables ∧ v.name = "light" ∧ s.Settles .interStage v := by
  have hattributes {name : String} {declared : VariableKind} {type : ValueType} {q : Demand}
      (hq : q ≠ .function) (h : ∃ x y v, [x, y].Sublist contendingTurns ∧
        x.demand? = some (name, .shared (.attribute declared) type) ∧ x.result = .ok (.var v) ∧
          y.demand? = some (name, q)) :
      ∃ x y v, [x, y].Sublist contendingTurns ∧ y.demand? = some (name, q) ∧
        x.Shares y (.attribute declared) name type v := by
    obtain ⟨x, y, v, hsub, hx, hv, hy⟩ := h
    have hafter : x ∉ y.inside := by simp [Turn.inside_of_demand? hy hq]
    exact ⟨x, y, v, hsub, hy, declarations_shared.2.1 _ _ (.start "sharing") .vertex
      contendingSteps x y hsub hafter declared _ _ v hx hv⟩
  refine ⟨?_, ?_, ?_, ?_, ?_⟩
  · obtain ⟨x, y, v, hsub, hx, hv, hy⟩ := exists_contending sharingScript.turns 4 "tint"
      (.shared .uniform (.float .four)) (.shared .uniform (.float .three)) (by decide +kernel)
    have hafter : x ∉ y.inside := by simp [Turn.inside_of_demand? hy nofun]
    exact ⟨x, y, v, hsub, hy,
      declarations_shared.1 sharingScript x y hsub hafter .uniform _ _ v trivial hx hv⟩
  · exact hattributes nofun (exists_contending contendingTurns 2 "position"
      (.shared (.attribute .vertexAttribute) (.float .three))
      (.shared (.attribute .instanceAttribute) (.float .three)) (by decide +kernel))
  · exact hattributes nofun (exists_contending contendingTurns 2 "gain"
      (.shared (.attribute .uniform) (.float .one)) (.shared .uniform (.float .one))
      (by decide +kernel))
  · obtain ⟨R, hev⟩ := sharingScript.evolves_run fun t _ ↦ t.permitted_start
    exact ⟨R, hev, declarations_shared.2.2.1 _ _ _ _ hev⟩
  · obtain ⟨R, -, hp⟩ := sharingScript.reached_run.sound
    have hstage := StageDraft.invariant_start (Program.Invariant.fits hp) .vertex
    have hlight : ((SharedKind.interStage.entries
        (StageDraft.start .vertex sharingScript.run.program.resources).tables).map
          Variable.name).contains "light" = true := by decide +kernel
    obtain ⟨v, hv, hname⟩ := List.mem_map.mp (List.contains_iff_mem.mp hlight)
    exact ⟨_, v, rfl, hv, hname, declarations_shared.2.2.2 R _ hstage .interStage v hv⟩

end ShaderGraph
