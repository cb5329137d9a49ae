import ShaderGraph.Proofs.Registration
import ShaderGraph.Proofs.Script.Passing

/-!
# Data blocks are made once

A program has one data block of each kind. The first request of a kind that
succeeds registers it, wherever it is made, and all later ones give it back and
change nothing.
-/

namespace ShaderGraph

open Scripted

/-- A request for a data block. -/
inductive DataRequest where
  | armature (maxBones : Nat)
  | morphWeights
  | data (kind : DataKind)
  deriving DecidableEq, Repr

namespace DataRequest

def kind : DataRequest → DataKind
  | armature _ => .armature
  | morphWeights => .morphWeights
  | data kind => kind

def run {σ : Type} : DataRequest → Build σ Resources DataBlock
  | armature maxBones => return .armature (← Resources.declareArmature maxBones)
  | morphWeights => return .morphWeights (← Resources.declareMorphWeights)
  | data kind => Resources.declareData kind

/-- What is answered once a data block is registered: the block, unless more bones are asked for
than it has room for. -/
def answer : DataRequest → DataBlock → Except BuildError DataBlock
  | armature maxBones, .armature block =>
    if block.maxBones < maxBones then
      .error (.capacityExceeded "armature joint transforms" maxBones block.maxBones)
    else .ok (.armature block)
  | _, b => .ok b

end DataRequest

def ProgramAction.request? : ProgramAction → Option DataRequest
  | .armature maxBones => some (.armature maxBones)
  | .morphWeights => some .morphWeights
  | .data kind => some (.data kind)
  | .uniform .. | .lookup _ | .taken _ | .registered _ => none

def Declaration.request? : Declaration → Option DataRequest
  | .armature maxBones => some (.armature maxBones)
  | .morphWeights => some .morphWeights
  | .data kind => some (.data kind)
  | .uniform .. | .attribute .. | .output .. | .builtin _ | .interStage .. => none

/-- The request for a data block that a turn is, of a program or of a stage. -/
def Turn.request? : Turn → Option DataRequest
  | .program (.act a _) _ _ => a.request?
  | .stage (.declare d _) _ _ => d.request?
  | _ => none

namespace DataRequest

open Resources

variable {σ : Type} {r r' : Resources} {c c' : σ} {b : DataBlock}

/-- Once a data block is registered, nothing changes. -/
theorem run_of_registered (q : DataRequest) (h : r.dataBlock? q.kind = some b) (c : σ) :
    q.run (r, c) = Build.ofExcept (q.answer b) (r, c) := by
  cases q with
  | armature maxBones =>
    obtain ⟨block, hblock, rfl⟩ := Option.map_eq_some_iff.mp h
    by_cases hroom : block.maxBones < maxBones
    · have hrun : declareArmature maxBones (r, c) = .error
          (.capacityExceeded "armature joint transforms" maxBones block.maxBones) (r, c) := by
        rw [declareArmature, Build.draft_bind]
        simp only [hblock, if_pos hroom]
        rfl
      rw [run, Build.bind_error hrun, answer, if_pos hroom]
      rfl
    · have hrun : declareArmature maxBones (r, c) = .ok block (r, c) := by
        rw [declareArmature, Build.draft_bind]
        simp only [hblock, if_neg hroom]
        rfl
      rw [run, Build.bind_ok hrun, answer, if_neg hroom]
      rfl
  | morphWeights =>
    obtain ⟨block, hblock, rfl⟩ := Option.map_eq_some_iff.mp h
    have hrun : declareMorphWeights (r, c) = .ok block (r, c) := by
      rw [declareMorphWeights, Build.draft_bind]
      simp only [hblock]
      rfl
    rw [run, Build.bind_ok hrun]
    rfl
  | data kind =>
    have hkind : r.dataBlock? kind = some b := h
    rw [run, declareData, Build.draft_bind]
    simp only [hkind]
    rfl

end DataRequest

namespace Resources

variable {σ : Type} {r r₁ r₂ : Resources}

/-- Resources have the same data blocks and listeners. -/
structure SameBlocks (r r' : Resources) : Prop where
  listeners : r'.listeners = r.listeners
  blocks : ∀ kind, r'.dataBlock? kind = r.dataBlock? kind

theorem SameBlocks.trans (h : r.SameBlocks r₁) (h' : r₁.SameBlocks r₂) : r.SameBlocks r₂ :=
  ⟨h'.listeners.trans h.listeners, fun kind ↦ (h'.blocks kind).trans (h.blocks kind)⟩

theorem declareUniform_cases (r : Resources) (c : σ) (name : String) (type : ValueType) :
    (∃ v r', r.SameBlocks r' ∧ declareUniform name type (r, c) = .ok v (r', c)) ∨
      ∃ e, declareUniform name type (r, c) = .error e (r, c) := by
  rcases lookupOrDeclare_cases r c r.uniforms
      (fun v r ↦ { r with uniforms := r.uniforms ++ [v] }) .uniform name type with
    ⟨v, -, -, -, h⟩ | ⟨v, r', hmake, -, -, -, -, -, h⟩ | ⟨e, h⟩
  · exact .inl ⟨v, r, ⟨rfl, fun _ ↦ rfl⟩, h⟩
  · refine .inl ⟨v, _, ?_, h⟩
    rw [hmake.eq]
    exact ⟨rfl, fun kind ↦ by cases kind <;> rfl⟩
  · exact .inr ⟨e, h⟩

theorem declareArmature_of_none (hnone : r.armature = none) (maxBones : Nat) (c : σ) :
    (∃ data r', r.SameBlocks r' ∧
      declareArmature maxBones (r, c) = .ok data (r'.register (.armature data), c)) ∨
      ∃ e r', declareArmature maxBones (r, c) = .error e (r', c) := by
  rw [declareArmature, Build.draft_bind]
  simp only [hnone]
  rcases declareUniform_cases r c ArmatureData.uniformName (ArmatureData.uniformType maxBones)
    with ⟨v, r', hsame, hv⟩ | ⟨e, hv⟩
  · exact .inl ⟨⟨maxBones, v⟩, r', hsame, Build.bind_ok hv⟩
  · exact .inr ⟨e, r, Build.bind_error hv⟩

theorem declareMorphWeights_of_none (hnone : r.morphWeights = none) (c : σ) :
    (∃ data r', r.SameBlocks r' ∧
      declareMorphWeights (r, c) = .ok data (r'.register (.morphWeights data), c)) ∨
      ∃ e r', declareMorphWeights (r, c) = .error e (r', c) := by
  rw [declareMorphWeights, Build.draft_bind]
  simp only [hnone]
  rcases declareUniform_cases r c MorphWeightData.nameA MorphWeightData.uniformType
    with ⟨v, r₁, hsame, hv⟩ | ⟨e, hv⟩
  · rw [Build.bind_ok hv]
    rcases declareUniform_cases r₁ c MorphWeightData.nameB MorphWeightData.uniformType
      with ⟨w, r₂, hsame', hw⟩ | ⟨e, hw⟩
    · exact .inl ⟨⟨v, w⟩, r₂, hsame.trans hsame', Build.bind_ok hw⟩
    · exact .inr ⟨e, r₁, Build.bind_error hw⟩
  · exact .inr ⟨e, r, Build.bind_error hv⟩

end Resources

namespace DataRequest

variable {σ : Type} {r r' : Resources} {c c' : σ} {b : DataBlock}

/-- The first request of a kind registers a block of this kind, or fails. -/
theorem run_of_none (q : DataRequest) (h : r.dataBlock? q.kind = none) (c : σ) :
    (∃ b r', r.SameBlocks r' ∧ b.kind = q.kind ∧ q.run (r, c) = .ok b (r'.register b, c)) ∨
      ∃ e r', q.run (r, c) = .error e (r', c) := by
  have harmature (maxBones : Nat) (hnone : r.dataBlock? .armature = none) :
      (∃ b r', r.SameBlocks r' ∧ b.kind = .armature ∧
        (armature maxBones).run (r, c) = .ok b (r'.register b, c)) ∨
        ∃ e r', (armature maxBones).run (r, c) = .error e (r', c) := by
    rcases Resources.declareArmature_of_none (Option.map_eq_none_iff.mp hnone) maxBones c with
      ⟨data, r', hsame, hrun⟩ | ⟨e, r', hrun⟩
    · exact .inl ⟨.armature data, r', hsame, rfl, Build.bind_ok hrun⟩
    · exact .inr ⟨e, r', Build.bind_error hrun⟩
  have hmorph (hnone : r.dataBlock? .morphWeights = none) :
      (∃ b r', r.SameBlocks r' ∧ b.kind = .morphWeights ∧
        morphWeights.run (r, c) = .ok b (r'.register b, c)) ∨
        ∃ e r', morphWeights.run (r, c) = .error e (r', c) := by
    rcases Resources.declareMorphWeights_of_none (Option.map_eq_none_iff.mp hnone) c with
      ⟨data, r', hsame, hrun⟩ | ⟨e, r', hrun⟩
    · exact .inl ⟨.morphWeights data, r', hsame, rfl, Build.bind_ok hrun⟩
    · exact .inr ⟨e, r', Build.bind_error hrun⟩
  cases q with
  | armature maxBones => exact harmature maxBones h
  | morphWeights => exact hmorph h
  | data kind =>
    have hnone : r.dataBlock? kind = none := h
    rw [run, Resources.declareData, Build.draft_bind]
    simp only [hnone]
    cases kind with
    | armature => exact harmature ArmatureData.defaultBones h
    | morphWeights => exact hmorph h

/-- A request that succeeds gives the block that is registered from then on. -/
theorem registered_of_run {q : DataRequest} (h : q.run (r, c) = .ok b (r', c')) :
    r'.dataBlock? q.kind = some b ∧ (r.dataBlock? q.kind = some b ∧ r' = r ∨
      r.dataBlock? q.kind = none ∧
        r'.listeners = r.listeners ++ if b.isFed then [b] else []) := by
  cases hold : r.dataBlock? q.kind with
  | some b₀ =>
    have hanswer : ∀ b₁, q.answer b₀ = .ok b₁ → b₁ = b₀ := by
      intro b₁ h₁
      unfold answer at h₁
      split at h₁
      · split at h₁
        · cases h₁
        · exact (Except.ok.inj h₁).symm
      · exact (Except.ok.inj h₁).symm
    rw [run_of_registered q hold] at h
    cases hb : q.answer b₀ with
    | ok b₁ =>
      rw [hb] at h
      cases h
      rw [hanswer _ hb]
      exact ⟨hold, .inl ⟨rfl, rfl⟩⟩
    | error e =>
      rw [hb] at h
      cases h
  | none =>
    rcases run_of_none q hold c with ⟨b₁, r₁, hsame, hkind, hrun⟩ | ⟨e, r₁, hrun⟩
    · rw [hrun] at h
      cases h
      refine ⟨?_, .inr ⟨rfl, ?_⟩⟩
      · rw [Resources.dataBlock?_register, if_pos hkind]
      · rw [Resources.listeners_register, hsame.listeners]
    · rw [hrun] at h
      cases h

end DataRequest

theorem ProgramAction.run_request {a : ProgramAction} {q : DataRequest} (h : a.request? = some q) :
    a.run = q.run >>= fun b ↦ pure (.data b) := by
  cases a with
  | armature | morphWeights =>
    cases h
    simp only [run, DataRequest.run, bind_assoc, pure_bind]
  | data kind =>
    cases h
    rfl
  | _ => cases h

/-- What is made of the result of a construction on a part may as well be made afterwards. -/
theorem Build.on_bind_pure {σ S T α β : Type} (part : S → T) (set : S → T → S) (act : Build σ T α)
    (f : α → β) : on part set (act >>= fun a ↦ pure (f a)) =
      on part set act >>= fun a ↦ pure (f a) := by
  funext (s, c)
  have happly := on_apply part set act s c
  rw [on_apply]
  rcases h : act (part s, c) with ⟨a, t, c'⟩ | ⟨e, t, c'⟩ <;> rw [h] at happly
  · rw [Build.bind_ok h, Build.bind_ok happly]
    rfl
  · rw [Build.bind_error h, Build.bind_error happly]

theorem Declaration.run_request {d : Declaration} {q : DataRequest} (h : d.request? = some q) :
    d.run = Build.onResources q.run >>= fun b ↦ pure (.data b) := by
  cases d with
  | armature | morphWeights =>
    cases h
    simp only [run, DataRequest.run, Build.onResources, Build.on_bind_pure, bind_assoc, pure_bind]
  | data kind =>
    cases h
    rfl
  | _ => cases h

/-- A turn does to the resources what a request does, and nothing else. -/
def Turn.Makes (y : Turn) (q : DataRequest) : Prop := ∃ l : Ledger,
  (∃ b r l', q.run (y.before.shared, l) = .ok b (r, l') ∧ y.result = .ok (.data b) ∧
    y.after.shared = r ∧ (r = y.before.shared → y.after = y.before)) ∨
  ∃ e r l', q.run (y.before.shared, l) = .error e (r, l') ∧ y.result = .error e ∧
    y.after.shared = r ∧ (r = y.before.shared → y.after = y.before)

/-- A step that makes a request on the resources of its draft. -/
theorem Turn.makes_of_on {S : Type} [Drafted S] {y : Turn} {q : DataRequest} (part : S → Resources)
    (set : S → Resources → S) (handles : List (Option Handle)) {act : Scripted S Answer} {s : S}
    {l : Ledger} (hact : act = Build.on part set q.run >>= fun b ↦ answered handles (.data b))
    (hbefore : y.before = draft s) (hresult : y.result = act.result s l)
    (hafter : y.after = draft (act.final s l).1) (hpart : (draft s).shared = part s)
    (hshared : ∀ r, (draft (set s r)).shared = r) (hset : set s (part s) = s) : y.Makes q := by
  refine ⟨l, ?_⟩
  rw [hbefore, hresult, hafter, hpart, hact]
  have happly := Build.on_apply part set q.run s l
  rcases hrun : q.run (part s, l) with ⟨b, r, l'⟩ | ⟨e, r, l'⟩ <;> rw [hrun] at happly
  · refine .inl ⟨b, r, l', rfl, ?_, ?_, fun hr ↦ ?_⟩
    · rw [Build.result, Build.bind_ok happly]
      rfl
    · rw [Build.final_bind_ok happly]
      exact hshared r
    · rw [Build.final_bind_ok happly, hr, hset]
      rfl
  · have herror := Build.bind_error (f := fun b ↦ answered handles (.data b)) happly
    refine .inr ⟨e, r, l', rfl, ?_, ?_, fun hr ↦ ?_⟩
    · rw [Build.result, herror]
    · rw [Build.final_error herror]
      exact hshared r
    · rw [Build.final_error herror, hr, hset]

theorem Turn.makes_of_request {y : Turn} {q : DataRequest} (h : y.request? = some q) :
    y.Makes q := by
  cases y with
  | program step p l =>
    cases step with
    | act a handles =>
      refine makes_of_on Program.resources (fun p r ↦ { p with resources := r }) handles ?_
        rfl rfl rfl rfl (fun _ ↦ rfl) rfl
      rw [ProgramStep.run, ProgramAction.run_request h, Build.on_bind_pure, bind_assoc]
      rfl
    | _ => cases h
  | stage step s l =>
    cases step with
    | declare d handles =>
      refine makes_of_on StageDraft.resources (fun s r ↦ { s with resources := r }) handles ?_
        rfl rfl rfl rfl (fun _ ↦ rfl) rfl
      rw [StageStep.run, Declaration.run_request h, bind_assoc]
      rfl
    | _ => cases h
  | scope step s l => cases h
  | block step b l => cases h

namespace Turn

variable {x y : Turn} {q q' : DataRequest} {b : DataBlock}

/-- Once a data block is registered, a request gives it back or fails, and changes nothing. -/
theorem result_of_registered (h : y.request? = some q)
    (hb : y.before.shared.dataBlock? q.kind = some b) :
    y.result = (q.answer b).map .data ∧ y.after = y.before := by
  rcases makes_of_request h with
    ⟨l, ⟨b', r, l', hrun, hresult, -, hsame⟩ | ⟨e, r, l', hrun, hresult, -, hsame⟩⟩ <;>
    rw [q.run_of_registered hb] at hrun <;> cases hanswer : q.answer b <;> rw [hanswer] at hrun <;>
    cases hrun
  · exact ⟨hresult, hsame rfl⟩
  · exact ⟨hresult, hsame rfl⟩

/-- A request that succeeds answers with the block that is registered from then on. A block that is
new is the last listener, if it is fed. -/
theorem registered_of_ok {a : Answer} (h : y.request? = some q) (ha : y.result = .ok a) :
    ∃ b, a = .data b ∧ y.after.shared.dataBlock? q.kind = some b ∧
      (y.before.shared.dataBlock? q.kind = none →
        y.after.shared.listeners = y.before.shared.listeners ++ if b.isFed then [b] else []) := by
  rcases makes_of_request h with
    ⟨l, ⟨b, r, l', hrun, hresult, hshared, -⟩ | ⟨e, r, l', -, hresult, -, -⟩⟩
  · cases hresult.symm.trans ha
    obtain ⟨hblock, hnew⟩ := DataRequest.registered_of_run hrun
    rw [hshared]
    refine ⟨b, rfl, hblock, fun hnone ↦ ?_⟩
    rcases hnew with ⟨hsome, -⟩ | ⟨-, hlisteners⟩
    · simp [hnone] at hsome
    · exact hlisteners
  · cases hresult.symm.trans ha

theorem inside_of_request (h : y.request? = some q) : y.inside = [] := by
  cases y with
  | program step p l => cases step <;> first | cases h | rfl
  | stage step s l => cases step <;> first | cases h | rfl
  | scope step s l => cases h
  | block step b l => cases h

end Turn

/-! ## All runs -/

namespace Tables

theorem KeepsShared.dataBlock? {d d' : Draft} (h : d.tables.KeepsShared d'.tables)
    {kind : DataKind} {b : DataBlock} (hb : d.shared.dataBlock? kind = some b) :
    d'.shared.dataBlock? kind = some b := by
  have hshared (d : Draft) : d.tables.shared = d.shared.tables.shared := by cases d <;> rfl
  have hkeeps : d.shared.tables.shared.Keeps d'.shared.tables.shared := by
    rw [← hshared, ← hshared]
    exact h
  cases kind with
  | armature =>
    obtain ⟨data, hdata, rfl⟩ := Option.map_eq_some_iff.mp hb
    exact Option.map_eq_some_iff.mpr ⟨data, hkeeps.armature data hdata, rfl⟩
  | morphWeights =>
    obtain ⟨data, hdata, rfl⟩ := Option.map_eq_some_iff.mp hb
    exact Option.map_eq_some_iff.mpr ⟨data, hkeeps.morphWeights data hdata, rfl⟩

end Tables

namespace Resources

open Relation (ReflTransGen)

/-- Resources came about by declarations, with data blocks registered in this order. -/
inductive Registers : Resources → List DataBlock → Prop
  | empty : Registers .empty []
  | declare {r r' : Resources} {bs : List DataBlock} (h : Registers r bs) (hstep : r.Declares r')
      (hsame : r.SameBlocks r') : Registers r' bs
  | register {r : Resources} {bs : List DataBlock} {b : DataBlock} (h : Registers r bs)
      (hstep : r.Declares (r.register b)) (hnone : r.dataBlock? b.kind = none) :
      Registers (r.register b) (bs ++ [b])

variable {r r' : Resources} {bs : List DataBlock}

theorem Registers.declares (h : r.Registers bs) (hstep : r.Declares r') :
    ∃ bs', r'.Registers (bs ++ bs') := by
  have hsame {r' : Resources} (hstep : r.Declares r') (h' : r.SameBlocks r') :
      ∃ bs', r'.Registers (bs ++ bs') := ⟨[], by simpa using h.declare hstep h'⟩
  cases hstep with
  | counters q vars scopes =>
    exact hsame (.counters q vars scopes) ⟨rfl, fun kind ↦ by cases kind <;> rfl⟩
  | uniform hnew => exact hsame (.uniform hnew) ⟨rfl, fun kind ↦ by cases kind <;> rfl⟩
  | interStage hnew => exact hsame (.interStage hnew) ⟨rfl, fun kind ↦ by cases kind <;> rfl⟩
  | @data b hnone hvars huniforms =>
    exact ⟨[b], h.register (.data hnone hvars huniforms) hnone⟩

theorem Registers.of_declares (hsteps : ReflTransGen Declares r r') (h : r.Registers bs) :
    ∃ bs', r'.Registers (bs ++ bs') := by
  induction hsteps with
  | refl => exact ⟨[], by simpa using h⟩
  | tail _ hstep ih =>
    obtain ⟨bs₁, h₁⟩ := ih
    obtain ⟨bs₂, h₂⟩ := h₁.declares hstep
    exact ⟨bs₁ ++ bs₂, by simpa using h₂⟩

namespace Registers

theorem mem_iff (h : r.Registers bs) (b : DataBlock) : b ∈ bs ↔ r.dataBlock? b.kind = some b := by
  induction h with
  | empty => cases b <;> simp [Resources.empty, dataBlock?, DataBlock.kind]
  | declare _ _ hsame ih => rw [ih, hsame.blocks]
  | @register r bs b' _ _ hnone ih =>
    rw [List.mem_append, ih, List.mem_singleton, dataBlock?_register]
    by_cases hkind : b'.kind = b.kind
    · rw [if_pos hkind, ← hkind, hnone]
      simp [eq_comm]
    · rw [if_neg hkind]
      simp only [or_iff_left_iff_imp]
      exact fun heq ↦ absurd (congrArg DataBlock.kind heq.symm) hkind

theorem nodup (h : r.Registers bs) : (bs.map DataBlock.kind).Nodup := by
  induction h with
  | empty => exact .nil
  | declare _ _ _ ih => exact ih
  | @register r bs b hregisters _ hnone ih =>
    rw [List.map_append, List.map_singleton, List.nodup_append]
    refine ⟨ih, by simp, ?_⟩
    rintro kind hkind _ hb rfl
    obtain ⟨b', hb', hkind'⟩ := List.mem_map.mp hkind
    have hsome := (hregisters.mem_iff b').mp hb'
    rw [hkind', List.mem_singleton.mp hb, hnone] at hsome
    cases hsome

theorem listeners (h : r.Registers bs) : r.listeners = bs.filter DataBlock.isFed := by
  induction h with
  | empty => rfl
  | declare _ _ hsame ih => rw [hsame.listeners, ih]
  | @register r bs b _ _ _ ih =>
    rw [listeners_register, ih, List.filter_append]
    cases hb : b.isFed <;> simp [hb]

end Registers

end Resources

/-- The data blocks of resources, in the order in which they were registered. There is one of each
kind at most, its uniforms are among those of the program, and those that are fed are the
listeners. -/
structure Resources.DataBlocks (r : Resources) (bs : List DataBlock) : Prop where
  registers : r.Registers bs
  registered : r.Registered
  kinds : (bs.map DataBlock.kind).Nodup
  mem_iff : ∀ b, b ∈ bs ↔ r.dataBlock? b.kind = some b
  listeners : r.listeners = bs.filter DataBlock.isFed

namespace Resources

open Relation (ReflTransGen)

variable {r r' : Resources} {bs : List DataBlock}

theorem Registers.dataBlocks (h : r.Registers bs) (hr : r.Registered) : r.DataBlocks bs :=
  ⟨h, hr, h.nodup, h.mem_iff, h.listeners⟩

theorem DataBlocks.of_declares (hsteps : ReflTransGen Declares r r') (h : r.DataBlocks bs) :
    ∃ bs', r'.DataBlocks (bs ++ bs') := by
  obtain ⟨bs', hbs'⟩ := Registers.of_declares hsteps h.registers
  exact ⟨bs', hbs'.dataBlocks (.of_declares hsteps h.registered)⟩

end Resources

/-- Asks for armatures of several sizes, in the program, in a stage that is given up, and in one
that is not. -/
def requestingScript : Script :=
  ⟨"requesting", [
    .act (.uniform "tint" (.float .four)) [some "tint"],
    .act (.armature 4) [some "bones"],
    .attempt (.buildStage .vertex [.declare .morphWeights [some "weights"], .main [], .main []]),
    .buildStage .vertex [
      .declare (.data .morphWeights) [some "weights"],
      .declare (.data .armature) [some "bones"],
      .attempt (.declare (.armature 9) [some "bones"])],
    .act (.registered .armature) []]⟩

/-- Once a request of a script has given a data block, every later request for that kind, in the
program or in a stage, gives the same block, or fails if it is for more bones than the block has
room for, and changes nothing. So does every request of any client on resources that have a block
of that kind, and they have it as soon as one request was successful. Whatever scripts come across
has its data blocks in the order in which they were registered. Whatever operations there are, the
blocks stay, and new ones come behind them. -/
theorem data_blocks_once :
    (∀ (s : Script) (x y : Turn) (q q' : DataRequest), [x, y].Sublist s.turns →
      x.request? = some q → y.request? = some q' → q'.kind = q.kind →
        ∀ a, x.result = .ok a → ∃ b, a = .data b ∧ b.kind = q.kind ∧
          y.result = (q'.answer b).map .data ∧ y.after = y.before) ∧
    (∀ (σ : Type) (r : Resources) (c : σ) (q : DataRequest) (b : DataBlock),
      (∀ r' c', q.run (r, c) = .ok b (r', c') → r'.dataBlock? q.kind = some b) ∧
      (r.dataBlock? q.kind = some b → q.run (r, c) = Build.ofExcept (q.answer b) (r, c))) ∧
    (∀ d l, Reached d l → ∃ bs, d.shared.DataBlocks bs) ∧
    ∀ R d R' d' bs, Evolves R d R' d' → d.shared.DataBlocks bs →
      ∃ bs', d'.shared.DataBlocks (bs ++ bs') := by
  refine ⟨fun s x y q q' hsub hx hy hkind a ha ↦ ?_, fun σ r c q b ↦ ⟨?_, ?_⟩, fun d l h ↦ ?_,
    fun R d R' d' bs hev hbs ↦ hbs.of_declares hev.declares⟩
  · obtain ⟨b, rfl, hb, -⟩ := Turn.registered_of_ok hx ha
    have horder := s.chronicle.order.sublist hsub
    rw [List.pairwise_pair, Turn.inside_of_request hy] at horder
    have hlater := (horder.resolve_left List.not_mem_nil).dataBlock? hb
    obtain ⟨hresult, hafter⟩ := Turn.result_of_registered hy (hkind ▸ hlater)
    exact ⟨b, rfl, Resources.kind_of_dataBlock? hb, hresult, hafter⟩
  · exact fun r' c' hrun ↦ (DataRequest.registered_of_run hrun).1
  · exact fun hb ↦ q.run_of_registered hb c
  · obtain ⟨bs, hbs⟩ := Resources.Registers.of_declares h.declares .empty
    exact ⟨bs, hbs.dataBlocks h.registered⟩

theorem data_blocks_once_requesting :
    (∃ x y b, [x, y].Sublist requestingScript.turns ∧ x.request? = some (.armature 4) ∧
      y.request? = some (.armature 9) ∧ x.result = .ok (.data b) ∧
        y.result = ((DataRequest.armature 9).answer b).map .data ∧ y.after = y.before) ∧
    (∃ b r, DataRequest.run (.armature 4) (Resources.empty, ()) = .ok b (r, ()) ∧
      DataRequest.run (.data .armature) (r, ()) = .ok b (r, ())) ∧
    requestingScript.run.program.resources.listeners.length = 2 ∧
    (∃ bs, requestingScript.run.program.resources.DataBlocks bs) ∧
    ∃ bs, requestingScript.run.program.resources.DataBlocks ([] ++ bs) := by
  refine ⟨?_, ?_, by decide +kernel, ?_, ?_⟩
  · have hfound : ((requestingScript.turns.take 2).any fun x ↦
          decide (x.request? = some (.armature 4)) && x.result.isOk) = true ∧
        ((requestingScript.turns.drop 2).any fun y ↦
          decide (y.request? = some (.armature 9))) = true := by
      decide +kernel
    simp only [List.any_eq_true, Bool.and_eq_true, decide_eq_true_eq] at hfound
    obtain ⟨⟨x, hx, hxq, hok⟩, y, hy, hyq⟩ := hfound
    have hsub : [x, y].Sublist requestingScript.turns := by
      have hpair := (List.singleton_sublist.mpr hx).append (List.singleton_sublist.mpr hy)
      rwa [List.take_append_drop] at hpair
    cases hresult : x.result with
    | error e => simp [hresult, Except.isOk, Except.toBool] at hok
    | ok a =>
      obtain ⟨b, rfl, -, hyresult, hafter⟩ :=
        data_blocks_once.1 requestingScript x y _ _ hsub hxq hyq rfl a hresult
      exact ⟨x, y, b, hsub, hxq, hyq, hresult, hyresult, hafter⟩
  · have hrun : (match (DataRequest.armature 4).run (Resources.empty, ()) with
      | .ok _ _ => true
      | .error _ _ => false) = true := by decide +kernel
    rcases h : (DataRequest.armature 4).run (Resources.empty, ()) with ⟨b, r, c⟩ | ⟨e, state⟩
    · have hblock := (data_blocks_once.2.1 Unit _ () (.armature 4) b).1 r c h
      exact ⟨b, r, rfl, (data_blocks_once.2.1 Unit r () (.data .armature) b).2 hblock⟩
    · simp [h] at hrun
  · have hbs := data_blocks_once.2.2.1 _ _ requestingScript.reached_run
    exact hbs
  · obtain ⟨R, hev⟩ := requestingScript.evolves_run fun t _ ↦ t.permitted_start
    have hbs := data_blocks_once.2.2.2 _ _ _ _ [] hev
      (Resources.Registers.empty.dataBlocks Resources.registered_empty)
    exact hbs

end ShaderGraph
