import ShaderGraph.Proofs.BlockOutputs
import ShaderGraph.Proofs.Draft.Rejecting
import ShaderGraph.Proofs.Draft.Tables

/-!
# Rejected operations

An operation without a body that is rejected changes nothing at all. One with a
body leaves the scope that it was called on as it was, and gives the stage back
with the regions around it. What the body has put into the tables stays, behind
what was there.
-/

namespace ShaderGraph

open Scripted

/-- What builds the body of an operation. -/
structure Body where
  /-- How many names the operation takes for itself before. -/
  names : Nat
  /-- From a scope just opened, and with a ledger, the construction comes to a scope and a ledger,
  whether it succeeds or not. -/
  Comes : ScopeDraft → Ledger → ScopeDraft → Ledger → Prop

namespace Body

/-- Steps in a scope for which names are taken before. -/
def steps (names : Nat) (act : Scripted ScopeDraft Unit) : Body :=
  ⟨names, fun s l t l' ↦ act.final s l = (t, l')⟩

/-- A function is built from its arguments. -/
def function (params : List ValueType)
    (act : List Variable → Scripted ScopeDraft (Option Expr)) : Body :=
  ⟨params.length + 1, fun s l t l' ↦ ∃ args, (act args).final s l = (t, l')⟩

/-- The body of a loop is built from its variable. -/
def loop (act : Expr → Scripted ScopeDraft Unit) : Body :=
  ⟨1, fun s l t l' ↦ ∃ i, (act (.var i)).final s l = (t, l')⟩

def block {α : Type} (act : Scripted BlockDraft α) : Body :=
  ⟨1, fun s l t l' ↦ ∃ b b', b.scope = s ∧ act.final b l = (b', l') ∧ b'.scope = t⟩

end Body

/-- The definitions of functions by a script. -/
inductive Definition : {α : Type} → Scripted StageDraft α → Body → Prop
  | function (head : FunctionHead) (steps : List ScopeStep) :
      Definition (StageDraft.defineFunction head.name head.params head.result (head.body steps))
        (.function head.params (head.body steps))
  | main (steps : List ScopeStep) :
      Definition (StageDraft.defineMain (ScopeStep.runAll steps))
        (.steps 0 (ScopeStep.runAll steps))

/-- The operations on a scope by a script, those with a body and those without. -/
inductive Operation (l : Ledger) : {α : Type} → Scripted ScopeDraft α → Option Body → Prop
  | declareVariable (type : ValueType) (init : Option Expr) (name : Option String) :
      Operation l (ScopeDraft.declareVariable type init name) none
  | bindNamed (name : String) (init : Expr) : Operation l (ScopeDraft.bindNamed name init) none
  | assign (target value : Expr) : Operation l (ScopeDraft.assign target value) none
  | augment (target : Expr) (op : AugmentOp) (value : Expr) :
      Operation l (ScopeDraft.augment target op value) none
  | set (target : Expr) (op : Option AugmentOp) (value : Expr) :
      Operation l (ScopeDraft.set target op value) none
  | breakLoop : Operation l ScopeDraft.breakLoop none
  | continueLoop : Operation l ScopeDraft.continueLoop none
  | discard : Operation l ScopeDraft.discard none
  | leaveFunction (value : Option Expr) : Operation l (ScopeDraft.leaveFunction value) none
  | invoke (f : Signature) (args : List Expr) : Operation l (ScopeDraft.invoke f args) none
  | checkReads (e : Expr) : Operation l (ScopeDraft.checkReads e) none
  | branch (condition : Expr) (steps : List ScopeStep) :
      Operation l (ScopeDraft.branch condition (ScopeStep.runAll steps))
        (some (.steps 0 (ScopeStep.runAll steps)))
  | elseIf (condition : Expr) (steps : List ScopeStep) :
      Operation l (ScopeDraft.elseIf condition (ScopeStep.runAll steps))
        (some (.steps 0 (ScopeStep.runAll steps)))
  | otherwise (steps : List ScopeStep) :
      Operation l (ScopeDraft.otherwise (ScopeStep.runAll steps))
        (some (.steps 0 (ScopeStep.runAll steps)))
  | loopFor (v : Handle) (init : Expr) (condition update : Term) (steps : List ScopeStep) :
      Operation l (ScopeDraft.loopFor init (LoopHeader.make v init.type condition update)
        (LoopHeader.body init.type condition update steps))
        (some (.loop (LoopHeader.body init.type condition update steps)))
  | loopRange (v : Handle) (first stop : Expr) (steps : List ScopeStep) :
      Operation l (ScopeDraft.loopRange first stop (LoopHeader.rangeBody v steps))
        (some (.loop (LoopHeader.rangeBody v steps)))
  | loopWhile (condition : Expr) (steps : List ScopeStep) :
      Operation l (ScopeDraft.loopWhile condition (ScopeStep.runAll steps))
        (some (.steps 0 (ScopeStep.runAll steps)))
  | block (kind : String) {α : Type} {build : Scripted BlockDraft α} (hbuild : BlockBody l build) :
      Operation l (ScopeDraft.block kind build) (some (.block build))
  | definition {α : Type} {act : Scripted StageDraft α} {body : Body}
      (hact : Definition act body) : Operation l (Build.onStage act) (some body)

/-- What is left of a stage after an operation with a body was rejected. The tables are those that
the body came to from the ones before the operation, with only names of the operation's own taken
in between; or the body was not even begun after that. -/
structure StageDraft.GaveUp (body : Body) (s s' : StageDraft) (l' : Ledger) : Prop where
  frames : s'.frames = s.frames
  kind : s'.kind = s.kind
  keeps : s.tables.Keeps s'.tables
  gains : ∃ names start l t, names.length = body.names ∧
    start.stage.tables = s.tables.reserve names ∧
      ((t, l') = (start, l) ∨ body.Comes start l t l') ∧ s'.tables = t.stage.tables

theorem StageDraft.GaveUp.of_keeps {body : Body} {s s' : StageDraft} {start t : ScopeDraft}
    {l l' : Ledger} {names : List String} (hlength : names.length = body.names)
    (hstart : start.stage.tables = s.tables.reserve names)
    (hkeeps : start.stage.tables.Keeps t.stage.tables) (hext : s.Extends s')
    (hs' : s'.tables = t.stage.tables) (hrun : (t, l') = (start, l) ∨ body.Comes start l t l') :
    s.GaveUp body s' l' where
  frames := hext.frames
  kind := hext.kind
  keeps := by
    rw [hs']
    exact (Tables.Keeps.reserve names _).trans (hstart ▸ hkeeps)
  gains := ⟨names, start, l, t, hlength, hstart, hrun, hs'⟩

namespace Sound

/-- A construction that is traced evolves its draft up to wherever it ends. -/
theorem evolves_final {S α : Type} [Drafted S] {s : S} {l : Ledger} {R : Registry}
    {act : Scripted S α} {Q : Registry → α → Prop} (h : Traced Ledger.client R act Q)
    (hl : l.Known R) (hs : (draft s).Invariant R) :
    ∃ R', Evolves R (draft s) R' (draft (act.final s l).1) :=
  (evolves_known h hl hs).imp fun _ ↦ And.left

end Sound

/-! ## Every operation -/

namespace ScopeDraft

variable {s t : ScopeDraft} {l l' : Ledger} {R : Registry}

/-- A body without names of its own that was given up. -/
theorem gaveUp_steps {kind : RegionKind} (steps : List ScopeStep) (hl : l.Known R)
    (hs : s.Invariant R)
    (h : (ScopeStep.runAll steps).final (s.stage.opened kind) l = (t, l')) :
    s.stage.GaveUp (.steps 0 (ScopeStep.runAll steps)) t.leave l' := by
  have hsteps := ScopeStep.runs_runAll steps (fun _ _ ↦ trivial) R
  obtain ⟨R', hev⟩ := Sound.evolves_final hsteps hl (hs.stage.opened kind)
  rw [h] at hev
  have htables : (s.stage.opened kind).stage.tables = s.stage.tables.reserve [] := rfl
  exact .of_keeps rfl htables hev.keeps (.leave hev.extends.2) rfl (.inr h)

/-- The body of a loop that was given up. The loop variable has taken a name before. -/
theorem gaveUp_loop {act : Expr → Scripted ScopeDraft Unit} {i : Variable} {r : Resources}
    (hs : s.Invariant R) (hmake : (s.stage.opened .loop).stage.resources.Makes i r)
    (hscope : i.scope = (s.stage.opened .loop).region.id)
    (hact : Runs Set.univ (R.addVariable i) (act (.var i))) (hl : l.Known (R.addVariable i))
    (h : (t, l') = ((s.stage.opened .loop).introduce i r, l) ∨
      (act (.var i)).final ((s.stage.opened .loop).introduce i r) l = (t, l')) :
    s.stage.GaveUp (.loop act) t.leave l' := by
  have hstart : ((s.stage.opened .loop).introduce i r).Invariant (R.addVariable i) :=
    (hs.stage.opened .loop).introduce hmake hscope
  have hmade : (s.stage.opened .loop).Extends ((s.stage.opened .loop).introduce i r) :=
    .introduce hmake
  have htables := tables_introduce hmake
  rcases h with h | h
  · obtain ⟨rfl, rfl⟩ := Prod.mk.inj h
    exact .of_keeps rfl htables (.refl _) (.leave hmade) rfl (.inl rfl)
  · obtain ⟨R', hev⟩ := Sound.evolves_final hact hl hstart
    rw [h] at hev
    exact .of_keeps rfl htables hev.keeps (.leave (hmade.trans hev.extends.2)) rfl (.inr ⟨i, h⟩)

/-- The body of a block that was given up. The name of the block was taken before. -/
theorem gaveUp_block {α : Type} {build : Scripted BlockDraft α} {kind : String} {b : BlockDraft}
    (hbuild : BlockBody l build) (hl : l.Known R) (hs : s.Invariant R)
    (h : build.final (s.newBlock kind) l = (b, l')) :
    s.stage.GaveUp (.block build) b.scope.leave l' := by
  obtain ⟨Q, htraced⟩ := hbuild.traced hl
  have hq : s.stage.resources.names.Gives (s.newBlock kind).name
      (s.stage.resources.names.next kind).2 := .inl ⟨kind, rfl⟩
  have hR := Registry.le_addBody R (s.newBlock kind).name
  have hstart : (s.newBlock kind).Invariant (R.addBody (s.newBlock kind).name) :=
    ScopeDraft.Invariant.newBlock hs kind
  have htables : (s.newBlock kind).scope.stage.tables =
      s.stage.tables.reserve [(s.newBlock kind).name] := StageDraft.tables_withNames hq
  obtain ⟨R', hev⟩ := Sound.evolves_final (htraced.weaken hR) (hl.mono hR) hstart
  rw [h] at hev
  have hext : s.stage.Extends b.scope.leave :=
    (StageDraft.Extends.names s.stage _).trans (.leave hev.extends.2.scope)
  exact .of_keeps rfl htables hev.keeps hext rfl (.inr ⟨_, b, rfl, h, rfl⟩)

end ScopeDraft

namespace Definition

variable {α : Type} {act : Scripted StageDraft α} {body : Body} {s s' : StageDraft} {l l' : Ledger}
  {e : BuildError} {R : Registry}

theorem gaveUp (hact : Definition act body) (hl : l.Known R) (hs : s.Invariant R)
    (h : act (s, l) = .error e (s', l')) : (s', l') = (s, l) ∨ s.GaveUp body s' l' := by
  cases hact with
  | function head steps =>
    rcases StageDraft.defineFunction_error R h with
      h | ⟨name, q, args, R', start, t, hq, hargs, hmem, hfinal, rfl⟩
    · exact .inl h
    · have hstart : start.Invariant R' :=
        hargs.invariant ((hs.withBody hq).openedFunction head.result)
      obtain ⟨names, htables, hlength⟩ := hargs.tables
      have hsteps := ScopeStep.runs_runAll steps fun t _ ↦ Set.mem_univ t
      obtain ⟨R'', hev⟩ := Sound.evolves_final (head.traced_body (fun _ _ ↦ trivial) hsteps hmem)
        (hl.mono ((Registry.le_addBody R name).trans hargs.extends.1)) hstart
      rw [hfinal] at hev
      have hext : s.Extends (s.resumed t) := (StageDraft.Extends.names s q).trans
        (.resumed (hargs.extends.2.trans hev.extends.2))
      have hnames : start.stage.tables = s.tables.reserve (names ++ [name]) := by
        rw [htables, StageDraft.tables_openedFunction, StageDraft.tables_withNames hq]
        simp [Tables.reserve]
      refine .inr (.of_keeps ?_ hnames hev.keeps hext rfl (.inr ⟨args, hfinal⟩))
      simp [Body.function, hlength]
  | main steps =>
    rcases StageDraft.defineMain_error h with h | ⟨t, hfinal, rfl⟩
    · exact .inl h
    · have hsteps := ScopeStep.runs_runAll steps (fun _ _ ↦ trivial) R
      obtain ⟨R', hev⟩ := Sound.evolves_final hsteps hl (hs.openedFunction none)
      rw [hfinal] at hev
      have htables : (s.openedFunction none).stage.tables = s.tables.reserve [] := rfl
      exact .inr (.of_keeps rfl htables hev.keeps (.resumed hev.extends.2) rfl (.inr hfinal))

end Definition

/-- An operation on a scope that is rejected changes nothing but the stage, and the stage only if a
body was begun. -/
theorem Operation.gaveUp {α : Type} {act : Scripted ScopeDraft α} {body : Option Body}
    {s s' : ScopeDraft} {l l' : Ledger} {e : BuildError} {R : Registry}
    (hact : Operation l act body) (hl : l.Known R) (hs : s.Invariant R)
    (h : act (s, l) = .error e (s', l')) : (s', l') = (s, l) ∨
      ∃ b ∈ body, ∃ t, s' = s.withStage t ∧ s.stage.GaveUp b t l' := by
  have hguarded {steps : List ScopeStep} {kind : RegionKind}
      (h : (s', l') = (s, l) ∨ ∃ t, (ScopeStep.runAll steps).final (s.stage.opened kind) l =
        (t, l') ∧ s' = s.withStage t.leave) : (s', l') = (s, l) ∨
        ∃ b ∈ some (.steps 0 (ScopeStep.runAll steps)), ∃ t,
          s' = s.withStage t ∧ s.stage.GaveUp b t l' := by
    rcases h with h | ⟨t, hfinal, rfl⟩
    · exact .inl h
    · exact .inr ⟨_, rfl, _, rfl, ScopeDraft.gaveUp_steps steps hl hs hfinal⟩
  cases hact with
  | declareVariable type init name =>
    exact .inl (ScopeDraft.firm_declareVariable type init name _ _ _ h)
  | bindNamed name init => exact .inl (ScopeDraft.firm_bindNamed name init _ _ _ h)
  | assign target value => exact .inl (ScopeDraft.firm_assign target value _ _ _ h)
  | augment target op value => exact .inl (ScopeDraft.firm_augment target op value _ _ _ h)
  | set target op value => exact .inl (ScopeDraft.firm_set target op value _ _ _ h)
  | breakLoop => exact .inl (ScopeDraft.firm_addJump _ _ _ _ _ h)
  | continueLoop => exact .inl (ScopeDraft.firm_addJump _ _ _ _ _ h)
  | discard => exact .inl (ScopeDraft.firm_discard _ _ _ h)
  | leaveFunction value => exact .inl (ScopeDraft.firm_leaveFunction value _ _ _ h)
  | invoke f args => exact .inl (ScopeDraft.firm_invoke f args _ _ _ h)
  | checkReads e => exact .inl ((ScopeDraft.looks_checkReads e).firm _ _ _ h)
  | branch condition steps => exact hguarded (ScopeDraft.guarded_error (fun _ ↦ .change _) h)
  | elseIf condition steps => exact hguarded (ScopeDraft.guarded_error (fun _ ↦ .change _) h)
  | otherwise steps => exact hguarded (.inr (ScopeDraft.nested_bind_error (fun _ ↦ .change _) h))
  | loopWhile condition steps => exact hguarded (ScopeDraft.guarded_error (fun _ ↦ .change _) h)
  | loopFor v init condition update steps =>
    rcases ScopeDraft.loopFor_error h with h | ⟨i, r, t, hmake, hscope, rfl, hrun⟩
    · exact .inl h
    · have hi := Registry.mem_addVariable R i
      have hl' : (l.bind v (.expr (.var i))).Known (R.addVariable i) :=
        (hl.mono (Registry.le_addVariable R i)).bind v (.var hi)
      exact .inr ⟨_, rfl, _, rfl, ScopeDraft.gaveUp_loop hs hmake hscope
        (LoopHeader.runs_body (ScopeStep.runs_runAll steps fun _ _ ↦ trivial) _) hl' hrun⟩
  | loopRange v first stop steps =>
    rcases ScopeDraft.loopFor_error h with h | ⟨i, r, t, hmake, hscope, rfl, hrun⟩
    · exact .inl h
    · have hi := Registry.mem_addVariable R i
      exact .inr ⟨_, rfl, _, rfl, ScopeDraft.gaveUp_loop hs hmake hscope
        (LoopHeader.runs_rangeBody (ScopeStep.runs_runAll steps fun _ _ ↦ trivial) v hi)
        (hl.mono (Registry.le_addVariable R i)) hrun⟩
  | block kind hbuild =>
    obtain ⟨b, hfinal, rfl⟩ := ScopeDraft.block_error h
    exact .inr ⟨_, rfl, _, rfl, ScopeDraft.gaveUp_block hbuild hl hs hfinal⟩
  | @definition _ act body hact =>
    rw [Build.onStage, Build.on_apply] at h
    rcases hrun : act (s.stage, l) with ⟨a, t, l₁⟩ | ⟨e₁, t, l₁⟩ <;> rw [hrun] at h
    · cases h
    · cases h
      rcases hact.gaveUp hl hs.stage hrun with hsame | hgave
      · obtain ⟨rfl, rfl⟩ := Prod.mk.inj hsame
        exact .inl rfl
      · exact .inr ⟨_, rfl, t, rfl, hgave⟩

/-- Whatever was built before, an operation on a scope that is rejected leaves the statements of the
scope, what it declares and the error put off in it as they were, and the stage with the regions
around the scope. Without a body it changes nothing at all. With a body it only adds to the tables
what the body has added, and takes names of its own. A definition of a function that a stage
rejects leaves the stage in the same way. -/
theorem rejected_operation_restores :
    (∀ s l, Reached (.scope s) l → ∀ (α : Type) (act : Scripted ScopeDraft α) body,
      Operation l act body → ∀ e s' l', act (s, l) = .error e (s', l') →
        (s'.region = s.region ∧ s'.deferred = s.deferred ∧ s'.stage.frames = s.stage.frames) ∧
          ((s', l') = (s, l) ∨ ∃ b ∈ body, s.stage.GaveUp b s'.stage l')) ∧
    ∀ s l, Reached (.stage s) l → ∀ (α : Type) (act : Scripted StageDraft α) body,
      Definition act body → ∀ e s' l', act (s, l) = .error e (s', l') →
        s'.frames = s.frames ∧ ((s', l') = (s, l) ∨ s.GaveUp body s' l') := by
  refine ⟨fun s l hs α act body hact e s' l' h ↦ ?_, fun s l hs α act body hact e s' l' h ↦ ?_⟩
  · obtain ⟨R, hl, hd⟩ := hs.sound
    rcases hact.gaveUp hl hd h with hsame | ⟨b, hb, t, rfl, hgave⟩
    · obtain ⟨rfl, rfl⟩ := Prod.mk.inj hsame
      exact ⟨⟨rfl, rfl, rfl⟩, .inl rfl⟩
    · exact ⟨⟨rfl, rfl, hgave.frames⟩, .inr ⟨b, hb, hgave⟩⟩
  · obtain ⟨R, hl, hd⟩ := hs.sound
    rcases hact.gaveUp hl hd h with hsame | hgave
    · obtain ⟨rfl, rfl⟩ := Prod.mk.inj hsame
      exact ⟨rfl, .inl rfl⟩
    · exact ⟨hgave.frames, .inr hgave⟩

/-- Steps of a branch that declare a uniform, and then break out of a loop that is not there. -/
def breakingSteps : List ScopeStep := [
  .stage (.declare (.uniform "scale" (.float .one)) [some "scale"]),
  .act (.bind (.var "scale")) [some "x"],
  .act .breakLoop []]

/-- A branch and a main function with these steps are rejected, and leave the uniform behind. -/
theorem rejected_operation_restores_breaking :
    (∃ e s' l', ScopeDraft.branch (.lit (.bool1 true)) (ScopeStep.runAll breakingSteps)
        (emptyMain, .empty) = .error e (s', l') ∧ s'.stage.resources.uniforms.length = 1 ∧
      (s'.region = emptyMain.region ∧ s'.deferred = emptyMain.deferred ∧
        s'.stage.frames = emptyMain.stage.frames) ∧
      ((s', l') = (emptyMain, .empty) ∨
        ∃ b ∈ some (Body.steps 0 (ScopeStep.runAll breakingSteps)),
          emptyMain.stage.GaveUp b s'.stage l')) ∧
    ∃ e s' l', StageDraft.defineMain (ScopeStep.runAll breakingSteps)
        (.start .vertex .empty, Ledger.empty) = .error e (s', l') ∧
      s'.resources.uniforms.length = 1 ∧ s'.frames = [] ∧
      ((s', l') = (.start .vertex .empty, .empty) ∨ (StageDraft.start .vertex .empty).GaveUp
        (.steps 0 (ScopeStep.runAll breakingSteps)) s' l') := by
  constructor
  · have hrun : (match ScopeDraft.branch (.lit (.bool1 true)) (ScopeStep.runAll breakingSteps)
        (emptyMain, .empty) with
      | .ok _ _ => false
      | .error _ (s', _) => s'.stage.resources.uniforms.length == 1) = true := by decide +kernel
    rcases h : ScopeDraft.branch (.lit (.bool1 true)) (ScopeStep.runAll breakingSteps)
      (emptyMain, .empty) with ⟨a, s', l'⟩ | ⟨e, s', l'⟩
    · simp [h] at hrun
    · simp only [h, beq_iff_eq] at hrun
      exact ⟨e, s', l', rfl, hrun, rejected_operation_restores.1 emptyMain .empty
        reached_emptyMain Unit _ _ (.branch _ breakingSteps) e s' l' h⟩
  · have hrun : (match StageDraft.defineMain (ScopeStep.runAll breakingSteps)
        (.start .vertex .empty, Ledger.empty) with
      | .ok _ _ => false
      | .error _ (s', _) => s'.resources.uniforms.length == 1) = true := by decide +kernel
    rcases h : StageDraft.defineMain (ScopeStep.runAll breakingSteps)
      (.start .vertex .empty, Ledger.empty) with ⟨a, s', l'⟩ | ⟨e, s', l'⟩
    · simp [h] at hrun
    · simp only [h, beq_iff_eq] at hrun
      exact ⟨e, s', l', rfl, hrun, rejected_operation_restores.2 _ .empty
        (reached_stageStart .vertex) _ _ _ (.main breakingSteps) e s' l' h⟩

end ShaderGraph
