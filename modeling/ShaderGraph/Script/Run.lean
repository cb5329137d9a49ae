import ShaderGraph.Script.Eval

/-!
# Running scripts

Steps are run one after the other on the draft they belong to, with a ledger
as the client's state. Every step of a list is answered once, after the steps
nested in it.
-/

namespace ShaderGraph

abbrev Scripted (S : Type) : Type → Type := Build Ledger S

namespace Scripted

variable {S α : Type}

def ledger : Scripted S Ledger := Build.client (fun l ↦ (l, l))

def note (f : Ledger → Ledger) : Scripted S Unit := Build.client (fun l ↦ ((), f l))

def eval (f : Ledger → Except BuildError α) : Scripted S α := do
  let l ← ledger
  Build.ofExcept (f l)

def answered (handles : List (Option Handle)) (a : Answer) : Scripted S Answer := do
  note (fun l ↦ l.bindAll handles a.bindings)
  return a

/-- Runs a step of a list and logs its answer, or its error before it ends the list. -/
def logged (act : Scripted S Answer) : Scripted S Unit := do
  match ← act.outcome with
  | .ok a => note (·.log a)
  | .error e =>
    note (·.log (.failed e))
    throw e

/-- Turns the error of a step into its answer. -/
def attempted (act : Scripted S Answer) : Scripted S Answer := do
  match ← act.outcome with
  | .ok a => return a
  | .error e => return .failed e

end Scripted

open Scripted

def Inquiry.run {S : Type} : Inquiry → Scripted S Answer
  | .evaluate e => return .expr (← Scripted.eval (fun l ↦ e.eval l))
  | .sameData a b => do
    let a ← Scripted.eval (·.data a)
    let b ← Scripted.eval (·.data b)
    return .flag (a = b)

def ProgramAction.run : ProgramAction → Scripted Resources Answer
  | .uniform name type => return .var (← Resources.declareUniform name type)
  | .lookup name => return .found ((← Build.draft).uniform? name)
  | .taken name => do
    let names := (← Build.draft).names
    return .taken (names.contains name) names.size
  | .armature maxBones => return .data (.armature (← Resources.declareArmature maxBones))
  | .morphWeights => return .data (.morphWeights (← Resources.declareMorphWeights))
  | .data kind => return .data (← Resources.declareData kind)
  | .registered kind => return .flag ((← Build.draft).dataBlock? kind).isSome

def Declaration.run : Declaration → Scripted StageDraft Answer
  | .uniform name type => return .var (← StageDraft.declareUniform name type)
  | .attribute name type kind => return .var (← StageDraft.declareAttribute name type kind)
  | .output name type => return .var (← StageDraft.declareOutput name type)
  | .builtin which => return .var (← StageDraft.declareBuiltin which)
  | .interStage name type => return .var (← StageDraft.declareInterStage name type)
  | .armature maxBones =>
    return .data (.armature (← Build.onResources (Resources.declareArmature maxBones)))
  | .morphWeights =>
    return .data (.morphWeights (← Build.onResources Resources.declareMorphWeights))
  | .data kind => return .data (← Build.onResources (Resources.declareData kind))

def ScopeDraft.info (s : ScopeDraft) : ScopeInfo :=
  ⟨s.region.id, s.region.kind, s.region.statements.length, s.stage.kind, s.inLoop⟩

def Action.run : Action → Scripted ScopeDraft Answer
  | .declare type init name => do
    let init ← Scripted.eval (fun l ↦ Term.evalOptional l init)
    return .var (← ScopeDraft.declareVariable type init name)
  | .bind init => do
    let init ← Scripted.eval (fun l ↦ init.eval l)
    return .var (← ScopeDraft.bind init)
  | .bindNothing type => return .var (← ScopeDraft.bindNothing type)
  | .bindNamed name init => do
    let init ← Scripted.eval (fun l ↦ init.eval l)
    return .var (← ScopeDraft.bindNamed name init)
  | .assign target value => do
    let target ← Scripted.eval (fun l ↦ target.eval l)
    let value ← Scripted.eval (fun l ↦ value.eval l)
    ScopeDraft.assign target value
    return .done
  | .augment target op value => do
    let target ← Scripted.eval (fun l ↦ target.eval l)
    let value ← Scripted.eval (fun l ↦ value.eval l)
    ScopeDraft.augment target op value
    return .done
  | .set target op value => do
    let target ← Scripted.eval (fun l ↦ target.eval l)
    let value ← Scripted.eval (fun l ↦ value.evalAs l target.type)
    ScopeDraft.set target op value
    return .done
  | .breakLoop => do
    ScopeDraft.breakLoop
    return .done
  | .continueLoop => do
    ScopeDraft.continueLoop
    return .done
  | .discard => do
    ScopeDraft.discard
    return .done
  | .leave value => do
    let value ← Scripted.eval (fun l ↦ Term.evalOptional l value)
    ScopeDraft.leaveFunction value
    return .done
  | .inline code => do
    ScopeDraft.inlineCode code
    return .done
  | .invoke function args typed => do
    let args ← Scripted.eval (fun l ↦ Term.evalAll l args)
    let f ← Scripted.eval (·.function function)
    if typed then
      Build.ofExcept (TypedOp.convertEach f.params args)
    ScopeDraft.invoke f args
    return .done
  | .checkReads e => do
    let e ← Scripted.eval (fun l ↦ e.eval l)
    ScopeDraft.checkReads e
    return .done
  | .info => return .info (← Build.draft).info
  | .armatureBlock weights joints maxBones => do
    let weights ← Scripted.eval (fun l ↦ weights.evalAs l (.float .four))
    let joints ← Scripted.eval (fun l ↦ joints.evalAs l (.int .four))
    return .var (← ArmatureBlend.block ⟨weights, joints, maxBones⟩)
  | .morphBlock attributes position normal tangent => do
    let position ← Scripted.eval (fun l ↦ position.evalAs l (.float .three))
    let normal ← Scripted.eval (fun l ↦ normal.evalAs l (.float .three))
    let tangent ← Scripted.eval (fun l ↦ tangent.evalAs l (.float .four))
    let v ← MorphBlend.block ⟨attributes, position, normal, tangent⟩
    return .vars [v.position, v.normal, v.tangent]
  | .displacementBlock sources => return .var (← PropertySource.block sources)
  | .colorVertexBlock sources => do
    ColorSource.vertexBlock sources
    return .done
  | .colorBlock sources => return .var (← ColorSource.block sources)
  | .vertexBlock config model position normal tangent => do
    let model ← Scripted.eval (fun l ↦ model.evalAs l (.matrix .four))
    let position ← Scripted.eval (fun l ↦ position.evalAs l (.float .three))
    let normal ← Scripted.eval (fun l ↦ Term.evalOptionalAs l (.float .three) normal)
    let tangent ← Scripted.eval (fun l ↦ Term.evalOptionalAs l (.float .four) tangent)
    let v ← VertexTransform.block ⟨config, model, position, normal, tangent⟩
    return .vars [v.model, v.position, v.normal, v.tangent]

namespace ConditionMode

def first (mode : ConditionMode) (e : Expr) : Except BuildError Expr :=
  match mode with
  | checked => .ok e
  | typed => e.convert .bool
  | negated => do
    let e ← e.convert .bool
    return .unary .not e

def later (mode : ConditionMode) (e : Expr) : Except BuildError Expr :=
  match mode with
  | checked => .ok e
  | typed | negated => e.convert .bool

end ConditionMode

/-- Condition and update of a loop, with stand-ins for those that could not be evaluated, and
the first error if any could not. -/
structure LoopHeader where
  condition : Expr
  update : Expr
  failure : Option BuildError

def LoopHeader.of (l : Ledger) (type : ValueType) (v : Expr) (condition update : Term) :
    LoopHeader :=
  match condition.evalAs l .bool, update.evalAs l type with
  | .ok c, .ok u => ⟨c, u, none⟩
  | .error e, .ok u => ⟨.lit (.bool1 true), u, some e⟩
  | .ok c, .error e => ⟨c, v, some e⟩
  | .error e, .error _ => ⟨.lit (.bool1 true), v, some e⟩

/-- The value that a function with typed results returns. -/
def FunctionHead.takeValue (head : FunctionHead) (value : Option Expr) :
    Except BuildError (Option Expr) :=
  match head.typed, head.result, value with
  | true, some t, some e => do
    let e ← e.convert t
    return some e
  | _, _, value => .ok value

/-- The value wired to an input: what is given for it, or else its default. A typed input first
takes both for values of its type. -/
def BlockStep.wiredValue (type : ValueType) (typed : Bool) (value fallback : Option Expr) :
    Except BuildError (Option Expr) := do
  if typed then
    TypedOp.convertEach (value.toList.map fun _ ↦ type) value.toList
    TypedOp.convertEach (fallback.toList.map fun _ ↦ type) fallback.toList
  return value.orElse (fun _ ↦ fallback)

mutual

def StageStep.run : StageStep → Scripted StageDraft Answer
  | .inquire q handles => do
    let a ← q.run
    answered handles a
  | .declare d handles => do
    let a ← d.run
    answered handles a
  | .function head body handles => do
    let f ← StageDraft.defineFunction head.name head.params head.result fun args ↦ do
      note (fun l ↦ l.bindAll (head.args.map some) (args.map fun v ↦ .expr (.var v)))
      ScopeStep.runAll body
      let value ← Scripted.eval (fun l ↦ Term.evalOptional l head.value)
      Build.ofExcept (head.takeValue value)
    answered handles (.function f)
  | .main body => do
    StageDraft.defineMain (ScopeStep.runAll body)
    return .done
  | .attempt step => attempted step.run

def ScopeStep.run : ScopeStep → Scripted ScopeDraft Answer
  | .stage step => Build.onStage step.run
  | .act a handles => do
    let a ← a.run
    answered handles a
  | .branch mode condition body rest => do
    let condition ← Scripted.eval (fun l ↦ condition.eval l)
    let condition ← Build.ofExcept (mode.first condition)
    ScopeDraft.branch condition (ScopeStep.runAll body)
    rest.run mode
    return .done
  | .loopFor v init condition update body => do
    let init ← Scripted.eval (fun l ↦ init.eval l)
    ScopeDraft.loopFor init
      (fun i l ↦
        let l := l.bind v (.expr i)
        let header := LoopHeader.of l init.type i condition update
        ((header.condition, header.update), l))
      (fun i ↦ do
        let l ← ledger
        match (LoopHeader.of l init.type i condition update).failure with
        | some e => throw e
        | none => ScopeStep.runAll body)
    return .done
  | .loopRange v first stop body => do
    let first ← Scripted.eval (fun l ↦ first.evalAs l (.int .one))
    let stop ← Scripted.eval (fun l ↦ stop.evalAs l (.int .one))
    ScopeDraft.loopRange first stop fun i ↦ do
      note (fun l ↦ l.bind v (.expr i))
      ScopeStep.runAll body
    return .done
  | .loopWhile condition body => do
    let condition ← Scripted.eval (fun l ↦ condition.evalAs l .bool)
    ScopeDraft.loopWhile condition (ScopeStep.runAll body)
    return .done
  | .block kind body => do
    let name ← ScopeDraft.block kind do
      BlockStep.runAll body
      return (← Build.draft).name
    return .block name
  | .attempt step => attempted step.run

def ElseSteps.run (mode : ConditionMode) : ElseSteps → Scripted ScopeDraft Unit
  | .done => return ()
  | .otherwise body => ScopeDraft.otherwise (ScopeStep.runAll body)
  | .elseIf condition body rest => do
    let condition ← Scripted.eval (fun l ↦ condition.eval l)
    let condition ← Build.ofExcept (mode.later condition)
    ScopeDraft.elseIf condition (ScopeStep.runAll body)
    rest.run mode

def BlockStep.run : BlockStep → Scripted BlockDraft Answer
  | .scope step => Build.onScope step.run
  | .input name type value fallback typed handles => do
    let value ← Scripted.eval (fun l ↦ Term.evalOptional l value)
    let fallback ← Scripted.eval (fun l ↦ Term.evalOptional l fallback)
    let wired ← Build.ofExcept (BlockStep.wiredValue type typed value fallback)
    let v ← BlockDraft.input name type wired
    answered handles (.var v)
  | .output name type handles => do
    let v ← BlockDraft.output name type
    answered handles (.var v)
  | .attempt step => attempted step.run

def ScopeStep.runAll : List ScopeStep → Scripted ScopeDraft Unit
  | [] => return ()
  | step :: rest => do
    logged step.run
    ScopeStep.runAll rest

def BlockStep.runAll : List BlockStep → Scripted BlockDraft Unit
  | [] => return ()
  | step :: rest => do
    logged step.run
    BlockStep.runAll rest

end

def StageStep.runAll : List StageStep → Scripted StageDraft Unit
  | [] => return ()
  | step :: rest => do
    logged step.run
    StageStep.runAll rest

def ProgramStep.run : ProgramStep → Scripted Program Answer
  | .inquire q handles => do
    let a ← q.run
    answered handles a
  | .act a handles => do
    let a ← Build.on Program.resources (fun p r ↦ { p with resources := r }) a.run
    answered handles a
  | .buildStage kind body => do
    Program.buildStage kind (StageStep.runAll body)
    return .done
  | .attempt step => attempted step.run

def ProgramStep.runAll : List ProgramStep → Scripted Program Unit
  | [] => return ()
  | step :: rest => do
    logged step.run
    ProgramStep.runAll rest

structure Script where
  name : String
  steps : List ProgramStep

/-- What a script has built when it ended, and the error that ended it, if any. -/
structure ScriptResult where
  program : Program
  ledger : Ledger
  failure : Option BuildError

def Script.run (s : Script) : ScriptResult :=
  match ProgramStep.runAll s.steps (Program.new s.name, Ledger.empty) with
  | .ok () (p, l) => ⟨p, l, none⟩
  | .error e (p, l) => ⟨p, l, some e⟩

end ShaderGraph
