import ShaderGraph.Draft.Scope

/-!
# Nested scopes

Branches, loops, blocks and functions have bodies, which are constructions of
their own. The scope around a body only gets its statement when the body was
built without an error and ended without a deferred one.
-/

namespace ShaderGraph

variable {σ α : Type}

namespace StageDraft

def withRegion (kind : RegionKind) (body : Build σ ScopeDraft α) :
    Build σ StageDraft (α × Region) := do
  let id ← Build.onResources Resources.newScope
  let (a, scope) ← Build.via (ScopeDraft.enter id kind) (fun _ scope ↦ scope.leave) body
  match scope.deferred with
  | some e => throw e
  | none => return (a, scope.region)

/-- Builds something that sees none of the regions around it. -/
def apart (act : Build σ StageDraft α) : Build σ StageDraft α :=
  Build.on (fun s ↦ { s with frames := [] }) (fun s t ↦ { t with frames := s.frames }) act

def newArguments : List ValueType → Build σ ScopeDraft (List Variable)
  | [] => return []
  | t :: rest => do
    let name ← Build.onShared (Resources.freshName "arg")
    let v ← ScopeDraft.newVariable name t .argument
    return v :: (← newArguments rest)

def endsWithValue (body : Region) : Bool :=
  match body.statements.getLast? with
  | some (.leave (some _)) => true
  | _ => false

def returnCheck (name : String) (result : Option ValueType) (value : Option Expr)
    (body : Region) : Except BuildError Unit :=
  match result, value with
  | some t, some e => t.expect name "returned value" e.type
  | none, some e => .error (.typeMismatch name "returned value" "nothing" e.type.text)
  | some t, none =>
    if endsWithValue body then .ok ()
    else .error (.typeMismatch name "returned value" t.text "nothing")
  | none, none => .ok ()

/-- Builds a function under a name that is settled already. The body gets the arguments and
gives the value to return at its end. -/
def define (name : String) (params : List ValueType) (result : Option ValueType)
    (body : List Variable → Build σ ScopeDraft (Option Expr)) : Build σ StageDraft Function := do
  let ((args, value), region) ← apart <| withRegion (.function result) do
    let args ← newArguments params
    let value ← body args
    ScopeDraft.checkAllReads value.toList
    return (args, value)
  Build.ofExcept (returnCheck name result value region)
  return ⟨⟨name, params, result⟩, args, region, value⟩

def defineFunction (name : Option String) (params : List ValueType) (result : Option ValueType)
    (body : List Variable → Build σ ScopeDraft (Option Expr)) :
    Build σ StageDraft Signature := do
  let name ← Build.onResources (Resources.takeName name "fun")
  let f ← define name params result body
  Build.change (fun s ↦ { s with functions := s.functions ++ [f] })
  return f.signature

/-- Defines the main function of the stage. That there is none yet is only asked before its
body is built. -/
def defineMain (body : Build σ ScopeDraft Unit) : Build σ StageDraft Unit := do
  let s ← Build.draft
  if s.main.isSome then
    throw (.nameTaken "main")
  let f ← define "main" [] none (fun _ ↦ do
    body
    return none)
  Build.change (fun s ↦ { s with main := some f })

end StageDraft

namespace ScopeDraft

def nested (kind : RegionKind) (body : Build σ ScopeDraft Unit) : Build σ ScopeDraft Region :=
  Prod.snd <$> Build.onStage (StageDraft.withRegion kind body)

/-- Adds a chain to the conditional that the scope ends with. -/
def extendConditional (tail : ElseChain) (s : ScopeDraft) : ScopeDraft :=
  match s.region.statements.getLast? with
  | some (.branch condition body rest) =>
    { s with
      region :=
        { s.region with
          statements :=
            s.region.statements.dropLast ++ [.branch condition body (rest.append tail)] } }
  | _ => s

def branch (condition : Expr) (body : Build σ ScopeDraft Unit) : Build σ ScopeDraft Unit := do
  Build.ofExcept (TypeClass.bool.expect "if" "condition" condition.type)
  checkReads condition
  let body ← nested .branch body
  add (.branch condition body .done)

/-- Goes on with the conditional that the scope ends with: runs statements if a condition holds
and none before it did. -/
def elseIf (condition : Expr) (body : Build σ ScopeDraft Unit) : Build σ ScopeDraft Unit := do
  Build.ofExcept (TypeClass.bool.expect "else if" "condition" condition.type)
  checkReads condition
  let body ← nested .branch body
  Build.change (extendConditional (.elseIf condition body .done))

def otherwise (body : Build σ ScopeDraft Unit) : Build σ ScopeDraft Unit := do
  let body ← nested .branch body
  Build.change (extendConditional (.otherwise body))

/-- Loops with a variable that starts as `init`. The client makes the condition, a truth value,
and the next value, of the type of `init`, from the variable, and then builds the body. -/
def loopFor (init : Expr) (header : Expr → σ → (Expr × Expr) × σ)
    (body : Expr → Build σ ScopeDraft Unit) : Build σ ScopeDraft Unit := do
  checkReads init
  let ((v, condition, update), region) ← Build.onStage <| StageDraft.withRegion .loop do
    let name ← Build.onShared (Resources.freshName init.type.nameStem)
    let v ← newVariable name init.type .localVar
    let (condition, update) ← Build.client (header (.var v))
    checkReads condition
    checkReads update
    body (.var v)
    return (v, condition, update)
  add (.loopFor v init condition update region)

/-- Counts with an int variable from `first` up to, and not including, `stop`. -/
def loopRange (first stop : Expr) (body : Expr → Build σ ScopeDraft Unit) :
    Build σ ScopeDraft Unit :=
  loopFor first
    (fun i c ↦
      ((.binary .bool .lt i stop, .binary (.int .one) .add i (.lit (.int1 1))), c))
    body

def loopWhile (condition : Expr) (body : Build σ ScopeDraft Unit) : Build σ ScopeDraft Unit := do
  Build.ofExcept (TypeClass.bool.expect "while" "condition" condition.type)
  checkReads condition
  let body ← nested .loop body
  add (.loopWhile condition body)

end ScopeDraft

namespace Block

/-- Whether an output is the target of one assignment of the whole variable among the
statements of the body, and of no other write. -/
def outputCheck (b : Block) (out : BlockOutput) : Except BuildError Unit :=
  let writers := b.body.statements.filter (fun s ↦ s.writes.contains out.slot)
  let whole := writers.countP (Stmt.assignsWhole out.slot)
  if whole = 0 then .error (.unassignedOutput b.name out.name)
  else if writers.length = 1 then .ok ()
  else .error (.reassignedOutput b.name out.name writers.length)

def outputsCheck (b : Block) : List BlockOutput → Except BuildError Unit
  | [] => .ok ()
  | out :: rest =>
    match b.outputCheck out with
    | .ok () => b.outputsCheck rest
    | .error e => .error e

end Block

namespace BlockDraft

def interfaceVariable (name : String) (type : ValueType) (scope : ScopeId) (kind : VariableKind) :
    Build σ BlockDraft Variable := do
  let b ← Build.draft
  let full := b.name ++ "_" ++ name
  Build.onScope <| Build.onShared do
    Resources.reserveName full
    Resources.newVariable full type scope kind

def input (name : String) (type : ValueType) (value : Option Expr) :
    Build σ BlockDraft Variable := do
  let b ← Build.draft
  match value with
  | none => throw (.unwiredInput b.name name)
  | some e =>
    Build.ofExcept (type.expect name "wired value" e.type)
    Build.onScope (ScopeDraft.checkReads e)
    let v ← interfaceVariable name type b.scope.region.id .blockInput
    Build.change (fun b ↦
      { b with
        scope := b.scope.declare v
        interface := { b.interface with inputs := b.interface.inputs ++ [⟨name, v, e⟩] } })
    return v

/-- Declares an output. Its variable belongs to the scope around the block. -/
def output (name : String) (type : ValueType) : Build σ BlockDraft Variable := do
  let b ← Build.draft
  let v ← interfaceVariable name type b.parent .blockOutput
  Build.change (fun b ↦
    { b with
      interface := { b.interface with outputs := b.interface.outputs ++ [⟨name, v⟩] } })
  return v

end BlockDraft

def ScopeDraft.block (kind : String) (build : Build σ BlockDraft α) : Build σ ScopeDraft α := do
  let s ← Build.draft
  let name ← Build.onShared (Resources.freshName kind)
  let ((a, draft), region) ← Build.onStage <| StageDraft.withRegion .block <|
    Build.via (fun scope ↦ ⟨scope, name, s.region.id, ⟨[], []⟩⟩) (fun _ b ↦ b.scope) build
  let b : Block := ⟨name, kind, draft.interface.inputs, draft.interface.outputs, region⟩
  Build.ofExcept (b.outputsCheck b.outputs)
  Build.change (fun s ↦ b.outputs.foldl (fun s out ↦ s.declare out.slot) s)
  add (.block b)
  return a

/-- Builds a stage of a program. What it declared in the program stays when it is rejected. -/
def Program.buildStage (kind : StageKind) (build : Build σ StageDraft Unit) :
    Build σ Program Unit := do
  let p ← Build.draft
  if (p.stage? kind).isSome then
    throw (.nameTaken (kind.text ++ " stage"))
  let (_, s) ← Build.via (fun p ↦ StageDraft.start kind p.resources)
    (fun p s ↦ { p with resources := s.resources }) build
  Build.change (fun p ↦ p.setStage s.finish)

end ShaderGraph
