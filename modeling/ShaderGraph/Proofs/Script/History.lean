import ShaderGraph.Proofs.Script.Reached

/-!
# The history of a script

Every step that is run is a turn: the step, and the draft and the ledger that
it was run on. The turns of a script are listed in the order in which they end,
so the turns inside of a turn stand right before it.
-/

namespace ShaderGraph

open Scripted

/-- A step of a script, with the draft and the ledger that it is run on. -/
inductive Turn where
  | program (step : ProgramStep) (p : Program) (l : Ledger)
  | stage (step : StageStep) (s : StageDraft) (l : Ledger)
  | scope (step : ScopeStep) (s : ScopeDraft) (l : Ledger)
  | block (step : BlockStep) (b : BlockDraft) (l : Ledger)

def Build.result {σ S α : Type} (act : Build σ S α) (s : S) (c : σ) : Except BuildError α :=
  match act (s, c) with
  | .ok a _ => .ok a
  | .error e _ => .error e

namespace Turn

def before : Turn → Draft
  | program _ p _ => .program p
  | stage _ s _ => .stage s
  | scope _ s _ => .scope s
  | block _ b _ => .block b

def ledger : Turn → Ledger
  | program _ _ l | stage _ _ l | scope _ _ l | block _ _ l => l

def after : Turn → Draft
  | program step p l => .program (step.run.final p l).1
  | stage step s l => .stage (step.run.final s l).1
  | scope step s l => .scope (step.run.final s l).1
  | block step b l => .block (step.run.final b l).1

def result : Turn → Except BuildError Answer
  | program step p l => step.run.result p l
  | stage step s l => step.run.result s l
  | scope step s l => step.run.result s l
  | block step b l => step.run.result b l

end Turn

/-- The turns that come after a construction, which come only if it succeeds. -/
def Scripted.follow {S α : Type} (act : Scripted S α) (s : S) (l : Ledger)
    (turns : α → S → Ledger → List Turn) : List Turn :=
  match act (s, l) with
  | .ok a (s', l') => turns a s' l'
  | .error _ _ => []

/-- Evaluates and checks a condition before the body that depends on it. -/
def ScopeDraft.enterGuarded (what : String) (condition : Term)
    (take : Expr → Except BuildError Expr) : Scripted ScopeDraft Expr := do
  let e ← Scripted.eval (fun l ↦ condition.eval l)
  let e ← Build.ofExcept (take e)
  Build.ofExcept (TypeClass.bool.expect what "condition" e.type)
  checkReads e
  return e

/-- Makes the variable of a loop and checks what the client makes of it. -/
def ScopeDraft.enterLoop (type : ValueType) (header : Expr → Ledger → (Expr × Expr) × Ledger)
    (first : Expr → Scripted ScopeDraft Unit) :
    Scripted ScopeDraft (Variable × Expr × Expr) := do
  let name ← Build.onShared (Resources.freshName type.nameStem)
  let v ← newVariable name type .localVar
  let made ← Build.client (header (.var v))
  checkReads made.1
  checkReads made.2
  first (.var v)
  return (v, made)

/-- Rejects a loop whose condition or update could not be evaluated. -/
def LoopHeader.check (type : ValueType) (condition update : Term) (i : Expr) :
    Scripted ScopeDraft Unit := do
  let l ← ledger
  match (LoopHeader.of l type i condition update).failure with
  | some e => throw e
  | none => return ()

/-- What a script makes of the variable of a loop that counts. -/
def LoopHeader.count (stop i : Expr) (l : Ledger) : (Expr × Expr) × Ledger :=
  ((.binary .bool .lt i stop, .binary (.int .one) .add i (.lit (.int1 1))), l)

/-! ## Turns -/

mutual

/-- The turns inside of a step. -/
def StageStep.inside (s : StageDraft) (l : Ledger) : StageStep → List Turn
  | .inquire .. | .declare .. => []
  | .function head body _ =>
    follow (Build.onResources (Resources.takeName head.name "fun")) s l fun _ s l ↦
      follow (ScopeDraft.beginFunction head.args head.params) (s.openedFunction head.result) l
        fun _ s l ↦ ScopeStep.turnsOfList s l body
  | .main body => if s.main.isSome then [] else ScopeStep.turnsOfList (s.openedFunction none) l body
  | .attempt step => step.inside s l ++ [.stage step s l]

def ScopeStep.inside (s : ScopeDraft) (l : Ledger) : ScopeStep → List Turn
  | .stage step => step.inside s.stage l ++ [.stage step s.stage l]
  | .act .. => []
  | .branch mode condition body rest =>
    (follow (ScopeDraft.enterGuarded "if" condition mode.first) s l fun _ s l ↦
      ScopeStep.turnsOfList (s.stage.opened .branch) l body) ++
    follow (ScopeStep.branch mode condition body .done).run s l fun _ s l ↦ rest.inside mode s l
  | .loopFor v init condition update body =>
    follow (Scripted.eval (fun l ↦ init.eval l)) s l fun init s l ↦
      follow (ScopeDraft.checkReads init) s l fun _ s l ↦
        follow (ScopeDraft.enterLoop init.type (LoopHeader.make v init.type condition update)
          (LoopHeader.check init.type condition update)) (s.stage.opened .loop) l fun _ s l ↦
            ScopeStep.turnsOfList s l body
  | .loopRange v first stop body =>
    follow (Scripted.eval (fun l ↦ first.evalAs l (.int .one))) s l fun first s l ↦
      follow (Scripted.eval (fun l ↦ stop.evalAs l (.int .one))) s l fun stop s l ↦
        follow (ScopeDraft.checkReads first) s l fun _ s l ↦
          follow (ScopeDraft.enterLoop first.type (LoopHeader.count stop)
            (fun i ↦ note (fun l ↦ l.bind v (.expr i)))) (s.stage.opened .loop) l fun _ s l ↦
              ScopeStep.turnsOfList s l body
  | .loopWhile condition body =>
    follow (ScopeDraft.enterGuarded "while" condition (·.convert .bool)) s l fun _ s l ↦
      ScopeStep.turnsOfList (s.stage.opened .loop) l body
  | .block kind body => BlockStep.turnsOfList (s.newBlock kind) l body
  | .attempt step => step.inside s l ++ [.scope step s l]

def ElseSteps.inside (mode : ConditionMode) (s : ScopeDraft) (l : Ledger) : ElseSteps → List Turn
  | .done => []
  | .otherwise body => ScopeStep.turnsOfList (s.stage.opened .branch) l body
  | .elseIf condition body rest =>
    (follow (ScopeDraft.enterGuarded "else if" condition mode.later) s l fun _ s l ↦
      ScopeStep.turnsOfList (s.stage.opened .branch) l body) ++
    follow ((ElseSteps.elseIf condition body .done).run mode) s l fun _ s l ↦ rest.inside mode s l

def BlockStep.inside (b : BlockDraft) (l : Ledger) : BlockStep → List Turn
  | .scope step => step.inside b.scope l ++ [.scope step b.scope l]
  | .input .. | .output .. => []
  | .attempt step => step.inside b l ++ [.block step b l]

/-- The turns of a list of steps, up to the one that ends it. -/
def ScopeStep.turnsOfList (s : ScopeDraft) (l : Ledger) : List ScopeStep → List Turn
  | [] => []
  | step :: rest =>
    step.inside s l ++ .scope step s l ::
      follow step.run s l fun a s l ↦ ScopeStep.turnsOfList s (l.log a) rest

def BlockStep.turnsOfList (b : BlockDraft) (l : Ledger) : List BlockStep → List Turn
  | [] => []
  | step :: rest =>
    step.inside b l ++ .block step b l ::
      follow step.run b l fun a b l ↦ BlockStep.turnsOfList b (l.log a) rest

end

def StageStep.turnsOfList (s : StageDraft) (l : Ledger) : List StageStep → List Turn
  | [] => []
  | step :: rest =>
    step.inside s l ++ .stage step s l ::
      follow step.run s l fun a s l ↦ StageStep.turnsOfList s (l.log a) rest

def ProgramStep.inside (p : Program) (l : Ledger) : ProgramStep → List Turn
  | .inquire .. | .act .. => []
  | .buildStage kind body =>
    if (p.stage? kind).isSome then [] else StageStep.turnsOfList (.start kind p.resources) l body
  | .attempt step => step.inside p l ++ [.program step p l]

def ProgramStep.turnsOfList (p : Program) (l : Ledger) : List ProgramStep → List Turn
  | [] => []
  | step :: rest =>
    step.inside p l ++ .program step p l ::
      follow step.run p l fun a p l ↦ ProgramStep.turnsOfList p (l.log a) rest

/-- The turns of a script, in the order in which they end. -/
def Script.turns (s : Script) : List Turn :=
  ProgramStep.turnsOfList (.new s.name) .empty s.steps

namespace Turn

def inside : Turn → List Turn
  | program step p l => step.inside p l
  | stage step s l => step.inside s l
  | scope step s l => step.inside s l
  | block step b l => step.inside b l

/-- The function that a turn has defined, the main function apart. -/
def function? : Turn → Option Function
  | stage (.function head body handles) s l =>
    match (StageStep.function head body handles).run (s, l) with
    | .ok _ (s', _) => s'.functions.getLast?
    | .error _ _ => none
  | _ => none

/-- The main function that a turn has defined. -/
def main? : Turn → Option Function
  | stage (.main body) s l =>
    match (StageStep.main body).run (s, l) with
    | .ok _ (s', _) => s'.main
    | .error _ _ => none
  | _ => none

end Turn

end ShaderGraph
