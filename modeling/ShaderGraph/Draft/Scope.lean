import ShaderGraph.Draft.Stage
import ShaderGraph.Expr.Text
import ShaderGraph.Region.Effects

/-!
# Statements of a scope

A scope takes statements one by one. Everything that a statement reads must be
visible from the scope, and everything that it writes must be visible and
writable besides. A rejected statement leaves no trace, names made up for it
apart.
-/

namespace ShaderGraph

namespace ScopeDraft

variable {σ : Type}

/-- The variable with the lowest number that an expression reads out of its reach. -/
def unseen? (s : ScopeDraft) (e : Expr) : Option Variable :=
  e.reads.toList.find? (fun v ↦ !s.stage.sees v)

def readsCheck (s : ScopeDraft) (e : Expr) : Except BuildError Unit :=
  match s.unseen? e with
  | some v => .error (.outOfScope v.name v.scope s.region.id)
  | none => .ok ()

def targetCheck (s : ScopeDraft) (target : Expr) : Except BuildError Unit :=
  match target.root? with
  | none => .error (.invalidTarget target.text "not an assignable expression")
  | some v =>
    if s.stage.sees v then
      match s.stage.checkWritable v with
      | .ok () => s.readsCheck target
      | .error e => .error e
    else
      .error (.invalidTarget v.name
        ("declared in scope " ++ v.scope.text ++ ", which does not enclose scope " ++
          s.region.id.text))

def checkReads (e : Expr) : Build σ ScopeDraft Unit := do
  let s ← Build.draft
  Build.ofExcept (s.readsCheck e)

def checkAllReads : List Expr → Build σ ScopeDraft Unit
  | [] => pure ()
  | e :: rest => do
    checkReads e
    checkAllReads rest

def add (stmt : Stmt) : Build σ ScopeDraft Unit := Build.change (push stmt)

def newVariable (name : String) (type : ValueType) (kind : VariableKind) :
    Build σ ScopeDraft Variable := do
  let s ← Build.draft
  let v ← Build.onShared (Resources.newVariable name type s.region.id kind)
  Build.change (declare v)
  return v

def addDeclaration (name : String) (type : ValueType) (init : Option Expr) :
    Build σ ScopeDraft Variable := do
  let v ← newVariable name type .localVar
  add (.declare v init)
  return v

/-- Declares a variable of a type, with a first value of that type if there is one. Without a
wanted name it gets one made up for the type. -/
def declareVariable (type : ValueType) (init : Option Expr) (name : Option String) :
    Build σ ScopeDraft Variable := do
  if let some e := init then
    Build.ofExcept (type.expect "declaration" "initializer" e.type)
    checkReads e
  let name ← Build.onShared (Resources.takeName name type.nameStem)
  addDeclaration name type init

/-- Declares a variable with the value of an expression. What the expression may not read is
reported when the scope ends. -/
def bind (init : Expr) : Build σ ScopeDraft Variable := do
  let s ← Build.draft
  match s.readsCheck init with
  | .ok () => pure ()
  | .error e => Build.change (defer e)
  let name ← Build.onShared (Resources.freshName init.type.nameStem)
  addDeclaration name init.type (some init)

def bindNothing (type : ValueType) : Build σ ScopeDraft Variable := do
  let name ← Build.onShared (Resources.freshName type.nameStem)
  addDeclaration name type none

def bindNamed (name : String) (init : Expr) : Build σ ScopeDraft Variable := do
  checkReads init
  Build.onShared (Resources.reserveName name)
  addDeclaration name init.type (some init)

def assignCheck (s : ScopeDraft) (target value : Expr) : Except BuildError Unit := do
  s.targetCheck target
  target.type.expect "=" "value" value.type
  s.readsCheck value

/-- Whether an augmented assignment is allowed: joined with the value, the target keeps its
type. -/
def augmentCheck (s : ScopeDraft) (target : Expr) (op : AugmentOp) (value : Expr) :
    Except BuildError Unit := do
  s.targetCheck target
  let t ← op.binary.resultType target.type value.type
  if t ≠ target.type then
    throw (.typeMismatch op.symbol "value"
      ("operand keeping the " ++ target.type.text ++ " target type") value.type.text)
  s.readsCheck value

def assign (target value : Expr) : Build σ ScopeDraft Unit := do
  let s ← Build.draft
  Build.ofExcept (s.assignCheck target value)
  add (.assign target value)

def augment (target : Expr) (op : AugmentOp) (value : Expr) : Build σ ScopeDraft Unit := do
  let s ← Build.draft
  Build.ofExcept (s.augmentCheck target op value)
  add (.augment target op value)

def set (target : Expr) (op : Option AugmentOp) (value : Expr) : Build σ ScopeDraft Unit :=
  match op with
  | none => assign target value
  | some op => augment target op value

def framesInLoop : List Frame → Bool
  | [] => false
  | f :: rest =>
    match f.kind with
    | .loop => true
    | .function _ => false
    | .block | .branch => framesInLoop rest

def inLoop (s : ScopeDraft) : Bool := framesInLoop s.stage.frames

def framesResult? : List Frame → Option (Option ValueType)
  | [] => none
  | f :: rest =>
    match f.kind with
    | .function result => some result
    | .block | .branch | .loop => framesResult? rest

def addJump (statement : String) (stmt : Stmt) : Build σ ScopeDraft Unit := do
  let s ← Build.draft
  unless s.inLoop do
    throw (.illegalStatement statement "no enclosing loop in the current function")
  add stmt

def breakLoop : Build σ ScopeDraft Unit := addJump "break" .breakLoop

def continueLoop : Build σ ScopeDraft Unit := addJump "continue" .continueLoop

def discard : Build σ ScopeDraft Unit := do
  let s ← Build.draft
  unless s.stage.kind = .fragment do
    throw (.illegalStatement "discard"
      ("only allowed in the fragment stage, not the " ++ s.stage.kind.text ++ " stage"))
  add .discard

/-- Whether a function that returns `result` may return a value here. -/
def leaveCheck (result : Option ValueType) (value : Option Expr) : Except BuildError Unit :=
  match result, value with
  | some t, some e =>
    if e.type = t then .ok () else .error (.typeMismatch "return" "value" t.text e.type.text)
  | some t, none => .error (.typeMismatch "return" "value" t.text "nothing")
  | none, some e => .error (.typeMismatch "return" "value" "nothing" e.type.text)
  | none, none => .ok ()

def leaveFunction (value : Option Expr) : Build σ ScopeDraft Unit := do
  let s ← Build.draft
  match framesResult? s.stage.frames with
  | none => throw (.illegalStatement "return" "outside of a function")
  | some result =>
    Build.ofExcept (leaveCheck result value)
    checkAllReads value.toList
    add (.leave value)

def inlineCode (code : String) : Build σ ScopeDraft Unit := add (.inline code)

def invoke (f : Signature) (args : List Expr) : Build σ ScopeDraft Unit := do
  Build.ofExcept (f.checkArgs (args.map Expr.type))
  checkAllReads args
  add (.invoke f args)

end ScopeDraft

end ShaderGraph
