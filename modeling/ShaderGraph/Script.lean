import ShaderGraph.Expr.Typed
import ShaderGraph.Kit.Unlit

/-!
# Scripts

A script is a construction written down as data: a list of steps, some of
which have steps nested in them. Results are bound to handles, by which later
steps use them. A step that fails ends its list, and so does the step around
it, up to a step that is only attempted.
-/

namespace ShaderGraph

/-- A name that a script gives to a result. -/
abbrev Handle := String

inductive WeightChoice where
  | registerA
  | registerB
  | single (i : Nat)
  deriving DecidableEq, Repr

/-- An expression written with handles. -/
inductive Term where
  | lit (value : Literal)
  | var (handle : Handle)
  | unary (op : UnaryOp) (a : Term)
  | binary (op : BinaryOp) (a b : Term)
  | call (callee : Callee) (args : List Term)
  | callHandle (handle : Handle) (args : List Term)
  | select (source : Term) (mask : String)
  | element (object index : Term)
  | joint (data : Handle) (index : Term)
  | weight (data : Handle) (which : WeightChoice)
  | convert (type : ValueType) (a : Term)
  | typed (op : TypedOp) (args : List Term)
  | typedCall (handle : Handle) (args : List Term)
  | typedSwizzle (source : Term) (mask : String)
  /-- A checked selection whose result has to have a type. -/
  | typedSelect (source : Term) (mask : String) (type : ValueType)

inductive Inquiry where
  | evaluate (e : Term)
  | sameData (a b : Handle)

inductive ProgramAction where
  | uniform (name : String) (type : ValueType)
  | lookup (name : String)
  | taken (name : String)
  | armature (maxBones : Nat)
  | morphWeights
  | data (kind : DataKind)
  | registered (kind : DataKind)

inductive Declaration where
  | uniform (name : String) (type : ValueType)
  | attribute (name : String) (type : ValueType) (kind : VariableKind)
  | output (name : String) (type : ValueType)
  | builtin (which : BuiltIn)
  | interStage (name : String) (type : ValueType)
  | armature (maxBones : Nat)
  | morphWeights
  | data (kind : DataKind)

inductive Action where
  | declare (type : ValueType) (init : Option Term) (name : Option String)
  | bind (init : Term)
  | bindNothing (type : ValueType)
  | bindNamed (name : String) (init : Term)
  | assign (target value : Term)
  | augment (target : Term) (op : AugmentOp) (value : Term)
  /-- An assignment whose value is first taken for one of the target's type. -/
  | set (target : Term) (op : Option AugmentOp) (value : Term)
  | breakLoop
  | continueLoop
  | discard
  | leave (value : Option Term)
  | inline (code : String)
  | invoke (function : Handle) (args : List Term) (typed : Bool)
  | checkReads (e : Term)
  | info
  | armatureBlock (weights joints : Term) (maxBones : Nat)
  | morphBlock (attributes : List String) (position normal tangent : Term)
  | displacementBlock (sources : List PropertySource)
  | colorVertexBlock (sources : List ColorSource)
  | colorBlock (sources : List ColorSource)
  | vertexBlock (config : VertexConfig) (model position : Term) (normal tangent : Option Term)

/-- How the condition of a conditional is given: as it is, taken for a truth value first, or
taken for one and negated. -/
inductive ConditionMode where
  | checked
  | typed
  | negated
  deriving DecidableEq, Repr

structure FunctionHead where
  name : Option String
  params : List ValueType
  result : Option ValueType
  args : List Handle
  value : Option Term
  /-- Whether that value is first taken for one of the result type. -/
  typed : Bool

mutual

inductive StageStep where
  | inquire (q : Inquiry) (handles : List (Option Handle))
  | declare (d : Declaration) (handles : List (Option Handle))
  | function (head : FunctionHead) (body : List ScopeStep) (handles : List (Option Handle))
  | main (body : List ScopeStep)
  | attempt (step : StageStep)

inductive ScopeStep where
  | stage (step : StageStep)
  | act (a : Action) (handles : List (Option Handle))
  | branch (mode : ConditionMode) (condition : Term) (body : List ScopeStep) (rest : ElseSteps)
  | loopFor (v : Handle) (init condition update : Term) (body : List ScopeStep)
  | loopRange (v : Handle) (first stop : Term) (body : List ScopeStep)
  | loopWhile (condition : Term) (body : List ScopeStep)
  | block (kind : String) (body : List BlockStep)
  | attempt (step : ScopeStep)

inductive ElseSteps where
  | done
  | otherwise (body : List ScopeStep)
  | elseIf (condition : Term) (body : List ScopeStep) (rest : ElseSteps)

inductive BlockStep where
  | scope (step : ScopeStep)
  | input (name : String) (type : ValueType) (value fallback : Option Term) (typed : Bool)
      (handles : List (Option Handle))
  | output (name : String) (type : ValueType) (handles : List (Option Handle))
  | attempt (step : BlockStep)

end

inductive ProgramStep where
  | inquire (q : Inquiry) (handles : List (Option Handle))
  | act (a : ProgramAction) (handles : List (Option Handle))
  | buildStage (kind : StageKind) (body : List StageStep)
  | attempt (step : ProgramStep)

structure ScopeInfo where
  id : ScopeId
  kind : RegionKind
  statements : Nat
  stage : StageKind
  inLoop : Bool

inductive Answer where
  | done
  | var (v : Variable)
  | found (v : Option Variable)
  | vars (vs : List Variable)
  | expr (e : Expr)
  | data (d : DataBlock)
  | function (f : Signature)
  | block (name : String)
  | flag (b : Bool)
  | taken (contained : Bool) (size : Nat)
  | info (i : ScopeInfo)
  | failed (e : BuildError)

inductive Binding where
  | expr (e : Expr)
  | data (d : DataBlock)
  | function (f : Signature)

/-- What a script keeps besides the program: its bindings, the latest first, and the answers to
its steps, the latest first. -/
structure Ledger where
  bindings : List (Handle × Binding)
  answers : List Answer

namespace Ledger

def empty : Ledger := ⟨[], []⟩

def bind (l : Ledger) (h : Handle) (b : Binding) : Ledger :=
  { l with bindings := (h, b) :: l.bindings }

/-- Binds handles to bindings one by one, leaving out those without a handle. -/
def bindAll (l : Ledger) : List (Option Handle) → List Binding → Ledger
  | some h :: hs, b :: bs => (l.bind h b).bindAll hs bs
  | none :: hs, _ :: bs => l.bindAll hs bs
  | _, _ => l

def log (l : Ledger) (a : Answer) : Ledger := { l with answers := a :: l.answers }

def trace (l : Ledger) : List Answer := l.answers.reverse

def find? (l : Ledger) (h : Handle) : Option Binding := l.bindings.lookup h

def unbound (h : Handle) (what : String) : BuildError :=
  .illFormed ("handle `" ++ h ++ "` is bound to no " ++ what)

def expr (l : Ledger) (h : Handle) : Except BuildError Expr :=
  match l.find? h with
  | some (.expr e) => .ok e
  | _ => .error (unbound h "expression")

def data (l : Ledger) (h : Handle) : Except BuildError DataBlock :=
  match l.find? h with
  | some (.data d) => .ok d
  | _ => .error (unbound h "data block")

def function (l : Ledger) (h : Handle) : Except BuildError Signature :=
  match l.find? h with
  | some (.function f) => .ok f
  | _ => .error (unbound h "function")

end Ledger

/-- What handles are bound to after an answer. -/
def Answer.bindings : Answer → List Binding
  | .var v => [.expr (.var v)]
  | .vars vs => vs.map (fun v ↦ .expr (.var v))
  | .expr e => [.expr e]
  | .data d => [.data d]
  | .function f => [.function f]
  | .done | .found _ | .block _ | .flag _ | .taken .. | .info _ | .failed _ => []

end ShaderGraph
