import ShaderGraph.ValueType

/-!
# Variables

A variable is a named, typed slot declared in exactly one scope. Its number
is unique in the program, and its kind says what the slot stands for and
whether it may be assigned to.
-/

namespace ShaderGraph

inductive StageKind where
  | vertex
  | fragment
  deriving DecidableEq, Repr

def StageKind.text : StageKind → String
  | vertex => "vertex"
  | fragment => "fragment"

/-- Number of a scope. Zero is the program, one and two are the stages. -/
structure ScopeId where
  index : Nat
  deriving DecidableEq, Repr

namespace ScopeId

def program : ScopeId := ⟨0⟩

def stage : StageKind → ScopeId
  | .vertex => ⟨1⟩
  | .fragment => ⟨2⟩

/-- The scope opened after `opened` others were. -/
def nested (opened : Nat) : ScopeId := ⟨3 + opened⟩

def text (s : ScopeId) : String := "#" ++ toString s.index

end ScopeId

/-- Variables that a stage finds already there. -/
inductive BuiltIn where
  | vertexIndex
  | instanceIndex
  | position
  | pointSize
  | fragCoord
  | frontFacing
  | pointCoord
  | fragDepth
  deriving DecidableEq, Repr

namespace BuiltIn

def name : BuiltIn → String
  | vertexIndex => "vertexIndex"
  | instanceIndex => "instanceIndex"
  | position => "outPosition"
  | pointSize => "outPointSize"
  | fragCoord => "fragCoord"
  | frontFacing => "isFrontFacing"
  | pointCoord => "pointCoord"
  | fragDepth => "outDepth"

def type : BuiltIn → ValueType
  | vertexIndex | instanceIndex => .int .one
  | position | fragCoord => .float .four
  | pointSize | fragDepth => .float .one
  | frontFacing => .bool
  | pointCoord => .float .two

def stage : BuiltIn → StageKind
  | vertexIndex | instanceIndex | position | pointSize => .vertex
  | fragCoord | frontFacing | pointCoord | fragDepth => .fragment

def writable : BuiltIn → Bool
  | position | pointSize | fragDepth => true
  | vertexIndex | instanceIndex | fragCoord | frontFacing | pointCoord => false

def all : List BuiltIn :=
  [vertexIndex, instanceIndex, position, pointSize, fragCoord, frontFacing, pointCoord, fragDepth]

end BuiltIn

inductive VariableKind where
  | localVar
  | uniform
  | vertexAttribute
  | instanceAttribute
  | interStage
  | fragmentOutput
  | builtIn (which : BuiltIn)
  | argument
  | blockInput
  | blockOutput
  deriving DecidableEq, Repr

namespace VariableKind

def readOnly : VariableKind → Bool
  | uniform | vertexAttribute | instanceAttribute | blockInput => true
  | builtIn which => !which.writable
  | localVar | interStage | fragmentOutput | argument | blockOutput => false

def text : VariableKind → String
  | localVar => "local"
  | uniform => "uniform"
  | vertexAttribute => "vertex attribute"
  | instanceAttribute => "instance attribute"
  | interStage => "inter-stage value"
  | fragmentOutput => "fragment output"
  | builtIn _ => "built-in"
  | argument => "function argument"
  | blockInput => "block input"
  | blockOutput => "block output"

end VariableKind

/-- A named, typed slot, declared in the scope it names. -/
structure Variable where
  id : Nat
  name : String
  type : ValueType
  scope : ScopeId
  kind : VariableKind
  deriving DecidableEq, Repr

end ShaderGraph
