import ShaderGraph.DataBlock
import ShaderGraph.NamePool
import ShaderGraph.Region

/-!
# Programs

A program has up to one vertex and one fragment stage. What the stages share
is in its resources: names, uniforms, inter-stage values and data blocks.
-/

namespace ShaderGraph

/-- What the two stages of a program share. -/
structure Resources where
  names : NamePool
  uniforms : List Variable
  interStage : List Variable
  armature : Option ArmatureData
  morphWeights : Option MorphWeightData
  /-- The data blocks that want to be fed, in the order they were registered. -/
  listeners : List DataBlock
  variableCount : Nat
  /-- How many scopes were opened so far, those of the program and the stages apart. -/
  scopeCount : Nat

namespace Resources

def empty : Resources := ⟨.empty, [], [], none, none, [], 0, 0⟩

def dataBlock? (r : Resources) : DataKind → Option DataBlock
  | .armature => r.armature.map .armature
  | .morphWeights => r.morphWeights.map .morphWeights

def uniform? (r : Resources) (name : String) : Option Variable :=
  r.uniforms.find? (·.name == name)

end Resources

structure Function where
  signature : Signature
  args : List Variable
  body : Region
  /-- The value returned at the end of the body. -/
  result : Option Expr

structure Stage where
  kind : StageKind
  attributes : List Variable
  outputs : List Variable
  builtins : List Variable
  functions : List Function
  main : Option Function

structure Program where
  name : String
  resources : Resources
  vertex : Option Stage
  fragment : Option Stage

namespace Program

def new (name : String) : Program := ⟨name, .empty, none, none⟩

def stage? (p : Program) : StageKind → Option Stage
  | .vertex => p.vertex
  | .fragment => p.fragment

def setStage (p : Program) (s : Stage) : Program :=
  match s.kind with
  | .vertex => { p with vertex := some s }
  | .fragment => { p with fragment := some s }

/-- The stages, the vertex stage first. -/
def stages (p : Program) : List Stage := p.vertex.toList ++ p.fragment.toList

end Program

end ShaderGraph
