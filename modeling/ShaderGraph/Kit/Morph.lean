import ShaderGraph.Kit.Mix

/-!
# Morph targets

Each morph attribute moves the position, the normal or the tangent of a
vertex, which one its name says. The weight of an attribute is the one of its
place in the list, whether the attributes before it are used or not.
-/

namespace ShaderGraph

inductive MorphTarget where
  | position
  | normal
  | tangent
  deriving DecidableEq, Repr

/-- The property named at the start of an attribute's name. -/
def MorphTarget.ofAttribute? (name : String) : Option MorphTarget :=
  if AttributeName.positions.toList.isPrefixOf name.toList then some position
  else if AttributeName.normals.toList.isPrefixOf name.toList then some normal
  else if AttributeName.tangents.toList.isPrefixOf name.toList then some tangent
  else none

structure MorphBlend where
  attributes : List String
  position : Expr
  normal : Expr
  tangent : Expr

structure MorphVertex where
  position : Variable
  normal : Variable
  tangent : Variable

namespace MorphBlend

variable {σ : Type}

/-- What is assigned to when a property is moved. The sign of the bitangent stays. -/
def target (v : MorphVertex) : MorphTarget → Expr
  | .position => .var v.position
  | .normal => .var v.normal
  | .tangent => (Expr.var v.tangent).firstThree

/-- Moves a vertex by the attributes of a list, whose first one has the weight `i`. -/
def move (data : MorphWeightData) (v : MorphVertex) : Nat → List String → Build σ BlockDraft Unit
  | _, [] => return ()
  | i, name :: rest => do
    let weight ← Build.ofExcept (data.weight i)
    match MorphTarget.ofAttribute? name with
    | none => pure ()
    | some which =>
      let offset ← Build.onScope (Build.onStage
        (StageDraft.declareAttribute name (.float .three) .vertexAttribute))
      Build.onScope (ScopeDraft.augment (target v which) .add
        (.times (.float .three) (.var offset) weight))
    move data v (i + 1) rest

def body (b : MorphBlend) : Build σ BlockDraft MorphVertex := do
  let data ← Build.onScope (Build.onShared Resources.declareMorphWeights)
  let inPosition ← BlockDraft.input "inPosition" (.float .three) (some b.position)
  let inNormal ← BlockDraft.input "inNormal" (.float .three) (some b.normal)
  let inTangent ← BlockDraft.input "inTangent" (.float .four) (some b.tangent)
  let outPosition ← BlockDraft.output "outPosition" (.float .three)
  let outNormal ← BlockDraft.output "outNormal" (.float .three)
  let outTangent ← BlockDraft.output "outTangent" (.float .four)
  let position ← Build.onScope (ScopeDraft.bind (.var inPosition))
  let normal ← Build.onScope (ScopeDraft.bind (.var inNormal))
  let tangent ← Build.onScope (ScopeDraft.bind (.var inTangent))
  move data ⟨position, normal, tangent⟩ 0 b.attributes
  Build.onScope (ScopeDraft.assign (.var outPosition) (.var position))
  Build.onScope (ScopeDraft.assign (.var outNormal) (.var normal))
  Build.onScope (ScopeDraft.assign (.var outTangent) (.var tangent))
  return ⟨outPosition, outNormal, outTangent⟩

def block (b : MorphBlend) : Build σ ScopeDraft MorphVertex :=
  ScopeDraft.block "morphBlock" b.body

end MorphBlend

end ShaderGraph
