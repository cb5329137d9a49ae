import ShaderGraph.Kit.Armature
import ShaderGraph.Kit.Displacement
import ShaderGraph.Kit.Morph

/-!
# Vertex transform

A vertex goes from local to world space in steps that a configuration turns
on: instancing and skinning change the model matrix, morphing the vertex, and
displacement moves the position along the normal.
-/

namespace ShaderGraph

structure VertexConfig where
  instanced : Bool
  skinned : Bool
  maxBones : Nat
  morphAttributes : List String
  displacement : List PropertySource

namespace VertexConfig

def plain : VertexConfig := ⟨false, false, ArmatureData.defaultBones, [], []⟩

end VertexConfig

/-- The vertex to transform. Normal and tangent are zero if they are missing. -/
structure VertexTransform where
  config : VertexConfig
  model : Expr
  position : Expr
  normal : Option Expr
  tangent : Option Expr

/-- A vertex with its model matrix: what the steps of a transform change, and what it gives. -/
structure VertexState where
  model : Variable
  position : Variable
  normal : Variable
  tangent : Variable

namespace VertexTransform

variable {σ : Type}

def applyInstance (v : VertexState) : Build σ BlockDraft Unit := do
  let matrix ← Build.onScope (Build.onStage
    (StageDraft.declareAttribute AttributeName.instanceModel (.matrix .four) .instanceAttribute))
  Build.onScope (ScopeDraft.augment (.var v.model) .mul (.var matrix))

def applyArmature (maxBones : Nat) (v : VertexState) : Build σ BlockDraft Unit := do
  let weights ← Build.onScope (Build.onStage
    (StageDraft.declareAttribute AttributeName.weights (.float .four) .vertexAttribute))
  let joints ← Build.onScope (Build.onStage
    (StageDraft.declareAttribute AttributeName.joints (.int .four) .vertexAttribute))
  let transform ← Build.onScope (ArmatureBlend.block ⟨.var weights, .var joints, maxBones⟩)
  Build.onScope (ScopeDraft.augment (.var v.model) .mul (.var transform))

def applyMorph (attributes : List String) (v : VertexState) : Build σ BlockDraft Unit := do
  let morphed ← Build.onScope
    (MorphBlend.block ⟨attributes, .var v.position, .var v.normal, .var v.tangent⟩)
  Build.onScope (ScopeDraft.assign (.var v.position) (.var morphed.position))
  Build.onScope (ScopeDraft.assign (.var v.normal) (.var morphed.normal))
  Build.onScope (ScopeDraft.assign (.var v.tangent) (.var morphed.tangent))

def applyDisplacement (sources : List PropertySource) (v : VertexState) :
    Build σ BlockDraft Unit := do
  let displacement ← Build.onScope (PropertySource.block sources)
  Build.onScope (ScopeDraft.augment (.var v.position) .add
    (.times (.float .three) (Expr.var v.normal).normalized (.var displacement)))

def when (on : Bool) (act : Build σ BlockDraft Unit) : Build σ BlockDraft Unit :=
  if on then act else pure ()

/-- A vector times the model matrix, without its last component. -/
def toWorld (v : VertexState) (e : Expr) : Expr :=
  (Expr.times (.float .four) (.var v.model) e).firstThree

def body (t : VertexTransform) : Build σ BlockDraft VertexState := do
  let b ← Build.draft
  unless b.scope.stage.kind = .vertex do
    throw (.wrongStage "vertex transform block" .vertex b.scope.stage.kind)
  let inModel ← BlockDraft.input "inModelMat" (.matrix .four) (some t.model)
  let inPosition ← BlockDraft.input "inLocalPos" (.float .three) (some t.position)
  let inNormal ← BlockDraft.input "inLocalNormal" (.float .three)
    (some (t.normal.getD (.zeros .three)))
  let inTangent ← BlockDraft.input "inLocalTangent" (.float .four)
    (some (t.tangent.getD (.zeros .four)))
  let outModel ← BlockDraft.output "outModelMat" (.matrix .four)
  let outPosition ← BlockDraft.output "outWorldPos" (.float .three)
  let outNormal ← BlockDraft.output "outWorldNormal" (.float .three)
  let outTangent ← BlockDraft.output "outWorldTangent" (.float .four)
  let model ← Build.onScope (ScopeDraft.bind (.var inModel))
  let position ← Build.onScope (ScopeDraft.bind (.var inPosition))
  let normal ← Build.onScope (ScopeDraft.bind (.var inNormal))
  let tangent ← Build.onScope (ScopeDraft.bind (.var inTangent))
  let v : VertexState := ⟨model, position, normal, tangent⟩
  when t.config.instanced (applyInstance v)
  when t.config.skinned (applyArmature t.config.maxBones v)
  when (!t.config.morphAttributes.isEmpty) (applyMorph t.config.morphAttributes v)
  when (!PropertySource.isEmptyOrConst .zero t.config.displacement)
    (applyDisplacement t.config.displacement v)
  let worldPosition := toWorld v ((Expr.var position).extend (.floatLit .one))
  let worldNormal := (toWorld v ((Expr.var normal).extend (.floatLit .zero))).normalized
  let worldTangent := (toWorld v (.var tangent)).extend ((Expr.var inTangent).floatPart .w)
  Build.onScope (ScopeDraft.assign (.var outModel) (.var model))
  Build.onScope (ScopeDraft.assign (.var outPosition) worldPosition)
  Build.onScope (ScopeDraft.assign (.var outNormal) worldNormal)
  Build.onScope (ScopeDraft.assign (.var outTangent) worldTangent)
  return ⟨outModel, outPosition, outNormal, outTangent⟩

def block (t : VertexTransform) : Build σ ScopeDraft VertexState :=
  ScopeDraft.block "vertexBlock" t.body

end VertexTransform

end ShaderGraph
