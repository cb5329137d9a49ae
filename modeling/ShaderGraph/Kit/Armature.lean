import ShaderGraph.Kit.Mix

/-!
# Skinning

The transform of a skinned vertex is the sum of four joint transforms, each
times its weight.
-/

namespace ShaderGraph

/-- Blends the transforms of four joints. The armature of the program has to have room for a
number of bones. -/
structure ArmatureBlend where
  weights : Expr
  joints : Expr
  maxBones : Nat

namespace ArmatureBlend

variable {σ : Type}

def term (data : ArmatureData) (joints weights : Expr) (a : Selector) : Except BuildError Expr :=
  match data.jointTransform (.swizzle (.int .one) joints (.one a)) with
  | .ok transform => .ok (.times (.matrix .four) transform (weights.floatPart a))
  | .error e => .error e

def body (b : ArmatureBlend) : Build σ BlockDraft Variable := do
  let data ← Build.onScope (Build.onShared (Resources.declareArmature b.maxBones))
  let weights := Expr.var (← BlockDraft.input "inBoneWeights" (.float .four) (some b.weights))
  let joints := Expr.var (← BlockDraft.input "inBoneIndices" (.int .four) (some b.joints))
  let transform ← BlockDraft.output "outBoneTransform" (.matrix .four)
  let x ← Build.ofExcept (term data joints weights .x)
  let y ← Build.ofExcept (term data joints weights .y)
  let z ← Build.ofExcept (term data joints weights .z)
  let w ← Build.ofExcept (term data joints weights .w)
  let sum := Expr.plus (.matrix .four)
  Build.onScope (ScopeDraft.assign (.var transform) (sum (sum (sum x y) z) w))
  return transform

def block (b : ArmatureBlend) : Build σ ScopeDraft Variable :=
  ScopeDraft.block "armatureBlock" b.body

end ArmatureBlend

end ShaderGraph
