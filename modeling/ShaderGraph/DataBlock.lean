import ShaderGraph.Expr

/-!
# Data blocks

A data block is a group of uniforms that a program has at most once and that
the host feeds before every draw: the joint transforms of an armature, and the
weights of morph targets.
-/

namespace ShaderGraph

inductive DataKind where
  | armature
  | morphWeights
  deriving DecidableEq, Repr

def DataKind.text : DataKind → String
  | armature => "ArmatureData"
  | morphWeights => "MorphWeightData"

structure ArmatureData where
  maxBones : Nat
  joints : Variable
  deriving DecidableEq, Repr

structure MorphWeightData where
  weightsA : Variable
  weightsB : Variable
  deriving DecidableEq, Repr

inductive DataBlock where
  | armature (data : ArmatureData)
  | morphWeights (data : MorphWeightData)
  deriving DecidableEq, Repr

namespace DataBlock

def kind : DataBlock → DataKind
  | armature _ => .armature
  | morphWeights _ => .morphWeights

end DataBlock

namespace ArmatureData

def uniformName : String := "uJointTransform"

def uniformType (maxBones : Nat) : ValueType := .array (.matrix .four) maxBones

/-- The capacity when none is asked for. -/
def defaultBones : Nat := 32

def jointTransform (data : ArmatureData) (index : Expr) : Except BuildError Expr :=
  Expr.element (.var data.joints) index

end ArmatureData

namespace MorphWeightData

def nameA : String := "uMorphWeightsA"

def nameB : String := "uMorphWeightsB"

def uniformType : ValueType := .float .four

def capacity : Nat := 8

/-- The selector of a component by its number modulo four. -/
def componentOf (i : Nat) : Selector :=
  match i % 4 with
  | 0 => .x
  | 1 => .y
  | 2 => .z
  | _ => .w

/-- The weight of a morph target: a component of the first uniform for the first four targets,
and of the second for the next four. -/
def weight (data : MorphWeightData) (i : Nat) : Except BuildError Expr :=
  if capacity ≤ i then
    .error (.capacityExceeded "morph target weight registers" (i + 1) capacity)
  else Expr.select (.var (if i < 4 then data.weightsA else data.weightsB)) (.one (componentOf i))

end MorphWeightData

end ShaderGraph
