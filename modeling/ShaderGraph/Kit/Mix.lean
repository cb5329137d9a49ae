import ShaderGraph.Draft.Nesting

/-!
# Mixing sources

Colors and vertex properties are computed from a list of sources. Each source
is mixed into the value that the ones before it have given.
-/

namespace ShaderGraph

inductive MixMode where
  | set
  | multiply
  | add
  | subtract
  deriving DecidableEq, Repr

/-- The operator of the assignment that mixes a source in; a plain assignment has none. -/
def MixMode.augment? : MixMode → Option AugmentOp
  | set => none
  | multiply => some .mul
  | add => some .add
  | subtract => some .sub

namespace AttributeName

def positions : String := "attrib_positions"

def normals : String := "attrib_normals"

/-- Vertex tangents, of four floats; the last is the sign of the bitangent. -/
def tangents : String := "attrib_tangents"

def colors : String := "attrib_colors"

def textureCoords : String := "attrib_texture_coords"

def weights : String := "attrib_weights"

def joints : String := "attrib_joints"

def instanceModel : String := "attrib_instance_model_mat"

end AttributeName

/-- The name of the inter-stage value that brings a vertex attribute to the fragment stage. -/
def interStageName (attributeName : String) : String := "v_" ++ attributeName

namespace Expr

def floatPart (source : Expr) (a : Selector) : Expr := .swizzle (.float .one) source (.one a)

def firstThree (source : Expr) : Expr := .swizzle (.float .three) source (.three .x .y .z)

def floatLit (x : Single) : Expr := .lit (.float1 x)

def zeros (dim : Dim) : Expr := .lit (.float (.splat dim .zero))

def extend (xyz w : Expr) : Expr := .call (.float .four) (.builtin (.vec .four)) [xyz, w]

def normalized (v : Expr) : Expr := .call (.float .three) (.builtin (.apply .normalize)) [v]

def times (type : ValueType) (a b : Expr) : Expr := .binary type .mul a b

def plus (type : ValueType) (a b : Expr) : Expr := .binary type .add a b

end Expr

structure Source (κ : Type) where
  kind : κ
  mix : MixMode
  deriving DecidableEq, Repr

namespace Source

variable {σ κ : Type}

def mixAll (value : κ → Build σ StageDraft Expr) (accumulator : Variable) :
    List (Source κ) → Build σ BlockDraft Unit
  | [] => return ()
  | s :: rest => do
    let e ← Build.onScope (Build.onStage (value s.kind))
    Build.onScope (ScopeDraft.set (.var accumulator) s.mix.augment? e)
    mixAll value accumulator rest

/-- The body of a block that mixes sources, starting from zeros, and gives the result through
an output. -/
def mixBody (name : String) (dim : Dim) (value : κ → Build σ StageDraft Expr)
    (sources : List (Source κ)) : Build σ BlockDraft Variable := do
  let out ← BlockDraft.output name (.float dim)
  let accumulator ← Build.onScope (ScopeDraft.bind (.zeros dim))
  mixAll value accumulator sources
  Build.onScope (ScopeDraft.assign (.var out) (.var accumulator))
  return out

end Source

end ShaderGraph
