import ShaderGraph.Kit.Color
import ShaderGraph.Kit.Vertex

/-!
# Unlit programs

A complete program of both stages. Vertices are transformed and projected;
fragments take their color from sources, without any light.
-/

namespace ShaderGraph

inductive AlphaMode where
  | blend
  /-- Alpha is set to one. -/
  | solid
  /-- Fragments whose alpha is below the cutoff are dropped. -/
  | mask (cutoff : Single)
  deriving DecidableEq, Repr

inductive ColorSpace where
  | asIs
  | srgbToLinear
  | linearToSrgb
  deriving DecidableEq, Repr

/-- The exponent that a color is raised to: the single precision number nearest to 2.2, or the
one nearest to its inverse. -/
def ColorSpace.gamma? : ColorSpace → Option Single
  | asIs => none
  | srgbToLinear => some ⟨0x400CCCCD⟩
  | linearToSrgb => some ⟨0x3EE8BA2E⟩

structure UnlitConfig where
  vertex : VertexConfig
  color : List ColorSource
  alpha : AlphaMode
  premultiplied : Bool
  colorSpace : ColorSpace
  normals : Bool

namespace UnlitConfig

variable {σ : Type}

/-- The color sources when none are asked for. -/
def defaultColor : List ColorSource := [⟨.uniform "uBaseColor", .set⟩]

def vertexMain (cfg : UnlitConfig) (viewProj model position : Variable)
    (normal tangent : Option Variable) (outPosition : Variable) : Build σ ScopeDraft Unit := do
  let world ← VertexTransform.block
    ⟨cfg.vertex, .var model, .var position, normal.map .var, tangent.map .var⟩
  ColorSource.vertexBlock cfg.color
  ScopeDraft.assign (.var outPosition)
    (.times (.float .four) (.var viewProj) ((Expr.var world.position).extend (.floatLit .one)))

def optionalAttribute (wanted : Bool) (name : String) (type : ValueType) :
    Build σ StageDraft (Option Variable) :=
  if wanted then some <$> StageDraft.declareAttribute name type .vertexAttribute else return none

def vertexStage (cfg : UnlitConfig) : Build σ StageDraft Unit := do
  let viewProj ← StageDraft.declareUniform "uViewProjMat" (.matrix .four)
  let model ← StageDraft.declareUniform "uModelMat" (.matrix .four)
  let position ←
    StageDraft.declareAttribute AttributeName.positions (.float .three) .vertexAttribute
  let normal ← optionalAttribute cfg.normals AttributeName.normals (.float .three)
  let tangent ← optionalAttribute cfg.normals AttributeName.tangents (.float .four)
  let outPosition ← StageDraft.declareBuiltin .position
  StageDraft.defineMain (cfg.vertexMain viewProj model position normal tangent outPosition)

def applyAlpha (alpha : AlphaMode) (color : Variable) : Build σ ScopeDraft Unit :=
  let a := (Expr.var color).floatPart .w
  match alpha with
  | .blend => return ()
  | .solid => ScopeDraft.assign a (.floatLit .one)
  | .mask cutoff => ScopeDraft.branch (.binary .bool .lt a (.floatLit cutoff)) ScopeDraft.discard

def applyGamma (rgb : Variable) : Option Single → Build σ ScopeDraft Unit
  | none => return ()
  | some gamma =>
    ScopeDraft.assign (.var rgb)
      (.call (.float .three) (.builtin .pow) [.var rgb, .lit (.float (.splat .three gamma))])

def fragmentMain (cfg : UnlitConfig) (out : Variable) : Build σ ScopeDraft Unit := do
  let mixed ← ColorSource.block cfg.color
  let color ← ScopeDraft.bind (.var mixed)
  applyAlpha cfg.alpha color
  let rgb ← ScopeDraft.bind (Expr.var color).firstThree
  let a := (Expr.var color).floatPart .w
  if cfg.premultiplied then
    ScopeDraft.assign (.var rgb) (.times (.float .three) (.var rgb) a)
  applyGamma rgb cfg.colorSpace.gamma?
  ScopeDraft.assign (.var out) ((Expr.var rgb).extend a)

def fragmentStage (cfg : UnlitConfig) : Build σ StageDraft Unit := do
  let out ← StageDraft.declareOutput "fragColor" (.float .four)
  StageDraft.defineMain (cfg.fragmentMain out)

def build (cfg : UnlitConfig) : Build σ Program Unit := do
  Program.buildStage .vertex cfg.vertexStage
  Program.buildStage .fragment cfg.fragmentStage

def program (cfg : UnlitConfig) : Except BuildError Program :=
  match cfg.build (Program.new "unlit", ()) with
  | .ok _ (p, _) => .ok p
  | .error e _ => .error e

end UnlitConfig

end ShaderGraph
