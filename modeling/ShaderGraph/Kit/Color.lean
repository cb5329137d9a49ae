import ShaderGraph.Kit.Mix

/-!
# Colors

A color is mixed from sources in the fragment stage. Vertex attributes that
sources need are passed on by a block of the vertex stage, once each.
-/

namespace ShaderGraph

inductive ColorValue where
  | constant (r g b a : Single)
  | uniform (name : String)
  | vertexColor (attributeName : String)
  | texture (sampler coords : String)
  deriving DecidableEq, Repr

abbrev ColorSource := Source ColorValue

namespace ColorValue

variable {σ : Type}

def attribute? : ColorValue → Option (String × ValueType)
  | vertexColor name => some (name, .float .four)
  | texture _ coords => some (coords, .float .two)
  | constant .. | uniform _ => none

def expr : ColorValue → Build σ StageDraft Expr
  | constant r g b a => return .lit (.float ⟨.four, [r, g, b, a], rfl⟩)
  | uniform name => return .var (← StageDraft.declareUniform name (.float .four))
  | vertexColor name =>
    return .var (← StageDraft.declareInterStage (interStageName name) (.float .four))
  | texture sampler coords => do
    let map ← StageDraft.declareUniform sampler (.sampler .flat)
    let coord ← StageDraft.declareInterStage (interStageName coords) (.float .two)
    return .call (.float .four) (.builtin .sample) [.var map, .var coord]

end ColorValue

namespace ColorSource

variable {σ : Type}

/-- Passes attributes on that have not been passed yet. -/
def passAll (passed : List String) : List (String × ValueType) → Build σ BlockDraft Unit
  | [] => return ()
  | (name, type) :: rest => do
    if passed.contains name then
      passAll passed rest
    else
      let value ← Build.onScope (Build.onStage
        (StageDraft.declareAttribute name type .vertexAttribute))
      let passedOn ← Build.onScope (Build.onStage
        (StageDraft.declareInterStage (interStageName name) type))
      Build.onScope (ScopeDraft.assign (.var passedOn) (.var value))
      passAll (name :: passed) rest

/-- The block of the vertex stage that passes on the attributes that sources need. -/
def vertexBlock (sources : List ColorSource) : Build σ ScopeDraft Unit :=
  ScopeDraft.block "colorVertexBlock" (passAll [] (sources.filterMap (·.kind.attribute?)))

def body (sources : List ColorSource) : Build σ BlockDraft Variable := do
  let b ← Build.draft
  unless b.scope.stage.kind = .fragment do
    throw (.wrongStage "color block" .fragment b.scope.stage.kind)
  Source.mixBody "outColor" .four ColorValue.expr sources

def block (sources : List ColorSource) : Build σ ScopeDraft Variable :=
  ScopeDraft.block "colorBlock" (body sources)

end ColorSource

end ShaderGraph
