import ShaderGraph.Kit.Mix

/-!
# Vertex properties

A vertex property is one float, such as the displacement along the normal,
mixed from sources.
-/

namespace ShaderGraph

inductive PropertyValue where
  | constant (x : Single)
  | uniform (name : String)
  | vertexAttribute (name : String)
  /-- One channel of a texture, read at coordinates from an attribute. -/
  | texture (sampler coords : String) (channel : Nat)
  deriving DecidableEq, Repr

abbrev PropertySource := Source PropertyValue

namespace PropertyValue

variable {σ : Type}

def channel? : Nat → Option Selector
  | 0 => some .x
  | 1 => some .y
  | 2 => some .z
  | 3 => some .w
  | _ => none

def expr : PropertyValue → Build σ StageDraft Expr
  | constant x => return .floatLit x
  | uniform name => return .var (← StageDraft.declareUniform name (.float .one))
  | vertexAttribute name =>
    return .var (← StageDraft.declareAttribute name (.float .one) .vertexAttribute)
  | texture sampler coords channel => do
    let map ← StageDraft.declareUniform sampler (.sampler .flat)
    let coord ← StageDraft.declareAttribute coords (.float .two) .vertexAttribute
    match channel? channel with
    | none => throw (.indexOutOfRange "texture channel" channel 4)
    | some a =>
      return Expr.floatPart
        (.call (.float .four) (.builtin .sampleLod) [.var map, .var coord, .floatLit .zero]) a

end PropertyValue

namespace PropertySource

variable {σ : Type}

/-- Whether a list of sources gives nothing but a value, so that it need not be computed: it
is empty, or the constant alone. -/
def isEmptyOrConst (value : Single) : List PropertySource → Bool
  | [] => true
  | [⟨.constant x, _⟩] => x.equal value
  | _ => false

def block (sources : List PropertySource) : Build σ ScopeDraft Variable :=
  ScopeDraft.block "displacementBlock"
    (Source.mixBody "outProperty" .one PropertyValue.expr sources)

end PropertySource

end ShaderGraph
