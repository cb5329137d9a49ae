/-!
# Value types

Every expression and variable carries a value type: a scalar, vector or
square matrix, or a texture sampler, and possibly an array length. Each type
has one written form, which `ValueType.ofText?` reads back.
-/

namespace ShaderGraph

inductive Dim where
  | one
  | two
  | three
  | four
  deriving DecidableEq, Repr

namespace Dim

def count : Dim → Nat
  | one => 1
  | two => 2
  | three => 3
  | four => 4

def ofCount? : Nat → Option Dim
  | 1 => some one
  | 2 => some two
  | 3 => some three
  | 4 => some four
  | _ => none

end Dim

inductive MatrixDim where
  | two
  | three
  | four
  deriving DecidableEq, Repr

namespace MatrixDim

def size : MatrixDim → Nat
  | two => 2
  | three => 3
  | four => 4

def column : MatrixDim → Dim
  | two => .two
  | three => .three
  | four => .four

def ofSize? : Nat → Option MatrixDim
  | 2 => some two
  | 3 => some three
  | 4 => some four
  | _ => none

end MatrixDim

inductive SamplerDim where
  | flat
  | volume
  | cube
  | layered
  deriving DecidableEq, Repr

namespace SamplerDim

/-- Dimension of the coordinates a sampler is read at. -/
def coord : SamplerDim → Dim
  | flat => .two
  | volume | cube | layered => .three

/-- Dimension of whole texel coordinates and of the texture size. -/
def texel : SamplerDim → Dim
  | flat | cube => .two
  | volume | layered => .three

def text : SamplerDim → String
  | flat => "2d"
  | volume => "3d"
  | cube => "Cube"
  | layered => "2dArray"

end SamplerDim

inductive ScalarKind where
  | float
  | int
  | uint
  | bool
  deriving DecidableEq, Repr

def ScalarKind.text : ScalarKind → String
  | float => "float"
  | int => "int"
  | uint => "uint"
  | bool => "bool"

/-- A type without array length. A scalar is a vector of one component. -/
inductive PrimType where
  | vector (kind : ScalarKind) (dim : Dim)
  | matrix (dim : MatrixDim)
  | sampler (dim : SamplerDim)
  | depthSampler (dim : SamplerDim)
  deriving DecidableEq, Repr

namespace PrimType

/-- Kind of the components; matrices hold floats and samplers hold none. -/
def scalarKind : PrimType → Option ScalarKind
  | vector kind _ => some kind
  | matrix _ => some .float
  | sampler _ | depthSampler _ => none

def dim : PrimType → Option Dim
  | vector _ dim => some dim
  | matrix _ | sampler _ | depthSampler _ => none

def text : PrimType → String
  | vector kind dim => kind.text ++ toString dim.count
  | matrix dim => "mat" ++ toString dim.size
  | sampler dim => "sampler" ++ dim.text
  | depthSampler dim => "depthSampler" ++ dim.text

def nameStem : PrimType → String
  | vector .float dim => "f" ++ toString dim.count
  | vector .int dim => "i" ++ toString dim.count
  | vector .uint dim => "u" ++ toString dim.count
  | vector .bool dim => "b" ++ toString dim.count
  | matrix dim => "m" ++ toString dim.size
  | sampler _ => "sampler"
  | depthSampler _ => "depthSampler"

def all : List PrimType :=
  let dims := [Dim.one, .two, .three, .four]
  let samplers := [SamplerDim.flat, .volume, .cube, .layered]
  [ScalarKind.float, .int, .uint, .bool].flatMap (fun kind ↦ dims.map (vector kind)) ++
    [matrix .two, matrix .three, matrix .four] ++ samplers.map sampler ++
    samplers.map depthSampler

end PrimType

structure ValueType where
  prim : PrimType
  length : Option Nat := none
  deriving DecidableEq, Repr

namespace ValueType

def vector (kind : ScalarKind) (dim : Dim) : ValueType := ⟨.vector kind dim, none⟩

def scalar (kind : ScalarKind) : ValueType := vector kind .one

def float (dim : Dim) : ValueType := vector .float dim

def int (dim : Dim) : ValueType := vector .int dim

def bool : ValueType := scalar .bool

def matrix (dim : MatrixDim) : ValueType := ⟨.matrix dim, none⟩

def sampler (dim : SamplerDim) : ValueType := ⟨.sampler dim, none⟩

def array (prim : PrimType) (length : Nat) : ValueType := ⟨prim, some length⟩

def isArray (t : ValueType) : Bool := t.length.isSome

/-- The type of one array element; the type itself when it is no array. -/
def element (t : ValueType) : ValueType := ⟨t.prim, none⟩

def scalarKind (t : ValueType) : Option ScalarKind :=
  match t.length with
  | some _ => none
  | none => t.prim.scalarKind

def dim (t : ValueType) : Option Dim :=
  match t.length with
  | some _ => none
  | none => t.prim.dim

def isScalar (t : ValueType) : Bool := t.dim == some .one

def isMatrix : ValueType → Bool
  | ⟨.matrix _, none⟩ => true
  | _ => false

/-- The single component of the same kind, for types that have components. -/
def component? (t : ValueType) : Option ValueType := t.scalarKind.map scalar

def text (t : ValueType) : String :=
  match t.length with
  | none => t.prim.text
  | some n => t.prim.text ++ "[" ++ toString n ++ "]"

def nameStem (t : ValueType) : String :=
  if t.isArray then t.prim.nameStem ++ "Array" else t.prim.nameStem

/-- Reads decimal digits after a value already read. -/
def readDigits (acc : Nat) : List Char → Option Nat
  | [] => some acc
  | c :: rest =>
    if c.isDigit then readDigits (acc * 10 + (c.toNat - '0'.toNat)) rest else none

def readLength : List Char → Option (Option Nat)
  | [] => some none
  | '[' :: rest =>
    match rest.reverse with
    | ']' :: digits => if digits.isEmpty then none else (readDigits 0 digits.reverse).map some
    | _ => none
  | _ => none

def ofText? (s : String) : Option ValueType :=
  let cs := s.toList
  let name := cs.takeWhile (· != '[')
  match PrimType.all.find? (fun p ↦ p.text.toList == name) with
  | none => none
  | some prim => (readLength (cs.dropWhile (· != '['))).map (ValueType.mk prim)

end ValueType

end ShaderGraph
