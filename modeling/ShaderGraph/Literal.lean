import ShaderGraph.ValueType
import ShaderGraph.Single.Shortest

/-!
# Literals

A literal is a scalar, vector or matrix constant. Vectors and matrices are
written like a call of the type's name, matrices column after column.
-/

namespace ShaderGraph

/-- The components of a scalar or vector, first to last. -/
structure Components (α : Type) where
  dim : Dim
  toList : List α
  length_eq : toList.length = dim.count
  deriving DecidableEq

namespace Components

def ofList? {α : Type} (xs : List α) : Option (Components α) :=
  match h : Dim.ofCount? xs.length with
  | none => none
  | some dim => some ⟨dim, xs, by
      revert h
      unfold Dim.ofCount?
      split <;> simp_all [Dim.count] <;> rintro rfl <;> rfl⟩

def scalar {α : Type} (x : α) : Components α := ⟨.one, [x], rfl⟩

def splat {α : Type} (dim : Dim) (x : α) : Components α :=
  ⟨dim, List.replicate dim.count x, List.length_replicate⟩

end Components

/-- The entries of a square matrix, column after column. -/
structure MatrixEntries where
  dim : MatrixDim
  toList : List Single
  length_eq : toList.length = dim.size * dim.size
  deriving DecidableEq

def MatrixEntries.ofList? (dim : MatrixDim) (xs : List Single) : Option MatrixEntries :=
  if h : xs.length = dim.size * dim.size then some ⟨dim, xs, h⟩ else none

inductive Literal where
  | int (xs : Components Int32)
  | uint (xs : Components UInt32)
  | float (xs : Components Single)
  | bool (xs : Components Bool)
  | matrix (m : MatrixEntries)
  deriving DecidableEq

def commaSeparated : List String → String
  | [] => ""
  | [s] => s
  | s :: rest => s ++ ", " ++ commaSeparated rest

namespace Literal

def type : Literal → ValueType
  | int xs => .vector .int xs.dim
  | uint xs => .vector .uint xs.dim
  | float xs => .vector .float xs.dim
  | bool xs => .vector .bool xs.dim
  | matrix m => .matrix m.dim

/-- The value of an int or uint scalar, which is how constant indices are known. -/
def toInt? : Literal → Option Int
  | int ⟨_, [i], _⟩ => some i.toInt
  | uint ⟨_, [u], _⟩ => some u.toNat
  | _ => none

/-- A scalar is written as it is, and the entries of anything else in brackets after the name
of its type. -/
def entriesText (type : ValueType) : List String → String
  | [s] => s
  | entries => type.text ++ "(" ++ commaSeparated entries ++ ")"

def text (l : Literal) : String :=
  match l with
  | int xs => entriesText l.type (xs.toList.map (fun x ↦ toString x.toInt))
  | uint xs => entriesText l.type (xs.toList.map (fun x ↦ toString x.toNat ++ "u"))
  | float xs => entriesText l.type (xs.toList.map Single.literalText)
  | bool xs => entriesText l.type (xs.toList.map (fun x ↦ if x then "true" else "false"))
  | matrix m => entriesText l.type (m.toList.map Single.literalText)

def float1 (x : Single) : Literal := float (.scalar x)

def int1 (x : Int32) : Literal := int (.scalar x)

def bool1 (x : Bool) : Literal := bool (.scalar x)

end Literal

end ShaderGraph
