import ShaderGraph.Program

/-!
# Uniform stores

The host keeps the floats of every uniform in a slot, which is found by name
and then addressed by its position. Slots keep their order; what is written
past the end of a slot is dropped.
-/

namespace ShaderGraph

def ValueType.elementFloats (t : ValueType) : Nat :=
  match t.prim with
  | .vector _ dim => dim.count
  | .matrix dim => dim.size * dim.size
  | .sampler _ | .depthSampler _ => 1

/-- How many elements a uniform of a type has; one if it is no array. -/
def ValueType.elements (t : ValueType) : Nat := t.length.getD 1

structure Slot where
  name : String
  type : ValueType
  values : List Single

namespace Slot

def zeros (name : String) (type : ValueType) : Slot :=
  ⟨name, type, List.replicate (type.elementFloats * type.elements) .zero⟩

/-- A list with other values from an offset on, as far as it goes. -/
def overwrite (offset : Nat) (new old : List Single) : List Single :=
  if offset < old.length then
    old.take offset ++ new.take (old.length - offset) ++ old.drop (offset + new.length)
  else old

def write (s : Slot) (offset : Nat) (new : List Single) : Slot :=
  { s with values := overwrite offset new s.values }

end Slot

structure UniformStore where
  slots : List Slot

namespace UniformStore

def empty : UniformStore := ⟨[]⟩

/-- Replaces the slot of the same name, or adds one at the end. -/
def putSlot (s : Slot) : List Slot → List Slot
  | [] => [s]
  | t :: rest => if t.name = s.name then s :: rest else t :: putSlot s rest

def insert (store : UniformStore) (name : String) (type : ValueType) : UniformStore :=
  ⟨putSlot (.zeros name type) store.slots⟩

/-- The store without a slot; the slots after it move up. -/
def without (store : UniformStore) (name : String) : UniformStore :=
  ⟨store.slots.eraseP (·.name == name)⟩

def ofUniforms (uniforms : List Variable) : UniformStore :=
  uniforms.foldl (fun store v ↦ store.insert v.name v.type) empty

def resolve (store : UniformStore) (name : String) : Option Nat :=
  store.slots.findIdx? (·.name == name)

/-- The number of elements at a position; zero past the last slot. -/
def elementsAt (store : UniformStore) (location : Nat) : Nat :=
  match store.slots[location]? with
  | some s => s.type.elements
  | none => 0

def write (store : UniformStore) (location offset : Nat) (new : List Single) : UniformStore :=
  ⟨store.slots.modify location (fun s ↦ s.write offset new)⟩

def get? (store : UniformStore) (name : String) : Option (List Single) :=
  (store.slots.find? (·.name == name)).map Slot.values

/-- A stretch of a list, if it has all of it. -/
def stretch? (start count : Nat) (values : List Single) : Option (List Single) :=
  if start + count ≤ values.length then some ((values.drop start).take count) else none

def float4? (store : UniformStore) (name : String) : Option (List Single) :=
  (store.get? name).bind (stretch? 0 4)

def matrix4? (store : UniformStore) (name : String) (i : Nat) : Option (List Single) :=
  (store.get? name).bind (stretch? (i * 16) 16)

end UniformStore

end ShaderGraph
