import ShaderGraph.Uniforms

/-!
# Feeding uniforms

Data blocks are fed for every draw. A feed looks its uniforms up once, when
the program is compiled, and from then on writes what each draw brings to
where they were found. What is too much for a uniform is dropped.
-/

namespace ShaderGraph

structure Joint where
  entries : List Single
  length_eq : entries.length = 16

def Joint.identity : Joint :=
  ⟨[.one, .zero, .zero, .zero, .zero, .one, .zero, .zero, .zero, .zero, .one, .zero, .zero, .zero,
    .zero, .one], rfl⟩

structure DrawCommand where
  joints : Option (List Joint)
  weights : Option (List Single)

/-- A use of a store, as its owner sees it. -/
inductive StoreCall where
  | resolve (name : String) (location : Option Nat)
  | write (location offset : Nat) (values : List Single)

namespace StoreCall

def apply (store : UniformStore) : StoreCall → UniformStore
  | resolve .. => store
  | write location offset values => store.write location offset values

def applyAll (store : UniformStore) (calls : List StoreCall) : UniformStore :=
  calls.foldl apply store

end StoreCall

/-- Where the uniforms of the data blocks were found. Before it was looked for, a uniform has
no entry; one that was not found then is never fed. -/
structure Feed where
  joints : Option (Option Nat)
  weightsA : Option (Option Nat)
  weightsB : Option (Option Nat)

namespace Feed

def fresh : Feed := ⟨none, none, none⟩

/-- What is known already stays. -/
def keepFirst (known : Option (Option Nat)) (found : Option Nat) : Option (Option Nat) :=
  some (known.getD found)

def lookups (store : UniformStore) : DataBlock → List StoreCall
  | .armature data => [.resolve data.joints.name (store.resolve data.joints.name)]
  | .morphWeights data =>
    [.resolve data.weightsA.name (store.resolve data.weightsA.name),
      .resolve data.weightsB.name (store.resolve data.weightsB.name)]

def note (store : UniformStore) (feed : Feed) : DataBlock → Feed
  | .armature data =>
    { feed with joints := keepFirst feed.joints (store.resolve data.joints.name) }
  | .morphWeights data =>
    { feed with
      weightsA := keepFirst feed.weightsA (store.resolve data.weightsA.name)
      weightsB := keepFirst feed.weightsB (store.resolve data.weightsB.name) }

def created (listeners : List DataBlock) (store : UniformStore) (feed : Feed) :
    Feed × List StoreCall :=
  (listeners.foldl (note store) feed, listeners.flatMap (lookups store))

def writeJoints (location : Nat) : Nat → List Joint → List StoreCall
  | _, [] => []
  | i, j :: rest => .write location (i * 16) j.entries :: writeJoints location (i + 1) rest

def writeTo (found : Option (Option Nat)) (values : List Single) : List StoreCall :=
  match found with
  | some (some location) => [.write location 0 values]
  | _ => []

def writes (cmd : DrawCommand) (store : UniformStore) (feed : Feed) : DataBlock → List StoreCall
  | .armature _ =>
    match feed.joints, cmd.joints with
    | some (some location), some joints =>
      writeJoints location 0 (joints.take (store.elementsAt location))
    | _, _ => []
  | .morphWeights _ =>
    match cmd.weights with
    | none => []
    | some weights =>
      writeTo feed.weightsA (weights.take 4) ++
        (if 4 < weights.length then
          writeTo feed.weightsB ((weights.drop 4).take (MorphWeightData.capacity - 4))
        else [])

def updates (listeners : List DataBlock) (cmd : DrawCommand) (store : UniformStore)
    (feed : Feed) : List StoreCall :=
  listeners.flatMap (writes cmd store feed)

def update (listeners : List DataBlock) (cmd : DrawCommand) (store : UniformStore)
    (feed : Feed) : UniformStore :=
  StoreCall.applyAll store (updates listeners cmd store feed)

end Feed

end ShaderGraph
