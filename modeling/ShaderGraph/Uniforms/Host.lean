import ShaderGraph.Uniforms.Feed

/-!
# Host sessions

A host works on one store for a program: it sets the store up, reads and
writes it, and feeds draws to it.
-/

namespace ShaderGraph

inductive HostStep where
  /-- Starts over with an empty store. -/
  | clear
  /-- Starts over with the uniforms of the program. -/
  | forProgram
  | insert (name : String) (type : ValueType)
  | without (name : String)
  | write (location offset : Nat) (values : List Single)
  | resolve (name : String)
  | elementsAt (location : Nat)
  | get (name : String)
  | float4 (name : String)
  | matrix4 (name : String) (i : Nat)
  | created
  | update (cmd : DrawCommand)

inductive HostAnswer where
  | done
  | location (found : Option Nat)
  | count (n : Nat)
  | floats (values : Option (List Single))
  | calls (made : List StoreCall)

structure HostState where
  store : UniformStore
  feed : Feed

namespace HostState

def start : HostState := ⟨.empty, .fresh⟩

def step (r : Resources) (h : HostState) : HostStep → HostAnswer × HostState
  | .clear => (.done, { h with store := .empty })
  | .forProgram => (.done, { h with store := .ofUniforms r.uniforms })
  | .insert name type => (.done, { h with store := h.store.insert name type })
  | .without name => (.done, { h with store := h.store.without name })
  | .write location offset values =>
    (.done, { h with store := h.store.write location offset values })
  | .resolve name => (.location (h.store.resolve name), h)
  | .elementsAt location => (.count (h.store.elementsAt location), h)
  | .get name => (.floats (h.store.get? name), h)
  | .float4 name => (.floats (h.store.float4? name), h)
  | .matrix4 name i => (.floats (h.store.matrix4? name i), h)
  | .created =>
    let (feed, calls) := h.feed.created r.listeners h.store
    (.calls calls, { h with feed := feed })
  | .update cmd =>
    let calls := h.feed.updates r.listeners cmd h.store
    (.calls calls, { h with store := StoreCall.applyAll h.store calls })

def run (r : Resources) : HostState → List HostStep → List HostAnswer
  | _, [] => []
  | h, step :: rest =>
    let (answer, h) := h.step r step
    answer :: run r h rest

end HostState

end ShaderGraph
