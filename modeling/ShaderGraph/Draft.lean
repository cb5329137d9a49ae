import ShaderGraph.Program

/-!
# Drafts

A draft is a part of a program under construction: a stage, a scope of it, or
the body of a block. A construction works on a draft for a client, who keeps a
state of its own meanwhile. It may be rejected, and then leaves both as far as
it got, so that the client can go on.

Every construction on a nested draft is run by `Build.via`, which says how to
get into the nested draft and how to come back, whatever happens in it.
-/

namespace ShaderGraph

/-- A construction on a draft `S` for a client with a state `σ`. -/
abbrev Build (σ S : Type) : Type → Type := EStateM BuildError (S × σ)

namespace Build

variable {σ S T α : Type}

def draft : Build σ S S := fun (s, c) ↦ .ok s (s, c)

def change (f : S → S) : Build σ S Unit := fun (s, c) ↦ .ok () (f s, c)

/-- What the client does by itself. -/
def client (f : σ → α × σ) : Build σ S α := fun (s, c) ↦
  let (a, c) := f c
  .ok a (s, c)

def ofExcept (r : Except BuildError α) : Build σ S α := fun state ↦
  match r with
  | .ok a => .ok a state
  | .error e => .error e state

/-- The result of a construction or why it was rejected; what it did is kept either way. -/
def outcome (act : Build σ S α) : Build σ S (Except BuildError α) := fun state ↦
  match act state with
  | .ok a state => .ok (.ok a) state
  | .error e state => .ok (.error e) state

/-- Runs a construction on another draft and comes back, also when it is rejected. -/
def via (into : S → T) (back : S → T → S) (act : Build σ T α) : Build σ S (α × T) :=
  fun (s, c) ↦
    match act (into s, c) with
    | .ok a (t, c) => .ok (a, t) (back s t, c)
    | .error e (t, c) => .error e (back s t, c)

def on (part : S → T) (set : S → T → S) (act : Build σ T α) : Build σ S α :=
  Prod.fst <$> via part set act

theorem via_eq_ok {into : S → T} {back : S → T → S} {act : Build σ T α} {s s' : S} {c c' : σ}
    {a : α} {t : T} :
    via into back act (s, c) = .ok (a, t) (s', c') ↔
      act (into s, c) = .ok a (t, c') ∧ s' = back s t := by
  rcases h : act (into s, c) with ⟨a', t', c''⟩ | ⟨e, t', c''⟩
  · simp only [via, h, EStateM.Result.ok.injEq, Prod.mk.injEq]
    grind
  · simp [via, h]

end Build

/-- A region that is being built, on the way from a function's body to the current scope. -/
structure Frame where
  id : ScopeId
  kind : RegionKind
  deriving DecidableEq, Repr

structure StageDraft where
  resources : Resources
  kind : StageKind
  /-- The regions around the current one and itself, innermost first. A function's body sees
  none of the regions around the place it is defined at. -/
  frames : List Frame
  attributes : List Variable
  outputs : List Variable
  builtins : List Variable
  functions : List Function
  main : Option Function

structure ScopeDraft where
  stage : StageDraft
  region : Region
  /-- The first error that is to be reported when the scope ends. -/
  deferred : Option BuildError

structure Interface where
  inputs : List BlockInput
  outputs : List BlockOutput

structure BlockDraft where
  scope : ScopeDraft
  name : String
  /-- The scope that the block stands in, which its outputs belong to. -/
  parent : ScopeId
  interface : Interface

namespace StageDraft

def start (kind : StageKind) (resources : Resources) : StageDraft :=
  ⟨resources, kind, [], [], [], [], [], none⟩

def finish (s : StageDraft) : Stage :=
  ⟨s.kind, s.attributes, s.outputs, s.builtins, s.functions, s.main⟩

/-- Whether the current scope may use a variable: one of the program, of the stage, or of a
region around it. -/
def sees (s : StageDraft) (v : Variable) : Bool :=
  v.scope == .program || v.scope == .stage s.kind || s.frames.any (·.id == v.scope)

end StageDraft

namespace ScopeDraft

def enter (id : ScopeId) (kind : RegionKind) (s : StageDraft) : ScopeDraft :=
  ⟨{ s with frames := ⟨id, kind⟩ :: s.frames }, ⟨id, kind, [], []⟩, none⟩

def leave (s : ScopeDraft) : StageDraft := { s.stage with frames := s.stage.frames.tail }

def declare (v : Variable) (s : ScopeDraft) : ScopeDraft :=
  { s with region := { s.region with declared := s.region.declared ++ [v] } }

def push (stmt : Stmt) (s : ScopeDraft) : ScopeDraft :=
  { s with region := { s.region with statements := s.region.statements ++ [stmt] } }

/-- Keeps an error for the end of the scope, unless there is one already. -/
def defer (e : BuildError) (s : ScopeDraft) : ScopeDraft :=
  { s with deferred := s.deferred.orElse (fun _ ↦ some e) }

end ScopeDraft

namespace Build

variable {σ α : Type}

def onResources (act : Build σ Resources α) : Build σ StageDraft α :=
  on StageDraft.resources (fun s r ↦ { s with resources := r }) act

def onStage (act : Build σ StageDraft α) : Build σ ScopeDraft α :=
  on ScopeDraft.stage (fun s t ↦ { s with stage := t }) act

def onScope (act : Build σ ScopeDraft α) : Build σ BlockDraft α :=
  on BlockDraft.scope (fun s t ↦ { s with scope := t }) act

def onShared (act : Build σ Resources α) : Build σ ScopeDraft α := onStage (onResources act)

end Build

end ShaderGraph
