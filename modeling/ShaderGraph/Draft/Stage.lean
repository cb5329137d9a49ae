import ShaderGraph.Draft.Resources

/-!
# Declaring the variables of a stage

Attributes, outputs and built-ins belong to one stage and are declared in its
own scope. Attributes and built-ins that are there already are given back.
-/

namespace ShaderGraph

namespace StageDraft

variable {σ : Type}

def expectStage (item : String) (required : StageKind) : Build σ StageDraft Unit := do
  let s ← Build.draft
  unless s.kind = required do
    throw (.wrongStage item required s.kind)

def newStageVariable (name : String) (type : ValueType) (kind : VariableKind) :
    Build σ StageDraft Variable := do
  let s ← Build.draft
  Build.onResources do
    Resources.reserveName name
    Resources.newVariable name type (.stage s.kind) kind

/-- Attributes are told apart by their kinds as well, and any kind will do. -/
def declareAttribute (name : String) (type : ValueType) (kind : VariableKind) :
    Build σ StageDraft Variable := do
  expectStage ("attribute `" ++ name ++ "`") .vertex
  let s ← Build.draft
  match s.attributes.find? (·.name == name) with
  | some v => if v.type = type ∧ v.kind = kind then return v else throw (.nameTaken name)
  | none =>
    let v ← newStageVariable name type kind
    Build.change (fun s ↦ { s with attributes := s.attributes ++ [v] })
    return v

def declareOutput (name : String) (type : ValueType) : Build σ StageDraft Variable := do
  expectStage ("fragment output `" ++ name ++ "`") .fragment
  let v ← newStageVariable name type .fragmentOutput
  Build.change (fun s ↦ { s with outputs := s.outputs ++ [v] })
  return v

def declareBuiltin (b : BuiltIn) : Build σ StageDraft Variable := do
  expectStage ("built-in `" ++ b.name ++ "`") b.stage
  let s ← Build.draft
  match s.builtins.find? (·.kind == .builtIn b) with
  | some v => return v
  | none =>
    let v ← newStageVariable b.name b.type (.builtIn b)
    Build.change (fun s ↦ { s with builtins := s.builtins ++ [v] })
    return v

def declareUniform (name : String) (type : ValueType) : Build σ StageDraft Variable :=
  Build.onResources (Resources.declareUniform name type)

def declareInterStage (name : String) (type : ValueType) : Build σ StageDraft Variable :=
  Build.onResources (Resources.declareInterStage name type)

def checkWritable (s : StageDraft) (v : Variable) : Except BuildError Unit :=
  if v.kind.readOnly then .error (.invalidTarget v.name (v.kind.text ++ " is read-only"))
  else if v.kind = .interStage ∧ s.kind ≠ .vertex then
    .error (.invalidTarget v.name
      ("inter-stage values are read-only in the " ++ s.kind.text ++ " stage"))
  else .ok ()

end StageDraft

end ShaderGraph
