import ShaderGraph.Draft

/-!
# Declaring shared resources

Names, numbers of variables and scopes, uniforms, inter-stage values and data
blocks. Declaring what is there already gives it back.
-/

namespace ShaderGraph

namespace Resources

variable {σ : Type}

def freshName (stem : String) : Build σ Resources String := fun (r, c) ↦
  let (name, names) := r.names.next stem
  .ok name ({ r with names := names }, c)

def reserveName (name : String) : Build σ Resources Unit := fun (r, c) ↦
  match r.names.reserve name with
  | .ok names => .ok () ({ r with names := names }, c)
  | .error e => .error e (r, c)

def takeName (wanted : Option String) (stem : String) : Build σ Resources String :=
  match wanted with
  | some name => do
    reserveName name
    return name
  | none => freshName stem

def newVariable (name : String) (type : ValueType) (scope : ScopeId) (kind : VariableKind) :
    Build σ Resources Variable := fun (r, c) ↦
  .ok ⟨r.variableCount, name, type, scope, kind⟩
    ({ r with variableCount := r.variableCount + 1 }, c)

/-- Takes the next scope number. A scope that is given up later does not give it back. -/
def newScope : Build σ Resources ScopeId := fun (r, c) ↦
  .ok (.nested r.scopeCount) ({ r with scopeCount := r.scopeCount + 1 }, c)

/-- The variable of a name among those given, which has to have the type; a new one of the
program if there is none. -/
def lookupOrDeclare (known : List Variable) (add : Variable → Resources → Resources)
    (kind : VariableKind) (name : String) (type : ValueType) : Build σ Resources Variable :=
  match known.find? (·.name == name) with
  | some v => if v.type = type then pure v else throw (.nameTaken name)
  | none => do
    reserveName name
    let v ← newVariable name type .program kind
    Build.change (add v)
    return v

def declareUniform (name : String) (type : ValueType) : Build σ Resources Variable := do
  let r ← Build.draft
  lookupOrDeclare r.uniforms (fun v r ↦ { r with uniforms := r.uniforms ++ [v] }) .uniform name type

def declareInterStage (name : String) (type : ValueType) : Build σ Resources Variable := do
  let r ← Build.draft
  lookupOrDeclare r.interStage (fun v r ↦ { r with interStage := r.interStage ++ [v] }) .interStage
    name type

/-- The armature data block, which has to have room for a number of bones. A new one has room
for just that many, and needs no feeding if that is none. -/
def declareArmature (maxBones : Nat) : Build σ Resources ArmatureData := do
  let r ← Build.draft
  match r.armature with
  | some data =>
    if data.maxBones < maxBones then
      throw (.capacityExceeded "armature joint transforms" maxBones data.maxBones)
    return data
  | none =>
    let joints ← declareUniform ArmatureData.uniformName (ArmatureData.uniformType maxBones)
    let data : ArmatureData := ⟨maxBones, joints⟩
    Build.change (fun r ↦
      { r with
        armature := some data
        listeners := if maxBones = 0 then r.listeners else r.listeners ++ [.armature data] })
    return data

def declareMorphWeights : Build σ Resources MorphWeightData := do
  let r ← Build.draft
  match r.morphWeights with
  | some data => return data
  | none =>
    let a ← declareUniform MorphWeightData.nameA MorphWeightData.uniformType
    let b ← declareUniform MorphWeightData.nameB MorphWeightData.uniformType
    let data : MorphWeightData := ⟨a, b⟩
    Build.change (fun r ↦
      { r with
        morphWeights := some data
        listeners := r.listeners ++ [.morphWeights data] })
    return data

/-- The data block of a kind. An armature that is new then has the usual number of bones. -/
def declareData (kind : DataKind) : Build σ Resources DataBlock := do
  let r ← Build.draft
  match r.dataBlock? kind, kind with
  | some data, _ => return data
  | none, .armature => return .armature (← declareArmature ArmatureData.defaultBones)
  | none, .morphWeights => return .morphWeights (← declareMorphWeights)

end Resources

end ShaderGraph
