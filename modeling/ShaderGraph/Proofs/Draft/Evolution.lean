import ShaderGraph.Draft.Nesting
import ShaderGraph.Proofs.Expr.Known
import ShaderGraph.Proofs.NamePool

/-!
# How drafts evolve

One relation says everything that operations on drafts can do, whether they
succeed or are rejected, on all levels at once: the draft before and after, and
what clients were given before and after. What holds of drafts in all runs is
proved by induction on it, and that operations follow it is proved operation
by operation.
-/

namespace ShaderGraph

inductive Draft where
  | program (p : Program)
  | resources (r : Resources)
  | stage (s : StageDraft)
  | scope (s : ScopeDraft)
  | block (b : BlockDraft)

/-- A variable with a new name and number is made. -/
structure Resources.Makes (r : Resources) (v : Variable) (r' : Resources) : Prop where
  names : r.names.Gives v.name r'.names
  id : v.id = r.variableCount
  eq : r' = { r with names := r'.names, variableCount := r.variableCount + 1 }

namespace StageDraft

def withResources (r : Resources) (s : StageDraft) : StageDraft := { s with resources := r }

def withNames (q : NamePool) (s : StageDraft) : StageDraft :=
  s.withResources { s.resources with names := q }

/-- A new scope of the stage. -/
def opened (kind : RegionKind) (s : StageDraft) : ScopeDraft :=
  ScopeDraft.enter (.nested s.resources.scopeCount) kind
    (s.withResources { s.resources with scopeCount := s.resources.scopeCount + 1 })

/-- The scope of a new function, which sees no regions around it. -/
def openedFunction (result : Option ValueType) (s : StageDraft) : ScopeDraft :=
  { s with frames := [] }.opened (.function result)

/-- The stage after the body of a function has ended. -/
def resumed (body : ScopeDraft) (s : StageDraft) : StageDraft :=
  { body.leave with frames := s.frames }

def addFunction (f : Function) (s : StageDraft) : StageDraft :=
  { s with functions := s.functions ++ [f] }

end StageDraft

namespace ScopeDraft

def withStage (t : StageDraft) (s : ScopeDraft) : ScopeDraft := { s with stage := t }

def withResources (r : Resources) (s : ScopeDraft) : ScopeDraft :=
  s.withStage (s.stage.withResources r)

/-- The scope with a variable that was just made and has no statement. -/
def introduce (v : Variable) (r : Resources) (s : ScopeDraft) : ScopeDraft :=
  (s.withResources r).declare v

def declareAll (vs : List Variable) (s : ScopeDraft) : ScopeDraft :=
  { s with region := { s.region with declared := s.region.declared ++ vs } }

/-- A new block in the scope. -/
def openedBlock (name : String) (q : NamePool) (s : ScopeDraft) : BlockDraft :=
  ⟨(s.stage.withNames q).opened .block, name, s.region.id, ⟨[], []⟩⟩

end ScopeDraft

def BlockDraft.toBlock (name kind : String) (b : BlockDraft) : Block :=
  ⟨name, kind, b.interface.inputs, b.interface.outputs, b.scope.region⟩

/-- The arguments of a function are made one by one at the start of its body. -/
inductive Arguments : List ValueType → Registry → ScopeDraft → List Variable → Registry →
    ScopeDraft → Prop
  | nil {R : Registry} {s : ScopeDraft} : Arguments [] R s [] R s
  | cons {types : List ValueType} {R R' : Registry} {s s' : ScopeDraft} {v : Variable}
      {r : Resources} {vs : List Variable} (hmake : s.stage.resources.Makes v r)
      (hscope : v.scope = s.region.id) (hkind : v.kind = .argument)
      (hrest : Arguments types (R.addVariable v) (s.introduce v r) vs R' s') :
      Arguments (v.type :: types) R s (v :: vs) R' s'

/-- An expression is known and reads only what a scope may use. -/
structure ScopeDraft.Sees (R : Registry) (s : ScopeDraft) (e : Expr) : Prop where
  known : e.Known R
  reads : s.readsCheck e = .ok ()

/-- A statement without regions, other than a declaration, is allowed in a scope. -/
inductive ScopeDraft.Admits (R : Registry) (s : ScopeDraft) : Stmt → Prop
  | assign {target value : Expr} (htarget : target.Known R) (hvalue : value.Known R)
      (hcheck : s.assignCheck target value = .ok ()) : Admits R s (.assign target value)
  | augment {target value : Expr} {op : AugmentOp} (htarget : target.Known R)
      (hvalue : value.Known R) (hcheck : s.augmentCheck target op value = .ok ()) :
      Admits R s (.augment target op value)
  | breakLoop (hloop : s.inLoop = true) : Admits R s .breakLoop
  | continueLoop (hloop : s.inLoop = true) : Admits R s .continueLoop
  | discard (hkind : s.stage.kind = .fragment) : Admits R s .discard
  | leave {value : Option Expr} {result : Option ValueType} (hvalue : ∀ e ∈ value, s.Sees R e)
      (hresult : framesResult? s.stage.frames = some result)
      (hcheck : leaveCheck result value = .ok ()) : Admits R s (.leave value)
  | inline (code : String) : Admits R s (.inline code)
  | invoke {f : Signature} {args : List Expr} (hf : f ∈ R.signatures)
      (hargs : ∀ e ∈ args, s.Sees R e) (hcheck : f.checkArgs (args.map Expr.type) = .ok ()) :
      Admits R s (.invoke f args)

/-! ## The relation -/

/-- A draft and what clients were given evolve by operations, whether these succeed or not. -/
inductive Evolves : Registry → Draft → Registry → Draft → Prop
  | refl (R : Registry) (d : Draft) : Evolves R d R d
  | trans {R R₁ R₂ : Registry} {d d₁ d₂ : Draft} (h₁ : Evolves R d R₁ d₁)
      (h₂ : Evolves R₁ d₁ R₂ d₂) : Evolves R d R₂ d₂
  /-- The name of a body that is given up stays taken. -/
  | name {R : Registry} {r : Resources} {name : String} {q : NamePool}
      (hname : r.names.Gives name q) :
      Evolves R (.resources r) (R.addBody name) (.resources { r with names := q })
  | uniform {R : Registry} {r r' : Resources} {v : Variable} (hmake : r.Makes v r')
      (hscope : v.scope = .program) (hkind : v.kind = .uniform)
      (hnew : ∀ w ∈ r.uniforms, w.name ≠ v.name) :
      Evolves R (.resources r) (R.addVariable v)
        (.resources { r' with uniforms := r'.uniforms ++ [v] })
  | interStage {R : Registry} {r r' : Resources} {v : Variable} (hmake : r.Makes v r')
      (hscope : v.scope = .program) (hkind : v.kind = .interStage)
      (hnew : ∀ w ∈ r.interStage, w.name ≠ v.name) :
      Evolves R (.resources r) (R.addVariable v)
        (.resources { r' with interStage := r'.interStage ++ [v] })
  | armature {R : Registry} {r : Resources} {data : ArmatureData} (hnone : r.armature = none)
      (hjoints : data.joints ∈ r.uniforms) (hname : data.joints.name = ArmatureData.uniformName)
      (htype : data.joints.type = ArmatureData.uniformType data.maxBones) :
      Evolves R (.resources r) R (.resources
        { r with
          armature := some data
          listeners := if data.maxBones = 0 then r.listeners else r.listeners ++ [.armature data] })
  | morphWeights {R : Registry} {r : Resources} {data : MorphWeightData}
      (hnone : r.morphWeights = none)
      (hregisters : ∀ v ∈ [data.weightsA, data.weightsB],
        v ∈ r.uniforms ∧ v.type = MorphWeightData.uniformType)
      (hnames : data.weightsA.name = MorphWeightData.nameA ∧
        data.weightsB.name = MorphWeightData.nameB) :
      Evolves R (.resources r) R (.resources
        { r with
          morphWeights := some data
          listeners := r.listeners ++ [.morphWeights data] })
  | programResources {R R' : Registry} {p : Program} {r : Resources}
      (h : Evolves R (.resources p.resources) R' (.resources r)) :
      Evolves R (.program p) R' (.program { p with resources := r })
  | stageResources {R R' : Registry} {s : StageDraft} {r : Resources}
      (h : Evolves R (.resources s.resources) R' (.resources r)) :
      Evolves R (.stage s) R' (.stage (s.withResources r))
  | scopeStage {R R' : Registry} {s : ScopeDraft} {t : StageDraft}
      (h : Evolves R (.stage s.stage) R' (.stage t)) :
      Evolves R (.scope s) R' (.scope (s.withStage t))
  | blockScope {R R' : Registry} {b : BlockDraft} {s : ScopeDraft}
      (h : Evolves R (.scope b.scope) R' (.scope s)) :
      Evolves R (.block b) R' (.block { b with scope := s })
  | stageAttribute {R : Registry} {s : StageDraft} {v : Variable} {r : Resources}
      (hstage : s.kind = .vertex) (hmake : s.resources.Makes v r)
      (hscope : v.scope = .stage s.kind)
      (hnew : ∀ w ∈ s.attributes, w.name ≠ v.name) :
      Evolves R (.stage s) (R.addVariable v)
        (.stage { s.withResources r with attributes := s.attributes ++ [v] })
  | stageOutput {R : Registry} {s : StageDraft} {v : Variable} {r : Resources}
      (hstage : s.kind = .fragment) (hmake : s.resources.Makes v r)
      (hscope : v.scope = .stage s.kind) (hkind : v.kind = .fragmentOutput) :
      Evolves R (.stage s) (R.addVariable v)
        (.stage { s.withResources r with outputs := s.outputs ++ [v] })
  | stageBuiltin {R : Registry} {s : StageDraft} {v : Variable} {r : Resources} (b : BuiltIn)
      (hstage : s.kind = b.stage) (hmake : s.resources.Makes v r)
      (hscope : v.scope = .stage s.kind) (hkind : v.kind = .builtIn b) (hname : v.name = b.name)
      (htype : v.type = b.type) (hnew : ∀ w ∈ s.builtins, w.kind ≠ .builtIn b) :
      Evolves R (.stage s) (R.addVariable v)
        (.stage { s.withResources r with builtins := s.builtins ++ [v] })
  | function {R R₁ R₂ : Registry} {s : StageDraft} {name : String} {q : NamePool}
      {params : List ValueType} {result : Option ValueType} {args : List Variable}
      {start body : ScopeDraft} {value : Option Expr} (hname : s.resources.names.Gives name q)
      (hargs : Arguments params (R.addBody name) ((s.withNames q).openedFunction result) args R₁
        start) (hbody : Evolves R₁ (.scope start) R₂ (.scope body)) (hend : body.deferred = none)
      (hvalue : ∀ e ∈ value, body.Sees R₂ e)
      (hreturn : StageDraft.returnCheck name result value body.region = .ok ()) :
      Evolves R (.stage s) (R₂.addSignature ⟨name, params, result⟩)
        (.stage ((s.resumed body).addFunction ⟨⟨name, params, result⟩, args, body.region, value⟩))
  | main {R R' : Registry} {s : StageDraft} {body : ScopeDraft} (hnone : s.main = none)
      (hbody : Evolves R (.scope (s.openedFunction none)) R' (.scope body))
      (hend : body.deferred = none) :
      Evolves R (.stage s) R'
        (.stage { s.resumed body with main := some ⟨⟨"main", [], none⟩, [], body.region, none⟩ })
  | abandonedFunction {R R₁ R₂ : Registry} {s : StageDraft} {params : List ValueType}
      {result : Option ValueType} {args : List Variable} {start body : ScopeDraft}
      (hargs : Arguments params R (s.openedFunction result) args R₁ start)
      (hbody : Evolves R₁ (.scope start) R₂ (.scope body)) :
      Evolves R (.stage s) R₂ (.stage (s.resumed body))
  | declare {R : Registry} {s : ScopeDraft} {v : Variable} {r : Resources} {init : Option Expr}
      (hinit : ∀ e ∈ init, s.Sees R e ∧ e.type = v.type) (hmake : s.stage.resources.Makes v r)
      (hscope : v.scope = s.region.id) (hkind : v.kind = .localVar) :
      Evolves R (.scope s) (R.addVariable v) (.scope ((s.introduce v r).push (.declare v init)))
  /-- A variable gets a value that the scope may not use. -/
  | declareUnseen {R : Registry} {s : ScopeDraft} {v : Variable} {r : Resources} {init : Expr}
      {e : BuildError} (hknown : init.Known R) (hcheck : s.readsCheck init = .error e)
      (htype : init.type = v.type) (hmake : s.stage.resources.Makes v r)
      (hscope : v.scope = s.region.id) (hkind : v.kind = .localVar) :
      Evolves R (.scope s) (R.addVariable v)
        (.scope (((s.defer e).introduce v r).push (.declare v (some init))))
  | add {R : Registry} {s : ScopeDraft} {stmt : Stmt} (h : s.Admits R stmt) :
      Evolves R (.scope s) R (.scope (s.push stmt))
  | branch {R R' : Registry} {s body : ScopeDraft} {condition : Expr}
      (hcondition : s.Sees R condition) (htype : TypeClass.bool.accepts condition.type = true)
      (hbody : Evolves R (.scope (s.stage.opened .branch)) R' (.scope body))
      (hend : body.deferred = none) :
      Evolves R (.scope s) R'
        (.scope ((s.withStage body.leave).push (.branch condition body.region .done)))
  | elseIf {R R' : Registry} {s body : ScopeDraft} {condition : Expr}
      (hcondition : s.Sees R condition) (htype : TypeClass.bool.accepts condition.type = true)
      (hbody : Evolves R (.scope (s.stage.opened .branch)) R' (.scope body))
      (hend : body.deferred = none) :
      Evolves R (.scope s) R'
        (.scope ((s.withStage body.leave).extendConditional (.elseIf condition body.region .done)))
  | otherwise {R R' : Registry} {s body : ScopeDraft}
      (hbody : Evolves R (.scope (s.stage.opened .branch)) R' (.scope body))
      (hend : body.deferred = none) :
      Evolves R (.scope s) R'
        (.scope ((s.withStage body.leave).extendConditional (.otherwise body.region)))
  | loopFor {R R' : Registry} {s body : ScopeDraft} {v : Variable} {r : Resources}
      {init condition update : Expr} (hinit : s.Sees R init)
      (hmake : (s.stage.opened .loop).stage.resources.Makes v r)
      (hscope : v.scope = (s.stage.opened .loop).region.id) (hkind : v.kind = .localVar)
      (htype : v.type = init.type)
      (hheader : ∀ e ∈ [condition, update],
        ((s.stage.opened .loop).introduce v r).Sees (R.addVariable v) e)
      (hcondition : condition.type = .bool) (hupdate : update.type = init.type)
      (hbody : Evolves (R.addVariable v) (.scope ((s.stage.opened .loop).introduce v r)) R'
        (.scope body)) (hend : body.deferred = none) :
      Evolves R (.scope s) R'
        (.scope ((s.withStage body.leave).push (.loopFor v init condition update body.region)))
  | loopWhile {R R' : Registry} {s body : ScopeDraft} {condition : Expr}
      (hcondition : s.Sees R condition) (htype : TypeClass.bool.accepts condition.type = true)
      (hbody : Evolves R (.scope (s.stage.opened .loop)) R' (.scope body))
      (hend : body.deferred = none) :
      Evolves R (.scope s) R'
        (.scope ((s.withStage body.leave).push (.loopWhile condition body.region)))
  | block {R R' : Registry} {s : ScopeDraft} {b : BlockDraft} {name kind : String} {q : NamePool}
      (hname : s.stage.resources.names.Gives name q)
      (hbody : Evolves (R.addBody name) (.block (s.openedBlock name q)) R' (.block b))
      (hend : b.scope.deferred = none)
      (houtputs : (b.toBlock name kind).outputsCheck b.interface.outputs = .ok ()) :
      Evolves R (.scope s) R'
        (.scope (((s.withStage b.scope.leave).declareAll
          (b.interface.outputs.map BlockOutput.slot)).push (.block (b.toBlock name kind))))
  | abandoned {R R' : Registry} {s body : ScopeDraft} {kind : RegionKind}
      (hbody : Evolves R (.scope (s.stage.opened kind)) R' (.scope body)) :
      Evolves R (.scope s) R' (.scope (s.withStage body.leave))
  | abandonedLoop {R R' : Registry} {s body : ScopeDraft} {v : Variable} {r : Resources}
      (hmake : (s.stage.opened .loop).stage.resources.Makes v r)
      (hscope : v.scope = (s.stage.opened .loop).region.id) (hkind : v.kind = .localVar)
      (hbody : Evolves (R.addVariable v) (.scope ((s.stage.opened .loop).introduce v r)) R'
        (.scope body)) :
      Evolves R (.scope s) R' (.scope (s.withStage body.leave))
  | abandonedBlock {R R' : Registry} {s : ScopeDraft} {b : BlockDraft} {name : String}
      {q : NamePool} (hname : s.stage.resources.names.Gives name q)
      (hbody : Evolves (R.addBody name) (.block (s.openedBlock name q)) R' (.block b)) :
      Evolves R (.scope s) R' (.scope (s.withStage b.scope.leave))
  | blockInput {R : Registry} {b : BlockDraft} {v : Variable} {r : Resources} {e : Expr}
      {port : String} (hvalue : b.scope.Sees R e) (htype : e.type = v.type)
      (hmake : b.scope.stage.resources.Makes v r) (hname : v.name = b.name ++ "_" ++ port)
      (hscope : v.scope = b.scope.region.id) (hkind : v.kind = .blockInput) :
      Evolves R (.block b) (R.addVariable v) (.block
        { b with
          scope := b.scope.introduce v r
          interface := { b.interface with inputs := b.interface.inputs ++ [⟨port, v, e⟩] } })
  | blockOutput {R : Registry} {b : BlockDraft} {v : Variable} {r : Resources} {port : String}
      (hmake : b.scope.stage.resources.Makes v r) (hname : v.name = b.name ++ "_" ++ port)
      (hscope : v.scope = b.parent) (hkind : v.kind = .blockOutput) :
      Evolves R (.block b) (R.addVariable v) (.block
        { b with
          scope := b.scope.withResources r
          interface := { b.interface with outputs := b.interface.outputs ++ [⟨port, v⟩] } })
  | finished {R R' : Registry} {p : Program} {kind : StageKind} {s : StageDraft}
      (hnone : p.stage? kind = none)
      (h : Evolves R (.stage (.start kind p.resources)) R' (.stage s)) :
      Evolves R (.program p) R'
        (.program ({ p with resources := s.resources }.setStage s.finish))
  | abandonedStage {R R' : Registry} {p : Program} {kind : StageKind} {s : StageDraft}
      (hnone : p.stage? kind = none)
      (h : Evolves R (.stage (.start kind p.resources)) R' (.stage s)) :
      Evolves R (.program p) R' (.program { p with resources := s.resources })

end ShaderGraph
