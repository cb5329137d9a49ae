import ShaderGraph.Proofs.Draft.Preservation

/-!
# Accepted statements

Every form of statement has a check of its own, made with the regions around
the place where it is to stand. A statement is accepted there if it has passed
that check. Nothing is checked again when scopes end and functions and stages
are finished, and nothing has to be: all statements of a finished stage, at any
depth, are accepted where they stand.
-/

namespace ShaderGraph

def Region.frame (r : Region) : Frame := ⟨r.id, r.kind⟩

/-- A variable may be assigned to in a stage. -/
def Variable.Writable (k : StageKind) (v : Variable) : Prop :=
  v.kind.readOnly = false ∧ (v.kind = .interStage → k = .vertex)

/-- An expression is known and is a truth value. -/
def Expr.Decides (R : Registry) (e : Expr) : Prop := e.Known R ∧ e.type = .bool

/-- What the check of a statement says that stands in a stage, within regions. -/
inductive Stmt.Accepted (R : Registry) (k : StageKind) (frames : List Frame) : Stmt → Prop
  | declare {v : Variable} {init : Option Expr}
      (hinit : ∀ e ∈ init, e.Known R ∧ e.type = v.type) : Accepted R k frames (.declare v init)
  | assign {target value : Expr} (htarget : target.Known R) (hvalue : value.Known R)
      (hroot : ∃ v, target.root? = some v ∧ v.Writable k) (htype : target.type = value.type) :
      Accepted R k frames (.assign target value)
  | augment {target value : Expr} {op : AugmentOp} (htarget : target.Known R)
      (hvalue : value.Known R) (hroot : ∃ v, target.root? = some v ∧ v.Writable k)
      (htype : op.binary.resultType target.type value.type = .ok target.type) :
      Accepted R k frames (.augment target op value)
  | branch {condition : Expr} {body : Region} {otherwise : ElseChain}
      (hconditions : ∀ e ∈ condition :: otherwise.conditions, e.Decides R)
      (hkind : ∀ r ∈ body :: otherwise.regions, r.kind = .branch) :
      Accepted R k frames (.branch condition body otherwise)
  | loopFor {v : Variable} {init condition update : Expr} {body : Region}
      (hinit : init.Known R ∧ init.type = v.type) (hcondition : condition.Decides R)
      (hupdate : update.Known R ∧ update.type = v.type) (hkind : body.kind = .loop) :
      Accepted R k frames (.loopFor v init condition update body)
  | loopWhile {condition : Expr} {body : Region} (hcondition : condition.Decides R)
      (hkind : body.kind = .loop) : Accepted R k frames (.loopWhile condition body)
  | breakLoop (hloop : ScopeDraft.framesInLoop frames = true) : Accepted R k frames .breakLoop
  | continueLoop (hloop : ScopeDraft.framesInLoop frames = true) :
      Accepted R k frames .continueLoop
  | discard (hstage : k = .fragment) : Accepted R k frames .discard
  | leave {value : Option Expr} {result : Option ValueType} (hvalue : ∀ e ∈ value, e.Known R)
      (hresult : ScopeDraft.framesResult? frames = some result)
      (hcheck : ScopeDraft.leaveCheck result value = .ok ()) : Accepted R k frames (.leave value)
  | inline (code : String) : Accepted R k frames (.inline code)
  | block {b : Block} (hinputs : ∀ i ∈ b.inputs, i.value.Known R ∧ i.value.type = i.slot.type)
      (hkind : b.body.kind = .block) : Accepted R k frames (.block b)
  | invoke {f : Signature} {args : List Expr} (hf : f ∈ R.signatures)
      (hargs : ∀ e ∈ args, e.Known R) (hcheck : f.checkArgs (args.map Expr.type) = .ok ()) :
      Accepted R k frames (.invoke f args)

/-- Statements stand within regions, and all of them and all that are nested in them are accepted
where they stand. -/
inductive Accepted (R : Registry) (k : StageKind) : List Frame → List Stmt → Prop
  | intro {frames : List Frame} {ss : List Stmt} (own : ∀ s ∈ ss, s.Accepted R k frames)
      (inside : ∀ s ∈ ss, ∀ r ∈ s.regions, Accepted R k (r.frame :: frames) r.statements) :
      Accepted R k frames ss

/-- The statements of a function are accepted, and so is the value that it returns. -/
structure Function.Accepted (R : Registry) (k : StageKind) (f : Function) : Prop where
  kind : f.body.kind = .function f.signature.result
  body : ShaderGraph.Accepted R k [f.body.frame] f.body.statements
  result : ∀ e ∈ f.result, e.Known R
  returned : StageDraft.returnCheck f.signature.name f.signature.result f.result f.body = .ok ()

structure Stage.Accepted (R : Registry) (s : Stage) : Prop where
  functions : ∀ f ∈ s.functions, f.Accepted R s.kind
  main : ∀ f ∈ s.main, f.Accepted R s.kind ∧ f.signature.result = none

structure ScopeDraft.Accepted (R : Registry) (s : ScopeDraft) : Prop where
  stage : s.stage.finish.Accepted R
  statements : ShaderGraph.Accepted R s.stage.kind s.stage.frames s.region.statements

structure BlockDraft.Accepted (R : Registry) (b : BlockDraft) : Prop where
  scope : b.scope.Accepted R
  inputs : ∀ i ∈ b.interface.inputs, i.value.Known R ∧ i.value.type = i.slot.type

def Draft.Accepted (R : Registry) : Draft → Prop
  | .program p => ∀ s ∈ p.stages, s.Accepted R
  | .resources _ => True
  | .stage s => s.finish.Accepted R
  | .scope s => s.Accepted R
  | .block b => b.Accepted R

variable {R R' : Registry} {k : StageKind} {frames : List Frame}

theorem StageDraft.checkWritable_eq_ok {s : StageDraft} {v : Variable} :
    s.checkWritable v = .ok () ↔ v.Writable s.kind := by
  unfold StageDraft.checkWritable Variable.Writable
  split
  · simp_all
  · split <;> simp_all

theorem TypeClass.bool_accepts_iff {t : ValueType} :
    TypeClass.bool.accepts t = true ↔ t = .bool := by
  constructor
  · intro h
    obtain ⟨prim, length⟩ := t
    cases length with
    | some n => cases h
    | none =>
      cases prim with
      | vector kind dim => cases kind <;> cases dim <;> first | rfl | cases h
      | _ => cases h
  · rintro rfl
    rfl

namespace Stmt.Accepted

variable {s : Stmt}

theorem mono (h : s.Accepted R k frames) (hR : R ≤ R') : s.Accepted R' k frames := by
  have hdecides {e : Expr} (he : e.Decides R) : e.Decides R' := he.imp_left (Expr.Known.mono · hR)
  cases h with
  | declare hinit => exact .declare fun e he ↦ (hinit e he).imp_left (Expr.Known.mono · hR)
  | assign htarget hvalue hroot htype =>
    exact .assign (htarget.mono hR) (hvalue.mono hR) hroot htype
  | augment htarget hvalue hroot htype =>
    exact .augment (htarget.mono hR) (hvalue.mono hR) hroot htype
  | branch hconditions hkind => exact .branch (fun e he ↦ hdecides (hconditions e he)) hkind
  | loopFor hinit hcondition hupdate hkind =>
    exact .loopFor (hinit.imp_left (Expr.Known.mono · hR)) (hdecides hcondition)
      (hupdate.imp_left (Expr.Known.mono · hR)) hkind
  | loopWhile hcondition hkind => exact .loopWhile (hdecides hcondition) hkind
  | breakLoop hloop => exact .breakLoop hloop
  | continueLoop hloop => exact .continueLoop hloop
  | discard hstage => exact .discard hstage
  | leave hvalue hresult hcheck =>
    exact .leave (fun e he ↦ (hvalue e he).mono hR) hresult hcheck
  | inline code => exact .inline code
  | block hinputs hkind =>
    exact .block (fun i hi ↦ (hinputs i hi).imp_left (Expr.Known.mono · hR)) hkind
  | invoke hf hargs hcheck =>
    exact .invoke (Registry.mem_signatures hR hf) (fun e he ↦ (hargs e he).mono hR) hcheck

theorem of_admits {d : ScopeDraft} (h : d.Admits R s) :
    s.Accepted R d.stage.kind d.stage.frames := by
  have hwritable {target : Expr} (hcheck : d.targetCheck target = .ok ()) :
      ∃ v, target.root? = some v ∧ v.Writable d.stage.kind := by
    obtain ⟨⟨v, hroot, hv⟩, -⟩ := ScopeDraft.root_of_targetCheck hcheck
    exact ⟨v, hroot, StageDraft.checkWritable_eq_ok.mp hv⟩
  cases h with
  | assign htarget hvalue hcheck =>
    obtain ⟨hcheck, htype, -⟩ := ScopeDraft.assignCheck_eq_ok.mp hcheck
    exact .assign htarget hvalue (hwritable hcheck) htype
  | augment htarget hvalue hcheck =>
    obtain ⟨hcheck, htype, -⟩ := ScopeDraft.augmentCheck_eq_ok.mp hcheck
    exact .augment htarget hvalue (hwritable hcheck) htype
  | breakLoop hloop => exact .breakLoop hloop
  | continueLoop hloop => exact .continueLoop hloop
  | discard hkind => exact .discard hkind
  | leave hvalue hresult hcheck => exact .leave (fun e he ↦ (hvalue e he).known) hresult hcheck
  | inline code => exact .inline code
  | invoke hf hargs hcheck => exact .invoke hf (fun e he ↦ (hargs e he).known) hcheck

/-- Only functions have bodies that are regions of functions. -/
theorem framesResult?_inside (h : s.Accepted R k frames) {r : Region} (hr : r ∈ s.regions) :
    ScopeDraft.framesResult? (r.frame :: frames) = ScopeDraft.framesResult? frames := by
  have hkind : r.kind = .branch ∨ r.kind = .loop ∨ r.kind = .block := by
    cases h with
    | branch _ hkind => exact .inl (hkind r hr)
    | loopFor _ _ _ hkind | loopWhile _ hkind =>
      exact .inr (.inl (List.mem_singleton.mp hr ▸ hkind))
    | block _ hkind => exact .inr (.inr (List.mem_singleton.mp hr ▸ hkind))
    | _ => cases hr
  rcases hkind with hkind | hkind | hkind <;>
    simp [Region.frame, ScopeDraft.framesResult?, hkind]

/-- A conditional that goes on is accepted if its old part is and the new one fits. -/
theorem append {condition : Expr} {first : Region} {rest tail : ElseChain}
    (h : (Stmt.branch condition first rest).Accepted R k frames)
    (hconditions : ∀ e ∈ tail.conditions, e.Decides R)
    (hkind : ∀ r ∈ tail.regions, r.kind = .branch) :
    (Stmt.branch condition first (rest.append tail)).Accepted R k frames := by
  cases h with
  | branch hold hfirst =>
    have hkind' : ∀ r ∈ (Stmt.branch condition first (rest.append tail)).regions,
        r.kind = .branch := fun r hr ↦ (mem_regions_append hr).elim (hfirst r) (hkind r)
    refine .branch (fun e he ↦ ?_) hkind'
    rcases List.mem_cons.mp he with rfl | he
    · exact hold e List.mem_cons_self
    · rcases ElseChain.mem_conditions_append he with he | he
      · exact hold e (List.mem_cons_of_mem condition he)
      · exact hconditions e he

end Stmt.Accepted

namespace Accepted

variable {ss : List Stmt}

theorem mono (h : Accepted R k frames ss) (hR : R ≤ R') : Accepted R' k frames ss := by
  induction h with
  | intro own _ ih => exact .intro (fun s hs ↦ (own s hs).mono hR) ih

theorem nil : Accepted R k frames [] := .intro (fun s hs ↦ by cases hs) fun s hs ↦ by cases hs

theorem own (h : Accepted R k frames ss) {s : Stmt} (hs : s ∈ ss) : s.Accepted R k frames := by
  cases h with
  | intro own _ => exact own s hs

theorem inside (h : Accepted R k frames ss) {s : Stmt} (hs : s ∈ ss) {r : Region}
    (hr : r ∈ s.regions) : Accepted R k (r.frame :: frames) r.statements := by
  cases h with
  | intro _ inside => exact inside s hs r hr

/-- Accepted statements are replaced by others, whose regions are from these but for one body. -/
theorem replace {ss' : List Stmt} {body : Region} (h : Accepted R k frames ss)
    (hbody : Accepted R k (body.frame :: frames) body.statements)
    (hown : ∀ s ∈ ss', s.Accepted R k frames)
    (hregions : ∀ s ∈ ss', ∀ r ∈ s.regions, r = body ∨ ∃ t ∈ ss, r ∈ t.regions) :
    Accepted R k frames ss' := by
  refine .intro hown fun s hs r hr ↦ ?_
  rcases hregions s hs r hr with rfl | ⟨t, ht, hr⟩
  · exact hbody
  · exact h.inside ht hr

theorem concat {s : Stmt} (h : Accepted R k frames ss) (hs : s.Accepted R k frames)
    (hregions : ∀ r ∈ s.regions, Accepted R k (r.frame :: frames) r.statements) :
    Accepted R k frames (ss ++ [s]) := by
  refine .intro (fun t ht ↦ ?_) fun t ht r hr ↦ ?_
  · rcases List.mem_append.mp ht with ht | ht
    · exact h.own ht
    · exact List.mem_singleton.mp ht ▸ hs
  · rcases List.mem_append.mp ht with ht | ht
    · exact h.inside ht hr
    · exact hregions r (List.mem_singleton.mp ht ▸ hr)

/-- A nested statement is accepted where it stands, within a function that returns what the
function around the others does. -/
theorem of_nested {path : List ScopeId} {t : Stmt} (h : Accepted R k frames ss)
    (ht : Nested ss path t) : ∃ frames', t.Accepted R k frames' ∧
      ScopeDraft.framesResult? frames' = ScopeDraft.framesResult? frames := by
  induction ht generalizing frames with
  | here hs => exact ⟨frames, h.own hs, rfl⟩
  | inside hs hbody _ ih =>
    obtain ⟨frames', haccepted, hresult⟩ := ih (h.inside hs hbody)
    -- The regions passed on the way down are no functions, so that the innermost function stays.
    exact ⟨frames', haccepted, hresult.trans ((h.own hs).framesResult?_inside hbody)⟩

end Accepted

theorem Function.Accepted.mono {f : Function} (h : f.Accepted R k) (hR : R ≤ R') :
    f.Accepted R' k where
  kind := h.kind
  body := h.body.mono hR
  result e he := (h.result e he).mono hR
  returned := h.returned

theorem Stage.Accepted.mono {s : Stage} (h : s.Accepted R) (hR : R ≤ R') : s.Accepted R' where
  functions f hf := (h.functions f hf).mono hR
  main f hf := (h.main f hf).imp_left (Function.Accepted.mono · hR)

namespace StageDraft

variable {s : StageDraft}

theorem accepted_start (kind : StageKind) (r : Resources) : (start kind r).finish.Accepted R where
  functions _ hf := (List.not_mem_nil hf).elim
  main f hf := (Option.not_mem_none f hf).elim

theorem accepted_addFunction (h : s.finish.Accepted R) {f : Function} (hf : f.Accepted R s.kind) :
    (s.addFunction f).finish.Accepted R where
  functions g hg := by
    rcases List.mem_append.mp hg with hg | hg
    · exact h.functions g hg
    · exact List.mem_singleton.mp hg ▸ hf
  main := h.main

theorem accepted_setMain (h : s.finish.Accepted R) {f : Function} (hf : f.Accepted R s.kind)
    (hresult : f.signature.result = none) :
    (StageDraft.finish { s with main := some f }).Accepted R where
  functions := h.functions
  main _ hg := Option.some.inj hg ▸ ⟨hf, hresult⟩

end StageDraft

namespace ScopeDraft.Accepted

variable {s body : ScopeDraft}

theorem mono (h : s.Accepted R) (hR : R ≤ R') : s.Accepted R' :=
  ⟨h.stage.mono hR, h.statements.mono hR⟩

theorem withStage (h : s.Accepted R) {t : StageDraft} (ht : t.finish.Accepted R')
    (hext : s.stage.Extends t) (hR : R ≤ R') : (s.withStage t).Accepted R' where
  stage := ht
  statements := by
    have hstatements := h.statements.mono hR
    rw [← hext.kind, ← hext.frames] at hstatements
    exact hstatements

theorem introduce (h : s.Accepted R) (v : Variable) (r : Resources) :
    (s.introduce v r).Accepted (R.addVariable v) :=
  ⟨h.stage.mono (Registry.le_addVariable R v), h.statements.mono (Registry.le_addVariable R v)⟩

theorem defer (h : s.Accepted R) (e : BuildError) : (s.defer e).Accepted R :=
  ⟨h.stage, h.statements⟩

theorem push (h : s.Accepted R) {stmt : Stmt}
    (hstmt : stmt.Accepted R s.stage.kind s.stage.frames)
    (hregions : ∀ r ∈ stmt.regions,
      ShaderGraph.Accepted R s.stage.kind (r.frame :: s.stage.frames) r.statements) :
    (s.push stmt).Accepted R :=
  ⟨h.stage, h.statements.concat hstmt hregions⟩

theorem opened {t : StageDraft} (h : t.finish.Accepted R) (kind : RegionKind) :
    (t.opened kind).Accepted R :=
  ⟨h, .nil⟩

theorem openedFunction {t : StageDraft} (h : t.finish.Accepted R) (result : Option ValueType) :
    (t.openedFunction result).Accepted R :=
  ⟨h, .nil⟩

/-- What is built in a new scope is accepted within the regions around it and its own. -/
theorem inside {t : StageDraft} {kind : RegionKind} (h : body.Accepted R)
    (hext : (t.opened kind).Extends body) :
    ShaderGraph.Accepted R t.kind (body.region.frame :: t.frames) body.region.statements := by
  have hframe : body.stage.frames = body.region.frame :: t.frames := by
    rw [hext.stage.frames, Region.frame, hext.id, hext.kind]
    rfl
  have hkind : body.stage.kind = t.kind := hext.stage.kind
  rw [← hframe, ← hkind]
  exact h.statements

theorem resume {kind : RegionKind} (h : s.Accepted R) (hbody : body.Accepted R')
    (hext : (s.stage.opened kind).Extends body) (hR : R ≤ R') :
    (s.withStage body.leave).Accepted R' :=
  h.withStage hbody.stage (.leave hext) hR

/-- A scope gets a statement with one body. -/
theorem pushBody {kind : RegionKind} {stmt : Stmt} (h : s.Accepted R) (hbody : body.Accepted R')
    (hext : (s.stage.opened kind).Extends body) (hR : R ≤ R')
    (hstmt : stmt.Accepted R' s.stage.kind s.stage.frames)
    (hregions : stmt.regions = [body.region]) :
    ((s.withStage body.leave).push stmt).Accepted R' := by
  have hleave : s.stage.Extends body.leave := .leave hext
  have hinside := hbody.inside hext
  rw [← hleave.kind, ← hleave.frames] at hstmt hinside
  refine (h.resume hbody hext hR).push hstmt fun r hr ↦ ?_
  rw [hregions, List.mem_singleton] at hr
  exact hr ▸ hinside

/-- The conditional that a scope ends with gets another branch. -/
theorem extendConditional {tail : ElseChain} (h : s.Accepted R) (hbody : body.Accepted R')
    (hext : (s.stage.opened .branch).Extends body) (hR : R ≤ R')
    (hconditions : ∀ e ∈ tail.conditions, e.Decides R') (hregions : tail.regions = [body.region]) :
    ((s.withStage body.leave).extendConditional tail).Accepted R' := by
  have hresumed := h.resume hbody hext hR
  have hleave : s.stage.Extends body.leave := .leave hext
  have hinside := hbody.inside hext
  rw [← hleave.kind, ← hleave.frames] at hinside
  unfold ScopeDraft.extendConditional
  split
  case h_2 => exact hresumed
  case h_1 condition first rest hlast =>
    have hkind : ∀ r ∈ tail.regions, r.kind = .branch := fun r hr ↦ by
      rw [hregions, List.mem_singleton] at hr
      exact hr ▸ hext.kind
    refine ⟨hresumed.stage, hresumed.statements.replace hinside (fun x hx ↦ ?_) fun x hx r hr ↦
      Stmt.regions_of_extended hlast hregions hx hr⟩
    rcases List.mem_append.mp hx with hx | hx
    · exact hresumed.statements.own ((List.dropLast_sublist _).mem hx)
    · rw [List.mem_singleton.mp hx]
      exact (hresumed.statements.own (List.mem_of_getLast? hlast)).append hconditions hkind

end ScopeDraft.Accepted

theorem BlockDraft.accepted_opened {s : ScopeDraft} (h : s.Accepted R) (name : String)
    (q : NamePool) : (s.openedBlock name q).Accepted (R.addBody name) :=
  ⟨⟨h.stage.mono (Registry.le_addBody R name), .nil⟩, fun i hi ↦ by cases hi⟩

theorem Arguments.accepted {types : List ValueType} {s s' : ScopeDraft} {vs : List Variable}
    (h : Arguments types R s vs R' s') (hs : s.Accepted R) : s'.Accepted R' := by
  induction h with
  | nil => exact hs
  | cons _ _ _ _ ih => exact ih (hs.introduce _ _)

/-- What was built for the body of a function makes an accepted function. -/
theorem StageDraft.accepted_function {s : StageDraft} {result : Option ValueType}
    {body : ScopeDraft} {value : Option Expr} (hbody : body.Accepted R)
    (hext : (s.openedFunction result).Extends body) (hvalue : ∀ e ∈ value, e.Known R)
    {name : String} (hreturn : returnCheck name result value body.region = .ok ())
    (params : List ValueType) (args : List Variable) :
    Function.Accepted R s.kind ⟨⟨name, params, result⟩, args, body.region, value⟩ where
  kind := hext.kind
  body := hbody.inside hext
  result := hvalue
  returned := hreturn

/-! ## All operations -/

/-- Whatever is done, the statements of a draft and of the functions in it are accepted. -/
theorem Evolves.accepted {d d' : Draft} (h : Evolves R d R' d') (hd : d.Accepted R) :
    d'.Accepted R' := by
  induction h with
  | refl => exact hd
  | trans _ _ ih₁ ih₂ => exact ih₂ (ih₁ hd)
  | name | uniform | interStage | armature | morphWeights => trivial
  | programResources h => exact fun s hs ↦ (hd s hs).mono h.extends.1
  | stageResources h => exact Stage.Accepted.mono hd h.extends.1
  | scopeStage h ih => exact hd.withStage (ih hd.stage) h.extends.2 h.extends.1
  | blockScope h ih =>
    exact ⟨ih hd.scope, fun i hi ↦ (hd.inputs i hi).imp_left (Expr.Known.mono · h.extends.1)⟩
  | @stageAttribute R s v | @stageOutput R s v | @stageBuiltin R s v =>
    have hstage := Stage.Accepted.mono hd (Registry.le_addVariable R v)
    exact ⟨hstage.functions, hstage.main⟩
  | @function R _ _ s name q _ _ _ _ _ _ _ hargs hbody _ hvalue hreturn ih =>
    -- The name was taken first, which is not seen in the functions of the stage.
    have hnamed : (s.withNames q).finish.Accepted (R.addBody name) :=
      Stage.Accepted.mono hd (Registry.le_addBody R name)
    have hbody' := ih (hargs.accepted (.openedFunction hnamed _))
    have hext := hargs.extends.2.trans hbody.extends.2
    have hfunction := StageDraft.accepted_function hbody' hext (fun e he ↦ (hvalue e he).known)
      hreturn
    rw [← (StageDraft.Extends.resumed hext).kind] at hfunction
    exact (StageDraft.accepted_addFunction hbody'.stage (hfunction _ _)).mono
      (Registry.le_addSignature _ _)
  | @main _ R' _ body _ hbody _ ih =>
    have hbody' := ih (.openedFunction hd _)
    have hnone : ∀ e ∈ (none : Option Expr), e.Known R' := fun e he ↦ by cases he
    have hreturn : StageDraft.returnCheck "main" none none body.region = .ok () := rfl
    have hmain := StageDraft.accepted_function hbody' hbody.extends.2 hnone hreturn [] []
    rw [← (StageDraft.Extends.resumed hbody.extends.2).kind] at hmain
    exact StageDraft.accepted_setMain hbody'.stage hmain rfl
  | abandonedFunction hargs _ ih => exact (ih (hargs.accepted (.openedFunction hd _))).stage
  | declare hinit =>
    refine (hd.introduce _ _).push (.declare fun e he ↦ ?_) fun r hr ↦ by cases hr
    exact ⟨(hinit e he).1.known.mono (Registry.le_addVariable _ _), (hinit e he).2⟩
  | declareUnseen hknown _ htype =>
    refine ((hd.defer _).introduce _ _).push (.declare fun e he ↦ ?_) fun r hr ↦ by cases hr
    obtain rfl := Option.some.inj he
    exact ⟨hknown.mono (Registry.le_addVariable _ _), htype⟩
  | add h =>
    refine hd.push (.of_admits h) fun r hr ↦ ?_
    cases h <;> cases hr
  | branch hcondition htype hbody _ ih =>
    have hR := hbody.extends.1
    refine hd.pushBody (ih (.opened hd.stage _)) hbody.extends.2 hR (.branch (fun e he ↦ ?_)
      fun r hr ↦ ?_) rfl
    · obtain rfl := List.mem_singleton.mp he
      exact ⟨hcondition.known.mono hR, TypeClass.bool_accepts_iff.mp htype⟩
    · exact List.mem_singleton.mp hr ▸ hbody.extends.2.kind
  | elseIf hcondition htype hbody _ ih =>
    have hR := hbody.extends.1
    refine hd.extendConditional (ih (.opened hd.stage _)) hbody.extends.2 hR (fun e he ↦ ?_) rfl
    obtain rfl := List.mem_singleton.mp he
    exact ⟨hcondition.known.mono hR, TypeClass.bool_accepts_iff.mp htype⟩
  | otherwise hbody _ ih =>
    exact hd.extendConditional (ih (.opened hd.stage _)) hbody.extends.2 hbody.extends.1
      (fun e he ↦ by cases he) rfl
  | @loopFor R _ _ _ v _ _ _ _ hinit hmake _ _ htype hheader hcondition hupdate hbody _ ih =>
    have hext := (ScopeDraft.Extends.introduce hmake).trans hbody.extends.2
    have hvariable := Registry.le_addVariable R v
    have hR := hbody.extends.1
    have hopened := ScopeDraft.Accepted.opened hd.stage .loop
    refine hd.pushBody (ih (hopened.introduce _ _)) hext (hvariable.trans hR) (.loopFor ?_ ?_ ?_
      hext.kind) rfl
    · exact ⟨hinit.known.mono (hvariable.trans hR), htype.symm⟩
    · exact ⟨(hheader _ (by simp)).known.mono hR, hcondition⟩
    · exact ⟨(hheader _ (by simp)).known.mono hR, hupdate.trans htype.symm⟩
  | loopWhile hcondition htype hbody _ ih =>
    have hR := hbody.extends.1
    exact hd.pushBody (ih (.opened hd.stage _)) hbody.extends.2 hR (.loopWhile
      ⟨hcondition.known.mono hR, TypeClass.bool_accepts_iff.mp htype⟩ hbody.extends.2.kind) rfl
  | @block R R' s b name kind q _ hbody _ _ ih =>
    have hb := ih (BlockDraft.accepted_opened hd _ _)
    have hext := hbody.extends.2.scope
    have hR := Registry.le_addBody R name
    have hstart : (s.withStage (s.stage.withNames q)).Accepted (R.addBody name) :=
      hd.withStage (hd.stage.mono hR) (.names _ _) hR
    have hblock : (Stmt.block (b.toBlock name kind)).Accepted R' s.stage.kind s.stage.frames :=
      .block hb.inputs hext.kind
    have hpushed := hstart.pushBody hb.scope hext hbody.extends.1 hblock rfl
    -- That the scope declares the outputs as well is nothing that was checked.
    exact ⟨hpushed.stage, hpushed.statements⟩
  | abandoned hbody ih =>
    exact hd.resume (ih (.opened hd.stage _)) hbody.extends.2 hbody.extends.1
  | abandonedLoop hmake _ _ hbody ih =>
    have hext := (ScopeDraft.Extends.introduce hmake).trans hbody.extends.2
    have hopened := ScopeDraft.Accepted.opened hd.stage .loop
    exact hd.resume (ih (hopened.introduce _ _)) hext
      ((Registry.le_addVariable _ _).trans hbody.extends.1)
  | @abandonedBlock R _ s _ name q _ hbody ih =>
    have hb := ih (BlockDraft.accepted_opened hd _ _)
    have hR := Registry.le_addBody R name
    have hstart : (s.withStage (s.stage.withNames q)).Accepted (R.addBody name) :=
      hd.withStage (hd.stage.mono hR) (.names _ _) hR
    have hresumed := hstart.resume hb.scope hbody.extends.2.scope hbody.extends.1
    exact ⟨hresumed.stage, hresumed.statements⟩
  | @blockInput R _ v _ _ _ hvalue htype =>
    have hR := Registry.le_addVariable R v
    refine ⟨hd.scope.introduce _ _, fun i hi ↦ ?_⟩
    rcases List.mem_append.mp hi with hi | hi
    · exact (hd.inputs i hi).imp_left (Expr.Known.mono · hR)
    · exact List.mem_singleton.mp hi ▸ ⟨hvalue.known.mono hR, htype⟩
  | @blockOutput R _ v =>
    have hR := Registry.le_addVariable R v
    have hscope := hd.scope.mono hR
    exact ⟨⟨hscope.stage, hscope.statements⟩,
      fun i hi ↦ (hd.inputs i hi).imp_left (Expr.Known.mono · hR)⟩
  | finished _ h ih =>
    have hstage := ih (StageDraft.accepted_start _ _)
    intro t ht
    rcases Program.mem_stages_setStage ht with rfl | ht
    · exact hstage
    · exact (hd t ht).mono h.extends.1
  | abandonedStage _ h => exact fun s hs ↦ (hd s hs).mono h.extends.1

end ShaderGraph
