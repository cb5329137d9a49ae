import ShaderGraph.Proofs.Draft.Yielding
import ShaderGraph.Proofs.Region.Effects

/-!
# Statements that are not rejected

A place is where a scope stands: its stage and the regions around it. What is
seen from a place does not change while a scope there is built, so it can be
settled beforehand which expressions may be used and which variables may be
assigned to. Statements of such expressions pass all checks.
-/

namespace ShaderGraph

variable {σ α : Type} {E : BuildError → Prop} {bones m : Nat}

structure Place where
  stage : StageKind
  frame : Frame
  around : List Frame

namespace Place

def frames (p : Place) : List Frame := p.frame :: p.around

/-- The place of a region in a scope. -/
def enter (id : ScopeId) (kind : RegionKind) (p : Place) : Place := ⟨p.stage, ⟨id, kind⟩, p.frames⟩

def sees (p : Place) (v : Variable) : Bool :=
  v.scope == .program || v.scope == .stage p.stage || p.frames.any (·.id == v.scope)

variable {p : Place} {v : Variable} {id : ScopeId} {kind : RegionKind}

theorem sees_program (h : v.scope = .program) : p.sees v = true := by simp [sees, h]

theorem sees_stage (h : v.scope = .stage p.stage) : p.sees v = true := by simp [sees, h]

theorem sees_own (h : v.scope = p.frame.id) : p.sees v = true := by simp [sees, frames, h]

theorem sees_enter (h : p.sees v = true) : (p.enter id kind).sees v = true := by
  have hframes : (p.enter id kind).frames = ⟨id, kind⟩ :: p.frames := rfl
  unfold sees at h ⊢
  rw [hframes, List.any_cons]
  simp only [Bool.or_eq_true] at h ⊢
  exact h.imp_right .inr

/-- The variables that may be assigned to. -/
structure Takes (p : Place) (v : Variable) : Prop where
  sees : p.sees v = true
  writable : v.kind.readOnly = false
  interStage : v.kind = .interStage → p.stage = .vertex

theorem Takes.of_kind {k : VariableKind} (hsees : p.sees v = true) (hkind : v.kind = k)
    (hwritable : k.readOnly = false) (hne : k ≠ .interStage) : p.Takes v := by
  subst hkind
  exact ⟨hsees, hwritable, fun h ↦ absurd h hne⟩

/-- A variable of a type that may be assigned to, made from a number on. -/
structure Local (p : Place) (m : Nat) (t : ValueType) (v : Variable) : Prop extends p.Takes v where
  type : v.type = t
  id : m ≤ v.id

/-- An expression of a type that reads nothing out of reach. -/
structure Usable (p : Place) (t : ValueType) (e : Expr) : Prop where
  type : e.type = t
  sees : ∀ v ∈ e.vars, p.sees v = true

namespace Usable

variable {a b e : Expr} {t u : ValueType}

theorem enter (h : p.Usable t e) : (p.enter id kind).Usable t e :=
  ⟨h.type, fun v hv ↦ sees_enter (h.sees v hv)⟩

theorem lit {l : Literal} (h : l.type = t) : p.Usable t (.lit l) :=
  ⟨h, List.forall_mem_nil _⟩

theorem var (hsees : p.sees v = true) : p.Usable v.type (.var v) :=
  ⟨rfl, fun _ hw ↦ List.mem_singleton.mp hw ▸ hsees⟩

theorem binary (op : BinaryOp) (ha : p.Usable t a) (hb : p.Usable u b) (type : ValueType) :
    p.Usable type (.binary type op a b) :=
  ⟨rfl, fun v hv ↦ (List.mem_append.mp hv).elim (ha.sees v) (hb.sees v)⟩

theorem swizzle (ha : p.Usable t a) (type : ValueType) (mask : Swizzle) :
    p.Usable type (.swizzle type a mask) :=
  ⟨rfl, ha.sees⟩

theorem lookup (ha : p.Usable t a) (hb : p.Usable u b) (type : ValueType) :
    p.Usable type (.lookup type a b) :=
  ⟨rfl, fun v hv ↦ (List.mem_append.mp hv).elim (ha.sees v) (hb.sees v)⟩

theorem call {args : List Expr} (h : ∀ e ∈ args, ∃ t, p.Usable t e) (type : ValueType)
    (f : Callee) : p.Usable type (.call type f args) := by
  refine ⟨rfl, fun v hv ↦ ?_⟩
  rw [Expr.vars, Expr.varsOfList_eq_flatMap] at hv
  obtain ⟨e, he, hv⟩ := List.mem_flatMap.mp hv
  obtain ⟨_, hu⟩ := h e he
  exact hu.sees v hv

end Usable

theorem Local.usable {t : ValueType} (h : p.Local m t v) : p.Usable t (.var v) :=
  h.type ▸ .var h.sees

theorem Local.enter {t : ValueType} (h : p.Local m t v) : (p.enter id kind).Local m t v :=
  ⟨⟨sees_enter h.sees, h.writable, h.interStage⟩, h.type, h.id⟩

end Place

/-- A scope at a place in a main function. It has deferred no error, and variables up to a number
are made already. -/
structure ScopeDraft.At (bones : Nat) (p : Place) (m : Nat) (s : ScopeDraft) : Prop where
  kind : s.stage.kind = p.stage
  frames : s.stage.frames = p.frames
  id : s.region.id = p.frame.id
  deferred : s.deferred = none
  main : s.stage.main = none
  tidy : s.stage.Tidy bones
  count : m ≤ s.stage.resources.variableCount

def Stmt.WritesFrom (m : Nat) (stmt : Stmt) : Prop := ∀ v ∈ stmt.writes, m ≤ v.id

/-- The statements of a scope so far write only variables from the number on. -/
structure ScopeDraft.Good (bones : Nat) (p : Place) (m : Nat) (s : ScopeDraft) : Prop
    extends s.At bones p m where
  writes : ∀ stmt ∈ s.region.statements, stmt.WritesFrom m

theorem Stmt.writesFrom_iff_of_root? {target : Expr} {v : Variable} (h : target.root? = some v) :
    (∀ w ∈ VarSet.empty.insert? target.targetVariable?, m ≤ w.id) ↔ m ≤ v.id := by
  rw [Expr.targetVariable?_eq_of_root? h]
  constructor
  · exact fun hall ↦ hall v (List.mem_singleton.mpr rfl)
  · intro hv w hw
    obtain rfl := List.mem_singleton.mp hw
    exact hv

theorem Stmt.writesFrom_declare {v : Variable} {init : Option Expr} (h : m ≤ v.id) :
    (Stmt.declare v init).WritesFrom m := by
  intro w hw
  obtain rfl := List.mem_singleton.mp hw
  exact h

theorem Stmt.WritesFrom.mono {n : Nat} {stmt : Stmt} (h : stmt.WritesFrom n) (hn : m ≤ n) :
    stmt.WritesFrom m :=
  fun v hv ↦ hn.trans (h v hv)

namespace ScopeDraft

variable {p : Place} {s : ScopeDraft} {target e : Expr} {v : Variable} {t : ValueType}

theorem At.sees (hs : s.At bones p m) (v : Variable) : s.stage.sees v = p.sees v := by
  rw [StageDraft.sees, Place.sees, hs.kind, hs.frames]

theorem At.push (hs : s.At bones p m) (stmt : Stmt) : (s.push stmt).At bones p m :=
  ⟨hs.kind, hs.frames, hs.id, hs.deferred, hs.main, hs.tidy, hs.count⟩

theorem At.withStage (hs : s.At bones p m) {stage : StageDraft}
    (hstage : s.stage.Onward bones stage) : (s.withStage stage).At bones p m :=
  ⟨hstage.kind.trans hs.kind, hstage.frames.trans hs.frames, hs.id, hs.deferred,
    hstage.main.trans hs.main, hstage.tidy, hs.count.trans hstage.count⟩

theorem At.declareAll (hs : s.At bones p m) (vs : List Variable) :
    (s.declareAll vs).At bones p m :=
  ⟨hs.kind, hs.frames, hs.id, hs.deferred, hs.main, hs.tidy, hs.count⟩

theorem Good.push (hs : s.Good bones p m) {stmt : Stmt} (h : stmt.WritesFrom m) :
    (s.push stmt).Good bones p m := by
  refine ⟨hs.toAt.push stmt, fun stmt' hstmt ↦ ?_⟩
  rcases List.mem_append.mp hstmt with hstmt | hstmt
  · exact hs.writes stmt' hstmt
  · exact List.mem_singleton.mp hstmt ▸ h

theorem Good.declare (hs : s.Good bones p m) (v : Variable) : (s.declare v).Good bones p m :=
  ⟨hs.toAt.declareAll [v], hs.writes⟩

theorem At.readsCheck (hs : s.At bones p m) (he : p.Usable t e) : s.readsCheck e = .ok () := by
  have hnone : s.unseen? e = none := by
    refine List.find?_eq_none.mpr fun v hv ↦ ?_
    rw [hs.sees, he.sees v (Expr.mem_vars_of_mem_reads hv)]
    decide
  rw [ScopeDraft.readsCheck, hnone]

theorem At.targetCheck (hs : s.At bones p m) (hroot : target.root? = some v) (hv : p.Takes v)
    (ht : p.Usable t target) : s.targetCheck target = .ok () := by
  have hwritable : s.stage.checkWritable v = .ok () := by
    have hinterStage : ¬(v.kind = .interStage ∧ s.stage.kind ≠ .vertex) := fun ⟨h, hne⟩ ↦
      hne (hs.kind.trans (hv.interStage h))
    rw [StageDraft.checkWritable, hv.writable, if_neg (by decide), if_neg hinterStage]
  have hsees : s.stage.sees v = true := (hs.sees v).trans hv.sees
  rw [ScopeDraft.targetCheck, hroot]
  simp only [hsees, hwritable, hs.readsCheck ht, if_true]

theorem At.assignCheck (hs : s.At bones p m) (hroot : target.root? = some v) (hv : p.Takes v)
    (ht : p.Usable t target) (he : p.Usable t e) : s.assignCheck target e = .ok () := by
  refine unit_bind_eq_ok.mpr ⟨hs.targetCheck hroot hv ht, ?_⟩
  refine unit_bind_eq_ok.mpr ⟨?_, hs.readsCheck he⟩
  rw [ht.type, he.type]
  exact ValueType.expect_eq_ok.mpr rfl

theorem At.augmentCheck (hs : s.At bones p m) {op : AugmentOp} {u : ValueType}
    (hroot : target.root? = some v) (hv : p.Takes v) (ht : p.Usable t target) (he : p.Usable u e)
    (hop : op.binary.resultType t u = .ok t) : s.augmentCheck target op e = .ok () := by
  refine unit_bind_eq_ok.mpr ⟨hs.targetCheck hroot hv ht, bind_eq_ok.mpr ⟨t, ?_, ?_⟩⟩
  · rw [ht.type, he.type, hop]
  · rw [ht.type, if_neg (by simp)]
    exact hs.readsCheck he

theorem yields_checkReads (hs : s.At bones p m) (he : p.Usable t e) :
    (checkReads e : Build σ ScopeDraft Unit).Yields E s fun _ s' ↦ s' = s := by
  refine .draft_bind ?_
  rw [hs.readsCheck he]
  exact .pure rfl

theorem yields_onStage (hs : s.Good bones p m) {x : Build σ StageDraft α} {P : α → Prop}
    (hx : x.Yields E s.stage fun a stage ↦ s.stage.Onward bones stage ∧ P a) :
    (Build.onStage x).Yields E s fun a s' ↦ s'.Good bones p m ∧ P a :=
  .on (hx.mono fun _ _ h ↦ ⟨⟨hs.toAt.withStage h.1, hs.writes⟩, h.2⟩)

theorem yields_onShared (hs : s.Good bones p m) {x : Build σ Resources α} {P : α → Prop}
    (hx : x.Yields E s.stage.resources fun a r ↦ s.stage.resources.Onward bones r ∧ P a) :
    (Build.onShared x).Yields E s fun a s' ↦ s'.Good bones p m ∧ P a :=
  yields_onStage hs (StageDraft.yields_onResources hs.tidy hx)

theorem yields_newVariable (hs : s.Good bones p m) (name : String) (type : ValueType) :
    (newVariable name type .localVar : Build σ ScopeDraft Variable).Yields E s fun v s' ↦
      s'.Good bones p m ∧ p.Local m type v := by
  have hnew : (Resources.newVariable name type s.region.id .localVar :
      Build σ Resources Variable).Yields E s.stage.resources fun v r ↦
        s.stage.resources.Onward bones r ∧ p.Local m type v := by
    refine (Resources.yields_newVariable hs.tidy.resources name type _ _).mono fun v r h ↦ ?_
    obtain ⟨htidy, ⟨htype, hscope, hkind⟩, hid, hcount⟩ := h
    have htakes : p.Takes v := .of_kind (Place.sees_own (hscope.trans hs.id)) hkind rfl nofun
    exact ⟨⟨htidy, by omega⟩, ⟨htakes, htype, hid ▸ hs.count⟩⟩
  refine Build.Yields.draft_bind ((yields_onShared hs hnew).bind fun v s₁ h₁ ↦ ?_)
  refine Build.Yields.bind (P := fun _ s' ↦ s'.Good bones p m) (.change (h₁.1.declare v))
    fun _ s₂ h₂ ↦ ?_
  exact .pure ⟨h₂, h₁.2⟩

theorem yields_addDeclaration (hs : s.Good bones p m) (name : String) (type : ValueType)
    (init : Option Expr) :
    (addDeclaration name type init : Build σ ScopeDraft Variable).Yields E s fun v s' ↦
      s'.Good bones p m ∧ p.Local m type v := by
  refine (yields_newVariable hs name type).bind fun v s₁ h₁ ↦ ?_
  refine Build.Yields.bind (P := fun _ s' ↦ s'.Good bones p m)
    (.change (h₁.1.push (Stmt.writesFrom_declare h₁.2.id))) fun _ s₂ h₂ ↦ ?_
  exact .pure ⟨h₂, h₁.2⟩

theorem yields_bind (hs : s.Good bones p m) (he : p.Usable t e) :
    (bind e : Build σ ScopeDraft Variable).Yields E s fun v s' ↦
      s'.Good bones p m ∧ p.Local m t v := by
  have hname : (Resources.freshName e.type.nameStem : Build σ Resources String).Yields E
      s.stage.resources fun _ r ↦ s.stage.resources.Onward bones r ∧ True :=
    (Resources.yields_freshName hs.tidy.resources _).mono fun _ r h ↦
      ⟨⟨h.1, h.2.ge⟩, trivial⟩
  refine Build.Yields.draft_bind ?_
  simp only [hs.toAt.readsCheck he]
  refine (yields_onShared hs hname).bind fun name s₁ h₁ ↦ ?_
  exact he.type ▸ yields_addDeclaration h₁.1 name e.type (some e)

theorem yields_assign_push (hs : s.At bones p m) (hroot : target.root? = some v) (hv : p.Takes v)
    (ht : p.Usable t target) (he : p.Usable t e) :
    (assign target e : Build σ ScopeDraft Unit).Yields E s fun _ s' ↦
      s' = s.push (.assign target e) :=
  .draft_bind (.ofExcept_bind (hs.assignCheck hroot hv ht he) (.change rfl))

theorem yields_assign (hs : s.Good bones p m) (hroot : target.root? = some v) (hv : p.Takes v)
    (ht : p.Usable t target) (he : p.Usable t e) (hm : m ≤ v.id) :
    (assign target e : Build σ ScopeDraft Unit).Yields E s fun _ s' ↦ s'.Good bones p m := by
  refine (yields_assign_push hs.toAt hroot hv ht he).mono fun _ s' h ↦ ?_
  subst h
  exact hs.push ((Stmt.writesFrom_iff_of_root? hroot).mpr hm)

/-- An assignment to a variable as a whole. -/
theorem yields_store (hs : s.Good bones p m) (hv : p.Local m t v) (he : p.Usable t e) :
    (assign (.var v) e : Build σ ScopeDraft Unit).Yields E s fun _ s' ↦ s'.Good bones p m :=
  yields_assign hs rfl hv.toTakes hv.usable he hv.id

theorem yields_augment (hs : s.Good bones p m) {op : AugmentOp} {u : ValueType}
    (hroot : target.root? = some v) (hv : p.Takes v) (ht : p.Usable t target) (he : p.Usable u e)
    (hop : op.binary.resultType t u = .ok t) (hm : m ≤ v.id) :
    (augment target op e : Build σ ScopeDraft Unit).Yields E s fun _ s' ↦ s'.Good bones p m := by
  refine .draft_bind (.ofExcept_bind (hs.toAt.augmentCheck hroot hv ht he hop) (.change ?_))
  exact hs.push ((Stmt.writesFrom_iff_of_root? hroot).mpr hm)

theorem yields_set (hs : s.Good bones p m) {op : Option AugmentOp} (hroot : target.root? = some v)
    (hv : p.Takes v) (ht : p.Usable t target) (he : p.Usable t e)
    (hop : ∀ o ∈ op, o.binary.resultType t t = .ok t) (hm : m ≤ v.id) :
    (set target op e : Build σ ScopeDraft Unit).Yields E s fun _ s' ↦ s'.Good bones p m := by
  cases op with
  | none => exact yields_assign hs hroot hv ht he hm
  | some op => exact yields_augment hs hroot hv ht he (hop op rfl) hm

theorem yields_discard (hs : s.Good bones p m) (hstage : p.stage = .fragment) :
    (discard : Build σ ScopeDraft Unit).Yields E s fun _ s' ↦ s'.Good bones p m := by
  refine Build.Yields.draft_bind ?_
  rw [if_pos (hs.kind.trans hstage)]
  exact .change (hs.push fun v hv ↦ (VarSet.not_mem_empty v hv).elim)

/-! ## Regions -/

variable {id : ScopeId} {kind : RegionKind} {body : Build σ ScopeDraft α}

theorem Good.opened (hs : s.Good bones p m) (kind : RegionKind) :
    (s.stage.opened kind).Good bones (p.enter (.nested s.stage.resources.scopeCount) kind) m where
  kind := hs.kind
  frames := congrArg (_ :: ·) hs.frames
  id := rfl
  deferred := rfl
  main := hs.main
  tidy := ⟨hs.tidy.resources.newScope _, hs.tidy.attributes, hs.tidy.builtins⟩
  count := hs.count
  writes := List.forall_mem_nil _

/-- Back from a region, a scope is where it was. -/
theorem Good.left (hs : s.Good bones p m) {t : ScopeDraft} (ht : t.At bones (p.enter id kind) m) :
    (s.withStage t.leave).Good bones p m where
  kind := ht.kind
  frames := congrArg List.tail ht.frames
  id := hs.id
  deferred := hs.deferred
  main := ht.main
  tidy := ⟨ht.tidy.resources, ht.tidy.attributes, ht.tidy.builtins⟩
  count := ht.count
  writes := hs.writes

theorem yields_withRegion (hs : s.Good bones p m)
    (hbody : ∀ id t, t.Good bones (p.enter id kind) m →
      body.Yields E t fun _ t' ↦ t'.Good bones (p.enter id kind) m) :
    (Build.onStage (StageDraft.withRegion kind body)).Yields E s fun x s' ↦
      s'.Good bones p m ∧ ∀ stmt ∈ x.2.statements, stmt.WritesFrom m := by
  intro c
  have hrun := hbody _ _ (hs.opened kind) c
  rw [withRegion_apply]
  rcases h : body (s.stage.opened kind, c) with ⟨a, t, c'⟩ | ⟨e, t, c'⟩ <;> rw [h] at hrun
  · simp only [hrun.deferred]
    exact ⟨hs.left hrun.toAt, hrun.writes⟩
  · exact hrun

theorem yields_branch (hs : s.Good bones p m) {condition : Expr} {body : Build σ ScopeDraft Unit}
    (hcondition : p.Usable .bool condition)
    (hbody : ∀ id t, t.Good bones (p.enter id .branch) m →
      body.Yields E t fun _ t' ↦ t'.Good bones (p.enter id .branch) m) :
    (branch condition body).Yields E s fun _ s' ↦ s'.Good bones p m := by
  refine .ofExcept_bind (by rw [hcondition.type]; rfl) ?_
  refine (yields_checkReads hs.toAt hcondition).bind fun _ s₀ h₀ ↦ ?_
  subst h₀
  rw [nested, bind_map_left]
  refine (yields_withRegion hs hbody).bind fun x s₁ h₁ ↦ .change (h₁.1.push ?_)
  intro v hv
  rcases VarSet.mem_or_mem_of_mem_union hv with hv | hv
  · exact (VarSet.not_mem_empty v hv).elim
  · obtain ⟨stmt, hstmt, hv⟩ := Region.exists_mem_of_mem_writes hv
    exact h₁.2 stmt hstmt v hv

end ScopeDraft

/-- The place of the body of a main function. -/
def Place.main (kind : StageKind) (id : ScopeId) : Place := ⟨kind, ⟨id, .function none⟩, []⟩

/-- A stage that has no main function yet. -/
structure StageDraft.Ready (bones : Nat) (kind : StageKind) (s : StageDraft) : Prop where
  tidy : s.Tidy bones
  kind : s.kind = kind
  main : s.main = none

/-- A stage that has its main function. -/
structure StageDraft.Complete (bones : Nat) (kind : StageKind) (s : StageDraft) : Prop where
  resources : s.resources.Tidy bones
  kind : s.kind = kind
  main : s.main.isSome = true

namespace StageDraft

variable {s : StageDraft} {kind : StageKind} {body : Build σ ScopeDraft Unit}

theorem Ready.start {r : Resources} (hr : r.Tidy bones) (kind : StageKind) :
    (start kind r).Ready bones kind :=
  ⟨⟨hr, List.forall_mem_nil _, List.forall_mem_nil _⟩, rfl, rfl⟩

theorem Ready.onward {s' : StageDraft} (hs : s.Ready bones kind) (h : s.Onward bones s') :
    s'.Ready bones kind :=
  ⟨h.tidy, h.kind.trans hs.kind, h.main.trans hs.main⟩

theorem Ready.openedFunction (hs : s.Ready bones kind) :
    (s.openedFunction none).Good bones (.main kind (.nested s.resources.scopeCount)) 0 where
  kind := hs.kind
  frames := rfl
  id := rfl
  deferred := rfl
  main := hs.main
  tidy := ⟨hs.tidy.resources.newScope _, hs.tidy.attributes, hs.tidy.builtins⟩
  count := Nat.zero_le _
  writes := List.forall_mem_nil _

theorem yields_functionBody {p : Place} {t : ScopeDraft}
    (hbody : body.Yields E t fun _ t' ↦ t'.Good bones p m) :
    (functionBody [] fun _ ↦ do body; return none).Yields E t fun x t' ↦
      t'.Good bones p m ∧ x.2 = none := by
  refine Build.Yields.bind (P := fun _ t' ↦ t' = t) (.pure rfl) fun args t₁ h₁ ↦ ?_
  subst h₁
  refine Build.Yields.bind (P := fun value t' ↦ t'.Good bones p m ∧ value = none)
    (hbody.bind fun _ t₂ h₂ ↦ .pure ⟨h₂, rfl⟩) fun value t₂ h₂ ↦ ?_
  obtain ⟨hgood, rfl⟩ := h₂
  exact .pure ⟨hgood, rfl⟩

theorem yields_defineMain (hs : s.Ready bones kind)
    (hbody : ∀ id t, t.Good bones (.main kind id) 0 →
      body.Yields E t fun _ t' ↦ t'.Good bones (.main kind id) 0) :
    (defineMain body).Yields E s fun _ s' ↦ s'.Complete bones kind := by
  have hregion : (apart (withRegion (.function none)
      (functionBody [] fun _ ↦ do body; return none))).Yields E s fun x s' ↦
        (s'.resources.Tidy bones ∧ s'.kind = kind) ∧ x.1.2 = none := by
    intro c
    have hrun := yields_functionBody (hbody _ _ hs.openedFunction) c
    rw [apart_withRegion_apply]
    rcases h : functionBody [] (fun _ ↦ do body; return none) (s.openedFunction none, c) with
      ⟨x, t, c'⟩ | ⟨e, t, c'⟩ <;> rw [h] at hrun
    · obtain ⟨hgood, hvalue⟩ := hrun
      simp only [hgood.deferred]
      exact ⟨⟨hgood.tidy.resources, hgood.kind⟩, hvalue⟩
    · exact hrun
  refine Build.Yields.draft_bind ?_
  rw [if_neg (by simp [hs.main])]
  refine Build.Yields.bind (P := fun _ s' ↦ s'.resources.Tidy bones ∧ s'.kind = kind)
    (hregion.bind fun x s₁ h₁ ↦ ?_) fun f s₂ h₂ ↦ .change ⟨h₂.1, h₂.2, rfl⟩
  obtain ⟨⟨args, value⟩, region⟩ := x
  obtain ⟨hs₁, rfl⟩ := h₁
  exact .ofExcept_bind rfl (.pure hs₁)

end StageDraft

theorem Program.stage?_setStage (p : Program) (s : Stage) (kind : StageKind) :
    (p.setStage s).stage? kind = if kind = s.kind then some s else p.stage? kind := by
  unfold setStage
  cases s.kind <;> cases kind <;> rfl

/-- A stage is built, beside the one that there may be already. -/
theorem Program.yields_buildStage {p : Program} {kind : StageKind} {build : Build σ StageDraft Unit}
    (hp : p.resources.Tidy bones) (hnone : p.stage? kind = none)
    (hbuild : ∀ s : StageDraft, s.Ready bones kind →
      build.Yields E s fun _ s' ↦ s'.Complete bones kind) :
    (buildStage kind build).Yields E p fun _ p' ↦ p'.resources.Tidy bones ∧
      (∃ stage, p'.stage? kind = some stage ∧ stage.main.isSome = true) ∧
        ∀ other, other ≠ kind → p'.stage? other = p.stage? other := by
  refine Build.Yields.draft_bind ?_
  rw [if_neg (by simp [hnone])]
  have hstage := hbuild (.start kind p.resources) (.start hp kind)
  refine Build.Yields.bind (P := fun x p' ↦ p' = { p with resources := x.2.resources } ∧
    x.2.Complete bones kind) (.via (hstage.mono fun _ _ h ↦ ⟨rfl, h⟩)) fun x p₁ h₁ ↦ ?_
  obtain ⟨⟨⟩, s⟩ := x
  obtain ⟨rfl, hs⟩ := h₁
  have hkind : s.finish.kind = kind := hs.kind
  refine .change ⟨?_, ⟨s.finish, ?_, hs.main⟩, fun other hother ↦ ?_⟩
  · rw [Program.resources_setStage]
    exact hs.resources
  · rw [Program.stage?_setStage, if_pos hkind.symm]
  · rw [Program.stage?_setStage, if_neg (hkind ▸ hother)]
    cases other <;> rfl

end ShaderGraph
