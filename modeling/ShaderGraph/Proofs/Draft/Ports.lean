import ShaderGraph.Proofs.Draft.Places

/-!
# Blocks that are not rejected

The body of a block declares what the block takes and gives, does its work on
variables that it makes later, and assigns its outputs at the end. Variables
are numbered as they are made, so the work does not write the outputs, and
each output is written once.
-/

namespace ShaderGraph

variable {σ α β : Type} {E : BuildError → Prop} {bones m n : Nat} {p : Place} {id : ScopeId}

/-- Statements that write variables from a number on only, followed by one assignment to each
variable of a list. -/
inductive AssignsLast (m : Nat) : List Stmt → List Variable → Prop
  | work {ss : List Stmt} (h : ∀ stmt ∈ ss, stmt.WritesFrom m) : AssignsLast m ss []
  | assign {ss : List Stmt} {vs : List Variable} (h : AssignsLast m ss vs) (v : Variable)
      (value : Expr) : AssignsLast m (ss ++ [.assign (.var v) value]) (vs ++ [v])

/-- Different variables with numbers from a range. -/
structure Numbered (m n : Nat) (vs : List Variable) : Prop where
  range : ∀ v ∈ vs, m ≤ v.id ∧ v.id < n
  nodup : (vs.map Variable.id).Nodup

theorem Numbered.nil : Numbered m n [] := ⟨List.forall_mem_nil _, .nil⟩

theorem Numbered.append {vs : List Variable} {v : Variable} (h : Numbered m n vs) (hm : m ≤ n)
    (hv : v.id = n) : Numbered m (n + 1) (vs ++ [v]) where
  range := by
    intro w hw
    rcases List.mem_append.mp hw with hw | hw
    · have := h.range w hw
      omega
    · obtain rfl := List.mem_singleton.mp hw
      omega
  nodup := by
    rw [List.map_append, List.nodup_append]
    refine ⟨h.nodup, List.nodup_singleton _, fun i hi j hj ↦ ?_⟩
    obtain ⟨w, hw, rfl⟩ := List.mem_map.mp hi
    obtain ⟨u, hu, rfl⟩ := List.mem_map.mp hj
    obtain rfl := List.mem_singleton.mp hu
    have := h.range w hw
    omega

theorem Stmt.contains_writes_assign (v w : Variable) (value : Expr) :
    (Stmt.assign (.var v) value).writes.contains w = (v.id == w.id) := by
  simp [Stmt.writes, Expr.targetVariable?, VarSet.insert?]

namespace AssignsLast

variable {ss : List Stmt} {vs : List Variable} {v : Variable}

theorem of_nil (h : AssignsLast n ss []) : ∀ stmt ∈ ss, stmt.WritesFrom n := by
  generalize hvs : ([] : List Variable) = vs at h
  cases h with
  | work h => exact h
  | assign _ v _ => exact absurd hvs.symm (List.append_ne_nil_of_right_ne_nil _ nofun)

theorem not_writes (h : AssignsLast n ss vs) (hv : v.id < n) (hvs : v.id ∉ vs.map Variable.id) :
    ∀ stmt ∈ ss, ¬stmt.writes.contains v = true := by
  induction h with
  | work h =>
    intro stmt hstmt hcontains
    obtain ⟨w, hw, hid⟩ := List.any_eq_true.mp hcontains
    have := h stmt hstmt w hw
    have : w.id = v.id := by simpa using hid
    omega
  | assign _ u value ih =>
    rw [List.map_append, List.mem_append, not_or] at hvs
    intro stmt hstmt
    rcases List.mem_append.mp hstmt with hstmt | hstmt
    · exact ih hvs.1 stmt hstmt
    · obtain rfl := List.mem_singleton.mp hstmt
      rw [Stmt.contains_writes_assign]
      intro hid
      exact hvs.2 (List.mem_singleton.mpr (beq_iff_eq.mp hid).symm)

/-- Each of the variables is written once, and as a whole. -/
theorem writtenOnce (h : AssignsLast n ss vs) (hvs : Numbered m n vs) (hv : v ∈ vs) :
    ∃ pre t post, ss = pre ++ t :: post ∧
      (t.writes.contains v = true ∧ t.assignsWhole v = true) ∧
        (∀ u ∈ pre, ¬u.writes.contains v = true) ∧ ∀ u ∈ post, ¬u.writes.contains v = true := by
  induction h with
  | work _ => cases hv
  | @assign ss vs h u value ih =>
    -- The last assignment is to a variable of its own, so it disturbs none of the others.
    obtain ⟨hrange, hnodup⟩ := hvs
    rw [List.map_append, List.nodup_append] at hnodup
    obtain ⟨hnodup, -, hdisjoint⟩ := hnodup
    have hvs : Numbered m n vs := ⟨fun w hw ↦ hrange w (List.mem_append_left _ hw), hnodup⟩
    have hne {w : Variable} (hw : w ∈ vs) : w.id ≠ u.id :=
      hdisjoint _ (List.mem_map_of_mem hw) _ (List.mem_singleton.mpr rfl)
    rcases List.mem_append.mp hv with hv | hv
    · obtain ⟨pre, t, post, rfl, ht, hpre, hpost⟩ := ih hvs hv
      refine ⟨pre, t, post ++ [.assign (.var u) value], by simp, ht, hpre, fun s hs ↦ ?_⟩
      rcases List.mem_append.mp hs with hs | hs
      · exact hpost s hs
      · obtain rfl := List.mem_singleton.mp hs
        rw [Stmt.contains_writes_assign, beq_iff_eq]
        exact (hne hv).symm
    · have hlt : v.id < n := (hrange v (List.mem_append_right _ hv)).2
      obtain rfl := List.mem_singleton.mp hv
      have hfresh : v.id ∉ vs.map Variable.id := fun hmem ↦ by
        obtain ⟨w, hw, hid⟩ := List.mem_map.mp hmem
        exact hne hw hid
      refine ⟨ss, .assign (.var v) value, [], rfl, ⟨?_, ?_⟩, h.not_writes hlt hfresh,
        List.forall_mem_nil _⟩
      · rw [Stmt.contains_writes_assign, beq_self_eq_true]
      · exact beq_self_eq_true v.id

theorem writesFrom (h : AssignsLast n ss vs) (hm : m ≤ n) (hvs : ∀ v ∈ vs, m ≤ v.id) :
    ∀ stmt ∈ ss, stmt.WritesFrom m := by
  induction h with
  | work h => exact fun stmt hstmt ↦ (h stmt hstmt).mono hm
  | assign _ u value ih =>
    intro stmt hstmt
    rcases List.mem_append.mp hstmt with hstmt | hstmt
    · exact ih (fun v hv ↦ hvs v (List.mem_append_left _ hv)) stmt hstmt
    · obtain rfl := List.mem_singleton.mp hstmt
      exact (Stmt.writesFrom_iff_of_root? rfl).mpr (hvs u (by simp))

end AssignsLast

namespace BlockDraft

def outputSlots (b : BlockDraft) : List Variable := b.interface.outputs.map BlockOutput.slot

/-- The body of a block, in a scope at a place, that has declared its outputs and nothing else. -/
structure Opening (bones : Nat) (p : Place) (id : ScopeId) (m : Nat) (outs : List Variable)
    (b : BlockDraft) : Prop where
  scope : b.scope.At bones (p.enter id .block) m
  parent : b.parent = p.frame.id
  statements : b.scope.region.statements = []
  outputs : b.outputSlots = outs
  numbered : Numbered m b.scope.stage.resources.variableCount outs

/-- The body of a block at its work, or after it when some variables have been assigned. -/
structure Working (bones : Nat) (p : Place) (id : ScopeId) (n : Nat) (outs assigned : List Variable)
    (b : BlockDraft) : Prop where
  scope : b.scope.At bones (p.enter id .block) n
  outputs : b.outputSlots = outs
  statements : AssignsLast n b.scope.region.statements assigned

/-- The body of a block that passes. -/
structure Finished (bones : Nat) (p : Place) (id : ScopeId) (m : Nat) (b : BlockDraft) :
    Prop where
  scope : b.scope.Good bones (p.enter id .block) m
  check : ∀ name kind, (b.toBlock name kind).outputsCheck b.interface.outputs = .ok ()
  outputs : ∀ v ∈ b.outputSlots, m ≤ v.id

variable {b : BlockDraft} {outs assigned : List Variable} {t : ValueType} {e : Expr} {v : Variable}

/-- What is made after the outputs is numbered after them. -/
theorem Opening.working (hb : b.Opening bones p id m outs) :
    b.Working bones p id b.scope.stage.resources.variableCount outs [] := by
  refine ⟨{ hb.scope with count := Nat.le_refl _ }, hb.outputs, .work ?_⟩
  rw [hb.statements]
  exact List.forall_mem_nil _

/-- A block without outputs may write what was there before. -/
theorem Opening.idle (hb : b.Opening bones p id m []) : b.Working bones p id m [] [] := by
  refine ⟨hb.scope, hb.outputs, .work ?_⟩
  rw [hb.statements]
  exact List.forall_mem_nil _

theorem Working.good (hb : b.Working bones p id n outs []) :
    b.scope.Good bones (p.enter id .block) n :=
  ⟨hb.scope, hb.statements.of_nil⟩

theorem Working.finished (hb : b.Working bones p id n outs outs) (houts : Numbered m n outs)
    (hm : m ≤ n) : b.Finished bones p id m where
  scope := ⟨{ hb.scope with count := hm.trans hb.scope.count },
    hb.statements.writesFrom hm fun v hv ↦ (houts.range v hv).1⟩
  check := by
    intro name kind
    refine Block.outputsCheck_eq_ok_iff.mpr fun out hout ↦ Block.outputCheck_eq_ok_iff.mpr ?_
    have hslot : out.slot ∈ outs := hb.outputs ▸ List.mem_map_of_mem hout
    exact hb.statements.writtenOnce houts hslot
  outputs := by
    intro v hv
    exact (houts.range v (hb.outputs ▸ hv)).1

theorem Opening.declareData (hb : b.Opening bones p id m outs) {r : Resources}
    (hr : b.scope.stage.resources.Onward bones r) :
    { b with scope := b.scope.withResources r }.Opening bones p id m outs where
  scope := hb.scope.withStage (hb.scope.tidy.withResources hr)
  parent := hb.parent
  statements := hb.statements
  outputs := hb.outputs
  numbered := ⟨fun v hv ↦ (hb.numbered.range v hv).imp_right fun h ↦ h.trans_le hr.count,
    hb.numbered.nodup⟩

theorem yields_onShared (hb : b.Opening bones p id m outs) {x : Build σ Resources α}
    {P : α → Prop} (hx : x.Yields E b.scope.stage.resources fun a r ↦
      b.scope.stage.resources.Onward bones r ∧ P a) :
    (Build.onScope (Build.onShared x)).Yields E b fun a b' ↦
      b'.Opening bones p id m outs ∧ P a :=
  .on (.on (.on (hx.mono fun _ _ h ↦ ⟨hb.declareData h.1, h.2⟩)))

section Named

variable (hE : ∀ name, E (.nameTaken name))
include hE

theorem yields_interfaceVariable (hb : b.Opening bones p id m outs) (name : String)
    (type : ValueType) (scope : ScopeId) (kind : VariableKind) :
    (interfaceVariable name type scope kind : Build σ BlockDraft Variable).Yields E b fun v b' ↦
      b'.Opening bones p id m outs ∧ (v.type = type ∧ v.scope = scope ∧ v.kind = kind) ∧
        v.id = b.scope.stage.resources.variableCount ∧
          b'.scope.stage.resources.variableCount = v.id + 1 := by
  refine .draft_bind (.on (.on (.on ?_)))
  refine (Resources.yields_makeNamed hE hb.scope.tidy.resources _ type scope kind).mono
    fun v r h ↦ ?_
  obtain ⟨htidy, hv, hid, hcount⟩ := h
  exact ⟨hb.declareData ⟨htidy, by omega⟩, hv, hid, hcount⟩

/-- What is wired to an input passes, and the input holds it in the body. -/
theorem yields_input (hb : b.Opening bones p id m outs) (name : String)
    (he : p.Usable t e) :
    (input name t (some e) : Build σ BlockDraft Variable).Yields E b fun v b' ↦
      b'.Opening bones p id m outs ∧ (p.enter id .block).Usable t (.var v) := by
  refine .draft_bind (.ofExcept_bind (ValueType.expect_eq_ok.mpr he.type.symm) ?_)
  have hreads : (Build.onScope (ScopeDraft.checkReads e) : Build σ BlockDraft Unit).Yields E b
      fun _ b' ↦ b' = b :=
    .on ((ScopeDraft.yields_checkReads hb.scope he.enter).mono fun _ s h ↦ by rw [h])
  refine hreads.bind fun _ b₀ h₀ ↦ ?_
  subst h₀
  refine (yields_interfaceVariable hE hb name t _ .blockInput).bind fun v b₁ h₁ ↦ ?_
  obtain ⟨hb₁, ⟨htype, hscope, -⟩, -⟩ := h₁
  refine Build.Yields.bind (P := fun _ b' ↦ b'.Opening bones p id m outs) (.change ?_)
    fun _ b₂ h₂ ↦ .pure ⟨h₂, htype ▸ .var (Place.sees_own (hscope.trans hb.scope.id))⟩
  exact ⟨hb₁.scope.declareAll [v], hb₁.parent, hb₁.statements, hb₁.outputs, hb₁.numbered⟩

/-- An output can be assigned to in the body, and seen in the scope around the block. -/
theorem yields_output (hb : b.Opening bones p id m outs) (name : String) (type : ValueType) :
    (output name type : Build σ BlockDraft Variable).Yields E b fun v b' ↦
      b'.Opening bones p id m (outs ++ [v]) ∧ p.Local m type v := by
  refine .draft_bind ?_
  refine (yields_interfaceVariable hE hb name type _ .blockOutput).bind fun v b₁ h₁ ↦ ?_
  obtain ⟨hb₁, ⟨htype, hscope, hkind⟩, hid, hcount⟩ := h₁
  have htakes : p.Takes v := .of_kind (Place.sees_own (hscope.trans hb.parent)) hkind rfl nofun
  refine Build.Yields.bind (P := fun _ b' ↦ b'.Opening bones p id m (outs ++ [v]))
    (.change ⟨hb₁.scope, hb₁.parent, hb₁.statements, ?_, ?_⟩)
    fun _ b₂ h₂ ↦ .pure ⟨h₂, htakes, htype, hid ▸ hb.scope.count⟩
  · have houts : b₁.outputSlots = outs := hb₁.outputs
    simpa [outputSlots] using houts
  · have hnumbered := hb.numbered
    rw [← hid] at hnumbered
    change Numbered m b₁.scope.stage.resources.variableCount (outs ++ [v])
    rw [hcount]
    exact hnumbered.append (hid ▸ hb.scope.count) rfl

end Named

theorem yields_work (hb : b.Working bones p id n outs []) {x : Build σ ScopeDraft α} {P : α → Prop}
    (hx : x.Yields E b.scope fun a s' ↦ s'.Good bones (p.enter id .block) n ∧ P a) :
    (Build.onScope x).Yields E b fun a b' ↦ b'.Working bones p id n outs [] ∧ P a :=
  .on (hx.mono fun _ _ h ↦ ⟨⟨h.1.toAt, hb.outputs, .work h.1.writes⟩, h.2⟩)

theorem yields_step (hb : b.Working bones p id n outs []) {x : Build σ ScopeDraft α}
    (hx : x.Yields E b.scope fun _ s' ↦ s'.Good bones (p.enter id .block) n) :
    (Build.onScope x).Yields E b fun _ b' ↦ b'.Working bones p id n outs [] :=
  .on (hx.mono fun _ _ h ↦ ⟨h.toAt, hb.outputs, .work h.writes⟩)

theorem yields_declareAttribute (hE : ∀ name, E (.nameTaken name))
    (hb : b.Working bones p id n outs []) (hp : p.stage = .vertex) (name : String)
    (kind : VariableKind) :
    (Build.onScope (Build.onStage (StageDraft.declareAttribute name t kind)) :
      Build σ BlockDraft Variable).Yields E b fun v b' ↦
        b'.Working bones p id n outs [] ∧ (p.enter id .block).Usable t (.var v) := by
  have hkind : b.scope.stage.kind = .vertex := hb.scope.kind.trans hp
  refine (yields_work hb (ScopeDraft.yields_onStage hb.good
    (StageDraft.yields_declareAttribute hE hb.good.tidy hkind name t kind))).mono fun v b₁ h ↦ ?_
  obtain ⟨hb₁, htype, hscope⟩ := h
  exact ⟨hb₁, htype ▸ .var (Place.sees_stage (hb.scope.kind ▸ hscope))⟩

theorem yields_bind (hb : b.Working bones p id n outs []) (he : (p.enter id .block).Usable t e) :
    (Build.onScope (ScopeDraft.bind e) : Build σ BlockDraft Variable).Yields E b fun v b' ↦
      b'.Working bones p id n outs [] ∧ (p.enter id .block).Local n t v :=
  yields_work hb (ScopeDraft.yields_bind hb.good he)

theorem yields_store (hb : b.Working bones p id n outs []) (hv : (p.enter id .block).Local n t v)
    (he : (p.enter id .block).Usable t e) :
    (Build.onScope (ScopeDraft.assign (.var v) e) : Build σ BlockDraft Unit).Yields E b fun _ b' ↦
      b'.Working bones p id n outs [] :=
  yields_step hb (ScopeDraft.yields_store hb.good hv he)

theorem yields_augment (hb : b.Working bones p id n outs []) {op : AugmentOp} {u : ValueType}
    (hv : (p.enter id .block).Local n t v) (he : (p.enter id .block).Usable u e)
    (hop : op.binary.resultType t u = .ok t) :
    (Build.onScope (ScopeDraft.augment (.var v) op e) : Build σ BlockDraft Unit).Yields E b
      fun _ b' ↦ b'.Working bones p id n outs [] :=
  yields_step hb (ScopeDraft.yields_augment hb.good rfl hv.toTakes hv.usable he hop hv.id)

/-- An output is assigned at the end of the body. -/
theorem yields_assignOutput (hb : b.Working bones p id n outs assigned) (hv : p.Local m t v)
    (he : (p.enter id .block).Usable t e) :
    (Build.onScope (ScopeDraft.assign (.var v) e) : Build σ BlockDraft Unit).Yields E b fun _ b' ↦
      b'.Working bones p id n outs (assigned ++ [v]) := by
  refine .on ((ScopeDraft.yields_assign_push hb.scope rfl hv.enter.toTakes hv.enter.usable he).mono
    fun _ s' h ↦ ?_)
  subst h
  exact ⟨hb.scope.push _, hb.outputs, hb.statements.assign v e⟩

end BlockDraft

/-! ## Blocks in a scope -/

namespace ScopeDraft

variable {s : ScopeDraft}

theorem Good.newBlock (hs : s.Good bones p m) (kind : String) :
    ∃ id, (s.newBlock kind).Opening bones p id m [] := by
  have hnamed : (s.withNames (s.stage.resources.names.next kind).2).Good bones p m :=
    ⟨hs.toAt.withStage (hs.tidy.withResources ⟨hs.tidy.resources.names _, Nat.le_refl _⟩),
      hs.writes⟩
  exact ⟨_, (hnamed.opened .block).toAt, hs.id, rfl, rfl, .nil⟩

theorem writesFrom_block {b : BlockDraft} {id : ScopeId} (hb : b.Finished bones p id m)
    (name kind : String) : (Stmt.block (b.toBlock name kind)).WritesFrom m := by
  intro v hv
  rcases VarSet.mem_or_mem_of_mem_insertAll hv with hv | hv
  · exact hb.outputs v hv
  · obtain ⟨stmt, hstmt, hv⟩ := Region.exists_mem_of_mem_writes hv
    exact hb.scope.writes stmt hstmt v hv

/-- A block is built if its body comes to an end as it should. -/
theorem yields_block (hs : s.Good bones p m) (kind : String) {build : Build σ BlockDraft α}
    {P : α → Prop} (hbuild : ∀ id b, b.Opening bones p id m [] →
      build.Yields E b fun a b' ↦ b'.Finished bones p id m ∧ P a) :
    (block kind build).Yields E s fun a s' ↦ s'.Good bones p m ∧ P a := by
  intro c
  obtain ⟨id, hb⟩ := hs.newBlock kind
  have hrun := hbuild id _ hb c
  rw [block_apply]
  rcases h : build (s.newBlock kind, c) with ⟨a, b, c'⟩ | ⟨e, b, c'⟩ <;> rw [h] at hrun
  · obtain ⟨hfinished, ha⟩ := hrun
    simp only [hfinished.scope.deferred, hfinished.check]
    have hleft := hs.left hfinished.scope.toAt
    have hdeclared : ((s.withStage b.scope.leave).declareAll b.outputSlots).Good bones p m :=
      ⟨hleft.toAt.declareAll _, hleft.writes⟩
    exact ⟨hdeclared.push (writesFrom_block hfinished _ _), ha⟩
  · exact hrun

end ScopeDraft

end ShaderGraph
