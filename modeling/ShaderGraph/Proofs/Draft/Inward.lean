import ShaderGraph.Proofs.Draft.Ending
import ShaderGraph.Proofs.Region.Writers

/-!
# Constructions that write nothing outside

As long as a scope has only been given statements that write variables of its
own and of the scopes in it, it may do whatever else it does: what a stage shows
to the outside stays as it was, and no statement of the scope writes to it.
-/

namespace ShaderGraph

variable {σ S α β : Type} {o : Outlets}

/-- Unless it is rejected, a construction keeps an invariant and gives what is expected. -/
def Build.Keeps (I : S → Prop) (x : Build σ S α) (P : α → Prop) : Prop :=
  ∀ s, I s → x.Ends s fun a s' ↦ I s' ∧ P a

namespace Build.Keeps

variable {I : S → Prop} {x : Build σ S α} {P : α → Prop} {Q : β → Prop}

theorem pure {a : α} (h : P a) : (Pure.pure a : Build σ S α).Keeps I P :=
  fun _ hs ↦ .pure ⟨hs, h⟩

theorem throw (e : BuildError) : (throw e : Build σ S α).Keeps I P := fun _ _ ↦ .throw trivial

theorem bind {f : α → Build σ S β} (hx : x.Keeps I P) (hf : ∀ a, P a → (f a).Keeps I Q) :
    (x >>= f).Keeps I Q :=
  fun s hs ↦ (hx s hs).bind fun a s' h ↦ hf a h.2 s' h.1

theorem draft_bind {f : S → Build σ S β} (hf : ∀ s, (f s).Keeps I Q) :
    (Build.draft >>= f).Keeps I Q :=
  fun s hs ↦ .draft_bind (hf s s hs)

theorem mono {P' : α → Prop} (h : x.Keeps I P) (hP : ∀ a, P a → P' a) : x.Keeps I P' :=
  fun s hs ↦ (h s hs).mono fun a _ ha ↦ ⟨ha.1, hP a ha.2⟩

theorem forget (h : x.Keeps I P) : x.Keeps I fun _ ↦ True := h.mono fun _ _ ↦ trivial

theorem ofExcept (r : Except BuildError α) :
    (Build.ofExcept r : Build σ S α).Keeps I fun a ↦ r = .ok a :=
  fun _ hs ↦ (Build.Ends.ofExcept r).mono fun _ _ h ↦ ⟨h.1 ▸ hs, h.2⟩

end Build.Keeps

namespace StageDraft

/-- What the stage shows to the outside is settled. -/
def Shows (o : Outlets) (s : StageDraft) : Prop := s.outlets = o

theorem keeps_onResources {x : Build σ Resources α}
    (hx : ∀ r, x.Ends r fun _ r' ↦ r'.interStage = r.interStage) :
    (Build.onResources x).Keeps (Shows o) fun _ ↦ True :=
  fun s hs ↦ (ends_onResources (hx s.resources)).mono fun _ _ h ↦ ⟨h.trans hs, trivial⟩

theorem keeps_declareUniform (name : String) (type : ValueType) :
    (declareUniform name type : Build σ StageDraft Variable).Keeps (Shows o) fun _ ↦ True :=
  keeps_onResources (Resources.ends_declareUniform · name type)

/-- An inter-stage value is there already, with its type, if its name is. -/
theorem keeps_declareInterStage {name : String} {type : ValueType}
    (hname : ∃ w ∈ o.interStage, w.name = name) :
    (declareInterStage name type : Build σ StageDraft Variable).Keeps (Shows o) fun v ↦
      v ∈ o.interStage ∧ v.name = name ∧ v.type = type := by
  intro s hs
  obtain rfl : s.outlets = o := hs
  refine .on ((Resources.ends_declareInterStage s.resources name type).mono fun v r h ↦ ?_)
  obtain ⟨hv, ⟨hmem, hr⟩ | ⟨hnew, -⟩⟩ := h
  · exact ⟨outlets_withResources hr, hmem, hv⟩
  · obtain ⟨w, hw, hwname⟩ := hname
    exact (hnew w hw hwname).elim

theorem keeps_declareAttribute (name : String) (type : ValueType) (kind : VariableKind) :
    (declareAttribute name type kind : Build σ StageDraft Variable).Keeps (Shows o)
      fun _ ↦ True :=
  fun s hs ↦ (ends_declareAttribute s name type kind).mono fun _ _ h ↦ ⟨h.1.trans hs, trivial⟩

end StageDraft

/-! ## Scopes -/

/-- The statements of a scope write nothing outside, and what can be seen there is settled. -/
structure ScopeDraft.Inward (o : Outlets) (s : ScopeDraft) : Prop where
  stage : s.stage.Shows o
  statements : ∀ t ∈ s.region.statements, t.Inward

namespace ScopeDraft

variable {s : ScopeDraft} {t : Stmt} {P : α → Prop} {target : Expr} {v : Variable}

theorem Inward.push (hs : s.Inward o) (ht : t.Inward) : (s.push t).Inward o := by
  refine ⟨hs.stage, fun u hu ↦ ?_⟩
  rcases List.mem_append.mp hu with hu | hu
  · exact hs.statements u hu
  · exact List.mem_singleton.mp hu ▸ ht

theorem Inward.opened (hs : s.Inward o) (kind : RegionKind) : (s.stage.opened kind).Inward o :=
  ⟨hs.stage, List.forall_mem_nil _⟩

/-- Back from a scope in it, a scope has the statements that it had. -/
theorem Inward.left (hs : s.Inward o) {inner : ScopeDraft} (hinner : inner.Inward o) :
    (s.withStage inner.leave).Inward o :=
  ⟨hinner.stage, hs.statements⟩

theorem Inward.declareAll (hs : s.Inward o) (vs : List Variable) : (s.declareAll vs).Inward o :=
  ⟨hs.stage, hs.statements⟩

theorem inward_of_root? (hroot : target.root? = some v) (hv : v.Inner) :
    ∀ w ∈ target.root?.toList, w.Inner := by
  intro w hw
  rw [hroot] at hw
  exact List.mem_singleton.mp hw ▸ hv

theorem keeps_onStage {x : Build σ StageDraft α} (hx : x.Keeps (StageDraft.Shows o) P) :
    (Build.onStage x).Keeps (Inward o) P :=
  fun s hs ↦ .on ((hx s.stage hs.stage).mono fun _ _ h ↦ ⟨⟨h.1, hs.statements⟩, h.2⟩)

theorem keeps_onShared {x : Build σ Resources α}
    (hx : ∀ r, x.Ends r fun _ r' ↦ r'.interStage = r.interStage) :
    (Build.onShared x).Keeps (Inward o) fun _ ↦ True :=
  keeps_onStage (StageDraft.keeps_onResources hx)

theorem keeps_bind (init : Expr) :
    (bind init : Build σ ScopeDraft Variable).Keeps (Inward o) Variable.Inner := by
  refine fun s hs ↦ (ends_bind s init).mono fun v s' h ↦ ?_
  obtain ⟨⟨-, hkind⟩, houtlets, hstatements⟩ := h
  have hdeclare : (Stmt.declare v (some init)).Inward :=
    Stmt.inward_of_leaf rfl fun w hw ↦ List.mem_singleton.mp hw ▸ .inl hkind
  refine ⟨⟨houtlets.trans hs.stage, fun t ht ↦ ?_⟩, .inl hkind⟩
  rw [hstatements] at ht
  exact (hs.push hdeclare).statements t ht

theorem keeps_assign (value : Expr) (hroot : target.root? = some v) (hv : v.Inner) :
    (assign target value : Build σ ScopeDraft Unit).Keeps (Inward o) fun _ ↦ True :=
  fun s hs ↦ (ends_assign s target value).mono fun _ _ h ↦
    ⟨h ▸ hs.push (Stmt.inward_of_leaf rfl (inward_of_root? hroot hv)), trivial⟩

theorem keeps_augment (op : AugmentOp) (value : Expr) (hroot : target.root? = some v)
    (hv : v.Inner) :
    (augment target op value : Build σ ScopeDraft Unit).Keeps (Inward o) fun _ ↦ True :=
  fun s hs ↦ (ends_augment s target op value).mono fun _ _ h ↦
    ⟨h ▸ hs.push (Stmt.inward_of_leaf rfl (inward_of_root? hroot hv)), trivial⟩

theorem keeps_set (op : Option AugmentOp) (value : Expr) (hroot : target.root? = some v)
    (hv : v.Inner) :
    (set target op value : Build σ ScopeDraft Unit).Keeps (Inward o) fun _ ↦ True := by
  cases op with
  | none => exact keeps_assign value hroot hv
  | some op => exact keeps_augment op value hroot hv

theorem keeps_discard : (discard : Build σ ScopeDraft Unit).Keeps (Inward o) fun _ ↦ True :=
  fun s hs ↦ (ends_discard s).mono fun _ _ h ↦
    ⟨h ▸ hs.push (Stmt.inward_of_leaf rfl (List.forall_mem_nil _)), trivial⟩

theorem keeps_branch (condition : Expr) {body : Build σ ScopeDraft Unit}
    (hbody : body.Keeps (Inward o) fun _ ↦ True) :
    (branch condition body).Keeps (Inward o) fun _ ↦ True := by
  refine fun s hs ↦ ends_branch s condition ((hbody _ (hs.opened .branch)).mono fun _ t h ↦ ?_)
  have hwithin : (Stmt.branch condition t.region .done).within = t.region.all := by
    rw [Stmt.within, ElseChain.within, List.append_nil]
  have hbranch : (Stmt.branch condition t.region .done).Inward :=
    Stmt.inward_of_body hwithin h.1.statements (List.forall_mem_nil _)
  exact ⟨(hs.left h.1).push hbranch, trivial⟩

end ScopeDraft

/-- The body of a block writes nothing outside but the outputs of the block. -/
structure BlockDraft.Inward (o : Outlets) (b : BlockDraft) : Prop where
  scope : b.scope.Inward o
  outputs : ∀ v ∈ b.outputSlots, v.Inner

namespace BlockDraft

variable {P : α → Prop} {target : Expr} {v : Variable}

theorem keeps_onScope {x : Build σ ScopeDraft α} (hx : x.Keeps (ScopeDraft.Inward o) P) :
    (Build.onScope x).Keeps (Inward o) P :=
  fun b hb ↦ .on ((hx b.scope hb.scope).mono fun _ _ h ↦ ⟨⟨h.1, hb.outputs⟩, h.2⟩)

theorem keeps_bind (init : Expr) :
    (Build.onScope (ScopeDraft.bind init) : Build σ BlockDraft Variable).Keeps (Inward o)
      Variable.Inner :=
  keeps_onScope (ScopeDraft.keeps_bind init)

/-- An assignment to a variable as a whole. -/
theorem keeps_store (hv : v.Inner) (value : Expr) :
    (Build.onScope (ScopeDraft.assign (.var v) value) : Build σ BlockDraft Unit).Keeps (Inward o)
      fun _ ↦ True :=
  keeps_onScope (ScopeDraft.keeps_assign value rfl hv)

theorem keeps_augment (op : AugmentOp) (value : Expr) (hroot : target.root? = some v)
    (hv : v.Inner) :
    (Build.onScope (ScopeDraft.augment target op value) : Build σ BlockDraft Unit).Keeps
      (Inward o) fun _ ↦ True :=
  keeps_onScope (ScopeDraft.keeps_augment op value hroot hv)

theorem keeps_declareAttribute (name : String) (type : ValueType) (kind : VariableKind) :
    (Build.onScope (Build.onStage (StageDraft.declareAttribute name type kind)) :
      Build σ BlockDraft Variable).Keeps (Inward o) fun _ ↦ True :=
  keeps_onScope (ScopeDraft.keeps_onStage (StageDraft.keeps_declareAttribute name type kind))

theorem keeps_input (name : String) (type : ValueType) (value : Option Expr) :
    (input name type value : Build σ BlockDraft Variable).Keeps (Inward o) fun _ ↦ True := by
  refine fun b hb ↦ (ends_input b name type value).mono fun v b' h ↦ ?_
  obtain ⟨-, houtlets, hstatements, houtputs⟩ := h
  exact ⟨⟨⟨houtlets.trans hb.scope.stage, hstatements ▸ hb.scope.statements⟩,
    houtputs ▸ hb.outputs⟩, trivial⟩

theorem keeps_output (name : String) (type : ValueType) :
    (output name type : Build σ BlockDraft Variable).Keeps (Inward o) Variable.Inner := by
  refine fun b hb ↦ (ends_output b name type).mono fun v b' h ↦ ?_
  obtain ⟨hkind, houtlets, hstatements, houtputs⟩ := h
  refine ⟨⟨⟨houtlets.trans hb.scope.stage, hstatements ▸ hb.scope.statements⟩, fun w hw ↦ ?_⟩,
    .inr hkind⟩
  rw [houtputs] at hw
  rcases List.mem_append.mp hw with hw | hw
  · exact hb.outputs w hw
  · exact List.mem_singleton.mp hw ▸ .inr hkind

end BlockDraft

theorem ScopeDraft.keeps_block (kind : String) {build : Build σ BlockDraft α} {P : α → Prop}
    (hbuild : build.Keeps (BlockDraft.Inward o) P) : (block kind build).Keeps (Inward o) P := by
  intro s hs
  have hnew : (s.newBlock kind).Inward o := ⟨⟨hs.stage, List.forall_mem_nil _⟩,
    List.forall_mem_nil _⟩
  refine ends_block s kind ((hbuild _ hnew).mono fun a b h ↦ ?_)
  have hblock : (Stmt.block (b.toBlock (s.newBlock kind).name kind)).Inward :=
    Stmt.inward_of_body rfl h.1.scope.statements h.1.outputs
  exact ⟨((hs.left h.1.scope).declareAll b.outputSlots).push hblock, h.2⟩

end ShaderGraph
