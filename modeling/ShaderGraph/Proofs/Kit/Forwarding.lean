import ShaderGraph.Proofs.Kit.Inward

/-!
# Attributes that are passed on

The block of the vertex stage that passes attributes on makes one inter-stage
value for each name and assigns the attribute of this name to it. That a name
was met before is known from the names passed so far, and since inter-stage
values are named after their attributes it is also known from the table.
-/

namespace ShaderGraph

variable {σ : Type} {o : Outlets}

/-- Different attributes are passed on by different inter-stage values. -/
theorem interStageName_injective : Function.Injective interStageName := by
  intro a b h
  have hlist := congrArg String.toList h
  simp only [interStageName, String.toList_append] at hlist
  exact String.toList_inj.mp (List.append_cancel_left hlist)

/-- An attribute of the vertex stage and the inter-stage value that passes it on. -/
structure Passage where
  source : Variable
  value : Variable

namespace Passage

/-- The attribute as it is asked for. -/
def carried (p : Passage) : String × ValueType := (p.source.name, p.source.type)

def stmt (p : Passage) : Stmt := .assign (.var p.value) (.var p.source)

/-- An inter-stage value that has the name and the type of an attribute from a table. -/
structure Sound (attributes : List Variable) (p : Passage) : Prop where
  mem : p.source ∈ attributes
  source : p.source.kind = .vertexAttribute
  value : p.value.kind = .interStage
  brings : p.value.Brings p.carried

theorem Sound.mono {attributes attributes' : List Variable} {p : Passage} (h : p.Sound attributes)
    (hsub : attributes ⊆ attributes') : p.Sound attributes' :=
  { h with mem := hsub h.mem }

end Passage

/-- The body of a block has passed attributes on and done nothing else that is seen outside. -/
structure BlockDraft.Passed (o : Outlets) (ps : List Passage) (b : BlockDraft) : Prop where
  outlets : b.scope.stage.outlets = { o with interStage := ps.map Passage.value }
  statements : b.scope.region.statements = ps.map Passage.stmt
  outputs : b.outputSlots = []
  sound : ∀ p ∈ ps, p.Sound b.scope.stage.attributes
  names : (ps.map (·.value.name)).Nodup

namespace BlockDraft

variable {b : BlockDraft} {ps : List Passage}

theorem Passed.interStage (hb : b.Passed o ps) :
    b.scope.stage.resources.interStage = ps.map Passage.value :=
  congrArg Outlets.interStage hb.outlets

theorem ends_sourceAttribute (hb : b.Passed o ps) (name : String) (type : ValueType) :
    (Build.onScope (Build.onStage (StageDraft.declareAttribute name type .vertexAttribute)) :
      Build σ BlockDraft Variable).Ends b fun v b' ↦ b'.Passed o ps ∧
        (v.name = name ∧ v.type = type ∧ v.kind = .vertexAttribute) ∧
          v ∈ b'.scope.stage.attributes := by
  refine .on (.on ((StageDraft.ends_declareAttribute _ name type _).mono fun v s h ↦ ?_))
  obtain ⟨houtlets, hv, hmem, hsub⟩ := h
  exact ⟨⟨houtlets.trans hb.outlets, hb.statements, hb.outputs,
    fun p hp ↦ (hb.sound p hp).mono hsub, hb.names⟩, hv, hmem⟩

/-- An inter-stage value for an attribute that was not passed on yet is new. -/
theorem ends_passedOn (hb : b.Passed o ps) {name : String} (type : ValueType)
    (hnew : ∀ p ∈ ps, p.source.name ≠ name) :
    (Build.onScope (Build.onStage (StageDraft.declareInterStage (interStageName name) type)) :
      Build σ BlockDraft Variable).Ends b fun v b' ↦
        (v.Brings (name, type) ∧ v.kind = .interStage ∧
          ∀ p ∈ ps, p.value.name ≠ v.name) ∧
        ∃ r, r.interStage = ps.map Passage.value ++ [v] ∧
          b' = { b with scope := b.scope.withResources r } := by
  refine .on (.on (.on ((Resources.ends_declareInterStage _ _ type).mono fun v r h ↦ ?_)))
  rw [hb.interStage] at h
  have hnames : ∀ p ∈ ps, p.value.name ≠ interStageName name := fun p hp heq ↦
    hnew p hp (interStageName_injective ((hb.sound p hp).brings.1.symm.trans heq))
  obtain ⟨hv, ⟨hmem, -⟩ | ⟨-, hkind, hr⟩⟩ := h
  · obtain ⟨p, hp, rfl⟩ := List.mem_map.mp hmem
    exact (hnames p hp hv.1).elim
  · exact ⟨⟨hv, hkind, fun p hp ↦ hv.1 ▸ hnames p hp⟩, r, hr, rfl⟩

theorem Passed.pass (hb : b.Passed o ps) {p : Passage} {r : Resources}
    (hp : p.Sound b.scope.stage.attributes) (hnew : ∀ q ∈ ps, q.value.name ≠ p.value.name)
    (hr : r.interStage = ps.map Passage.value ++ [p.value]) :
    { b with scope := (b.scope.withResources r).push p.stmt }.Passed o (ps ++ [p]) where
  outlets := by
    have houtlets : (b.scope.stage.withResources r).outlets =
        { b.scope.stage.outlets with interStage := r.interStage } := rfl
    rw [List.map_append, List.map_singleton, ← hr]
    exact houtlets.trans (by rw [hb.outlets])
  statements := by
    rw [List.map_append, List.map_singleton, ← hb.statements]
    rfl
  outputs := hb.outputs
  sound := by
    intro q hq
    rcases List.mem_append.mp hq with hq | hq
    · exact hb.sound q hq
    · exact List.mem_singleton.mp hq ▸ hp
  names := by
    rw [List.map_append, List.map_singleton, List.nodup_append]
    refine ⟨hb.names, List.nodup_singleton _, fun n hn m hm ↦ ?_⟩
    obtain ⟨q, hq, rfl⟩ := List.mem_map.mp hn
    exact List.mem_singleton.mp hm ▸ hnew q hq

end BlockDraft

namespace ColorSource

/-- What is asked for is passed on under its name, once for each name, and nothing else is. -/
theorem ends_passAll (attributes : List (String × ValueType)) {passed : List String}
    {ps : List Passage} {b : BlockDraft} (hb : b.Passed o ps)
    (hpassed : ∀ n, n ∈ passed ↔ ∃ p ∈ ps, p.source.name = n) :
    (passAll passed attributes : Build σ BlockDraft Unit).Ends b fun _ b' ↦
      ∃ ps', b'.Passed o (ps ++ ps') ∧ (∀ p ∈ ps', p.carried ∈ attributes) ∧
        ∀ a ∈ attributes, ∃ p ∈ ps ++ ps', p.source.name = a.1 := by
  induction attributes generalizing passed ps b with
  | nil =>
    exact .pure ⟨[], (List.append_nil ps).symm ▸ hb, List.forall_mem_nil _, List.forall_mem_nil _⟩
  | cons a rest ih =>
    obtain ⟨name, type⟩ := a
    rw [passAll]
    by_cases hmet : passed.contains name = true
    · rw [if_pos hmet]
      obtain ⟨p, hp, hname⟩ := (hpassed name).mp (List.contains_iff_mem.mp hmet)
      refine (ih hb hpassed).mono fun _ b' h ↦ ?_
      obtain ⟨ps', hb', hcarried, hall⟩ := h
      refine ⟨ps', hb', fun q hq ↦ List.mem_cons_of_mem _ (hcarried q hq), ?_⟩
      exact List.forall_mem_cons.mpr ⟨⟨p, List.mem_append_left _ hp, hname⟩, hall⟩
    · rw [if_neg hmet]
      have hnew : ∀ p ∈ ps, p.source.name ≠ name := fun p hp hname ↦
        hmet (List.contains_iff_mem.mpr ((hpassed name).mpr ⟨p, hp, hname⟩))
      refine (BlockDraft.ends_sourceAttribute hb name type).bind fun source b₁ h₁ ↦ ?_
      obtain ⟨hb₁, ⟨rfl, rfl, hsource⟩, hmem⟩ := h₁
      refine (BlockDraft.ends_passedOn hb₁ _ hnew).bind fun value b₂ h₂ ↦ ?_
      obtain ⟨⟨hbrings, hvalue, hdistinct⟩, r, hr, rfl⟩ := h₂
      have hb₃ := hb₁.pass (p := ⟨source, value⟩) ⟨hmem, hsource, hvalue, hbrings⟩ hdistinct hr
      refine Build.Yields.bind (P := fun _ b₃ ↦ b₃.Passed o (ps ++ [⟨source, value⟩]))
        (.on ((ScopeDraft.ends_assign _ _ _).mono fun _ s h ↦ ?_)) fun _ b₃ hb₃ ↦ ?_
      · rw [h]
        exact hb₃
      refine (ih hb₃ fun n ↦ ?_).mono fun _ b' h ↦ ?_
      · rw [List.mem_cons, hpassed]
        simp only [List.mem_append, List.mem_singleton, or_and_right, exists_or, exists_eq_left]
        exact or_comm.trans (or_congr_right eq_comm)
      · obtain ⟨ps', hb', hcarried, hall⟩ := h
        rw [List.append_assoc, List.singleton_append] at hb' hall
        refine ⟨⟨source, value⟩ :: ps', hb',
          List.forall_mem_cons.mpr ⟨List.mem_cons_self, fun q hq ↦ .tail _ (hcarried q hq)⟩,
          List.forall_mem_cons.mpr ⟨?_, hall⟩⟩
        exact ⟨⟨source, value⟩, by simp, rfl⟩

/-- The attributes that color sources ask for, as often as they do. -/
def asked (sources : List ColorSource) : List (String × ValueType) :=
  sources.filterMap (·.kind.attribute?)

/-- Some inter-stage values pass on all that color sources ask for, and nothing else. -/
structure Covers (sources : List ColorSource) (attributes : List Variable) (ps : List Passage) :
    Prop where
  sound : ∀ p ∈ ps, p.Sound attributes
  carried : ∀ p ∈ ps, p.carried ∈ asked sources
  complete : ∀ a ∈ asked sources, ∃ p ∈ ps, p.source.name = a.1
  names : (ps.map (·.value.name)).Nodup

/-- The block in the vertex stage has no outputs, and its statements pass attributes on. -/
theorem ends_vertexBlock (sources : List ColorSource) {s : ScopeDraft} (hs : s.Inward o)
    (hempty : o.interStage = []) :
    (vertexBlock sources : Build σ ScopeDraft Unit).Ends s fun _ s' ↦
      ∃ (ps : List Passage) (b : Block), Covers sources s'.stage.attributes ps ∧
        s'.stage.outlets = { o with interStage := ps.map Passage.value } ∧
          (b.outputs = [] ∧ b.body.statements = ps.map Passage.stmt) ∧
            s'.region.statements = s.region.statements ++ [.block b] := by
  have hnew : (s.newBlock "colorVertexBlock").Passed o [] := by
    refine ⟨?_, rfl, rfl, List.forall_mem_nil _, .nil⟩
    exact hs.stage.trans (congrArg (Outlets.mk o.kind · o.outputs o.builtins o.functions) hempty)
  refine ScopeDraft.ends_block s _ ((ends_passAll _ hnew (by simp)).mono fun _ b h ↦ ?_)
  obtain ⟨ps, hb, hcarried, hcomplete⟩ := h
  rw [List.nil_append] at hb hcomplete
  have houtputs : b.interface.outputs = [] := List.map_eq_nil_iff.mp hb.outputs
  exact ⟨ps, b.toBlock (s.newBlock "colorVertexBlock").name "colorVertexBlock",
    ⟨hb.sound, hcarried, hcomplete, hb.names⟩, hb.outlets, ⟨houtputs, hb.statements⟩, rfl⟩

end ColorSource

end ShaderGraph
