import ShaderGraph.Proofs.Script.Reached

/-!
# Outputs of blocks

A block checks its outputs by the write sets of the statements at the top
level of its body. Since these sets see all writes in the tree of a statement,
a block is built if and only if each of its outputs is written once, by an
assignment of the whole variable at the top level.
-/

namespace ShaderGraph

/-- A variable is written once in some statements: by an assignment of the whole variable among
them, and nowhere else in their tree. -/
def WrittenOnce (ss : List Stmt) (v : Variable) : Prop :=
  ∃ pre value post, ss = pre ++ .assign (.var v) value :: post ∧ ¬WritesWithin pre v ∧
    ¬WritesWithin post v

theorem writesWithin_iff_exists_mem {ss : List Stmt} {v : Variable} :
    WritesWithin ss v ↔ ∃ s ∈ ss, WritesWithin [s] v := by
  constructor
  · rintro ⟨path, t, ht, hv⟩
    obtain ⟨s, hs, ht⟩ := ht.exists_mem
    exact ⟨s, hs, path, t, ht, hv⟩
  · rintro ⟨s, hs, path, t, ht, hv⟩
    exact ⟨path, t, ht.mono fun u hu ↦ List.mem_singleton.mp hu ▸ hs, hv⟩

section Tree

variable {V : List Variable} {k : StageKind} {chain : List ScopeId} {ss : List Stmt} {v : Variable}

/-- The write set of a statement has a variable from outside exactly if the variable is written in
its tree. -/
theorem WellScoped.contains_writes_iff (hV : Distinct V) (h : WellScoped V k chain ss)
    (hv : v ∈ V) (hreach : v.InReach k chain) {s : Stmt} (hs : s ∈ ss) :
    s.writes.contains v = true ↔ WritesWithin [s] v := by
  have h' := h.of_mem hs
  have hwrites := gathers_writes (k := k) hV
  rw [← VarSet.mem_iff_contains hV (fun w hw ↦ h'.mem_of_mem_writes hw) hv]
  constructor
  · intro hmem
    obtain ⟨path, t, ht, hown, -⟩ := hwrites.exists_own h' hv hmem
    exact ⟨path, t, ht, hown⟩
  · rintro ⟨path, t, ht, hown⟩
    have hhidden : ¬DeclaresWithin [s] v := by
      rintro ⟨r, hr, hdecl⟩
      have hid : r.id ∈ ([] : List ScopeId) := h'.id_mem_of_inReach hr hdecl hreach
      cases hid
    exact (hwrites.of_own h' hv ht hown).resolve_right hhidden

/-- A statement that assigns a variable as a whole is an assignment to it. -/
theorem Stmt.Placed.assignsWhole_iff (hV : Distinct V) (hv : v ∈ V) {s : Stmt}
    (hs : s.Placed V k chain) :
    s.assignsWhole v = true ↔ ∃ value, s = .assign (.var v) value := by
  constructor
  · intro h
    unfold Stmt.assignsWhole at h
    split at h
    · next w value =>
      have hw : w ∈ V := (hs.operands (.var w) List.mem_cons_self w List.mem_cons_self).1
      obtain rfl := hV w hw v hv (by simpa using h)
      exact ⟨value, rfl⟩
    · cases h
  · rintro ⟨value, rfl⟩
    simp [Stmt.assignsWhole]

theorem WellScoped.outputCheck_eq_ok_iff (hV : Distinct V) {b : Block} {out : BlockOutput}
    (h : WellScoped V k chain b.body.statements) (hv : out.slot ∈ V)
    (hreach : out.slot.InReach k chain) :
    b.outputCheck out = .ok () ↔ WrittenOnce b.body.statements out.slot := by
  have hother {us : List Stmt} (hus : ∀ u ∈ us, u ∈ b.body.statements) :
      (∀ u ∈ us, ¬u.writes.contains out.slot = true) ↔ ¬WritesWithin us out.slot := by
    rw [writesWithin_iff_exists_mem]
    push Not
    exact forall₂_congr fun u hu ↦ not_congr (h.contains_writes_iff hV hv hreach (hus u hu))
  rw [Block.outputCheck_eq_ok_iff]
  constructor
  · rintro ⟨pre, t, post, heq, ⟨-, hwhole⟩, hpre, hpost⟩
    have ht : t ∈ b.body.statements := by simp [heq]
    obtain ⟨value, rfl⟩ := ((h.placed_of_mem ht).assignsWhole_iff hV hv).mp hwhole
    refine ⟨pre, value, post, heq, (hother ?_).mp hpre, (hother ?_).mp hpost⟩
    · exact fun u hu ↦ by simp [heq, hu]
    · exact fun u hu ↦ by simp [heq, hu]
  · rintro ⟨pre, value, post, heq, hpre, hpost⟩
    have ht : Stmt.assign (.var out.slot) value ∈ b.body.statements := by simp [heq]
    refine ⟨pre, _, post, heq, ⟨?_, ?_⟩, (hother ?_).mpr hpre, (hother ?_).mpr hpost⟩
    · exact (h.contains_writes_iff hV hv hreach ht).mpr
        ⟨[], _, .here List.mem_cons_self, List.mem_singleton.mpr rfl⟩
    · exact ((h.placed_of_mem ht).assignsWhole_iff hV hv).mpr ⟨value, rfl⟩
    · exact fun u hu ↦ by simp [heq, hu]
    · exact fun u hu ↦ by simp [heq, hu]

end Tree

/-! ## Blocks of scripts -/

/-- What builds the body of a block in a step of a script: steps of its own, or the kit with values
of the right types. -/
inductive BlockBody (l : Ledger) : {α : Type} → Scripted BlockDraft α → Prop
  | steps (body : List BlockStep) : BlockBody l (do
      BlockStep.runAll body
      return (← Build.draft).name)
  | armature {weights joints : Term} {w j : Expr} (hw : weights.evalAs l (.float .four) = .ok w)
      (hj : joints.evalAs l (.int .four) = .ok j) (maxBones : Nat) :
      BlockBody l (ArmatureBlend.mk w j maxBones).body
  | morph {position normal tangent : Term} {p n t : Expr}
      (hp : position.evalAs l (.float .three) = .ok p)
      (hn : normal.evalAs l (.float .three) = .ok n)
      (ht : tangent.evalAs l (.float .four) = .ok t) (attributes : List String) :
      BlockBody l (MorphBlend.mk attributes p n t).body
  | displacement (sources : List PropertySource) :
      BlockBody l (Source.mixBody "outProperty" .one PropertyValue.expr sources)
  | colorVertex (passed : List (String × ValueType)) : BlockBody l (ColorSource.passAll [] passed)
  | color (sources : List ColorSource) : BlockBody l (ColorSource.body sources)
  | vertex {model position : Term} {normal tangent : Option Term} {m p : Expr} {n t : Option Expr}
      (hm : model.evalAs l (.matrix .four) = .ok m)
      (hp : position.evalAs l (.float .three) = .ok p)
      (hn : Term.evalOptionalAs l (.float .three) normal = .ok n)
      (ht : Term.evalOptionalAs l (.float .four) tangent = .ok t) (config : VertexConfig) :
      BlockBody l (VertexTransform.mk config m p n t).body

theorem BlockBody.traced {l : Ledger} {R : Registry} {α : Type} {build : Scripted BlockDraft α}
    (h : BlockBody l build) (hl : l.Known R) :
    ∃ Q, Traced Ledger.client R build Q := by
  have hany (ts : List Term) : ∀ t ∈ ts, t ∈ Set.univ := fun t _ ↦ Set.mem_univ t
  cases h with
  | steps body =>
    exact ⟨fun _ _ ↦ True, (BlockStep.runs_runAll body (hany _) R).bind fun _ _ _ _ ↦
      Traced.getDraft.bind fun _ _ _ _ ↦ .pure fun _ _ ↦ trivial⟩
  | armature hw hj maxBones =>
    exact ⟨_, ArmatureBlend.traced_body (Term.known_evalAs hl (hany _) hw).1
      (Term.known_evalAs hl (hany _) hj).1⟩
  | morph hp hn ht attributes =>
    refine ⟨_, MorphBlend.traced_body ?_⟩
    intro e he
    simp only [List.mem_cons, List.not_mem_nil, or_false] at he
    rcases he with rfl | rfl | rfl
    · exact (Term.known_evalAs hl (hany _) hp).1
    · exact (Term.known_evalAs hl (hany _) hn).1
    · exact (Term.known_evalAs hl (hany _) ht).1
  | displacement sources =>
    exact ⟨_, Source.traced_mixBody (fun _ ↦ PropertyValue.traced_expr) sources⟩
  | colorVertex passed => exact ⟨_, ColorSource.traced_passAll [] passed⟩
  | color sources => exact ⟨_, ColorSource.traced_body sources⟩
  | vertex hm hp hn ht config =>
    exact ⟨_, VertexTransform.traced_body {
      model := (Term.known_evalAs hl (hany _) hm).1
      position := (Term.known_evalAs hl (hany _) hp).1
      normal := Term.known_evalOptionalAs hl (hany _) hn
      tangent := Term.known_evalOptionalAs hl (hany _) ht }⟩

namespace ScopeDraft

variable {s : ScopeDraft} {l l' : Ledger} {α : Type} {build : Scripted BlockDraft α} {a : α}
  {b : BlockDraft}

/-- A block whose body is built without an error is built exactly if its outputs pass. -/
theorem block_ok_iff_outputsCheck (kind : String)
    (hrun : build (s.newBlock kind, l) = .ok a (b, l')) (hend : b.scope.deferred = none) :
    (∃ state, block kind build (s, l) = .ok a state) ↔
      (b.toBlock (s.newBlock kind).name kind).outputsCheck b.interface.outputs = .ok () := by
  rw [block_apply, hrun]
  simp only [hend]
  cases (b.toBlock (s.newBlock kind).name kind).outputsCheck b.interface.outputs <;> simp

/-- A block whose body is built without an error, in whatever scope, is built exactly if each of
its outputs is written once in the body. -/
theorem block_ok_iff_writtenOnce (hs : Reached (.scope s) l) (hbuild : BlockBody l build)
    (kind : String) (hrun : build (s.newBlock kind, l) = .ok a (b, l'))
    (hend : b.scope.deferred = none) : (∃ state, block kind build (s, l) = .ok a state) ↔
      ∀ out ∈ b.interface.outputs, WrittenOnce b.scope.region.statements out.slot := by
  obtain ⟨R, hl, hd⟩ := hs.sound
  obtain ⟨Q, htraced⟩ := hbuild.traced hl
  have hR := Registry.le_addBody R (s.newBlock kind).name
  have hstart : (s.newBlock kind).Invariant (R.addBody (s.newBlock kind).name) :=
    ScopeDraft.Invariant.newBlock hd kind
  have hfollows := htraced _ hR (s.newBlock kind) l hstart (hl.mono hR)
  rw [hrun] at hfollows
  obtain ⟨R', hev, -⟩ := hfollows
  have hb : b.Invariant R' := hev.invariant hstart
  have hV : Distinct R'.vars := hb.scope.stage.fits.distinct
  rw [block_ok_iff_outputsCheck kind hrun hend, Block.outputsCheck_eq_ok_iff]
  apply forall₂_congr
  intro out hout
  -- An output belongs to the scope around the block, and this is in reach of the body.
  obtain ⟨hmem, hscope⟩ := hb.outputs out hout
  obtain ⟨frame, rest, hframes, hparent⟩ := hb.parent
  refine (hb.scope.statements hend).outputCheck_eq_ok_iff hV hmem (.inr (.inr ?_))
  rw [hscope, ← hparent, chain, hframes]
  simp

end ScopeDraft

/-- The body of a block that assigns its output behind a loop. -/
def assigningBody : Scripted BlockDraft String := do
  BlockStep.runAll [
    .output "out" (.int .one) [some "out"],
    .scope (.loopWhile (.lit (.bool1 true)) [.act (.bind (.lit (.int1 1))) [some "x"]]),
    .scope (.act (.assign (.var "out") (.lit (.int1 2))) [])]
  return (← Build.draft).name

theorem ScopeDraft.block_ok_iff_writtenOnce_assigning : ∃ a b l',
    assigningBody (emptyMain.newBlock "sum", .empty) = .ok a (b, l') ∧
      (b.scope.deferred = none ∧ b.interface.outputs.length = 1) ∧
        ((∃ state, block "sum" assigningBody (emptyMain, .empty) = .ok a state) ↔
          ∀ out ∈ b.interface.outputs, WrittenOnce b.scope.region.statements out.slot) := by
  have hscope := reached_emptyMain
  have hrun : (match assigningBody (emptyMain.newBlock "sum", .empty) with
      | .ok _ (b, _) => b.scope.deferred.isNone && b.interface.outputs.length == 1
      | .error _ _ => false) = true := by decide +kernel
  rcases h : assigningBody (emptyMain.newBlock "sum", .empty) with ⟨a, b, l'⟩ | ⟨e, b, l'⟩
  · simp only [h, Bool.and_eq_true, Option.isNone_iff_eq_none, beq_iff_eq] at hrun
    exact ⟨a, b, l', rfl, hrun, block_ok_iff_writtenOnce hscope (.steps _) "sum" h hrun.1⟩
  · simp [h] at hrun

end ShaderGraph
