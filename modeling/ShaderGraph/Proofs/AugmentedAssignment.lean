import Mathlib.Data.List.Sort
import ShaderGraph.Proofs.BlockOutputs

/-!
# Augmented assignments

An augmented assignment checks its target, its value and the operation apart, and
reads the old value through the target. The assignment of the joined expression
checks the same, in another order, and reads the old value as a part of the
expression. Indices that mention the assigned variable are read either way.
-/

namespace ShaderGraph

variable {V : List Variable} {target value e : Expr} {op : AugmentOp}

namespace VarSet

/-- A set of variables from a stock is given by the numbers in it. -/
theorem eq_of_contains_iff (hV : Distinct V) {s t : VarSet} (hs : ∀ v ∈ s, v ∈ V)
    (ht : ∀ v ∈ t, v ∈ V) (h : ∀ v ∈ V, s.contains v = true ↔ t.contains v = true) : s = t := by
  have hmem (v : Variable) : v ∈ s.toList ↔ v ∈ t.toList := by
    constructor
    · intro hv
      have hstock := hs v hv
      exact (mem_iff_contains hV ht hstock).mpr
        ((h v hstock).mp ((mem_iff_contains hV hs hstock).mp hv))
    · intro hv
      have hstock := ht v hv
      exact (mem_iff_contains hV hs hstock).mpr
        ((h v hstock).mpr ((mem_iff_contains hV ht hstock).mp hv))
  have : Std.Antisymm fun v w : Variable ↦ v.id < w.id := ⟨fun _ _ h h' ↦ absurd h h'.asymm⟩
  have : Std.Irrefl fun v w : Variable ↦ v.id < w.id := ⟨fun v ↦ Nat.lt_irrefl v.id⟩
  have hlist := s.sorted.eq_of_mem_iff t.sorted hmem
  cases s
  cases t
  obtain rfl := hlist
  rfl

end VarSet

theorem Expr.join_eq_ok {op : BinaryOp} {a b : Expr} : join op a b = .ok e ↔
    ∃ t, op.resultType a.type b.type = .ok t ∧ e = binary t op a b := by
  unfold join
  split
  · next t h => simp [h, eq_comm]
  · next h => simp [h]

namespace Stmt

/-- Whether the old value is read through the target or as a part of the value is the same. -/
theorem reads_augment (hV : Distinct V) (htarget : ∀ v ∈ target.vars, v ∈ V)
    (hvalue : ∀ v ∈ value.vars, v ∈ V) {root : Variable} (hroot : target.root? = some root)
    (t : ValueType) :
    (augment target op value).reads = (assign target (.binary t op.binary target value)).reads := by
  have hmentioned {v : Variable} : v ∈ target.vars ↔ v = root ∨ v ∈ target.indexVariables :=
    Expr.mem_vars_iff_of_root? hroot
  have hindices : ∀ v ∈ target.indexVariables, v ∈ V :=
    fun v hv ↦ htarget v (hmentioned.mpr (.inr hv))
  refine VarSet.eq_of_contains_iff hV (fun v hv ↦ ?_) (fun v hv ↦ ?_) fun v hv ↦ ?_
  · rcases Expr.mem_of_mem_addTargetReads hroot hv with ⟨-, rfl⟩ | hv | hv
    · exact htarget v (hmentioned.mpr (.inl rfl))
    · exact hindices v hv
    · exact hvalue v (Expr.mem_vars_of_mem_reads hv)
  · rcases Expr.mem_of_mem_addTargetReads hroot hv with ⟨h, -⟩ | hv | hv
    · cases h
    · exact hindices v hv
    · exact (List.mem_append.mp (Expr.mem_vars_of_mem_reads hv)).elim (htarget v) (hvalue v)
  · have hold : root.id = v.id ↔ v = root :=
      ⟨fun h ↦ (hV root (htarget root (hmentioned.mpr (.inl rfl))) v hv h).symm, fun h ↦ h ▸ rfl⟩
    simp only [reads, Expr.contains_addTargetReads hroot, Expr.contains_reads, Expr.vars,
      List.any_append, Bool.or_eq_true, Bool.true_and, Bool.false_and, Bool.false_eq_true,
      false_or, beq_iff_eq, hold, hV.any_id_iff htarget hv, hmentioned, hV.any_id_iff hindices hv]
    tauto

theorem writes_augment (t : ValueType) :
    (augment target op value).writes =
      (assign target (.binary t op.binary target value)).writes := rfl

end Stmt

namespace ScopeDraft

variable {σ : Type} {s : ScopeDraft} {c : σ}

theorem readsCheck_eq_ok : s.readsCheck e = .ok () ↔ ∀ v ∈ e.reads, s.stage.sees v = true := by
  have hunseen : s.unseen? e = none ↔ ∀ v ∈ e.reads, s.stage.sees v = true := by
    simp [unseen?, Membership.mem]
  rw [← hunseen]
  unfold readsCheck
  split <;> simp [*]

/-- A joined expression may be read exactly if its operands may. -/
theorem readsCheck_binary_eq_ok (hV : Distinct V) (htarget : ∀ v ∈ target.vars, v ∈ V)
    (hvalue : ∀ v ∈ value.vars, v ∈ V) (t : ValueType) (op : BinaryOp) :
    s.readsCheck (.binary t op target value) = .ok () ↔
      s.readsCheck target = .ok () ∧ s.readsCheck value = .ok () := by
  have hboth : ∀ v ∈ (Expr.binary t op target value).vars, v ∈ V :=
    fun v hv ↦ (List.mem_append.mp hv).elim (htarget v) (hvalue v)
  simp only [readsCheck_eq_ok, Expr.mem_reads_iff hV hboth, Expr.mem_reads_iff hV htarget,
    Expr.mem_reads_iff hV hvalue, Expr.vars, List.mem_append, or_imp, forall_and]

/-- A statement behind a check is added exactly if the check passes. -/
theorem check_add_eq_ok (check : ScopeDraft → Except BuildError Unit) (stmt : Stmt)
    {st : ScopeDraft × σ} :
    (do let s ← Build.draft; Build.ofExcept (check s); add stmt : Build σ ScopeDraft Unit) (s, c) =
      .ok () st ↔ check s = .ok () ∧ st = (s.push stmt, c) := by
  rw [Build.bind_ok (show Build.draft (s, c) = .ok s (s, c) from rfl)]
  rcases check s with e | ⟨⟨⟩⟩
  · simp [Build.bind_error (show Build.ofExcept (.error e) (s, c) = .error e (s, c) from rfl)]
  · rw [Build.bind_ok (show Build.ofExcept (.ok ()) (s, c) = .ok () (s, c) from rfl)]
    simp [add, Build.change, eq_comm]

theorem assign_eq_ok {st : ScopeDraft × σ} : assign target value (s, c) = .ok () st ↔
    s.assignCheck target value = .ok () ∧ st = (s.push (.assign target value), c) :=
  check_add_eq_ok (assignCheck · target value) (.assign target value)

theorem augment_eq_ok {st : ScopeDraft × σ} : augment target op value (s, c) = .ok () st ↔
    s.augmentCheck target op value = .ok () ∧ st = (s.push (.augment target op value), c) :=
  check_add_eq_ok (augmentCheck · target op value) (.augment target op value)

/-- Both assignments check the target, that the operation keeps its type, and that the value may
be read. The joined expression reads the target as well, but so did the check of the target. -/
theorem augmentCheck_eq_ok_iff_join (hV : Distinct V) (htarget : ∀ v ∈ target.vars, v ∈ V)
    (hvalue : ∀ v ∈ value.vars, v ∈ V) :
    s.augmentCheck target op value = .ok () ↔
      ∃ joined, Expr.join op.binary target value = .ok joined ∧
        s.assignCheck target joined = .ok () := by
  rw [augmentCheck_eq_ok]
  constructor
  · rintro ⟨hcheck, htype, hreads⟩
    refine ⟨_, Expr.join_eq_ok.mpr ⟨_, htype, rfl⟩, assignCheck_eq_ok.mpr ⟨hcheck, rfl, ?_⟩⟩
    exact (readsCheck_binary_eq_ok hV htarget hvalue _ _).mpr
      ⟨(root_of_targetCheck hcheck).2, hreads⟩
  · rintro ⟨joined, hjoin, hassign⟩
    obtain ⟨t, htype, rfl⟩ := Expr.join_eq_ok.mp hjoin
    obtain ⟨hcheck, rfl, hreads⟩ := assignCheck_eq_ok.mp hassign
    exact ⟨hcheck, htype, ((readsCheck_binary_eq_ok hV htarget hvalue _ _).mp hreads).2⟩

variable {l : Ledger} {a b : Term}

/-- An augmented assignment is accepted exactly if the assignment of the joined expression is, and
the statements that they add read and write the same. -/
theorem augment_ok_iff_assign_joined (hs : Reached (.scope s) l) (ha : a.eval l = .ok target)
    (hb : b.eval l = .ok value) (op : AugmentOp) :
    ((∃ st, augment target op value (s, l) = .ok () st) ↔
      ∃ joined, Expr.join op.binary target value = .ok joined ∧
        ∃ st, assign target joined (s, l) = .ok () st) ∧
    ∀ joined st st', augment target op value (s, l) = .ok () st →
      Expr.join op.binary target value = .ok joined → assign target joined (s, l) = .ok () st' →
        st = (s.push (.augment target op value), l) ∧ st' = (s.push (.assign target joined), l) ∧
          (Stmt.augment target op value).reads = (Stmt.assign target joined).reads ∧
          (Stmt.augment target op value).writes = (Stmt.assign target joined).writes := by
  obtain ⟨R, hl, hinvariant⟩ := hs.sound
  have hR : Distinct R.vars := (Invariant.stage hinvariant).fits.distinct
  have htarget : ∀ v ∈ target.vars, v ∈ R.vars :=
    fun v ↦ (Term.known_eval hl a (fun _ _ ↦ trivial) ha).mem_vars
  have hvalue : ∀ v ∈ value.vars, v ∈ R.vars :=
    fun v ↦ (Term.known_eval hl b (fun _ _ ↦ trivial) hb).mem_vars
  constructor
  · simpa [augment_eq_ok, assign_eq_ok] using augmentCheck_eq_ok_iff_join hR htarget hvalue
  · intro joined st st' haugment hjoin hassign
    obtain ⟨hcheck, rfl⟩ := augment_eq_ok.mp haugment
    obtain ⟨-, rfl⟩ := assign_eq_ok.mp hassign
    obtain ⟨t, -, rfl⟩ := Expr.join_eq_ok.mp hjoin
    obtain ⟨⟨root, hroot, -⟩, -⟩ := root_of_targetCheck (augmentCheck_eq_ok.mp hcheck).1
    exact ⟨rfl, rfl, Stmt.reads_augment hR htarget hvalue hroot t, Stmt.writes_augment t⟩

/-- Declares four numbers. -/
def numbersStep : ScopeStep :=
  .act (.declare ⟨.vector .int .one, some 4⟩ none (some "xs")) [some "xs"]

/-- A main function after this step. -/
def numbersMain : ScopeDraft × Ledger := numbersStep.run.final emptyMain .empty

/-- An entry at an index that is an entry itself. -/
def chainedEntry : Term := .element (.var "xs") (.element (.var "xs") (.lit (.int1 2)))

theorem augment_ok_iff_assign_joined_chained :
    Reached (.scope numbersMain.1) numbersMain.2 ∧
    ∃ target, chainedEntry.eval numbersMain.2 = .ok target ∧
      (∃ root ∈ target.indexVariables, target.root? = some root) ∧
        ∃ joined, Expr.join .sub target (.lit (.int1 1)) = .ok joined ∧
          (∃ st, assign target joined numbersMain = .ok () st) ∧
            (Stmt.augment target .sub (.lit (.int1 1))).reads = (Stmt.assign target joined).reads ∧
            (Stmt.augment target .sub (.lit (.int1 1))).writes =
              (Stmt.assign target joined).writes := by
  have hnumbers : Reached (.scope numbersMain.1) numbersMain.2 :=
    reached_emptyMain.scopeStep numbersStep
  refine ⟨hnumbers, ?_⟩
  have hrun : ((chainedEntry.eval numbersMain.2).toOption.any fun target ↦
      target.root?.any (· ∈ target.indexVariables) &&
        match augment target .sub (.lit (.int1 1)) numbersMain with
        | .ok .. => true
        | .error .. => false) = true := by decide +kernel
  rcases htarget : chainedEntry.eval numbersMain.2 with e | target
  · simp [htarget, Except.toOption] at hrun
  rcases haugment : augment target .sub (.lit (.int1 1)) numbersMain with ⟨⟨⟩, st⟩ | ⟨e, st⟩
  · simp only [htarget, haugment, Except.toOption, Option.any_some, Bool.and_true,
      Option.any_eq_true, decide_eq_true_eq] at hrun
    obtain ⟨root, hroot, hindices⟩ := hrun
    obtain ⟨hiff, hsame⟩ := augment_ok_iff_assign_joined hnumbers htarget
      (b := .lit (.int1 1)) rfl .sub
    obtain ⟨joined, hjoin, st', hassign⟩ := hiff.mp ⟨st, haugment⟩
    obtain ⟨-, -, hreads, hwrites⟩ := hsame joined st st' haugment hjoin hassign
    exact ⟨target, rfl, ⟨root, hindices, hroot⟩, joined, hjoin, ⟨st', hassign⟩, hreads, hwrites⟩
  · simp [htarget, haugment, Except.toOption] at hrun

end ScopeDraft

end ShaderGraph
