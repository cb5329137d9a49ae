import Mathlib.Data.Set.Insert
import Mathlib.Order.Basic
import ShaderGraph.Expr.Typed
import ShaderGraph.Proofs.Expr.Variables

/-!
# Known expressions

Clients put expressions together from the variables and functions that they
were given. An expression is known if it mentions no others. What the checked
and the typed constructors make of known expressions is known.

Some clients use the checked constructors only. What they know is checked: all
of its nodes are what the checked constructors give for their children.
-/

namespace ShaderGraph

/-- A check that goes on with another one passes if both do. -/
theorem bind_eq_ok {α β : Type} {x : Except BuildError α} {f : α → Except BuildError β} {b : β} :
    x >>= f = .ok b ↔ ∃ a, x = .ok a ∧ f a = .ok b := by
  cases x with
  | error e => simp [bind, Except.bind]
  | ok a => simp [bind, Except.bind]

theorem unit_bind_eq_ok {β : Type} {x : Except BuildError Unit} {f : Unit → Except BuildError β}
    {b : β} : x >>= f = .ok b ↔ x = .ok () ∧ f () = .ok b :=
  bind_eq_ok.trans ⟨fun ⟨_, h⟩ ↦ h, fun h ↦ ⟨(), h⟩⟩

/-- What clients have so far: the variables that were made for them, in order, the names that
blocks and functions were begun under, the functions that they may call, and whether they put
expressions together by checked constructors only. -/
structure Registry where
  vars : List Variable
  /-- A block or function that was given up keeps its name. -/
  bodies : List String
  signatures : Set Signature
  checked : Prop

namespace Registry

/-- The registry of a client that brings functions of its own, before anything was made. -/
def start (signatures : Set Signature) (checked : Prop) : Registry :=
  ⟨[], [], signatures, checked⟩

def addVariable (R : Registry) (v : Variable) : Registry :=
  { R with vars := R.vars ++ [v] }

def addBody (R : Registry) (name : String) : Registry :=
  { R with bodies := R.bodies ++ [name] }

def addSignature (R : Registry) (f : Signature) : Registry :=
  { R with signatures := insert f R.signatures }

/-- A registry goes on to another one, for the same clients. -/
instance : Preorder Registry where
  le R R' := R.vars <+: R'.vars ∧ R.bodies <+: R'.bodies ∧ R.signatures ⊆ R'.signatures ∧
    (R.checked ↔ R'.checked)
  le_refl R := ⟨List.prefix_refl _, List.prefix_refl _, subset_rfl, Iff.rfl⟩
  le_trans _ _ _ h h' := ⟨h.1.trans h'.1, h.2.1.trans h'.2.1, h.2.2.1.trans h'.2.2.1,
    h.2.2.2.trans h'.2.2.2⟩

variable {R R' : Registry}

theorem le_addVariable (R : Registry) (v : Variable) : R ≤ R.addVariable v :=
  ⟨List.prefix_append _ _, List.prefix_refl _, subset_rfl, Iff.rfl⟩

theorem le_addBody (R : Registry) (name : String) : R ≤ R.addBody name :=
  ⟨List.prefix_refl _, List.prefix_append _ _, subset_rfl, Iff.rfl⟩

theorem le_addSignature (R : Registry) (f : Signature) : R ≤ R.addSignature f :=
  ⟨List.prefix_refl _, List.prefix_refl _, Set.subset_insert _ _, Iff.rfl⟩

theorem mem_vars (h : R ≤ R') {v : Variable} (hv : v ∈ R.vars) : v ∈ R'.vars :=
  h.1.subset hv

theorem mem_signatures (h : R ≤ R') {f : Signature} (hf : f ∈ R.signatures) :
    f ∈ R'.signatures :=
  h.2.2.1 hf

theorem checked_iff (h : R ≤ R') : R.checked ↔ R'.checked := h.2.2.2

theorem mem_addVariable (R : Registry) (v : Variable) : v ∈ (R.addVariable v).vars :=
  List.mem_append_right _ List.mem_cons_self

theorem mem_addSignature (R : Registry) (f : Signature) : f ∈ (R.addSignature f).signatures :=
  Set.mem_insert _ _

end Registry

namespace Expr

/-- Every node of an expression is what its checked constructor gives for the node's children. -/
inductive Checked : Expr → Prop
  | lit (value : Literal) : Checked (.lit value)
  | var (v : Variable) : Checked (.var v)
  | apply {op : UnaryOp} {a e : Expr} (ha : Checked a) (h : apply op a = .ok e) : Checked e
  | join {op : BinaryOp} {a b e : Expr} (ha : Checked a) (hb : Checked b)
      (h : join op a b = .ok e) : Checked e
  | invoke {callee : Callee} {args : List Expr} {e : Expr} (hargs : ∀ a ∈ args, Checked a)
      (h : invoke callee args = .ok e) : Checked e
  | select {source e : Expr} {mask : Swizzle} (hs : Checked source)
      (h : select source mask = .ok e) : Checked e
  | element {object index e : Expr} (ho : Checked object) (hi : Checked index)
      (h : element object index = .ok e) : Checked e

/-- An expression mentions only variables and functions from a registry, and was put together
without checks only if that is allowed there. -/
inductive Known (R : Registry) : Expr → Prop
  | lit (value : Literal) : Known R (.lit value)
  | var {v : Variable} (hv : v ∈ R.vars) : Known R (.var v)
  | unary {op : UnaryOp} {a : Expr} (ha : Known R a)
      (hnode : R.checked → apply op a = .ok (.unary op a)) : Known R (.unary op a)
  | binary {type : ValueType} {op : BinaryOp} {a b : Expr} (ha : Known R a) (hb : Known R b)
      (hnode : R.checked → join op a b = .ok (.binary type op a b)) : Known R (.binary type op a b)
  | call {type : ValueType} {callee : Callee} {args : List Expr}
      (hcallee : ∀ f, callee = .user f → f ∈ R.signatures) (hargs : ∀ e ∈ args, Known R e)
      (hnode : R.checked → invoke callee args = .ok (.call type callee args)) :
      Known R (.call type callee args)
  | swizzle {type : ValueType} {source : Expr} {mask : Swizzle} (hs : Known R source)
      (hnode : R.checked → select source mask = .ok (.swizzle type source mask)) :
      Known R (.swizzle type source mask)
  | lookup {type : ValueType} {object index : Expr} (ho : Known R object) (hi : Known R index)
      (hnode : R.checked → element object index = .ok (.lookup type object index)) :
      Known R (.lookup type object index)

variable {R R' : Registry} {e e' a b : Expr}

theorem Known.mono (h : e.Known R) (hR : R ≤ R') : e.Known R' := by
  have hchecked := (Registry.checked_iff hR).mpr
  induction h with
  | lit value => exact .lit value
  | var hv => exact .var (Registry.mem_vars hR hv)
  | unary _ hnode ih => exact .unary ih (hnode ∘ hchecked)
  | binary _ _ hnode iha ihb => exact .binary iha ihb (hnode ∘ hchecked)
  | call hcallee _ hnode ih =>
    exact .call (fun f hf ↦ Registry.mem_signatures hR (hcallee f hf)) ih (hnode ∘ hchecked)
  | swizzle _ hnode ih => exact .swizzle ih (hnode ∘ hchecked)
  | lookup _ _ hnode iho ihi => exact .lookup iho ihi (hnode ∘ hchecked)

/-- What clients know that use checked constructors only is checked. -/
theorem Known.checked (h : e.Known R) (hR : R.checked) : e.Checked := by
  induction h with
  | lit value => exact .lit value
  | var _ => exact .var _
  | unary _ hnode ih => exact .apply ih (hnode hR)
  | binary _ _ hnode iha ihb => exact .join iha ihb (hnode hR)
  | call _ _ hnode ih => exact .invoke ih (hnode hR)
  | swizzle _ hnode ih => exact .select ih (hnode hR)
  | lookup _ _ hnode iho ihi => exact .element iho ihi (hnode hR)

theorem Known.mem_vars (h : e.Known R) {v : Variable} (hv : v ∈ e.vars) :
    v ∈ R.vars := by
  induction h with
  | lit value => simp [vars] at hv
  | var hw => exact List.mem_singleton.mp hv ▸ hw
  | unary _ _ ih => exact ih hv
  | binary _ _ _ iha ihb => exact (List.mem_append.mp hv).elim iha ihb
  | call _ _ _ ih =>
    rw [vars, varsOfList_eq_flatMap] at hv
    obtain ⟨e, he, hv⟩ := List.mem_flatMap.mp hv
    exact ih e he hv
  | swizzle _ _ ih => exact ih hv
  | lookup _ _ _ iho ihi => exact (List.mem_append.mp hv).elim iho ihi

theorem Known.of_var {v : Variable} (h : (Expr.var v).Known R) : v ∈ R.vars :=
  h.mem_vars List.mem_cons_self

theorem Known.apply {op : UnaryOp} (ha : a.Known R) (h : Expr.apply op a = .ok e) : e.Known R := by
  have hnode := h
  unfold Expr.apply at h
  split at h
  · obtain rfl := Except.ok.inj h
    exact .unary ha fun _ ↦ hnode
  · cases h

theorem Known.join {op : BinaryOp} (ha : a.Known R) (hb : b.Known R)
    (h : Expr.join op a b = .ok e) : e.Known R := by
  have hnode := h
  unfold Expr.join at h
  split at h
  · obtain rfl := Except.ok.inj h
    exact .binary ha hb fun _ ↦ hnode
  · cases h

theorem Known.invoke {callee : Callee} {args : List Expr}
    (hcallee : ∀ f, callee = .user f → f ∈ R.signatures) (hargs : ∀ e ∈ args, e.Known R)
    (h : Expr.invoke callee args = .ok e) : e.Known R := by
  have hnode := h
  unfold Expr.invoke at h
  split at h
  · obtain rfl := Except.ok.inj h
    exact .call hcallee hargs fun _ ↦ hnode
  · cases h

theorem Known.select {mask : Swizzle} (ha : a.Known R) (h : Expr.select a mask = .ok e) :
    e.Known R := by
  have hnode := h
  unfold Expr.select at h
  split at h
  · obtain rfl := Except.ok.inj h
    exact .swizzle ha fun _ ↦ hnode
  · cases h

theorem Known.element (ha : a.Known R) (hb : b.Known R) (h : Expr.element a b = .ok e) :
    e.Known R := by
  have hnode := h
  obtain ⟨-, h⟩ := unit_bind_eq_ok.mp h
  split at h
  · cases h
  · obtain ⟨-, h⟩ := unit_bind_eq_ok.mp h
    obtain rfl := Except.ok.inj h
    exact .lookup ha hb fun _ ↦ hnode

theorem Known.convert {t : ValueType} (ha : a.Known R) (h : Expr.convert t a = .ok e) :
    e.Known R :=
  (convert_eq_ok.mp h).1 ▸ ha

theorem Known.binary_of_type {op : BinaryOp} {ta tb t : ValueType} (ha : a.Known R)
    (hb : b.Known R) (hta : a.type = ta) (htb : b.type = tb) (h : op.resultType ta tb = .ok t) :
    (Expr.binary t op a b).Known R := by
  have hnode : Expr.join op a b = .ok (.binary t op a b) := by simp [Expr.join, hta, htb, h]
  exact .join ha hb hnode

theorem Known.builtin_of_type {f : Builtin} {args : List Expr} {types : List ValueType}
    {t : ValueType} (hargs : ∀ e ∈ args, e.Known R) (htypes : args.map type = types)
    (h : f.resultType types = .ok t) : (Expr.call t (.builtin f) args).Known R := by
  have hnode : Expr.invoke (.builtin f) args = .ok (.call t (.builtin f) args) := by
    simp [Expr.invoke, Callee.resultType, htypes, h]
  exact .invoke (fun g hg ↦ by cases hg) hargs hnode

theorem Known.swizzle_of_type {mask : Swizzle} {ta t : ValueType} (ha : a.Known R)
    (hta : a.type = ta) (h : mask.resultType ta = .ok t) : (Expr.swizzle t a mask).Known R := by
  have hnode : Expr.select a mask = .ok (.swizzle t a mask) := by simp [Expr.select, hta, h]
  exact .select ha hnode

/-! ## Typed operations -/

theorem Known.node {op : TypedOp} {t : ValueType} {args : List Expr} (hR : ¬R.checked)
    (hop : ∀ f, op = .call f → f ∈ R.signatures) (hargs : ∀ e ∈ args, e.Known R)
    (h : op.node t args = some e) : e.Known R := by
  have hnode {p : Prop} (hchecked : R.checked) : p := absurd hchecked hR
  have hbuiltin (f : Builtin) (args : List Expr) (hargs : ∀ e ∈ args, e.Known R) :
      (Expr.call t (.builtin f) args).Known R :=
    .call (fun g hg ↦ by cases hg) hargs hnode
  unfold TypedOp.node at h
  split at h <;> cases h
  · exact .unary (hargs _ (by simp)) hnode
  · exact .binary (hargs _ (by simp)) (hargs _ (by simp)) hnode
  · exact hbuiltin _ _ fun e he ↦ hargs e (by simpa [or_comm] using he)
  · exact hbuiltin _ _ fun e he ↦ hargs e (by grind)
  · exact hbuiltin _ _ hargs
  · exact .call (fun g hg ↦ hop g (by cases hg; rfl)) hargs hnode
  · exact .lookup (hargs _ (by simp)) (hargs _ (by simp)) hnode
  · exact .lookup (hargs _ (by simp)) (hargs _ (by simp)) hnode
  · exact .swizzle (hargs _ (by simp)) hnode
  · exact .swizzle (hargs _ (by simp)) hnode

theorem Known.build {op : TypedOp} {args : List Expr} (hR : ¬R.checked)
    (hop : ∀ f, op = .call f → f ∈ R.signatures) (hargs : ∀ e ∈ args, e.Known R)
    (h : op.build args = .ok e) : e.Known R := by
  unfold TypedOp.build at h
  split at h
  · cases h
  · split at h
    · cases h
    · split at h
      · next hnode =>
        obtain rfl := Except.ok.inj h
        exact .node hR hop hargs hnode
      · cases h

end Expr

end ShaderGraph
