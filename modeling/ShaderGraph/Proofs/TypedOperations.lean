import ShaderGraph.Proofs.Expr.Typed
import ShaderGraph.Proofs.Script.Known
import ShaderGraph.Script.Eval

/-!
# Typed terms are checked

A term made of literals, handles and typed operations is evaluated without a
check of its nodes. Each operation agrees with its checked constructor, so by
induction on the term all nodes of its value are what the checked constructors
give for their children, at any depth, and have the same types.
-/

namespace ShaderGraph

/-- An expression was put together from literals, variables and typed operations, none of which
asks for less than its checked constructor. -/
inductive Expr.TypedOnly : Expr → Prop
  | lit (value : Literal) : TypedOnly (.lit value)
  | var (v : Variable) : TypedOnly (.var v)
  | build {op : TypedOp} {args : List Expr} {e : Expr} (hargs : ∀ a ∈ args, TypedOnly a)
      (hsettles : op.Settles (args.map Expr.type)) (h : op.build args = .ok e) : TypedOnly e

/-- All nodes of typed expressions pass the checks of their constructors. -/
theorem Expr.TypedOnly.recheck {e n : Expr} (he : e.TypedOnly) (hn : n ∈ e.nodes) :
    n.recheck = .ok n := by
  induction he with
  | lit value | var v =>
    obtain rfl := List.mem_singleton.mp hn
    rfl
  | build hargs hsettles h ih =>
    obtain ⟨types, -, -, hnode⟩ := TypedOp.exists_of_build h
    rcases TypedOp.mem_nodes_of_node hnode hn with rfl | ⟨a, ha, hna⟩
    · exact TypedOp.recheck_of_build h hsettles
    · exact ih a ha hna

/-! ## Terms -/

/-- All expressions that handles are bound to were put together so. -/
def Ledger.TypedOnly (l : Ledger) : Prop :=
  ∀ handle e, (handle, Binding.expr e) ∈ l.bindings → e.TypedOnly

/-- A term is made of literals, handles and typed operations. Equality is for operands that have
components, as its checked constructor has it. -/
inductive Term.TypedOnly (l : Ledger) : Term → Prop
  | lit (value : Literal) : TypedOnly l (.lit value)
  | var (handle : Handle) : TypedOnly l (.var handle)
  | convert {type : ValueType} {a : Term} (ha : TypedOnly l a) : TypedOnly l (.convert type a)
  | typed {op : TypedOp} {args : List Term} (hargs : ∀ a ∈ args, TypedOnly l a)
      (hsettles : ∀ es, evalAll l args = .ok es → op.Settles (es.map Expr.type)) :
      TypedOnly l (.typed op args)
  | typedCall {handle : Handle} {args : List Term} (hargs : ∀ a ∈ args, TypedOnly l a) :
      TypedOnly l (.typedCall handle args)

theorem Ledger.TypedOnly.expr {l : Ledger} (hl : l.TypedOnly) {handle : Handle} {e : Expr}
    (h : l.expr handle = .ok e) : e.TypedOnly := by
  unfold Ledger.expr at h
  split at h
  · next hfind =>
    obtain rfl := Except.ok.inj h
    obtain ⟨pre, post, heq, -⟩ := List.lookup_eq_some_iff.mp hfind
    refine hl handle _ ?_
    rw [heq]
    exact List.mem_append_right pre List.mem_cons_self
  · cases h

theorem Term.evalAll_eq_ok {l : Ledger} {args : List Term} {es : List Expr}
    (h : evalAll l args = .ok es) {e : Expr} (he : e ∈ es) : ∃ a ∈ args, a.eval l = .ok e := by
  induction args generalizing es with
  | nil =>
    rw [evalAll] at h
    obtain rfl := Except.ok.inj h
    cases he
  | cons a args ih =>
    rw [evalAll] at h
    obtain ⟨e', ha, h⟩ := bind_eq_ok.mp h
    obtain ⟨rest, hrest, h⟩ := bind_eq_ok.mp h
    obtain rfl := Except.ok.inj h
    rcases List.mem_cons.mp he with rfl | he
    · exact ⟨a, List.mem_cons_self, ha⟩
    · obtain ⟨b, hb, hbe⟩ := ih hrest he
      exact ⟨b, List.mem_cons_of_mem a hb, hbe⟩

theorem Term.TypedOnly.eval {l : Ledger} (hl : l.TypedOnly) {t : Term} (ht : t.TypedOnly l)
    {e : Expr} (h : t.eval l = .ok e) : e.TypedOnly := by
  induction ht generalizing e with
  | lit value =>
    rw [Term.eval] at h
    exact Except.ok.inj h ▸ .lit value
  | var handle =>
    rw [Term.eval] at h
    exact hl.expr h
  | convert _ ih =>
    rw [Term.eval] at h
    obtain ⟨a, ha, h⟩ := bind_eq_ok.mp h
    obtain ⟨rfl, -⟩ := Expr.convert_eq_ok.mp h
    exact ih ha
  | typed _ hsettles ih =>
    rw [Term.eval] at h
    obtain ⟨es, hes, h⟩ := bind_eq_ok.mp h
    refine .build (fun e' he' ↦ ?_) (hsettles es hes) h
    obtain ⟨a, ha, hae⟩ := evalAll_eq_ok hes he'
    exact ih a ha hae
  | typedCall _ ih =>
    rw [Term.eval] at h
    obtain ⟨es, hes, h⟩ := bind_eq_ok.mp h
    obtain ⟨f, -, h⟩ := bind_eq_ok.mp h
    have hsettles : (TypedOp.call f).Settles (es.map Expr.type) := trivial
    refine .build (fun e' he' ↦ ?_) hsettles h
    obtain ⟨a, ha, hae⟩ := evalAll_eq_ok hes he'
    exact ih a ha hae

def shadeVariable : Variable := ⟨0, "uv", .float .two, .program, .vertexAttribute⟩

def shadeFunction : Signature := ⟨"shade", [.float .one], some .bool⟩

def shadeLedger : Ledger :=
  ⟨[("uv", .expr (.var shadeVariable)), ("shade", .function shadeFunction)], []⟩

/-- A term that compares with the value of a function with an edge, and calls a function. -/
def shadeTerm : Term :=
  .typed (.binary .and) [
    .typed (.binary .eq) [.var "uv", .typed (.builtin .step) [.var "uv", .lit (.float1 .one)]],
    .typedCall "shade" [.typed (.part (.one .y)) [.var "uv"]]]

def shadeExpr : Expr :=
  .binary .bool .and
    (.binary .bool .eq (.var shadeVariable)
      (.call (.float .two) (.builtin .step) [.lit (.float1 .one), .var shadeVariable]))
    (.call .bool (.user shadeFunction)
      [.swizzle (.float .one) (.var shadeVariable) (.one .y)])

/-- Every node of what a typed term stands for is what its checked constructor gives for the
node's children. -/
theorem Term.TypedOnly.nodes_checked {l : Ledger} (hl : l.TypedOnly) {t : Term}
    (ht : t.TypedOnly l) {e : Expr} (h : t.eval l = .ok e) :
    ∀ n ∈ e.nodes, n.recheck = .ok n :=
  fun _ hn ↦ (ht.eval hl h).recheck hn

theorem Term.TypedOnly.nodes_checked_shade : shadeLedger.TypedOnly ∧
    shadeTerm.TypedOnly shadeLedger ∧ shadeTerm.eval shadeLedger = .ok shadeExpr ∧
      shadeExpr.nodes.length = 9 ∧ ∀ n ∈ shadeExpr.nodes, n.recheck = .ok n := by
  have hledger : shadeLedger.TypedOnly := by
    intro handle e he
    rcases List.mem_cons.mp he with he | he
    · cases he
      exact .var shadeVariable
    · simp at he
  have hstep : (Term.typed (.builtin .step) [.var "uv", .lit (.float1 .one)]).TypedOnly
      shadeLedger := by
    refine .typed ?_ fun _ _ ↦ trivial
    simp only [List.forall_mem_cons]
    exact ⟨.var _, .lit _, nofun⟩
  have hequal : (Term.typed (.binary .eq)
      [.var "uv", .typed (.builtin .step) [.var "uv", .lit (.float1 .one)]]).TypedOnly
      shadeLedger := by
    refine .typed ?_ ?_
    · simp only [List.forall_mem_cons]
      exact ⟨.var _, hstep, nofun⟩
    · intro es hes _
      obtain rfl := Except.ok.inj hes
      decide
  have hterm : shadeTerm.TypedOnly shadeLedger := by
    refine .typed ?_ fun _ _ hfamily ↦ by cases hfamily
    simp only [List.forall_mem_cons]
    refine ⟨hequal, .typedCall ?_, nofun⟩
    simp only [List.forall_mem_cons]
    refine ⟨.typed ?_ fun _ _ ↦ trivial, nofun⟩
    simp only [List.forall_mem_cons]
    exact ⟨.var _, nofun⟩
  have heval : shadeTerm.eval shadeLedger = .ok shadeExpr := rfl
  exact ⟨hledger, hterm, heval, rfl, Term.TypedOnly.nodes_checked hledger hterm heval⟩

end ShaderGraph
