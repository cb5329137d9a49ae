import ShaderGraph.Proofs.Draft.Resources
import ShaderGraph.Proofs.Script.Terms
import ShaderGraph.Script.Run

/-!
# What scripts know

A script has nothing in its ledger but what steps gave it, so terms stand for
known expressions, if they are permitted. All terms are for scripts that may
call functions that no step has made and need not check anything.
-/

namespace ShaderGraph

/-- What a handle is bound to was given to the script. -/
def Binding.Known (R : Registry) : Binding → Prop
  | .expr e => e.Known R
  | .data d => ∀ v ∈ d.vars, v ∈ R.vars
  | .function f => f ∈ R.signatures

def Answer.Known (R : Registry) (a : Answer) : Prop := ∀ b ∈ a.bindings, b.Known R

/-- All handles are bound to what was given to the script, and the terms of a set are permitted. -/
structure Ledger.KnownFor (T : Set Term) (R : Registry) (l : Ledger) : Prop where
  terms : ∀ t ∈ T, t.Permitted R
  bindings : ∀ b ∈ l.bindings, b.2.Known R

abbrev Ledger.Known (R : Registry) (l : Ledger) : Prop := l.KnownFor Set.univ R

variable {T : Set Term} {R R' : Registry} {l : Ledger}

theorem Binding.Known.mono {b : Binding} (h : b.Known R) (hR : R ≤ R') : b.Known R' := by
  cases b with
  | expr e => exact Expr.Known.mono h hR
  | data d => exact fun v hv ↦ Registry.mem_vars hR (h v hv)
  | function f => exact Registry.mem_signatures hR h

theorem Answer.Known.mono {a : Answer} (h : a.Known R) (hR : R ≤ R') : a.Known R' :=
  fun b hb ↦ (h b hb).mono hR

theorem Answer.known_of_bindings_eq_nil {a : Answer} (h : a.bindings = []) : a.Known R := by
  intro b hb
  rw [h] at hb
  cases hb

theorem Answer.known_expr {e : Expr} (he : e.Known R) : (Answer.expr e).Known R :=
  fun _ hb ↦ List.mem_singleton.mp hb ▸ he

theorem Answer.known_var {v : Variable} (hv : v ∈ R.vars) : (Answer.var v).Known R :=
  fun _ hb ↦ List.mem_singleton.mp hb ▸ Expr.Known.var hv

theorem Answer.known_vars {vs : List Variable} (hvs : ∀ v ∈ vs, v ∈ R.vars) :
    (Answer.vars vs).Known R := by
  intro b hb
  obtain ⟨v, hv, rfl⟩ := List.mem_map.mp hb
  exact Expr.Known.var (hvs v hv)

theorem Answer.known_data {d : DataBlock} (hd : ∀ v ∈ d.vars, v ∈ R.vars) :
    (Answer.data d).Known R :=
  fun _ hb ↦ List.mem_singleton.mp hb ▸ hd

theorem Answer.known_function {f : Signature} (hf : f ∈ R.signatures) :
    (Answer.function f).Known R :=
  fun _ hb ↦ List.mem_singleton.mp hb ▸ hf

namespace Ledger.KnownFor

theorem empty (h : ∀ t ∈ T, t.Permitted R) : Ledger.empty.KnownFor T R :=
  ⟨h, fun b hb ↦ by cases hb⟩

theorem mono (h : l.KnownFor T R) (hR : R ≤ R') : l.KnownFor T R' :=
  ⟨fun t ht ↦ (h.terms t ht).mono hR, fun b hb ↦ (h.bindings b hb).mono hR⟩

theorem log (h : l.KnownFor T R) (a : Answer) : (l.log a).KnownFor T R := ⟨h.terms, h.bindings⟩

theorem bind (h : l.KnownFor T R) (handle : Handle) {b : Binding} (hb : b.Known R) :
    (l.bind handle b).KnownFor T R := by
  refine ⟨h.terms, ?_⟩
  intro b' hb'
  rcases List.mem_cons.mp hb' with rfl | hb'
  · exact hb
  · exact h.bindings b' hb'

theorem bindAll (h : l.KnownFor T R) (handles : List (Option Handle)) {bs : List Binding}
    (hbs : ∀ b ∈ bs, b.Known R) : (l.bindAll handles bs).KnownFor T R := by
  fun_induction Ledger.bindAll l handles bs with
  | case1 l handle hs b bs ih =>
    exact ih (h.bind handle (hbs b List.mem_cons_self))
      fun b' hb' ↦ hbs b' (List.mem_cons_of_mem b hb')
  | case2 l hs b bs ih => exact ih h fun b' hb' ↦ hbs b' (List.mem_cons_of_mem b hb')
  | case3 => exact h

theorem of_find? (h : l.KnownFor T R) {handle : Handle} {b : Binding}
    (hb : l.find? handle = some b) : b.Known R := by
  obtain ⟨pre, post, heq, -⟩ := List.lookup_eq_some_iff.mp hb
  refine h.bindings (handle, b) ?_
  rw [heq]
  exact List.mem_append_right pre List.mem_cons_self

theorem expr (h : l.KnownFor T R) {handle : Handle} {e : Expr} (he : l.expr handle = .ok e) :
    e.Known R := by
  unfold Ledger.expr at he
  split at he
  · next hfind =>
    obtain rfl := Except.ok.inj he
    exact h.of_find? hfind
  · cases he

theorem data (h : l.KnownFor T R) {handle : Handle} {d : DataBlock} (hd : l.data handle = .ok d) :
    ∀ v ∈ d.vars, v ∈ R.vars := by
  unfold Ledger.data at hd
  split at hd
  · next hfind =>
    obtain rfl := Except.ok.inj hd
    exact h.of_find? hfind
  · cases hd

theorem function (h : l.KnownFor T R) {handle : Handle} {f : Signature}
    (hf : l.function handle = .ok f) : f ∈ R.signatures := by
  unfold Ledger.function at hf
  split at hf
  · next hfind =>
    obtain rfl := Except.ok.inj hf
    exact h.of_find? hfind
  · cases hf

end Ledger.KnownFor

def Ledger.clientFor (T : Set Term) : Client Ledger := ⟨Ledger.KnownFor T, fun hR h ↦ h.mono hR⟩

abbrev Ledger.client : Client Ledger := Ledger.clientFor Set.univ

/-! ## Terms -/

namespace Term

theorem known_weightOf {d : DataBlock} {which : WeightChoice} {e : Expr}
    (hd : ∀ v ∈ d.vars, v ∈ R.vars) (h : weightOf d which = .ok e) : e.Known R := by
  cases d with
  | armature data => cases which <;> cases h
  | morphWeights data =>
    have ha := hd data.weightsA (by simp [DataBlock.vars])
    have hb := hd data.weightsB (by simp [DataBlock.vars])
    cases which with
    | registerA => exact Except.ok.inj h ▸ .var ha
    | registerB => exact Except.ok.inj h ▸ .var hb
    | single i => exact .weight ha hb h

theorem known_jointOf {d : DataBlock} {index e : Expr}
    (hd : ∀ v ∈ d.vars, v ∈ R.vars) (hindex : index.Known R)
    (h : jointOf d index = .ok e) : e.Known R := by
  cases d with
  | armature data => exact .element (.var (hd data.joints List.mem_cons_self)) hindex h
  | morphWeights data => cases h

/-- A term with a part is in a set with all of its parts, if these are. -/
theorem mem_of_parts {t : Term} (ht : ∀ s ∈ t.parts, s ∈ T) : t ∈ T := by
  refine ht t ?_
  cases t <;> simp [parts]

mutual

/-- A term stands for a known expression, since it is made of known ones. -/
theorem known_eval (hl : l.KnownFor T R) :
    ∀ (t : Term) {e : Expr}, (∀ s ∈ t.parts, s ∈ T) → t.eval l = .ok e → e.Known R
  | .lit value, e, _, h => by
    rw [eval] at h
    exact Except.ok.inj h ▸ .lit value
  | .var handle, e, _, h => by
    rw [eval] at h
    exact hl.expr h
  | .unary op a, e, ht, h => by
    rw [eval] at h
    obtain ⟨a', ha, h⟩ := bind_eq_ok.mp h
    rw [parts, List.forall_mem_cons] at ht
    exact .apply (known_eval hl a ht.2 ha) h
  | .binary op a b, e, ht, h => by
    rw [eval] at h
    obtain ⟨a', ha, h⟩ := bind_eq_ok.mp h
    obtain ⟨b', hb, h⟩ := bind_eq_ok.mp h
    rw [parts, List.forall_mem_cons, List.forall_mem_append] at ht
    exact .join (known_eval hl a ht.2.1 ha) (known_eval hl b ht.2.2 hb) h
  | .call callee args, e, ht, h => by
    rw [eval] at h
    obtain ⟨es, hes, h⟩ := bind_eq_ok.mp h
    have hpermitted := hl.terms _ (mem_of_parts ht)
    rw [parts, List.forall_mem_cons] at ht
    refine .invoke (fun f hf ↦ ?_) (known_evalAll hl args ht.2 hes) h
    exact hpermitted.callee f (by simp [callee?, hf])
  | .callHandle handle args, e, ht, h => by
    rw [eval] at h
    obtain ⟨es, hes, h⟩ := bind_eq_ok.mp h
    obtain ⟨f, hf, h⟩ := bind_eq_ok.mp h
    rw [parts, List.forall_mem_cons] at ht
    refine .invoke (fun g hg ↦ ?_) (known_evalAll hl args ht.2 hes) h
    exact Callee.user.inj hg ▸ hl.function hf
  | .select source mask, e, ht, h => by
    rw [eval] at h
    obtain ⟨a, ha, h⟩ := bind_eq_ok.mp h
    obtain ⟨m, -, h⟩ := bind_eq_ok.mp h
    rw [parts, List.forall_mem_cons] at ht
    exact .select (known_eval hl source ht.2 ha) h
  | .element object index, e, ht, h => by
    rw [eval] at h
    obtain ⟨a, ha, h⟩ := bind_eq_ok.mp h
    obtain ⟨i, hi, h⟩ := bind_eq_ok.mp h
    rw [parts, List.forall_mem_cons, List.forall_mem_append] at ht
    exact .element (known_eval hl object ht.2.1 ha) (known_eval hl index ht.2.2 hi) h
  | .joint handle index, e, ht, h => by
    rw [eval] at h
    obtain ⟨i, hi, h⟩ := bind_eq_ok.mp h
    obtain ⟨i', hconvert, h⟩ := bind_eq_ok.mp h
    obtain ⟨d, hd, h⟩ := bind_eq_ok.mp h
    rw [parts, List.forall_mem_cons] at ht
    exact known_jointOf (hl.data hd) (.convert (known_eval hl index ht.2 hi) hconvert) h
  | .weight handle which, e, _, h => by
    rw [eval] at h
    obtain ⟨d, hd, h⟩ := bind_eq_ok.mp h
    exact known_weightOf (hl.data hd) h
  | .convert type a, e, ht, h => by
    rw [eval] at h
    obtain ⟨a', ha, h⟩ := bind_eq_ok.mp h
    rw [parts, List.forall_mem_cons] at ht
    exact .convert (known_eval hl a ht.2 ha) h
  | .typed op args, e, ht, h => by
    rw [eval] at h
    obtain ⟨es, hes, h⟩ := bind_eq_ok.mp h
    have hpermitted := hl.terms _ (mem_of_parts ht)
    rw [parts, List.forall_mem_cons] at ht
    refine .build (by simpa [isChecked] using hpermitted.checked) (fun f hf ↦ ?_)
      (known_evalAll hl args ht.2 hes) h
    exact hpermitted.callee f (by simp [callee?, hf])
  | .typedCall handle args, e, ht, h => by
    rw [eval] at h
    obtain ⟨es, hes, h⟩ := bind_eq_ok.mp h
    obtain ⟨f, hf, h⟩ := bind_eq_ok.mp h
    have hpermitted := hl.terms _ (mem_of_parts ht)
    rw [parts, List.forall_mem_cons] at ht
    refine .build (by simpa [isChecked] using hpermitted.checked) (fun g hg ↦ ?_)
      (known_evalAll hl args ht.2 hes) h
    exact TypedOp.call.inj hg ▸ hl.function hf
  | .typedSwizzle source mask, e, ht, h => by
    rw [eval] at h
    obtain ⟨a, ha, h⟩ := bind_eq_ok.mp h
    obtain ⟨m, -, h⟩ := bind_eq_ok.mp h
    have hpermitted := hl.terms _ (mem_of_parts ht)
    rw [parts, List.forall_mem_cons] at ht
    refine .build (by simpa [isChecked] using hpermitted.checked) (fun f hf ↦ by cases hf)
      (fun e' he' ↦ ?_) h
    exact List.mem_singleton.mp he' ▸ known_eval hl source ht.2 ha
  | .typedSelect source mask type, e, ht, h => by
    rw [eval] at h
    obtain ⟨a, ha, h⟩ := bind_eq_ok.mp h
    obtain ⟨m, -, h⟩ := bind_eq_ok.mp h
    obtain ⟨s, hs, h⟩ := bind_eq_ok.mp h
    rw [parts, List.forall_mem_cons] at ht
    exact .convert (.select (known_eval hl source ht.2 ha) hs) h

theorem known_evalAll (hl : l.KnownFor T R) :
    ∀ (ts : List Term) {es : List Expr}, (∀ s ∈ partsOfList ts, s ∈ T) → evalAll l ts = .ok es →
      ∀ e ∈ es, e.Known R
  | [], es, _, h => by
    rw [evalAll] at h
    obtain rfl := Except.ok.inj h
    exact fun e he ↦ by cases he
  | t :: ts, es, hts, h => by
    rw [evalAll] at h
    obtain ⟨a, ha, h⟩ := bind_eq_ok.mp h
    obtain ⟨rest, hrest, h⟩ := bind_eq_ok.mp h
    obtain rfl := Except.ok.inj h
    rw [partsOfList, List.forall_mem_append] at hts
    intro e he
    rcases List.mem_cons.mp he with rfl | he
    · exact known_eval hl t hts.1 ha
    · exact known_evalAll hl ts hts.2 hrest e he

end

theorem known_evalAs (hl : l.KnownFor T R) {t : Term} (ht : ∀ s ∈ t.parts, s ∈ T)
    {type : ValueType} {e : Expr} (h : t.evalAs l type = .ok e) : e.Known R ∧ e.type = type := by
  obtain ⟨a, ha, h⟩ := bind_eq_ok.mp h
  obtain ⟨rfl, htype⟩ := Expr.convert_eq_ok.mp h
  exact ⟨known_eval hl t ht ha, htype⟩

theorem known_evalOptional (hl : l.KnownFor T R) {t : Option Term}
    (ht : ∀ s ∈ partsOfOption t, s ∈ T) {e : Option Expr} (h : evalOptional l t = .ok e) :
    ∀ e' ∈ e, e'.Known R := by
  cases t with
  | none => exact Except.ok.inj h ▸ fun e' he' ↦ by cases he'
  | some t =>
    obtain ⟨a, ha, h⟩ := bind_eq_ok.mp h
    obtain rfl := Except.ok.inj h
    exact fun e' he' ↦ Option.some.inj he' ▸ known_eval hl t ht ha

theorem known_evalOptionalAs (hl : l.KnownFor T R) {t : Option Term}
    (ht : ∀ s ∈ partsOfOption t, s ∈ T) {type : ValueType} {e : Option Expr}
    (h : evalOptionalAs l type t = .ok e) : ∀ e' ∈ e, e'.Known R := by
  cases t with
  | none => exact Except.ok.inj h ▸ fun e' he' ↦ by cases he'
  | some t =>
    obtain ⟨a, ha, h⟩ := bind_eq_ok.mp h
    obtain rfl := Except.ok.inj h
    exact fun e' he' ↦ Option.some.inj he' ▸ (known_evalAs hl ht ha).1

end Term

end ShaderGraph
