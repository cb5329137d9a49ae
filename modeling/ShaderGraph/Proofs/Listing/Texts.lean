import ShaderGraph.Proofs.Calls
import ShaderGraph.Proofs.Expr.Shape
import ShaderGraph.Proofs.Listing.Marker
import ShaderGraph.Region.Listing

/-!
# Texts without the marker

Types, literals and the names of built-in functions have no slashes, and what
stands between the parts of an expression completes no marker. So the text of
an expression is without a marker if the names in it are.
-/

namespace ShaderGraph

theorem Unmarked.commaSeparated {ss : List String} (h : ∀ s ∈ ss, Unmarked s) :
    Unmarked (commaSeparated ss) := by
  fun_induction ShaderGraph.commaSeparated ss with
  | case1 => exact .of_empty
  | case2 s => exact h s List.mem_cons_self
  | case3 s rest _ ih =>
    have hrest := ih fun t ht ↦ h t (List.mem_cons_of_mem s ht)
    exact (h s List.mem_cons_self).join ", " hrest (by decide)

theorem ValueType.slash_notMem_text (t : ValueType) : '/' ∉ t.text.toList := by
  have hall : ∀ p ∈ PrimType.all, '/' ∉ p.text.toList := by decide
  have hprim := hall t.prim t.prim.mem_all
  unfold text
  split
  · exact hprim
  · next n _ =>
    have hdigits : '/' ∉ (toString n).toList := fun h ↦ absurd (isDigit_of_mem_repr h) (by decide)
    simp only [String.toList_append, List.mem_append, not_or]
    exact ⟨⟨⟨hprim, by decide⟩, hdigits⟩, by decide⟩

theorem ValueType.unmarked_text (t : ValueType) : Unmarked t.text :=
  .of_slash_notMem t.slash_notMem_text

namespace Literal

theorem unmarked_word {l : Literal} {s : String} (hs : s.toList ∈ l.words) : Unmarked s := by
  have hreserved : ∀ w ∈ reserved.map String.toList, '/' ∉ w := by decide
  refine .of_slash_notMem fun hslash ↦ ?_
  rcases isNumber_or_reserved hs with ⟨c, cs, hchars, -, hnumber⟩ | hname
  · exact absurd (hnumber '/' (hchars ▸ hslash)) (by decide)
  · exact hreserved _ hname hslash

theorem unmarked_entriesText {l : Literal} {ss : List String}
    (h : ss.map String.toList = l.words) : Unmarked (entriesText l.type ss) := by
  have hwords : ∀ s ∈ ss, Unmarked s := fun s hs ↦ unmarked_word (h ▸ List.mem_map_of_mem hs)
  unfold entriesText
  split
  · exact hwords _ List.mem_cons_self
  · have hentries := l.type.unmarked_text.join "(" (.commaSeparated hwords) (by decide)
    exact hentries.before ")" (by decide)

theorem unmarked_text (l : Literal) : Unmarked l.text := by
  cases l with
  | int xs | uint xs | float xs | bool xs | matrix xs =>
    exact unmarked_entriesText (List.map_map.trans rfl)

end Literal

/-! ## Expressions -/

theorem Builtin.unmarked_name (f : Builtin) : Unmarked f.name := by
  have hall : ∀ f ∈ every, '/' ∉ f.name.toList := by decide +kernel
  exact .of_slash_notMem (hall f f.mem_every)

theorem UnaryOp.unmarked_symbol (op : UnaryOp) : Unmarked op.symbol := by
  cases op <;> decide

theorem BinaryOp.joining_symbol (op : BinaryOp) : Joining (" " ++ op.symbol ++ " ") := by
  cases op <;> decide

theorem Swizzle.unmarked_letters (mask : Swizzle) :
    Unmarked (String.ofList (mask.selectors.map Selector.letter)) := by
  refine .of_slash_notMem fun hslash ↦ ?_
  rw [String.toList_ofList] at hslash
  obtain ⟨s, -, hs⟩ := List.mem_map.mp hslash
  cases s <;> cases hs

namespace Expr

mutual

/-- An expression has no marker in its text if the names of its variables and functions have
none. -/
theorem unmarked_text (e : Expr) (hv : ∀ v ∈ e.vars, Unmarked v.name)
    (hf : ∀ f ∈ e.callees, Unmarked f.name) : Unmarked e.text :=
  match e with
  | lit value => value.unmarked_text
  | var v => hv v List.mem_cons_self
  | unary op a =>
    have ha := unmarked_text a hv hf
    (op.unmarked_symbol.join "(" ha (by decide)).before ")" (by decide)
  | binary _ op a b => by
    have ha := unmarked_text a (fun v h ↦ hv v (List.mem_append_left _ h))
      fun f h ↦ hf f (List.mem_append_left _ h)
    have hb := unmarked_text b (fun v h ↦ hv v (List.mem_append_right _ h))
      fun f h ↦ hf f (List.mem_append_right _ h)
    have hjoin := (ha.join _ hb op.joining_symbol).behind "(" (by decide)
    have hbinary := hjoin.before ")" (by decide)
    simpa only [text, String.append_assoc] using hbinary
  | call _ callee args => by
    have hname : Unmarked callee.name := by
      cases callee with
      | builtin f => exact f.unmarked_name
      | user f => exact hf f List.mem_cons_self
    have hargs := unmarked_textsOfList args hv fun f h ↦ hf f (List.mem_append_right _ h)
    exact (hname.join "(" (.commaSeparated hargs) (by decide)).before ")" (by decide)
  | swizzle _ source mask => by
    have hsource := unmarked_text source hv hf
    have hmask : mask.text = "." ++ String.ofList (mask.selectors.map Selector.letter) :=
      String.toList_inj.mp (by simp [Swizzle.text])
    rw [text, hmask, ← String.append_assoc]
    exact hsource.join "." mask.unmarked_letters (by decide)
  | lookup _ object index => by
    have hobject := unmarked_text object (fun v h ↦ hv v (List.mem_append_left _ h))
      fun f h ↦ hf f (List.mem_append_left _ h)
    have hindex := unmarked_text index (fun v h ↦ hv v (List.mem_append_right _ h))
      fun f h ↦ hf f (List.mem_append_right _ h)
    exact (hobject.join "[" hindex (by decide)).before "]" (by decide)

theorem unmarked_textsOfList (es : List Expr) (hv : ∀ v ∈ varsOfList es, Unmarked v.name)
    (hf : ∀ f ∈ calleesOfList es, Unmarked f.name) : ∀ s ∈ textsOfList es, Unmarked s :=
  match es with
  | [] => nofun
  | e :: rest => by
    have he := unmarked_text e (fun v h ↦ hv v (List.mem_append_left _ h))
      fun f h ↦ hf f (List.mem_append_left _ h)
    have hrest := unmarked_textsOfList rest (fun v h ↦ hv v (List.mem_append_right _ h))
      fun f h ↦ hf f (List.mem_append_right _ h)
    exact List.forall_mem_cons.mpr ⟨he, hrest⟩

end

end Expr

theorem Variable.unmarked_declaration {v : Variable} (hv : Unmarked v.name) :
    Unmarked v.declaration :=
  .blank v.type.slash_notMem_text hv

end ShaderGraph
