import ShaderGraph.Proofs.Listing.Texts
import ShaderGraph.Proofs.Region.Introduction
import ShaderGraph.Proofs.Region.Scoping
import ShaderGraph.Proofs.Region.Writers

/-!
# Lines of statements

The names in the lines of a statement are those of the statement itself and of
the statements in it, also where a line shows what it reads and writes. If the
names are plain, then the lines are clean, at every depth.
-/

namespace ShaderGraph

namespace Stmt

/-- The names of a statement that no variable and no function has: a block has a name and one for
what it does. -/
def labels : Stmt → List String
  | .block b => [b.name, b.kind]
  | .declare .. | .assign .. | .augment .. | .branch .. | .loopFor .. | .loopWhile .. | .breakLoop
  | .continueLoop | .discard | .leave _ | .inline _ | .invoke .. => []

/-- The names that stand in a statement itself. -/
def names (s : Stmt) : List String :=
  s.mentioned.map Variable.name ++ s.callees.map Signature.name ++ s.labels

def inlineCode? : Stmt → Option String
  | .inline code => some code
  | .declare .. | .assign .. | .augment .. | .branch .. | .loopFor .. | .loopWhile .. | .breakLoop
  | .continueLoop | .discard | .leave _ | .block _ | .invoke .. => none

/-- A statement has no marker in its names or in its code, and no line break in its names. -/
structure Plain (s : Stmt) : Prop where
  names : ∀ name ∈ s.names, Unmarked name ∧ '\n' ∉ name.toList
  code : ∀ code, s.inlineCode? = some code → Unmarked code

variable {s t u : Stmt} {v : Variable}

theorem mem_tree_of_mem_regions {body : Region} (hbody : body ∈ s.regions)
    (ht : t ∈ body.statements) (hu : u ∈ t.tree) : u ∈ s.tree := by
  refine List.mem_cons_of_mem s ?_
  rw [within_eq_flatMap, List.flatMap_assoc]
  exact List.mem_flatMap.mpr ⟨body, hbody, Region.mem_statements_all.mpr ⟨t, ht, hu⟩⟩

theorem mem_mentioned_of_mem_vars {e : Expr} (he : e ∈ s.operands ++ s.header) (hv : v ∈ e.vars) :
    v ∈ s.mentioned := by
  have hvars := List.mem_flatMap.mpr ⟨e, he, hv⟩
  exact List.mem_append_left _ (List.mem_append_left _ (List.mem_append_left _ hvars))

theorem mem_mentioned_of_mem_introduced (hv : v ∈ s.introduced) : v ∈ s.mentioned :=
  List.mem_append_left _ (List.mem_append_left _ (List.mem_append_right _ hv))

theorem mem_mentioned_of_mem_given (hv : v ∈ s.given) : v ∈ s.mentioned :=
  List.mem_append_left _ (List.mem_append_right _ hv)

end Stmt

theorem VarSet.eq_of_mem_insert? {found : Option Variable} {v : Variable}
    (h : v ∈ VarSet.empty.insert? found) : found = some v := by
  cases found with
  | none => exact (VarSet.not_mem_empty v h).elim
  | some w => rw [(VarSet.eq_or_mem_of_mem_insert h).resolve_right (VarSet.not_mem_empty v)]

namespace Expr

theorem mem_vars_or_mem_of_mem_addTargetReads {e : Expr} {usesOld : Bool} {set : VarSet}
    {v : Variable} (h : v ∈ e.addTargetReads usesOld set) : v ∈ e.vars ∨ v ∈ set := by
  fun_induction addTargetReads usesOld set e with
  | case1 set w hold => exact (VarSet.eq_or_mem_of_mem_insert h).imp_left List.mem_singleton.mpr
  | case3 set _ source mask ih => exact ih h
  | case4 set _ object index ih =>
    simp only [vars, List.mem_append]
    rcases ih h with h | h
    · exact .inl (.inl h)
    · exact (mem_vars_or_mem_of_mem_addReads index h).imp_left .inr
  | _ => exact .inr h

theorem mem_vars_of_targetVariable? {e : Expr} {v : Variable} (h : e.targetVariable? = some v) :
    v ∈ e.vars := by
  fun_induction targetVariable? e with
  | case1 w => exact List.mem_singleton.mpr (Option.some.inj h).symm
  | case2 _ source mask ih => exact ih h
  | case3 _ object index ih => exact List.mem_append_left _ (ih h)
  | _ => cases h

end Expr

namespace Stmt

variable {s : Stmt} {v : Variable}

/-- An assignment mentions what it reads and writes, also if its target cannot be assigned to. -/
theorem effects_of_target (hs : s.target? ≠ none) :
    (v ∈ s.reads → v ∈ s.mentioned) ∧ (v ∈ s.writes → v ∈ s.mentioned) := by
  have hall (target value : Expr) (hoperands : s.operands = [target, value]) (usesOld : Bool) :
      (v ∈ target.addTargetReads usesOld value.reads → v ∈ s.mentioned) ∧
        (v ∈ VarSet.empty.insert? target.targetVariable? → v ∈ s.mentioned) := by
    have htarget : target ∈ s.operands ++ s.header := by simp [hoperands]
    have hvalue : value ∈ s.operands ++ s.header := by simp [hoperands]
    constructor
    · intro h
      rcases Expr.mem_vars_or_mem_of_mem_addTargetReads h with h | h
      · exact mem_mentioned_of_mem_vars htarget h
      · exact mem_mentioned_of_mem_vars hvalue (Expr.mem_vars_of_mem_reads h)
    · intro h
      have hroot := VarSet.eq_of_mem_insert? h
      exact mem_mentioned_of_mem_vars htarget (Expr.mem_vars_of_targetVariable? hroot)
  cases s with
  | assign target value => exact hall target value rfl false
  | augment target op value => exact hall target value rfl true
  | _ => exact absurd rfl hs

theorem mem_mentioned_of_mem_reads (h : v ∈ s.reads) :
    v ∈ s.mentioned ∨ ∃ body ∈ s.regions, v ∈ body.reads := by
  by_cases hs : s.target? = none
  -- what is known of sets that are read is known for targets that can be assigned to
  · have hassignable : s.Assignable := fun e he ↦ by simp [hs] at he
    refine (mem_of_mem_reads hassignable h).imp_left fun hv ↦ ?_
    rcases mentioned_of_mem_readVariables hv with ⟨e, he, hv⟩ | ⟨e, he, hv⟩
    · exact mem_mentioned_of_mem_vars (List.mem_append_left _ he) hv
    · exact mem_mentioned_of_mem_vars (List.mem_append_right _ he) hv
  · exact .inl ((effects_of_target hs).1 h)

theorem mem_mentioned_of_mem_writes (h : v ∈ s.writes) :
    v ∈ s.mentioned ∨ ∃ body ∈ s.regions, v ∈ body.writes := by
  by_cases hs : s.target? = none
  · have hassignable : s.Assignable := fun e he ↦ by simp [hs] at he
    refine (mem_of_mem_writes hassignable h).imp_left fun hv ↦ mem_mentioned_of_mem_introduced ?_
    cases s with
    | assign | augment => cases hs
    | _ => exact hv
  · exact .inl ((effects_of_target hs).2 h)

/-- What a statement reads or writes is mentioned in it or in a statement in it. -/
theorem exists_mentioned_of_mem_effects (h : v ∈ s.reads ∨ v ∈ s.writes) :
    ∃ u ∈ s.tree, v ∈ u.mentioned := by
  induction s using Stmt.nestedInduction with
  | step s ih =>
    have hinside {body : Region} {t : Stmt} (hbody : body ∈ s.regions) (ht : t ∈ body.statements)
        (hv : v ∈ t.reads ∨ v ∈ t.writes) : ∃ u ∈ s.tree, v ∈ u.mentioned := by
      obtain ⟨u, hu, hv⟩ := ih body hbody t ht hv
      exact ⟨u, mem_tree_of_mem_regions hbody ht hu, hv⟩
    rcases h with h | h
    · rcases mem_mentioned_of_mem_reads h with h | ⟨body, hbody, h⟩
      · exact ⟨s, List.mem_cons_self, h⟩
      · obtain ⟨t, ht, h⟩ := Region.exists_mem_of_mem_reads h
        exact hinside hbody ht (.inl h)
    · rcases mem_mentioned_of_mem_writes h with h | ⟨body, hbody, h⟩
      · exact ⟨s, List.mem_cons_self, h⟩
      · obtain ⟨t, ht, h⟩ := Region.exists_mem_of_mem_writes h
        exact hinside hbody ht (.inr h)

end Stmt

theorem AugmentOp.joining_symbol (op : AugmentOp) : Joining (" " ++ op.symbol ++ " ") := by
  cases op <;> decide

theorem Variable.unmarked_declarationWith {v : Variable} {init : Option Expr}
    (hv : Unmarked v.name) (hinit : ∀ e ∈ init, Unmarked e.text) :
    Unmarked (v.declarationWith init) := by
  cases init with
  | none => exact unmarked_declaration hv
  | some e => exact (unmarked_declaration hv).join " = " (hinit e rfl) (by decide)

namespace Stmt.Plain

variable {s : Stmt} {v : Variable}

theorem mentioned (h : s.Plain) (hv : v ∈ s.mentioned) :
    Unmarked v.name ∧ '\n' ∉ v.name.toList :=
  h.names _ (List.mem_append_left _ (List.mem_append_left _ (List.mem_map_of_mem hv)))

theorem callee (h : s.Plain) {f : Signature} (hf : f ∈ s.callees) : Unmarked f.name :=
  (h.names _ (List.mem_append_left _ (List.mem_append_right _ (List.mem_map_of_mem hf)))).1

theorem label (h : s.Plain) {name : String} (hname : name ∈ s.labels) : Unmarked name :=
  (h.names _ (List.mem_append_right _ hname)).1

theorem introduced (h : s.Plain) (hv : v ∈ s.introduced) : Unmarked v.name :=
  (h.mentioned (mem_mentioned_of_mem_introduced hv)).1

theorem given (h : s.Plain) (hv : v ∈ s.given) : Unmarked v.name :=
  (h.mentioned (mem_mentioned_of_mem_given hv)).1

theorem expression (h : s.Plain) {e : Expr} (he : e ∈ s.operands ++ s.header) : Unmarked e.text :=
  e.unmarked_text (fun _ hv ↦ (h.mentioned (mem_mentioned_of_mem_vars he hv)).1) fun _ hf ↦
    h.callee (List.mem_append_right _ (Expr.mem_calleesOfList.mpr ⟨e, he, hf⟩))

theorem operand (h : s.Plain) {e : Expr} (he : e ∈ s.operands) : Unmarked e.text :=
  h.expression (List.mem_append_left _ he)

theorem header (h : s.Plain) {e : Expr} (he : e ∈ s.header) : Unmarked e.text :=
  h.expression (List.mem_append_right _ he)

end Stmt.Plain

/-! ## Clean lines -/

/-- There are no line breaks among the names of some effects. -/
def Effects.OneLine (e : Effects) : Prop :=
  ∀ name ∈ e.reads.names ++ e.writes.names, '\n' ∉ name.toList

theorem Stmt.oneLine_effects {s : Stmt} (h : ∀ u ∈ s.tree, u.Plain) : s.effects.OneLine := by
  intro name hname
  have hsets : ∃ v, (v ∈ s.reads ∨ v ∈ s.writes) ∧ v.name = name := by
    rcases List.mem_append.mp hname with hname | hname
    · obtain ⟨v, hv, hname⟩ := List.mem_map.mp hname
      exact ⟨v, .inl hv, hname⟩
    · obtain ⟨v, hv, hname⟩ := List.mem_map.mp hname
      exact ⟨v, .inr hv, hname⟩
  obtain ⟨v, hv, rfl⟩ := hsets
  obtain ⟨u, hu, hv⟩ := exists_mentioned_of_mem_effects hv
  exact ((h u hu).mentioned hv).2

theorem Line.Clean.plain {code : String} (depth : Nat) (h : Unmarked code) :
    (Line.plain depth code).Clean where
  unmarked := h
  names e he := by cases he

theorem Line.clean_ending {code : String} {e : Effects} (depth : Nat) (he : e.OneLine)
    (h : Unmarked code) : ∀ l ∈ [Line.ending depth code e], l.Clean := by
  refine List.forall_mem_singleton.mpr ⟨h, fun e' heq ↦ ?_⟩
  obtain rfl : e = e' := Option.some.inj heq
  exact he

theorem Stmt.linesOfList_eq_flatMap (depth : Nat) (ss : List Stmt) :
    linesOfList depth ss = ss.flatMap (lines depth) := by
  induction ss with
  | nil => rfl
  | cons s rest ih => simp [linesOfList, ih]

theorem Region.lines_eq_flatMap (depth : Nat) (r : Region) :
    r.lines depth = r.statements.flatMap (Stmt.lines depth) := by
  cases r
  rw [Region.lines, Stmt.linesOfList_eq_flatMap]

/-- The lines of a region stand between clean ones, of which the last ends a statement. -/
theorem Region.clean_braced {r : Region} {e : Effects} {depth : Nat} {head : String}
    (he : e.OneLine) (hhead : Unmarked head) (hr : ∀ l ∈ r.lines (depth + 1), l.Clean) :
    ∀ l ∈ .plain depth head :: (r.lines (depth + 1) ++ [.ending depth r"}" e]), l.Clean := by
  have hend := Line.clean_ending depth he (by decide : Unmarked r"}")
  exact List.forall_mem_cons.mpr ⟨.plain depth hhead, List.forall_mem_append.mpr ⟨hr, hend⟩⟩

theorem ElseChain.clean_lines {chain : ElseChain} {e : Effects} {depth : Nat} (he : e.OneLine)
    (hconditions : ∀ c ∈ chain.conditions, Unmarked c.text)
    (hbodies : ∀ r ∈ chain.regions, ∀ l ∈ r.lines (depth + 1), l.Clean) :
    ∀ l ∈ chain.lines depth e, l.Clean := by
  fun_induction ElseChain.regions chain with
  | case1 => exact Line.clean_ending depth he (by decide)
  | case2 body => exact Region.clean_braced he (by decide) (hbodies body List.mem_cons_self)
  | case3 condition body rest ih =>
    have hcondition := hconditions condition List.mem_cons_self
    have hhead := (hcondition.behind r"} else if (" (by decide)).before r") {" (by decide)
    have hrest := ih (fun c hc ↦ hconditions c (List.mem_cons_of_mem condition hc))
      fun r hr ↦ hbodies r (List.mem_cons_of_mem body hr)
    exact List.forall_mem_cons.mpr ⟨.plain depth hhead,
      List.forall_mem_append.mpr ⟨hbodies body List.mem_cons_self, hrest⟩⟩

theorem Block.clean_lines {b : Block} {e : Effects} {depth : Nat} (h : (Stmt.block b).Plain)
    (he : e.OneLine) (hbody : ∀ l ∈ b.body.lines (depth + 1), l.Clean) :
    ∀ l ∈ b.lines depth e, l.Clean := by
  obtain ⟨name, kind, inputs, outputs, body⟩ := b
  have hname : Unmarked name := h.label List.mem_cons_self
  have hkind : Unmarked kind := h.label (List.mem_cons_of_mem name List.mem_cons_self)
  have hblock := (hname.behind "// block " (by decide)).join " (" hkind (by decide)
  have houtputs : ∀ l ∈ outputs.map fun p ↦ Line.plain depth (p.slot.declaration ++ ";"),
      l.Clean := by
    refine List.forall_mem_map.mpr fun p hp ↦ .plain depth ?_
    have hslot := h.introduced (List.mem_map_of_mem (f := BlockOutput.slot) hp)
    exact (Variable.unmarked_declaration hslot).before ";" (by decide)
  have hinputs : ∀ l ∈ inputs.map fun p ↦
      Line.plain (depth + 1) (p.slot.declarationWith (some p.value) ++ ";"), l.Clean := by
    refine List.forall_mem_map.mpr fun p hp ↦ .plain (depth + 1) ?_
    have hslot := h.given (List.mem_map_of_mem (f := BlockInput.slot) hp)
    have hvalue := h.header (List.mem_map_of_mem (f := BlockInput.value) hp)
    have hinit : ∀ e ∈ some p.value, Unmarked e.text := fun e he ↦ Option.some.inj he ▸ hvalue
    exact (Variable.unmarked_declarationWith hslot hinit).before ";" (by decide)
  have hend := Line.clean_ending depth he (by decide : Unmarked r"}")
  have hbraces := List.forall_mem_cons.mpr ⟨Line.Clean.plain depth (by decide : Unmarked r"{"),
    List.forall_mem_append.mpr ⟨hinputs, List.forall_mem_append.mpr ⟨hbody, hend⟩⟩⟩
  exact List.forall_mem_cons.mpr ⟨.plain depth (hblock.before ")" (by decide)),
    List.forall_mem_append.mpr ⟨houtputs, hbraces⟩⟩

/-- The lines of a statement are clean if those of its regions are. -/
theorem Stmt.Plain.clean_lines {s : Stmt} {depth : Nat} (h : s.Plain) (he : s.effects.OneLine)
    (hbodies : ∀ r ∈ s.regions, ∀ l ∈ r.lines (depth + 1), l.Clean) :
    ∀ l ∈ s.lines depth, l.Clean := by
  have hleaf {code : String} : Unmarked code → ∀ l ∈ [Line.ending depth code s.effects], l.Clean :=
    Line.clean_ending depth he
  cases s with
  | declare v init =>
    have hdeclared := Variable.unmarked_declarationWith (h.introduced List.mem_cons_self)
      fun e he ↦ h.operand (Option.mem_toList.mpr he)
    exact hleaf (hdeclared.before ";" (by decide))
  | assign target value =>
    have htarget := h.operand (e := target) (by simp [operands])
    have hvalue := h.operand (e := value) (by simp [operands])
    exact hleaf ((htarget.join " = " hvalue (by decide)).before ";" (by decide))
  | augment target op value =>
    have htarget := h.operand (e := target) (by simp [operands])
    have hvalue := h.operand (e := value) (by simp [operands])
    have hcode := (htarget.join _ hvalue op.joining_symbol).before ";" (by decide)
    exact hleaf (by simpa only [String.append_assoc] using hcode)
  | branch condition body otherwise =>
    have hcondition := h.operand (e := condition) List.mem_cons_self
    have hhead := (hcondition.behind "if (" (by decide)).before r") {" (by decide)
    have hotherwise := ElseChain.clean_lines he
      (fun c hc ↦ h.operand (List.mem_cons_of_mem condition hc))
      fun r hr ↦ hbodies r (List.mem_cons_of_mem body hr)
    exact List.forall_mem_cons.mpr ⟨.plain depth hhead,
      List.forall_mem_append.mpr ⟨hbodies body List.mem_cons_self, hotherwise⟩⟩
  | loopFor v init condition update body =>
    have hv : Unmarked v.name := h.given List.mem_cons_self
    have hinit := h.operand (e := init) List.mem_cons_self
    have hcondition := h.header (e := condition) List.mem_cons_self
    have hupdate := h.header (e := update) (List.mem_cons_of_mem condition List.mem_cons_self)
    have hstart := ((Variable.unmarked_declaration hv).behind "for (" (by decide)).join " = "
      hinit (by decide)
    have hturn := (hstart.join "; " hcondition (by decide)).join "; " hv (by decide)
    have hhead := (hturn.join " = " hupdate (by decide)).before r") {" (by decide)
    exact Region.clean_braced he hhead (hbodies body List.mem_cons_self)
  | loopWhile condition body =>
    have hcondition := h.operand (e := condition) List.mem_cons_self
    have hhead := (hcondition.behind "while (" (by decide)).before r") {" (by decide)
    exact Region.clean_braced he hhead (hbodies body List.mem_cons_self)
  | breakLoop | continueLoop | discard => exact hleaf (by decide)
  | leave value =>
    cases value with
    | none => exact hleaf (by decide)
    | some e =>
      have hvalue := h.operand (e := e) List.mem_cons_self
      exact hleaf ((hvalue.behind "return " (by decide)).before ";" (by decide))
  | inline code => exact hleaf (h.code code rfl)
  | block b => exact Block.clean_lines h he (hbodies b.body List.mem_cons_self)
  | invoke f args =>
    have hname : Unmarked f.name := h.callee List.mem_cons_self
    have hargs : ∀ s ∈ Expr.textsOfList args, Unmarked s := by
      rw [Expr.textsOfList_eq_map]
      exact List.forall_mem_map.mpr fun e he ↦ h.operand he
    have hcall := hname.join "(" (.commaSeparated hargs) (by decide)
    exact hleaf (hcall.before ");" (by decide))

/-- At every depth, the lines of a statement are clean if it and the statements in it are plain. -/
theorem Stmt.clean_lines {s : Stmt} (h : ∀ u ∈ s.tree, u.Plain) (depth : Nat) :
    ∀ l ∈ s.lines depth, l.Clean := by
  induction s using Stmt.nestedInduction generalizing depth with
  | step s ih =>
    refine (h s List.mem_cons_self).clean_lines (oneLine_effects h) fun body hbody ↦ ?_
    rw [Region.lines_eq_flatMap]
    refine List.forall_mem_flatMap.mpr fun t ht ↦ ih body hbody t ht (fun u hu ↦ ?_) (depth + 1)
    exact h u (mem_tree_of_mem_regions hbody ht hu)

theorem Region.clean_lines {r : Region} (h : ∀ s ∈ r.statements, ∀ u ∈ s.tree, u.Plain)
    (depth : Nat) : ∀ l ∈ r.lines depth, l.Clean := by
  rw [lines_eq_flatMap]
  exact List.forall_mem_flatMap.mpr fun s hs ↦ Stmt.clean_lines (h s hs) depth

end ShaderGraph
