import ShaderGraph.Proofs.Expr.Variables

/-!
# Occurrences in statements

What a single statement holds: the expressions of its own scope and of the
header of its body, the variables it reads, writes and hides, and its regions.
A statement is nested in others by a path of regions; all that is said of whole
trees goes over such paths.
-/

namespace ShaderGraph

def ElseChain.conditions : ElseChain → List Expr
  | .done | .otherwise _ => []
  | .elseIf condition _ rest => condition :: rest.conditions

def ElseChain.regions : ElseChain → List Region
  | .done => []
  | .otherwise body => [body]
  | .elseIf _ body rest => body :: rest.regions

namespace Stmt

/-- The regions directly in a statement. -/
def regions : Stmt → List Region
  | .branch _ body otherwise => body :: otherwise.regions
  | .loopFor _ _ _ _ body | .loopWhile _ body => [body]
  | .block b => [b.body]
  | .declare .. | .assign .. | .augment .. | .breakLoop | .continueLoop | .discard | .leave _
  | .inline _ | .invoke .. => []

def target? : Stmt → Option Expr
  | .assign target _ | .augment target _ _ => some target
  | .declare .. | .branch .. | .loopFor .. | .loopWhile .. | .breakLoop | .continueLoop | .discard
  | .leave _ | .inline _ | .block _ | .invoke .. => none

/-- The expressions of a statement that belong to the scope it stands in. -/
def operands : Stmt → List Expr
  | .declare _ init => init.toList
  | .assign target value | .augment target _ value => [target, value]
  | .branch condition _ otherwise => condition :: otherwise.conditions
  | .loopFor _ init _ _ _ => [init]
  | .loopWhile condition _ => [condition]
  | .leave value => value.toList
  | .invoke _ args => args
  | .breakLoop | .continueLoop | .discard | .inline _ | .block _ => []

/-- The expressions of a statement that belong to the scope of its body: condition and update
of a loop with a variable, and the values wired to a block. -/
def header : Stmt → List Expr
  | .loopFor _ _ condition update _ => [condition, update]
  | .block b => b.inputs.map BlockInput.value
  | .declare .. | .assign .. | .augment .. | .branch .. | .loopWhile .. | .breakLoop
  | .continueLoop | .discard | .leave _ | .inline _ | .invoke .. => []

/-- The variables that a statement reads itself: those of its expressions, where a plain
assignment reads of its target the indices only. -/
def readVariables : Stmt → List Variable
  | .assign target value => target.indexVariables ++ value.vars
  | .augment target _ value =>
    target.root?.toList ++ target.indexVariables ++ value.vars
  | s => (s.operands ++ s.header).flatMap Expr.vars

/-- The variables that a statement writes itself: the one it declares or assigns to, and the
outputs of a block. -/
def writtenVariables : Stmt → List Variable
  | .declare v _ => [v]
  | .assign target _ | .augment target _ _ => target.root?.toList
  | .block b => b.outputs.map BlockOutput.slot
  | .branch .. | .loopFor .. | .loopWhile .. | .breakLoop | .continueLoop | .discard | .leave _
  | .inline _ | .invoke .. => []

/-- The variable of a loop, which is hidden outside of it. -/
def loopVariable? : Stmt → Option Variable
  | .loopFor v .. => some v
  | .declare .. | .assign .. | .augment .. | .branch .. | .loopWhile .. | .breakLoop
  | .continueLoop | .discard | .leave _ | .inline _ | .block _ | .invoke .. => none

end Stmt

/-- A statement stands in a list of statements, possibly within their regions. The path has the
numbers of the regions around it, innermost first. -/
inductive Nested : List Stmt → List ScopeId → Stmt → Prop
  | here {ss : List Stmt} {s : Stmt} (hs : s ∈ ss) : Nested ss [] s
  | inside {ss : List Stmt} {s : Stmt} {body : Region} {path : List ScopeId} {t : Stmt}
      (hs : s ∈ ss) (hbody : body ∈ s.regions) (ht : Nested body.statements path t) :
      Nested ss (path ++ [body.id]) t

/-- A region is nested in a list of statements. -/
def Holds (ss : List Stmt) (r : Region) : Prop := ∃ path t, Nested ss path t ∧ r ∈ t.regions

/-- A variable is in a read position somewhere in some statements. -/
def ReadsWithin (ss : List Stmt) (v : Variable) : Prop :=
  ∃ path t, Nested ss path t ∧ v ∈ t.readVariables

/-- A variable is declared, assigned or given by a block somewhere in some statements. -/
def WritesWithin (ss : List Stmt) (v : Variable) : Prop :=
  ∃ path t, Nested ss path t ∧ v ∈ t.writtenVariables

/-- A variable is declared by a region nested in some statements. -/
def DeclaresWithin (ss : List Stmt) (v : Variable) : Prop := ∃ r, Holds ss r ∧ v ∈ r.declared

namespace Nested

variable {ss : List Stmt} {s t : Stmt} {path : List ScopeId}

theorem mono {ss' : List Stmt} (h : Nested ss path t) (hss : ∀ s ∈ ss, s ∈ ss') :
    Nested ss' path t := by
  cases h with
  | here hs => exact .here (hss _ hs)
  | inside hs hbody ht => exact .inside (hss _ hs) hbody ht

/-- What is nested in some statements is nested in one of them. -/
theorem exists_mem (h : Nested ss path t) : ∃ s ∈ ss, Nested [s] path t := by
  cases h with
  | here hs => exact ⟨_, hs, .here List.mem_cons_self⟩
  | inside hs hbody ht => exact ⟨_, hs, .inside List.mem_cons_self hbody ht⟩

theorem singleton_iff : Nested [s] path t ↔
    path = [] ∧ t = s ∨
      ∃ body ∈ s.regions, ∃ rest, path = rest ++ [body.id] ∧ Nested body.statements rest t := by
  constructor
  · intro h
    cases h with
    | here hs => exact .inl ⟨rfl, List.mem_singleton.mp hs⟩
    | inside hs hbody ht =>
      obtain rfl := List.mem_singleton.mp hs
      exact .inr ⟨_, hbody, _, rfl, ht⟩
  · rintro (⟨rfl, rfl⟩ | ⟨body, hbody, rest, rfl, ht⟩)
    · exact .here List.mem_cons_self
    · exact .inside List.mem_cons_self hbody ht

theorem append_iff {ss' : List Stmt} :
    Nested (ss ++ ss') path t ↔ Nested ss path t ∨ Nested ss' path t := by
  constructor
  · intro h
    obtain ⟨s, hs, ht⟩ := h.exists_mem
    rcases List.mem_append.mp hs with hs | hs
    · exact .inl (ht.mono (by simpa using hs))
    · exact .inr (ht.mono (by simpa using hs))
  · rintro (h | h)
    · exact h.mono fun s hs ↦ List.mem_append_left ss' hs
    · exact h.mono fun s hs ↦ List.mem_append_right ss hs

theorem of_regions_eq_nil (hs : s.regions = []) (h : Nested [s] path t) : path = [] ∧ t = s := by
  rcases singleton_iff.mp h with h | ⟨body, hbody, -⟩
  · exact h
  · rw [hs] at hbody
    cases hbody

/-- The regions of a path are nested in the statements that it starts from. -/
theorem exists_holds_of_mem (h : Nested ss path t) {i : ScopeId} (hi : i ∈ path) :
    ∃ r, Holds ss r ∧ r.id = i := by
  induction h with
  | here _ => simp at hi
  | @inside ss s body path t hs hbody ht ih =>
    rcases List.mem_append.mp hi with hi | hi
    · obtain ⟨r, ⟨path', t', ht', hr⟩, hid⟩ := ih hi
      exact ⟨r, ⟨_, t', .inside hs hbody ht', hr⟩, hid⟩
    · exact ⟨body, ⟨[], s, .here hs, hbody⟩, (List.mem_singleton.mp hi).symm⟩

end Nested

namespace Holds

variable {ss : List Stmt} {r : Region}

theorem not_nil : ¬Holds [] r := by
  rintro ⟨path, t, ht, -⟩
  obtain ⟨s, hs, -⟩ := ht.exists_mem
  cases hs

theorem of_mem {s : Stmt} (hs : s ∈ ss) (hr : r ∈ s.regions) : Holds ss r :=
  ⟨[], s, .here hs, hr⟩

theorem inside {s : Stmt} {body : Region} (hs : s ∈ ss) (hbody : body ∈ s.regions)
    (hr : Holds body.statements r) : Holds ss r := by
  obtain ⟨path, t, ht, hr⟩ := hr
  exact ⟨_, t, .inside hs hbody ht, hr⟩

theorem mono {ss' : List Stmt} (h : Holds ss r) (hss : ∀ s ∈ ss, s ∈ ss') : Holds ss' r := by
  obtain ⟨path, t, ht, hr⟩ := h
  exact ⟨path, t, ht.mono hss, hr⟩

/-- Statements whose regions are from other statements, but for one body, hold what those hold and
what the body holds. -/
theorem extend {ss' : List Stmt} {body : Region}
    (hregions : ∀ s ∈ ss', ∀ r ∈ s.regions, r = body ∨ ∃ t ∈ ss, r ∈ t.regions)
    (h : Holds ss' r) : r = body ∨ Holds body.statements r ∨ Holds ss r := by
  obtain ⟨path, t, ht, hr⟩ := h
  cases ht with
  | here hs =>
    rcases hregions _ hs r hr with rfl | ⟨u, hu, hr⟩
    · exact .inl rfl
    · exact .inr (.inr (.of_mem hu hr))
  | inside hs hb ht =>
    rcases hregions _ hs _ hb with rfl | ⟨u, hu, hb⟩
    · exact .inr (.inl ⟨_, t, ht, hr⟩)
    · exact .inr (.inr (.inside hu hb ⟨_, t, ht, hr⟩))

theorem of_concat {s : Stmt} (hs : s.regions = []) (h : Holds (ss ++ [s]) r) : Holds ss r := by
  obtain ⟨path, t, ht, hr⟩ := h
  rcases Nested.append_iff.mp ht with ht | ht
  · exact ⟨path, t, ht, hr⟩
  · obtain ⟨rfl, rfl⟩ := Nested.of_regions_eq_nil hs ht
    rw [hs] at hr
    cases hr

end Holds

end ShaderGraph
