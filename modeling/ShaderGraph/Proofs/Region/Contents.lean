import Mathlib.Data.List.Count
import Mathlib.Data.List.Flatten
import ShaderGraph.Proofs.Region.Effects

/-!
# What regions contain

All regions of a tree are listed, each as often as it occurs, so that what they
declare and which blocks stand in them can be counted. Where a region gets
statements and variables, the counts add up.
-/

namespace ShaderGraph

/-- What is made at most once in a program: a variable, or the name of a block or function. -/
inductive Item where
  | slot (v : Variable)
  | body (name : String)
  deriving DecidableEq

mutual

/-- The regions in a statement, at any depth. -/
def Stmt.within : Stmt → List Region
  | .branch _ body otherwise => body.all ++ otherwise.within
  | .loopFor _ _ _ _ body | .loopWhile _ body => body.all
  | .block b => b.within
  | .declare .. | .assign .. | .augment .. | .breakLoop | .continueLoop | .discard | .leave _
  | .inline _ | .invoke .. => []

def ElseChain.within : ElseChain → List Region
  | .done => []
  | .otherwise body => body.all
  | .elseIf _ body rest => body.all ++ rest.within

def Block.within : Block → List Region
  | ⟨_, _, _, _, body⟩ => body.all

/-- A region and the regions in it, at any depth. -/
def Region.all : Region → List Region
  | ⟨id, kind, statements, declared⟩ =>
    ⟨id, kind, statements, declared⟩ :: Stmt.withinOfList statements

def Stmt.withinOfList : List Stmt → List Region
  | [] => []
  | s :: rest => s.within ++ Stmt.withinOfList rest

end

theorem Stmt.withinOfList_eq_flatMap (ss : List Stmt) : withinOfList ss = ss.flatMap within := by
  induction ss with
  | nil => rfl
  | cons s rest ih => simp [withinOfList, ih]

theorem ElseChain.within_eq_flatMap (chain : ElseChain) :
    chain.within = chain.regions.flatMap Region.all := by
  fun_induction ElseChain.regions chain with
  | case1 => rfl
  | case2 body => simp [within]
  | case3 condition body rest ih => simp [within, ih]

theorem Stmt.within_eq_flatMap (s : Stmt) : s.within = s.regions.flatMap Region.all := by
  cases s with
  | branch condition body otherwise => simp [within, regions, ElseChain.within_eq_flatMap]
  | block b =>
    cases b
    simp [within, regions, Block.within]
  | _ => simp [within, regions]

theorem Region.all_eq (r : Region) : r.all = r :: r.statements.flatMap Stmt.within := by
  cases r
  rw [Region.all, Stmt.withinOfList_eq_flatMap]

/-- The name under which a statement is a block. -/
def Stmt.blockName? : Stmt → Option String
  | .block b => some b.name
  | .declare .. | .assign .. | .augment .. | .branch .. | .loopFor .. | .loopWhile .. | .breakLoop
  | .continueLoop | .discard | .leave _ | .inline _ | .invoke .. => none

namespace Region

/-- The names of the blocks among the statements of a region. -/
def blockNames (r : Region) : List String := r.statements.filterMap Stmt.blockName?

/-- What a region places itself: the variables that it declares and the blocks in it. -/
def items (r : Region) : List Item := r.declared.map .slot ++ r.blockNames.map .body

/-- What a region places, at any depth. -/
def placed (r : Region) : List Item := r.all.flatMap items

theorem self_mem_all (r : Region) : r ∈ r.all := by
  rw [all_eq]
  exact List.mem_cons_self

end Region

theorem Stmt.holds_of_mem_within (s : Stmt) {r : Region} (h : r ∈ s.within) : Holds [s] r := by
  induction s using Stmt.nestedInduction with
  | step s ih =>
    rw [within_eq_flatMap] at h
    obtain ⟨body, hbody, h⟩ := List.mem_flatMap.mp h
    rw [Region.all_eq] at h
    rcases List.mem_cons.mp h with rfl | h
    · exact .of_mem List.mem_cons_self hbody
    · obtain ⟨t, ht, h⟩ := List.mem_flatMap.mp h
      have hheld : Holds body.statements r :=
        (ih body hbody t ht h).mono fun u hu ↦ List.mem_singleton.mp hu ▸ ht
      exact .inside List.mem_cons_self hbody hheld

theorem Nested.mem_within {ss : List Stmt} {path : List ScopeId} {t : Stmt}
    (h : Nested ss path t) {r : Region} (hr : r ∈ t.within) : r ∈ ss.flatMap Stmt.within := by
  induction h with
  | here hs => exact List.mem_flatMap.mpr ⟨_, hs, hr⟩
  | @inside ss s body path t hs hbody _ ih =>
    have hmem : r ∈ body.all := by
      rw [Region.all_eq]
      exact List.mem_cons_of_mem body (ih hr)
    refine List.mem_flatMap.mpr ⟨s, hs, ?_⟩
    rw [Stmt.within_eq_flatMap]
    exact List.mem_flatMap.mpr ⟨body, hbody, hmem⟩

namespace Region

/-- The regions listed are the region itself and those nested in it. -/
theorem mem_all_iff {r r' : Region} : r' ∈ r.all ↔ r' = r ∨ Holds r.statements r' := by
  rw [all_eq, List.mem_cons]
  refine or_congr_right ⟨fun h ↦ ?_, fun ⟨path, t, ht, hr⟩ ↦ ?_⟩
  · obtain ⟨s, hs, h⟩ := List.mem_flatMap.mp h
    exact (s.holds_of_mem_within h).mono fun u hu ↦ List.mem_singleton.mp hu ▸ hs
  · have hwithin : r' ∈ t.within := by
      rw [Stmt.within_eq_flatMap]
      exact List.mem_flatMap.mpr ⟨r', hr, r'.self_mem_all⟩
    exact ht.mem_within hwithin

end Region

/-- What a statement places: itself if it is a block, and what its regions place. -/
def Stmt.placed (s : Stmt) : List Item :=
  s.blockName?.toList.map .body ++ s.within.flatMap Region.items

theorem Stmt.placed_of_leaf {s : Stmt} (hregions : s.regions = []) (hname : s.blockName? = none) :
    s.placed = [] := by
  simp [placed, within_eq_flatMap, hregions, hname]

/-- A statement with one body that is no block places what the body does. -/
theorem Stmt.placed_of_body {s : Stmt} {r : Region} (hregions : s.regions = [r])
    (hname : s.blockName? = none) : s.placed = r.placed := by
  simp [placed, within_eq_flatMap, hregions, hname, Region.placed]

/-- A region places what it declares and what its statements place. -/
theorem Region.count_placed (r : Region) (x : Item) : r.placed.count x =
    (r.declared.map Item.slot).count x + (r.statements.flatMap Stmt.placed).count x := by
  have hstatements (ss : List Stmt) : (ss.flatMap Stmt.placed).count x =
      ((ss.filterMap Stmt.blockName?).map Item.body).count x +
        ((ss.flatMap Stmt.within).flatMap Region.items).count x := by
    induction ss with
    | nil => rfl
    | cons s rest ih =>
      have hname : ((s :: rest).filterMap Stmt.blockName?) =
          s.blockName?.toList ++ rest.filterMap Stmt.blockName? := by
        cases hs : s.blockName? <;> simp [hs]
      rw [hname]
      simp only [List.flatMap_cons, List.count_append, List.map_append, List.flatMap_append, ih,
        Stmt.placed]
      omega
  rw [hstatements, placed, all_eq]
  simp only [List.flatMap_cons, items, List.count_append, blockNames]
  omega

namespace ElseChain

/-- A chain that goes on has no regions but the old and the new ones. -/
theorem within_append_sublist (chain tail : ElseChain) :
    (chain.append tail).within.Sublist (chain.within ++ tail.within) := by
  fun_induction ElseChain.append chain tail with
  | case1 => simp [within]
  | case2 => exact List.sublist_append_left _ _
  | case3 condition body rest tail ih =>
    simp only [within, List.append_assoc]
    exact (List.Sublist.refl _).append ih

end ElseChain

/-- Where the conditional that some statements end with goes on, the new part is added at most. -/
theorem Stmt.count_placed_extended {ss : List Stmt} {condition : Expr} {body : Region}
    {rest : ElseChain} (hlast : ss.getLast? = some (.branch condition body rest))
    (tail : ElseChain) (x : Item) :
    ((ss.dropLast ++ [branch condition body (rest.append tail)]).flatMap Stmt.placed).count x ≤
      (ss.flatMap Stmt.placed).count x + (tail.within.flatMap Region.items).count x := by
  obtain ⟨front, rfl⟩ := List.getLast?_eq_some_iff.mp hlast
  have htail := ((rest.within_append_sublist tail).flatMap Region.items).count_le x
  simp only [List.flatMap_append, List.count_append] at htail
  simp only [List.dropLast_concat, List.flatMap_append, List.flatMap_cons, List.flatMap_nil,
    List.append_nil, List.count_append, Stmt.placed, Stmt.blockName?, Stmt.within]
  omega

end ShaderGraph
