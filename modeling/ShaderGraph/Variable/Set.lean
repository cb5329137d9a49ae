import ShaderGraph.Variable

/-!
# Sets of variables

A set lists its variables by increasing number, each number once. The main
statements say which variables are in a set after each operation.
-/

namespace ShaderGraph

/-- Variables by increasing number. -/
structure VarSet where
  toList : List Variable
  sorted : toList.Pairwise (fun v w ↦ v.id < w.id)

namespace VarSet

def empty : VarSet := ⟨[], .nil⟩

/-- Puts a variable in its place; a variable of that number already there stays. -/
def insertList (v : Variable) : List Variable → List Variable
  | [] => [v]
  | w :: rest =>
    if v.id < w.id then v :: w :: rest
    else if v.id = w.id then w :: rest
    else w :: insertList v rest

theorem mem_insertList {v x : Variable} {l : List Variable} (h : x ∈ insertList v l) :
    x = v ∨ x ∈ l := by
  induction l with
  | nil => simpa [insertList] using h
  | cons w rest ih =>
    simp only [insertList] at h
    split at h
    · simpa using h
    · split at h
      · exact .inr h
      · rcases List.mem_cons.mp h with h | h
        · simp [h]
        · rcases ih h with h | h <;> simp [h]

theorem pairwise_insertList (v : Variable) {l : List Variable}
    (h : l.Pairwise (fun v w ↦ v.id < w.id)) :
    (insertList v l).Pairwise (fun v w ↦ v.id < w.id) := by
  induction l with
  | nil => simp [insertList]
  | cons w rest ih =>
    obtain ⟨hw, hrest⟩ := List.pairwise_cons.mp h
    simp only [insertList]
    split
    · next hlt =>
      refine List.pairwise_cons.mpr ⟨fun x hx ↦ ?_, h⟩
      rcases List.mem_cons.mp hx with rfl | hx
      · exact hlt
      · exact Nat.lt_trans hlt (hw x hx)
    · split
      · exact h
      · next hlt hne =>
        refine List.pairwise_cons.mpr ⟨fun x hx ↦ ?_, ih hrest⟩
        rcases mem_insertList hx with rfl | hx
        · omega
        · exact hw x hx

/-- Adds a variable unless its number is already there. -/
def insert (s : VarSet) (v : Variable) : VarSet :=
  ⟨insertList v s.toList, pairwise_insertList v s.sorted⟩

def insertAll (s : VarSet) (vs : List Variable) : VarSet := vs.foldl insert s

def union (s t : VarSet) : VarSet := s.insertAll t.toList

def eraseAll (s : VarSet) (vs : List Variable) : VarSet :=
  ⟨s.toList.filter (fun x ↦ !vs.any (·.id == x.id)), s.sorted.filter _⟩

/-- Drops the variable with the number of `v`. -/
def erase (s : VarSet) (v : Variable) : VarSet := s.eraseAll [v]

/-- Whether the number of `v` is in the set. -/
def contains (s : VarSet) (v : Variable) : Bool := s.toList.any (·.id == v.id)

def containsName (s : VarSet) (name : String) : Bool := s.toList.any (·.name == name)

def names (s : VarSet) : List String := s.toList.map Variable.name

def size (s : VarSet) : Nat := s.toList.length

@[simp] theorem contains_empty (v : Variable) : empty.contains v = false := rfl

theorem any_insertList (n : Nat) (v : Variable) (l : List Variable) :
    (insertList v l).any (·.id == n) = (v.id == n || l.any (·.id == n)) := by
  induction l with
  | nil => simp [insertList]
  | cons w rest ih =>
    simp only [insertList]
    split
    · simp
    · split
      · next heq => simp [heq]
      · simp [ih, Bool.or_left_comm]

@[simp] theorem contains_insert (s : VarSet) (v w : Variable) :
    (s.insert v).contains w = (v.id == w.id || s.contains w) :=
  any_insertList w.id v s.toList

@[simp] theorem contains_insertAll (s : VarSet) (vs : List Variable) (w : Variable) :
    (s.insertAll vs).contains w = (vs.any (·.id == w.id) || s.contains w) := by
  induction vs generalizing s with
  | nil => simp [insertAll]
  | cons v rest ih =>
    have h := ih (s.insert v)
    simp only [insertAll, List.foldl_cons] at h ⊢
    simp [h, Bool.or_left_comm, Bool.or_assoc]

@[simp] theorem contains_union (s t : VarSet) (w : Variable) :
    (s.union t).contains w = (t.contains w || s.contains w) :=
  contains_insertAll s t.toList w

@[simp] theorem contains_eraseAll (s : VarSet) (vs : List Variable) (w : Variable) :
    (s.eraseAll vs).contains w = (s.contains w && !vs.any (·.id == w.id)) := by
  simp only [eraseAll, contains, List.any_filter]
  induction s.toList with
  | nil => rfl
  | cons x rest ih =>
    simp only [List.any_cons, ih]
    cases h : x.id == w.id
    · simp
    · have hx : x.id = w.id := by simpa using h
      rw [hx]
      cases vs.any (·.id == w.id) <;> simp

@[simp] theorem contains_erase (s : VarSet) (v w : Variable) :
    (s.erase v).contains w = (s.contains w && v.id != w.id) := by
  simp [erase, bne]

end VarSet

end ShaderGraph
