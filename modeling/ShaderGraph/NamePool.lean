import ShaderGraph.BuildError

/-!
# Name pool

All names of a program come from one pool, which never gives a name twice.
A wanted name is reserved as it is, or made up from a stem by numbering it;
the numbers of a stem only go up.
-/

namespace ShaderGraph

/-- The names taken so far, newest first, and the last number given for each stem. -/
structure NamePool where
  taken : List String
  counters : List (String × Nat)

namespace NamePool

def empty : NamePool := ⟨[], []⟩

def contains (p : NamePool) (name : String) : Bool := p.taken.contains name

def size (p : NamePool) : Nat := p.taken.length

/-- The last number given for a stem; zero before the first. -/
def counter (p : NamePool) (stem : String) : Nat := (p.counters.lookup stem).getD 0

def numbered (stem : String) (n : Nat) : String := stem ++ "_" ++ toString n

/-- The first number from `n` on whose name is not taken, among `steps` of them; the number
after those if all are taken. -/
def firstFree (p : NamePool) (stem : String) : Nat → Nat → Nat
  | 0, n => n
  | steps + 1, n =>
    if p.contains (numbered stem n) then p.firstFree stem steps (n + 1) else n

/-- The number that the next name made from a stem gets. As many candidates as there are
taken names are tried, and they cannot all be taken together with the one after them. -/
def nextNumber (p : NamePool) (stem : String) : Nat :=
  p.firstFree stem p.taken.length (p.counter stem + 1)

def next (p : NamePool) (stem : String) : String × NamePool :=
  let n := p.nextNumber stem
  let name := numbered stem n
  (name, ⟨name :: p.taken, (stem, n) :: p.counters.filter (·.1 != stem)⟩)

def reserve (p : NamePool) (name : String) : Except BuildError NamePool :=
  if p.contains name then .error (.nameTaken name)
  else .ok { p with taken := name :: p.taken }

@[simp] theorem contains_empty (name : String) : empty.contains name = false := rfl

@[simp] theorem size_next (p : NamePool) (stem : String) :
    (p.next stem).2.size = p.size + 1 := rfl

@[simp] theorem contains_next (p : NamePool) (stem name : String) :
    (p.next stem).2.contains name = (name == (p.next stem).1 || p.contains name) := rfl

theorem le_firstFree (p : NamePool) (stem : String) (steps n : Nat) :
    n ≤ p.firstFree stem steps n := by
  induction steps generalizing n with
  | zero => exact Nat.le_refl n
  | succ steps ih =>
    unfold firstFree
    split
    · exact Nat.le_trans (Nat.le_succ n) (ih (n + 1))
    · exact Nat.le_refl n

theorem counter_lt_nextNumber (p : NamePool) (stem : String) :
    p.counter stem < p.nextNumber stem :=
  le_firstFree p stem _ _

end NamePool

end ShaderGraph
