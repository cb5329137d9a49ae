import Mathlib.Data.List.Perm.Subperm
import Mathlib.Data.List.Nodup
import ShaderGraph.NamePool

/-!
# Names that are new

The search for a free number tries as many numbers as there are names taken,
and stops behind them. The names tried are all different, so they cannot be
taken together with the last one.
-/

namespace ShaderGraph

theorem repr_injective : Function.Injective Nat.repr := by
  intro m n h
  have hdigits : Nat.toDigits 10 m = Nat.toDigits 10 n := by
    rw [← Nat.toList_repr, h, Nat.toList_repr]
  calc m = Nat.ofDigitChars 10 (Nat.toDigits 10 m) 0 := Nat.ofDigitChars_ten_toDigits.symm
    _ = Nat.ofDigitChars 10 (Nat.toDigits 10 n) 0 := by rw [hdigits]
    _ = n := Nat.ofDigitChars_ten_toDigits

namespace NamePool

variable {p q : NamePool} {stem name : String}

theorem numbered_injective (stem : String) : Function.Injective (numbered stem) := by
  intro m n h
  unfold numbered at h
  exact repr_injective (by simpa using h)

theorem contains_iff : p.contains name = true ↔ name ∈ p.taken := List.contains_iff_mem

/-- All numbers before the one found are taken. -/
theorem contains_of_lt_firstFree {steps n i : Nat} (hn : n ≤ i)
    (hi : i < p.firstFree stem steps n) : p.contains (numbered stem i) = true := by
  induction steps generalizing n with
  | zero => exact absurd hi (Nat.not_lt_of_le hn)
  | succ steps ih =>
    unfold firstFree at hi
    split at hi
    · next htaken =>
      rcases Nat.eq_or_lt_of_le hn with rfl | hlt
      · exact htaken
      · exact ih hlt hi
    · exact absurd hi (Nat.not_lt_of_le hn)

/-- The number found is free, unless the search has come to its end. -/
theorem firstFree_cases (p : NamePool) (stem : String) (steps n : Nat) :
    p.firstFree stem steps n = n + steps ∨
      p.contains (numbered stem (p.firstFree stem steps n)) = false := by
  induction steps generalizing n with
  | zero => exact .inl rfl
  | succ steps ih =>
    unfold firstFree
    split
    · have hnext := ih (n + 1)
      rwa [Nat.add_right_comm n 1 steps] at hnext
    · next hfree => exact .inr (Bool.not_eq_true _ ▸ hfree)

/-- There are more numbers than names taken. -/
theorem exists_free (p : NamePool) (stem : String) (n : Nat) :
    ∃ i, n ≤ i ∧ i ≤ n + p.taken.length ∧ numbered stem i ∉ p.taken := by
  by_contra hnone
  have htaken : (List.range' n (p.taken.length + 1)).map (numbered stem) ⊆ p.taken := by
    intro candidate hcandidate
    obtain ⟨i, hi, rfl⟩ := List.mem_map.mp hcandidate
    obtain ⟨hlow, hhigh⟩ := List.mem_range'_1.mp hi
    by_contra hfree
    exact hnone ⟨i, hlow, by omega, hfree⟩
  have hnodup : ((List.range' n (p.taken.length + 1)).map (numbered stem)).Nodup :=
    (List.nodup_range' 1).map (numbered_injective stem)
  have hlength := (hnodup.subperm htaken).length_le
  simp only [List.length_map, List.length_range'] at hlength
  omega

/-- The next name of a stem is not taken. -/
theorem next_notMem (p : NamePool) (stem : String) : (p.next stem).1 ∉ p.taken := by
  intro hmem
  change numbered stem (p.nextNumber stem) ∈ p.taken at hmem
  rcases firstFree_cases p stem p.taken.length (p.counter stem + 1) with hend | hfree
  · obtain ⟨i, hlow, hhigh, hi⟩ := exists_free p stem (p.counter stem + 1)
    rcases Nat.eq_or_lt_of_le hhigh with rfl | hlt
    · rw [nextNumber, hend] at hmem
      exact hi hmem
    · rw [← hend] at hlt
      exact hi (contains_iff.mp (contains_of_lt_firstFree hlow hlt))
  · rw [← contains_iff, nextNumber, hfree] at hmem
    cases hmem

theorem reserve_eq_ok :
    p.reserve name = .ok q ↔ name ∉ p.taken ∧ q = { p with taken := name :: p.taken } := by
  unfold reserve
  rw [← contains_iff]
  split
  · next htaken => exact ⟨nofun, fun h ↦ (h.1 htaken).elim⟩
  · next hfree => exact ⟨fun h ↦ ⟨hfree, (Except.ok.inj h).symm⟩, fun h ↦ by rw [h.2]⟩

/-- A name is taken from a pool: it is made up or was wanted. -/
def Gives (p : NamePool) (name : String) (q : NamePool) : Prop :=
  (∃ stem, p.next stem = (name, q)) ∨ p.reserve name = .ok q

namespace Gives

theorem taken (h : p.Gives name q) : q.taken = name :: p.taken := by
  rcases h with ⟨stem, h⟩ | h
  · obtain ⟨rfl, rfl⟩ := Prod.mk.inj h
    rfl
  · obtain ⟨-, rfl⟩ := reserve_eq_ok.mp h
    rfl

theorem notMem (h : p.Gives name q) : name ∉ p.taken := by
  rcases h with ⟨stem, h⟩ | h
  · obtain ⟨rfl, -⟩ := Prod.mk.inj h
    exact next_notMem p stem
  · exact (reserve_eq_ok.mp h).1

theorem nodup (h : p.Gives name q) (hp : p.taken.Nodup) : q.taken.Nodup := by
  rw [h.taken]
  exact List.nodup_cons.mpr ⟨h.notMem, hp⟩

end Gives

end NamePool

end ShaderGraph
