import Mathlib.Algebra.Order.Field.Basic
import Mathlib.Algebra.Order.Field.Rat
import Mathlib.Algebra.Order.Ring.Pow
import Mathlib.Order.Monotone.Basic
import Mathlib.Tactic.NormNum
import Mathlib.Tactic.Positivity
import Mathlib.Tactic.Ring
import ShaderGraph.Single.Shortest

/-!
# Rounding intervals

The decimals that round to a finite number form an interval. In the order of
their bits without the sign, these intervals follow each other: where one ends,
the next one starts, and that point belongs to the one of even number. A
decimal therefore rounds to one magnitude only.
-/

namespace ShaderGraph

theorem pow_toNat_eq {b : ℚ} (hb : b ≠ 0) (p : Int) : b ^ p.toNat = b ^ p * b ^ (-p).toNat := by
  have hsplit : (p.toNat : Int) = p + (-p).toNat := by omega
  calc b ^ p.toNat = b ^ (p.toNat : Int) := (zpow_natCast b _).symm
    _ = b ^ (p + ((-p).toNat : Int)) := by rw [hsplit]
    _ = b ^ p * b ^ (-p).toNat := by rw [zpow_add₀ hb, zpow_natCast]

/-- Both sides of a scaled comparison are multiplied by one positive factor. -/
theorem exists_scaled (a : Nat) (p : Int) (b : Nat) (q : Int) :
    ∃ c : ℚ, 0 < c ∧ ((a * Nat.pow 10 p.toNat * Nat.pow 2 (-q).toNat : Nat) : ℚ) = a * 10 ^ p * c ∧
      ((b * Nat.pow 2 q.toNat * Nat.pow 10 (-p).toNat : Nat) : ℚ) = b * 2 ^ q * c := by
  refine ⟨10 ^ (-p).toNat * 2 ^ (-q).toNat, by positivity, ?_, ?_⟩
  · push_cast [Nat.pow_eq]
    rw [pow_toNat_eq (by norm_num) p]
    ring
  · push_cast [Nat.pow_eq]
    rw [pow_toNat_eq (by norm_num) q]
    ring

theorem compareScaled_eq_lt {a : Nat} {p : Int} {b : Nat} {q : Int} :
    compareScaled a p b q = .lt ↔ (a : ℚ) * 10 ^ p < b * 2 ^ q := by
  obtain ⟨c, hc, hleft, hright⟩ := exists_scaled a p b q
  unfold compareScaled
  rw [Nat.compare_eq_lt, ← Nat.cast_lt (α := ℚ), hleft, hright]
  exact mul_lt_mul_iff_of_pos_right hc

theorem compareScaled_eq_gt {a : Nat} {p : Int} {b : Nat} {q : Int} :
    compareScaled a p b q = .gt ↔ (b : ℚ) * 2 ^ q < a * 10 ^ p := by
  obtain ⟨c, hc, hleft, hright⟩ := exists_scaled a p b q
  unfold compareScaled
  rw [Nat.compare_eq_gt, ← Nat.cast_lt (α := ℚ), hleft, hright]
  exact mul_lt_mul_iff_of_pos_right hc

theorem compareScaled_eq_eq {a : Nat} {p : Int} {b : Nat} {q : Int} :
    compareScaled a p b q = .eq ↔ (a : ℚ) * 10 ^ p = b * 2 ^ q := by
  obtain ⟨c, hc, hleft, hright⟩ := exists_scaled a p b q
  unfold compareScaled
  rw [Nat.compare_eq_eq, ← Nat.cast_inj (R := ℚ), hleft, hright]
  exact mul_left_inj' hc.ne'

namespace Single

/-! ## Magnitudes in order -/

/-- The bits of a number without its sign. -/
def magnitude (x : Single) : Nat := x.bits.toNat % 0x80000000

/-- The number that the `n`-th magnitude is of its last place. -/
def significand (n : Nat) : Nat :=
  if n / 0x800000 = 0 then n % 0x800000 else 0x800000 + n % 0x800000

/-- Where the interval of the `n`-th magnitude starts, in multiples of `2 ^ -151`. -/
def intervalStart (n : Nat) : Nat :=
  (if n % 0x800000 = 0 ∧ 1 < n / 0x800000 then 4 * significand n - 1 else 4 * significand n - 2) *
    2 ^ (n / 0x800000 - 1)

def intervalEnd (n : Nat) : Nat := (4 * significand n + 2) * 2 ^ (n / 0x800000 - 1)

theorem significand_mod_two (n : Nat) : significand n % 2 = n % 2 := by
  unfold significand
  split <;> omega

theorem intervalStart_zero : intervalStart 0 = 0 := by decide

theorem intervalEnd_zero : intervalEnd 0 = 2 := by decide

/-- An interval ends where the next one starts. -/
theorem intervalStart_succ (n : Nat) : intervalStart (n + 1) = intervalEnd n := by
  by_cases hlast : n % 0x800000 + 1 = 0x800000
  · have hdiv : (n + 1) / 0x800000 = n / 0x800000 + 1 := by omega
    have hmod : (n + 1) % 0x800000 = 0 := by omega
    have hsucc : significand (n + 1) = 0x800000 := by simp [significand, hdiv, hmod]
    unfold intervalStart intervalEnd
    rw [hsucc, hdiv, hmod]
    cases hn : n / 0x800000 with
    | zero =>
      have hsig : significand n = 0x7FFFFF := by
        unfold significand
        rw [if_pos hn]
        omega
      rw [hsig]
      rfl
    | succ e =>
      have hsig : significand n = 0xFFFFFF := by
        unfold significand
        rw [if_neg (by omega)]
        omega
      rw [hsig, if_pos ⟨rfl, by omega⟩]
      simp only [Nat.add_sub_cancel, Nat.pow_succ]
      omega
  · have hdiv : (n + 1) / 0x800000 = n / 0x800000 := by omega
    have hmod : (n + 1) % 0x800000 = n % 0x800000 + 1 := by omega
    have hsucc : significand (n + 1) = significand n + 1 := by
      unfold significand
      rw [hdiv, hmod]
      split <;> omega
    unfold intervalStart intervalEnd
    rw [hsucc, hdiv, hmod, if_neg (by omega)]
    congr 1

theorem intervalStart_lt_intervalEnd (n : Nat) : intervalStart n < intervalEnd n := by
  unfold intervalStart intervalEnd
  refine Nat.mul_lt_mul_of_pos_right ?_ (Nat.two_pow_pos _)
  split <;> omega

theorem intervalStart_strictMono : StrictMono intervalStart := by
  apply strictMono_nat_of_lt_succ
  intro n
  rw [intervalStart_succ]
  exact intervalStart_lt_intervalEnd n

/-- A point in multiples of `2 ^ -151` rounds to the `n`-th magnitude. -/
structure RoundsTo (v : ℚ) (n : Nat) : Prop where
  start : intervalStart n < v ∨ v = intervalStart n ∧ n % 2 = 0
  stop : v < intervalEnd n ∨ v = intervalEnd n ∧ n % 2 = 0

/-- Intervals share no point: a common end is for the even one, and its neighbours are odd. -/
theorem RoundsTo.unique {v : ℚ} {m n : Nat} (hm : RoundsTo v m) (hn : RoundsTo v n) : m = n := by
  have hle {i j : Nat} (hi : RoundsTo v i) (hj : RoundsTo v j) : j ≤ i := by
    by_contra hlt
    have hnext : intervalEnd i ≤ intervalStart j := by
      rw [← intervalStart_succ]
      exact intervalStart_strictMono.monotone (by omega)
    have hcast : (intervalEnd i : ℚ) ≤ intervalStart j := by exact_mod_cast hnext
    rcases hi.stop with hlast | ⟨hend, hi'⟩
    · rcases hj.start with hfirst | ⟨hstart, -⟩
      · exact absurd hcast (hfirst.trans hlast).not_ge
      · exact absurd hcast (hstart ▸ hlast).not_ge
    · rcases hj.start with hfirst | ⟨hstart, hj'⟩
      · exact absurd hcast (hend ▸ hfirst).not_ge
      · have hsame : intervalStart (i + 1) = intervalStart j := by
          rw [intervalStart_succ]
          exact_mod_cast hend.symm.trans hstart
        have hij : i + 1 = j := intervalStart_strictMono.injective hsame
        omega
  exact Nat.le_antisymm (hle hn hm) (hle hm hn)

theorem RoundsTo.between {u v w : ℚ} {n : Nat} (hu : RoundsTo u n) (hw : RoundsTo w n)
    (huv : u ≤ v) (hvw : v ≤ w) : RoundsTo v n where
  start := by
    rcases hu.start with hfirst | ⟨hstart, heven⟩
    · exact .inl (hfirst.trans_le huv)
    · rcases huv.lt_or_eq with hlt | rfl
      · exact .inl (hstart ▸ hlt)
      · exact .inr ⟨hstart, heven⟩
  stop := by
    rcases hw.stop with hlast | ⟨hend, heven⟩
    · exact .inl (hvw.trans_lt hlast)
    · rcases hvw.lt_or_eq with hlt | rfl
      · exact .inl (hend ▸ hlt)
      · exact .inr ⟨hend, heven⟩

variable (x : Single)

theorem exponentBits_eq : x.exponentBits = x.magnitude / 0x800000 := by
  unfold exponentBits magnitude
  omega

theorem fractionBits_eq : x.fractionBits = x.magnitude % 0x800000 := by
  unfold fractionBits magnitude
  omega

theorem mantissa_eq : x.mantissa = significand x.magnitude := by
  unfold mantissa significand
  rw [exponentBits_eq, fractionBits_eq]

theorem scale_eq : x.scale = (x.magnitude / 0x800000 - 1 : Nat) - 149 := by
  unfold scale
  rw [exponentBits_eq]
  split <;> omega

theorem lowEnd_mul_two_pow :
    x.lowEnd * 2 ^ (x.magnitude / 0x800000 - 1) = intervalStart x.magnitude := by
  unfold lowEnd intervalStart
  rw [exponentBits_eq, fractionBits_eq, mantissa_eq]

theorem highEnd_mul_two_pow :
    x.highEnd * 2 ^ (x.magnitude / 0x800000 - 1) = intervalEnd x.magnitude := by
  unfold highEnd intervalEnd
  rw [mantissa_eq]

/-- A number of quarters of the last place, in multiples of `2 ^ -151`. -/
theorem quarters_eq (b : Nat) : (b : ℚ) * 2 ^ (x.scale - 2) * 2 ^ 151 =
    (b * 2 ^ (x.magnitude / 0x800000 - 1) : Nat) := by
  have hscale : x.scale - 2 = (x.magnitude / 0x800000 - 1 : Nat) + (-151 : Int) := by
    rw [scale_eq]
    omega
  have hunit : (2 : ℚ) ^ (-151 : Int) * 2 ^ 151 = 1 := by norm_num
  rw [hscale, zpow_add₀ (by norm_num), zpow_natCast, ← mul_assoc, mul_assoc _ _ (2 ^ 151), hunit]
  push_cast
  ring

/-- The check of a decimal says that it rounds to the number's magnitude. -/
theorem roundsFrom_iff (n : Nat) (p : Int) : x.roundsFrom n p = true ↔
    RoundsTo (n * 10 ^ p * 2 ^ 151) x.magnitude := by
  have hpos : (0 : ℚ) < 2 ^ 151 := by norm_num
  have heven : (x.mantissa % 2 == 0) = decide (x.magnitude % 2 = 0) := by
    rw [mantissa_eq, significand_mod_two]
    rfl
  have hstart := x.quarters_eq x.lowEnd
  have hstop := x.quarters_eq x.highEnd
  rw [lowEnd_mul_two_pow] at hstart
  rw [highEnd_mul_two_pow] at hstop
  unfold roundsFrom
  rw [Bool.and_eq_true, heven]
  refine Iff.trans (and_congr ?_ ?_) ⟨fun h ↦ ⟨h.1, h.2⟩, fun h ↦ ⟨h.start, h.stop⟩⟩
  · rw [← hstart, mul_lt_mul_iff_of_pos_right hpos, mul_left_inj' hpos.ne', ← compareScaled_eq_gt,
      ← compareScaled_eq_eq]
    cases compareScaled n p x.lowEnd (x.scale - 2) <;> simp
  · rw [← hstop, mul_lt_mul_iff_of_pos_right hpos, mul_left_inj' hpos.ne', ← compareScaled_eq_lt,
      ← compareScaled_eq_eq]
    cases compareScaled n p x.highEnd (x.scale - 2) <;> simp

/-- The number that a finite single precision number is. -/
def value (x : Single) : ℚ := (if x.negative then -1 else 1) * (x.mantissa * 2 ^ x.scale)

theorem value_of_isZero {x : Single} (h : x.isZero = true) : x.value = 0 := by
  rw [isZero, Bool.and_eq_true, beq_iff_eq, beq_iff_eq] at h
  have hmantissa : x.mantissa = 0 := by rw [mantissa, if_pos h.1, h.2]
  rw [value, hmantissa]
  simp

theorem value_eq_of_equal {x y : Single} (h : x.equal y = true) : x.value = y.value := by
  simp only [equal, Bool.and_eq_true, Bool.or_eq_true, beq_iff_eq] at h
  rcases h.2 with rfl | ⟨hx, hy⟩
  · rfl
  · rw [value_of_isZero hx, value_of_isZero hy]

@[simp] theorem value_zero : zero.value = 0 := value_of_isZero rfl

@[simp] theorem value_one : one.value = 1 := by
  have hmantissa : one.mantissa = 0x800000 := by decide
  have hscale : one.scale = -23 := by decide
  have hnegative : one.negative = false := by decide
  rw [value, hmantissa, hscale, hnegative]
  norm_num

end Single

end ShaderGraph
