import Mathlib.Algebra.Order.Floor.Semifield
import Mathlib.Data.Rat.Floor
import Mathlib.Tactic.Linarith
import ShaderGraph.Proofs.Single.Text

/-!
# Rounding

A rational number is rounded at the last place that numbers of its size have.
Magnitudes are numbered in their order, so that a carry out of the last place
of one exponent is the first number of the next one. The result is the nearest
one of all finite numbers, and the even one of two that are equally near.
-/

namespace ShaderGraph

/-- The whole number nearest to a number that is not negative, the even one of two. -/
def halfEven (v : ℚ) : Nat :=
  if v < ⌊v⌋₊ + 1 / 2 then ⌊v⌋₊
  else if (⌊v⌋₊ : ℚ) + 1 / 2 < v then ⌊v⌋₊ + 1
  else ⌊v⌋₊ + ⌊v⌋₊ % 2

theorem le_halfEven {v : ℚ} (hv : 0 ≤ v) :
    (halfEven v : ℚ) < v + 1 / 2 ∨ (halfEven v : ℚ) = v + 1 / 2 ∧ halfEven v % 2 = 0 := by
  have hfloor := Nat.floor_le hv
  unfold halfEven
  generalize ⌊v⌋₊ = n at hfloor
  split
  · exact .inl (by linarith)
  · split
    · next hhalf => exact .inl (by push_cast; linarith)
    · next hlow hhigh =>
      rcases Nat.mod_two_eq_zero_or_one n with hn | hn
      · rw [hn]
        exact .inl (by push_cast; linarith)
      · rw [hn]
        exact .inr ⟨by push_cast; linarith, by omega⟩

theorem halfEven_le (v : ℚ) :
    v < halfEven v + 1 / 2 ∨ v = halfEven v + 1 / 2 ∧ halfEven v % 2 = 0 := by
  have hnext := Nat.lt_floor_add_one v
  unfold halfEven
  generalize ⌊v⌋₊ = n at hnext
  split
  · next hhalf => exact .inl hhalf
  · split
    · exact .inl (by push_cast; linarith)
    · next hlow hhigh =>
      rcases Nat.mod_two_eq_zero_or_one n with hn | hn
      · rw [hn]
        exact .inr ⟨by push_cast; linarith, by omega⟩
      · rw [hn]
        exact .inl (by push_cast; linarith)

namespace Single

/-- The `n`-th magnitude in multiples of `2 ^ -149`. -/
def point (n : Nat) : Nat := significand n * 2 ^ (n / 0x800000 - 1)

theorem intervalEnd_eq (n : Nat) :
    intervalEnd n = 4 * point n + 2 * 2 ^ (n / 0x800000 - 1) := by
  unfold intervalEnd point
  ring

theorem point_succ (n : Nat) : point (n + 1) = point n + 2 ^ (n / 0x800000 - 1) := by
  have hnext := intervalStart_succ n
  have hpos : 0 < 2 ^ (n / 0x800000 - 1) := Nat.two_pow_pos _
  rw [intervalEnd_eq] at hnext
  unfold intervalStart at hnext
  split at hnext
  · next hcarry =>
    have hplace : (n + 1) / 0x800000 - 1 = n / 0x800000 - 1 + 1 := by omega
    rw [Nat.sub_mul, Nat.mul_assoc, ← point, hplace, Nat.pow_succ] at hnext
    omega
  · next hcarry =>
    have hplace : (n + 1) / 0x800000 - 1 = n / 0x800000 - 1 := by omega
    rw [Nat.sub_mul, Nat.mul_assoc, ← point, hplace] at hnext
    omega

theorem point_strictMono : StrictMono point := by
  apply strictMono_nat_of_lt_succ
  intro n
  rw [point_succ]
  exact Nat.lt_add_of_pos_right (Nat.two_pow_pos _)

/-- An interval ends halfway to the next point. -/
theorem intervalEnd_eq_middle (n : Nat) : intervalEnd n = 2 * point n + 2 * point (n + 1) := by
  rw [intervalEnd_eq, point_succ]
  ring

theorem abs_value (x : Single) : |x.value| * 2 ^ 149 = point x.magnitude := by
  have hsign : |if x.negative then (-1 : ℚ) else 1| = 1 := by cases x.negative <;> simp
  have hmagnitude : (0 : ℚ) ≤ x.mantissa * 2 ^ x.scale := by positivity
  have hunit : (2 : ℚ) ^ (-149 : Int) * 2 ^ 149 = 1 := by norm_num
  rw [value, abs_mul, hsign, one_mul, abs_of_nonneg hmagnitude, mantissa_eq, scale_eq,
    sub_eq_add_neg, zpow_add₀ (by norm_num), zpow_natCast, mul_assoc, mul_assoc, hunit, mul_one,
    point]
  push_cast
  rfl

/-- The nearer one of two points is the one on the same side of their middle. -/
theorem abs_sub_lt_abs_sub_iff {v a b : ℚ} : |v - a| < |v - b| ↔ 0 < (a - b) * (2 * v - a - b) := by
  rw [← sq_lt_sq, ← sub_pos]
  ring_nf

theorem abs_sub_le_abs_sub_iff {v a b : ℚ} : |v - a| ≤ |v - b| ↔ 0 ≤ (a - b) * (2 * v - a - b) := by
  rw [← sq_le_sq, ← sub_nonneg]
  ring_nf

theorem RoundsTo.side {v : ℚ} {n m : Nat} (h : RoundsTo (4 * v) n) (hne : m ≠ n) :
    (0 : ℚ) < (point n - point m) * (2 * v - point n - point m) ∨
      (0 : ℚ) ≤ (point n - point m) * (2 * v - point n - point m) ∧ n % 2 = 0 := by
  rcases Nat.lt_or_gt_of_ne hne with hlt | hgt
  · obtain ⟨k, rfl⟩ := Nat.exists_eq_succ_of_ne_zero (Nat.ne_zero_of_lt hlt)
    have hside : (0 : ℚ) < point (k + 1) - point m := by
      rw [sub_pos]
      exact_mod_cast point_strictMono hlt
    have hle : (point m : ℚ) ≤ point k := by
      exact_mod_cast point_strictMono.monotone (Nat.le_of_lt_succ hlt)
    have hmiddle : (intervalStart (k + 1) : ℚ) = 2 * point k + 2 * point (k + 1) := by
      exact_mod_cast (intervalStart_succ k).trans (intervalEnd_eq_middle k)
    rcases h.start with hstart | ⟨hstart, heven⟩
    · exact .inl (mul_pos hside (by linarith))
    · exact .inr ⟨mul_nonneg hside.le (by linarith), heven⟩
  · have hside : (point n : ℚ) - point m < 0 := by
      rw [sub_neg]
      exact_mod_cast point_strictMono hgt
    have hle : (point (n + 1) : ℚ) ≤ point m := by
      exact_mod_cast point_strictMono.monotone hgt
    have hmiddle : (intervalEnd n : ℚ) = 2 * point n + 2 * point (n + 1) := by
      exact_mod_cast intervalEnd_eq_middle n
    rcases h.stop with hstop | ⟨hstop, heven⟩
    · exact .inl (mul_pos_of_neg_of_neg hside (by linarith))
    · exact .inr ⟨mul_nonneg_of_nonpos_of_nonpos hside.le (by linarith), heven⟩

/-- Of all points, the one that a number rounds to is the nearest. -/
theorem RoundsTo.nearer {v : ℚ} {n m : Nat} (h : RoundsTo (4 * v) n) (hne : m ≠ n) :
    |v - point n| < |v - point m| ∨ |v - point n| = |v - point m| ∧ n % 2 = 0 := by
  have hside := h.side hne
  rw [← abs_sub_lt_abs_sub_iff, ← abs_sub_le_abs_sub_iff] at hside
  rcases hside with hlt | ⟨hle, heven⟩
  · exact .inl hlt
  · exact hle.lt_or_eq.imp_right fun heq ↦ ⟨heq, heven⟩

/-! ## Rounding numbers -/

/-- The number of the magnitude nearest to a number, in multiples of `2 ^ -149`. Magnitudes below
`2 ^ 24` are these multiples; each further binary digit moves the last place by one. -/
def nearestMagnitude (v : ℚ) : Nat :=
  let place := Nat.log2 ⌊v⌋₊ - 23
  place * 0x800000 + halfEven (v / 2 ^ place)

def ofMagnitude (negative : Bool) (n : Nat) : Single :=
  ⟨UInt32.ofNat ((if negative then 0x80000000 else 0) + n)⟩

/-- The number that a rational number is rounded to, an infinity beyond the finite numbers. -/
def nearest (v : ℚ) : Single :=
  ofMagnitude (decide (v < 0)) (min (nearestMagnitude (|v| * 2 ^ 149)) 0x7F800000)

theorem lt_two_pow_place (v : ℚ) : v < 2 ^ (Nat.log2 ⌊v⌋₊ - 23 + 24) := by
  have hlog : ⌊v⌋₊ + 1 ≤ 2 ^ (Nat.log2 ⌊v⌋₊ + 1) := Nat.lt_log2_self
  calc v < (⌊v⌋₊ + 1 : Nat) := by exact_mod_cast Nat.lt_floor_add_one v
    _ ≤ (2 ^ (Nat.log2 ⌊v⌋₊ + 1) : Nat) := by exact_mod_cast hlog
    _ = 2 ^ (Nat.log2 ⌊v⌋₊ + 1) := by push_cast; rfl
    _ ≤ 2 ^ (Nat.log2 ⌊v⌋₊ - 23 + 24) := pow_le_pow_right₀ (by norm_num) (by omega)

theorem two_pow_place_le {v : ℚ} (hv : 0 ≤ v) (hplace : 0 < Nat.log2 ⌊v⌋₊ - 23) :
    2 ^ (Nat.log2 ⌊v⌋₊ - 23 + 23) ≤ v := by
  have hlog : 2 ^ Nat.log2 ⌊v⌋₊ ≤ ⌊v⌋₊ := by
    apply Nat.log2_self_le
    intro hzero
    rw [hzero] at hplace
    exact absurd hplace (by decide)
  rw [Nat.sub_add_cancel (by omega)]
  exact le_trans (by exact_mod_cast hlog) (Nat.floor_le hv)

/-- A last place of `2 ^ e` has the magnitudes with a full mantissa, and the first one beyond. -/
theorem point_place {e m : Nat} (hm : m ≤ 0x1000000) (hfull : e = 0 ∨ 0x800000 ≤ m) :
    point (e * 0x800000 + m) = m * 2 ^ e := by
  unfold point significand
  rcases hm.lt_or_eq with hlt | rfl
  · by_cases hm' : 0x800000 ≤ m
    · have hdiv : (e * 0x800000 + m) / 0x800000 = e + 1 := by omega
      have hmod : 0x800000 + (e * 0x800000 + m) % 0x800000 = m := by omega
      rw [hdiv, hmod, if_neg (Nat.succ_ne_zero e), Nat.add_sub_cancel]
    · obtain rfl := hfull.resolve_right hm'
      have hdiv : (0 * 0x800000 + m) / 0x800000 = 0 := by omega
      have hmod : (0 * 0x800000 + m) % 0x800000 = m := by omega
      rw [hdiv, hmod, if_pos rfl]
  · have hdiv : (e * 0x800000 + 0x1000000) / 0x800000 = e + 1 + 1 := by omega
    have hmod : 0x800000 + (e * 0x800000 + 0x1000000) % 0x800000 = 0x800000 := by omega
    rw [hdiv, hmod, if_neg (Nat.succ_ne_zero _), Nat.add_sub_cancel, Nat.pow_succ]
    omega

theorem le_intervalEnd_place {e m : Nat} (hm : m ≤ 0x1000000) (hfull : e = 0 ∨ 0x800000 ≤ m) :
    (4 * m + 2) * 2 ^ e ≤ intervalEnd (e * 0x800000 + m) := by
  have hplace : e ≤ (e * 0x800000 + m) / 0x800000 - 1 := by omega
  have hunit : 2 ^ e ≤ 2 ^ ((e * 0x800000 + m) / 0x800000 - 1) :=
    Nat.pow_le_pow_right (by decide) hplace
  rw [intervalEnd_eq, point_place hm hfull, Nat.add_mul, Nat.mul_assoc]
  omega

/-- The interval of the first magnitude with a new last place starts less than half of it before
that magnitude, where the numbers are denser. -/
theorem intervalStart_place_le {e m : Nat} (hm : m ≤ 0x1000000) (hfull : e = 0 ∨ 0x800000 ≤ m)
    (hpos : 0 < m) :
    intervalStart (e * 0x800000 + m) = (4 * m - 2) * 2 ^ e ∨
      0 < e ∧ m = 0x800000 ∧ intervalStart (e * 0x800000 + m) < 4 * m * 2 ^ e := by
  obtain ⟨k, hk⟩ := Nat.exists_eq_succ_of_ne_zero (n := e * 0x800000 + m) (by omega)
  have hpoint := point_place hm hfull
  have hunit : 0 < 2 ^ (k / 0x800000 - 1) := Nat.two_pow_pos _
  rw [hk, point_succ] at hpoint
  rw [hk, intervalStart_succ, intervalEnd_eq, Nat.sub_mul, Nat.mul_assoc]
  by_cases hplace : k / 0x800000 - 1 = e
  · rw [hplace] at hpoint ⊢
    exact .inl (by omega)
  · exact .inr ⟨by omega, by omega, by omega⟩

/-- Rounded at the last place of its size, a number lies in the interval of the magnitude: all of
it but the part before a new last place is half a place wide on either side. -/
theorem roundsTo_place {e m : Nat} {u : ℚ} (hu : 0 ≤ u) (hfirst : 0 < e → 0x800000 ≤ u)
    (hm : m ≤ 0x1000000) (hfull : e = 0 ∨ 0x800000 ≤ m)
    (hlow : (m : ℚ) < u + 1 / 2 ∨ (m : ℚ) = u + 1 / 2 ∧ m % 2 = 0)
    (hhigh : u < m + 1 / 2 ∨ u = m + 1 / 2 ∧ m % 2 = 0) :
    RoundsTo (4 * (u * 2 ^ e)) (e * 0x800000 + m) := by
  have hunit : (0 : ℚ) < 2 ^ e := by positivity
  have heven : (e * 0x800000 + m) % 2 = m % 2 := by omega
  constructor
  · rw [heven]
    rcases Nat.eq_zero_or_pos m with rfl | hpos
    · obtain rfl := hfull.resolve_right (by decide)
      rw [Nat.zero_mul, Nat.zero_add, intervalStart_zero, Nat.cast_zero, pow_zero, mul_one]
      rcases hu.lt_or_eq with hlt | rfl
      · exact .inl (mul_pos (by norm_num) hlt)
      · exact .inr ⟨mul_zero 4, rfl⟩
    · rcases intervalStart_place_le hm hfull hpos with hstart | ⟨he, rfl, hstart⟩
      · have hstart : (intervalStart (e * 0x800000 + m) : ℚ) = (4 * m - 2) * 2 ^ e := by
          rw [hstart, Nat.cast_mul, Nat.cast_sub (by omega)]
          push_cast
          rfl
        rcases hlow with h | ⟨h, hm'⟩
        · have := mul_lt_mul_of_pos_right h hunit
          exact .inl (by linarith)
        · exact .inr ⟨by rw [hstart, h]; ring, hm'⟩
      · have hstart : (intervalStart (e * 0x800000 + 0x800000) : ℚ) < 4 * 0x800000 * 2 ^ e := by
          exact_mod_cast hstart
        have := mul_le_mul_of_nonneg_right (hfirst he) hunit.le
        exact .inl (by linarith)
  · have hend : ((4 * m + 2) * 2 ^ e : ℚ) ≤ intervalEnd (e * 0x800000 + m) := by
      exact_mod_cast le_intervalEnd_place hm hfull
    rw [heven]
    rcases hhigh with h | ⟨h, hm'⟩
    · have := mul_lt_mul_of_pos_right h hunit
      exact .inl (by linarith)
    · rcases hend.lt_or_eq with hlt | heq
      · exact .inl (lt_of_eq_of_lt (by rw [h]; ring) hlt)
      · exact .inr ⟨by rw [← heq, h]; ring, hm'⟩

theorem roundsTo_nearestMagnitude {v : ℚ} (hv : 0 ≤ v) : RoundsTo (4 * v) (nearestMagnitude v) := by
  have hbelow := lt_two_pow_place v
  have habove := two_pow_place_le hv
  unfold nearestMagnitude
  dsimp only
  generalize Nat.log2 ⌊v⌋₊ - 23 = e at hbelow habove
  have hunit : (0 : ℚ) < 2 ^ e := by positivity
  obtain ⟨u, rfl⟩ : ∃ u, v = u * 2 ^ e := ⟨v / 2 ^ e, (div_mul_cancel₀ v hunit.ne').symm⟩
  rw [mul_div_cancel_right₀ u hunit.ne']
  have hu : 0 ≤ u := nonneg_of_mul_nonneg_left hv hunit
  have hlast : u < 0x1000000 := by
    rw [pow_add, mul_comm] at hbelow
    exact (lt_of_mul_lt_mul_left hbelow hunit.le).trans_eq (by norm_num)
  have hfirst (he : 0 < e) : 0x800000 ≤ u := by
    have hle := habove he
    rw [pow_add, mul_comm u] at hle
    exact le_trans (by norm_num) (le_of_mul_le_mul_left hle hunit)
  have hlow := le_halfEven hu
  have hhigh := halfEven_le u
  refine roundsTo_place hu hfirst ?_ ?_ hlow hhigh
  · have hlt : (halfEven u : ℚ) < 0x1000000 + 1 := by rcases hlow with h | ⟨h, -⟩ <;> linarith
    exact Nat.lt_succ_iff.mp (by exact_mod_cast hlt)
  · refine (Nat.eq_zero_or_pos e).imp_right fun he ↦ ?_
    have hle := hfirst he
    have hlt : (0x800000 : ℚ) < halfEven u + 1 := by rcases hhigh with h | ⟨h, -⟩ <;> linarith
    exact Nat.lt_succ_iff.mp (by exact_mod_cast hlt)

theorem ofMagnitude_magnitude (x : Single) : ofMagnitude x.negative x.magnitude = x := by
  obtain ⟨bits⟩ := x
  have hlt := bits.toNat_lt
  have hsum : (if negative ⟨bits⟩ then 0x80000000 else 0) + magnitude ⟨bits⟩ = bits.toNat := by
    simp only [negative, magnitude, decide_eq_true_eq]
    split <;> omega
  rw [ofMagnitude, hsum, UInt32.ofNat_toNat]

theorem magnitude_lt {x : Single} (hx : x.isFinite = true) : x.magnitude < 0x7F800000 := by
  have hexponent : x.exponentBits ≠ 255 := by simpa [isFinite] using hx
  have hlt : x.magnitude < 0x80000000 := Nat.mod_lt _ (by decide)
  rw [exponentBits_eq] at hexponent
  omega

theorem nearest_of_roundsTo {v : ℚ} {x : Single} (hx : x.isFinite = true)
    (hsign : x.negative = decide (v < 0)) (h : RoundsTo (|v| * 2 ^ 151) x.magnitude) :
    nearest v = x := by
  have hquarters : |v| * 2 ^ 151 = 4 * (|v| * 2 ^ 149) := by ring
  have hrounded := roundsTo_nearestMagnitude (v := |v| * 2 ^ 149) (by positivity)
  rw [hquarters] at h
  rw [nearest, hrounded.unique h, Nat.min_eq_left (magnitude_lt hx).le, ← hsign,
    ofMagnitude_magnitude]

-- halfway between 16777216 and 16777218
example : nearest 16777217 = ⟨0x4B800000⟩ := by decide +kernel

-- halfway between the last finite number and the next power of two
example : nearest (2 ^ 128 - 2 ^ 103) = ⟨0x7F800000⟩ := by decide +kernel

/-- `x` is the finite number nearest to `v`, and the even one if two are. From halfway beyond the
last finite number on, none is. -/
structure IsNearest (v : ℚ) (x : Single) : Prop where
  finite : x.isFinite = true
  within : |v| < 2 ^ 128 - 2 ^ 103
  nearest : ∀ y : Single, y.isFinite = true → |v - x.value| ≤ |v - y.value|
  even : ∀ y : Single, y.isFinite = true → y.value ≠ x.value → |v - y.value| = |v - x.value| →
    x.mantissa % 2 = 0

theorem abs_value_of_magnitude {x y : Single} (h : x.magnitude = y.magnitude) :
    |x.value| = |y.value| := by
  have hpoint := x.abs_value
  rw [h, ← y.abs_value] at hpoint
  exact mul_right_cancel₀ (by norm_num) hpoint

theorem nearer_of_roundsTo {v : ℚ} {x : Single} (h : RoundsTo (|v| * 2 ^ 151) x.magnitude)
    (y : Single) (hne : y.magnitude ≠ x.magnitude) :
    |(|v| - |x.value|)| < |(|v| - |y.value|)| ∨
      |(|v| - |x.value|)| = |(|v| - |y.value|)| ∧ x.magnitude % 2 = 0 := by
  have hpos : (0 : ℚ) < 2 ^ 149 := by norm_num
  have hquarters : |v| * 2 ^ 151 = 4 * (|v| * 2 ^ 149) := by ring
  have hscaled (z : Single) :
      |(|v| * 2 ^ 149 - point z.magnitude)| = |(|v| - |z.value|)| * 2 ^ 149 := by
    rw [← abs_value, ← sub_mul, abs_mul, abs_of_pos hpos]
  rw [hquarters] at h
  have hnearer := h.nearer hne
  rwa [hscaled, hscaled, mul_lt_mul_iff_of_pos_right hpos, mul_left_inj' hpos.ne'] at hnearer

/-- What rounds to a finite number is not halfway to the next power of two or beyond. -/
theorem abs_lt_of_roundsTo {v : ℚ} {x : Single} (hx : x.isFinite = true)
    (h : RoundsTo (|v| * 2 ^ 151) x.magnitude) : |v| < 2 ^ 128 - 2 ^ 103 := by
  have hpos : (0 : ℚ) < 2 ^ 151 := by norm_num
  have hlast : intervalStart 0x7F800000 = (2 ^ 25 - 1) * 2 ^ 254 := by rfl
  have hnext := magnitude_lt hx
  have hlt : |v| * 2 ^ 151 < intervalStart 0x7F800000 := by
    rcases h.stop with hstop | ⟨hstop, heven⟩
    · have hle : intervalEnd x.magnitude ≤ intervalStart 0x7F800000 := by
        rw [← intervalStart_succ]
        exact intervalStart_strictMono.monotone (by omega)
      exact hstop.trans_le (by exact_mod_cast hle)
    · have hlt : intervalEnd x.magnitude < intervalStart 0x7F800000 := by
        rw [← intervalStart_succ]
        exact intervalStart_strictMono (by omega)
      exact hstop.trans_lt (by exact_mod_cast hlt)
  have hbound : ((intervalStart 0x7F800000 : Nat) : ℚ) = (2 ^ 128 - 2 ^ 103) * 2 ^ 151 := by
    rw [hlast]
    norm_num
  rw [hbound] at hlt
  exact lt_of_mul_lt_mul_right hlt hpos.le

theorem abs_sub_of_mul_nonneg {a b : ℚ} (h : 0 ≤ a * b) : |a - b| = |(|a| - |b|)| := by
  rcases mul_nonneg_iff.mp h with ⟨ha, hb⟩ | ⟨ha, hb⟩
  · rw [abs_of_nonneg ha, abs_of_nonneg hb]
  · rw [abs_of_nonpos ha, abs_of_nonpos hb, neg_sub_neg, abs_sub_comm]

theorem isNearest_of_roundsTo {v : ℚ} {x : Single} (hx : x.isFinite = true)
    (hsign : 0 ≤ v * x.value) (h : RoundsTo (|v| * 2 ^ 151) x.magnitude) : IsNearest v x := by
  have hself : |v - x.value| = |(|v| - |x.value|)| := abs_sub_of_mul_nonneg hsign
  have hdistance (y : Single) : |(|v| - |y.value|)| ≤ |v - y.value| := abs_abs_sub_abs_le v y.value
  have hnearer {y : Single} := nearer_of_roundsTo h y
  refine ⟨hx, abs_lt_of_roundsTo hx h, fun y hy ↦ ?_, fun y hy hne heq ↦ ?_⟩
  · rw [hself]
    by_cases hm : y.magnitude = x.magnitude
    · rw [← abs_value_of_magnitude hm]
      exact hdistance y
    · rcases hnearer hm with hlt | ⟨heq, -⟩
      · exact hlt.le.trans (hdistance y)
      · exact heq.trans_le (hdistance y)
  · rw [mantissa_eq, significand_mod_two]
    by_cases hm : y.magnitude = x.magnitude
    · have hneg := (abs_eq_abs.mp (abs_value_of_magnitude hm)).resolve_left hne
      rw [hneg, sub_neg_eq_add] at heq
      rcases abs_eq_abs.mp heq with hzero | hzero
      · exact absurd (show y.value = x.value by linarith) hne
      · obtain rfl : v = 0 := by linarith
        rw [abs_zero, zero_mul] at h
        rw [h.unique roundsTo_zero]
    · rcases hnearer hm with hlt | ⟨-, heven⟩
      · have := hlt.trans_le (hdistance y)
        rw [heq, hself] at this
        exact absurd this (lt_irrefl _)
      · exact heven

end Single

end ShaderGraph
