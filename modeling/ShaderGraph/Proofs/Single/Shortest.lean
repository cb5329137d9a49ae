import Mathlib.Algebra.Order.Field.Power
import ShaderGraph.Proofs.Single.Rounding

/-!
# The first grid

The multiples of a power of ten are tried from coarse to fine, and the digits
come from the first grid with a multiple that rounds to the number. No decimal
that rounds to it lies on a coarser grid: there are no fewer digits, and whole
numbers, which are multiples of one themselves, have none after the point. No
other number has a whole number that rounds to it.
-/

namespace ShaderGraph

namespace Single

variable (x : Single)

theorem multiples_le (p : Int) :
    (x.multiples p : ℚ) * 10 ^ p ≤ x.mantissa * 2 ^ x.scale := by
  rw [← not_lt, ← compareScaled_eq_gt]
  unfold compareScaled multiples
  rw [Nat.compare_eq_gt, not_lt, mul_assoc]
  exact Nat.div_mul_le_self _ _

theorem lt_multiples_succ (p : Int) :
    (x.mantissa : ℚ) * 2 ^ x.scale < (x.multiples p + 1 : Nat) * 10 ^ p := by
  rw [← compareScaled_eq_gt]
  unfold compareScaled multiples
  have hpos : 0 < Nat.pow 10 p.toNat * Nat.pow 2 (-x.scale).toNat :=
    Nat.mul_pos (Nat.pow_pos (by decide)) (Nat.pow_pos (by decide))
  have hlt := Nat.lt_mul_div_succ
    (x.mantissa * Nat.pow 2 x.scale.toNat * Nat.pow 10 (-p).toNat) hpos
  rw [Nat.mul_comm _ (_ + 1), ← Nat.mul_assoc] at hlt
  exact Nat.compare_eq_gt.mpr hlt

theorem roundsFrom_of_onGrid? {p : Int} {n : Nat} (h : x.onGrid? p = some n) :
    x.roundsFrom n p = true := by
  simp only [onGrid?] at h
  split at h
  · cases h
  · next hlow _ => exact Option.some.inj h ▸ hlow
  · next _ hhigh => exact Option.some.inj h ▸ hhigh
  · next hlow hhigh =>
    split at h
    · exact Option.some.inj h ▸ hlow
    · exact Option.some.inj h ▸ hhigh
    · exact Option.some.inj h ▸ hhigh

theorem onGrid?_eq_none {p : Int} (h : x.onGrid? p = none) :
    x.roundsFrom (x.multiples p) p = false ∧ x.roundsFrom (x.multiples p + 1) p = false := by
  simp only [onGrid?] at h
  split at h
  · next hlow hhigh => exact ⟨hlow, hhigh⟩
  · cases h
  · cases h
  · split at h <;> cases h

variable {x}

/-- A number lies within its interval, two units or more below the end. -/
theorem exists_center (hx : 0 < x.mantissa) :
    ∃ c : Nat, (x.mantissa : ℚ) * 2 ^ x.scale * 2 ^ 151 = c ∧
      intervalStart x.magnitude < c ∧ c + 2 ≤ intervalEnd x.magnitude := by
  refine ⟨4 * x.mantissa * 2 ^ (x.magnitude / 0x800000 - 1), ?_, ?_, ?_⟩
  · rw [← quarters_eq, zpow_sub₀ (by norm_num)]
    push_cast
    norm_num
    ring
  · rw [← lowEnd_mul_two_pow]
    refine Nat.mul_lt_mul_of_pos_right ?_ (Nat.two_pow_pos _)
    unfold lowEnd
    split <;> omega
  · rw [← highEnd_mul_two_pow, highEnd, Nat.add_mul]
    exact Nat.add_le_add_left (Nat.le_mul_of_pos_right 2 (Nat.two_pow_pos _)) _

/-- A number rounds to itself. -/
theorem roundsTo_self (hx : 0 < x.mantissa) :
    RoundsTo (x.mantissa * 2 ^ x.scale * 2 ^ 151) x.magnitude := by
  obtain ⟨c, hcenter, hstart, hstop⟩ := exists_center hx
  rw [hcenter]
  exact ⟨.inl (by exact_mod_cast hstart), .inl (by exact_mod_cast (by omega))⟩

/-- A decimal between two that round to a number rounds to it, too. -/
theorem roundsFrom_between {m n : Nat} {p q : Int} {v : ℚ} (hv : RoundsTo (v * 2 ^ 151) x.magnitude)
    (hn : x.roundsFrom n p = true)
    (h : v ≤ m * 10 ^ q ∧ (m : ℚ) * 10 ^ q ≤ n * 10 ^ p ∨
      (n : ℚ) * 10 ^ p ≤ m * 10 ^ q ∧ (m : ℚ) * 10 ^ q ≤ v) : x.roundsFrom m q = true := by
  have hscaled {a b : ℚ} (hab : a ≤ b) : a * 2 ^ 151 ≤ b * 2 ^ 151 :=
    mul_le_mul_of_nonneg_right hab (by norm_num)
  rw [roundsFrom_iff] at hn ⊢
  rcases h with ⟨hlow, hhigh⟩ | ⟨hlow, hhigh⟩
  · exact hv.between hn (hscaled hlow) (hscaled hhigh)
  · exact hn.between hv (hscaled hlow) (hscaled hhigh)

/-- Of a grid with a multiple that rounds to a number, a neighbour of the number rounds to it. -/
theorem onGrid?_ne_none {n : Nat} {p : Int} (hx : 0 < x.mantissa) (h : x.roundsFrom n p = true) :
    x.onGrid? p ≠ none := by
  intro hnone
  obtain ⟨hlow, hhigh⟩ := x.onGrid?_eq_none hnone
  have hpos : (0 : ℚ) ≤ 10 ^ p := by positivity
  have hgrid {m m' : Nat} (hm : m ≤ m') : (m : ℚ) * 10 ^ p ≤ m' * 10 ^ p :=
    mul_le_mul_of_nonneg_right (by exact_mod_cast hm) hpos
  rcases Nat.lt_or_ge (x.multiples p) n with hlt | hge
  · have := roundsFrom_between (roundsTo_self hx) h
      (.inl ⟨(x.lt_multiples_succ p).le, hgrid hlt⟩)
    rw [hhigh] at this
    cases this
  · have := roundsFrom_between (roundsTo_self hx) h (.inr ⟨hgrid hge, x.multiples_le p⟩)
    rw [hlow] at this
    cases this

/-- A grid finer than the upper half of the interval has a multiple that rounds to the number. -/
theorem roundsFrom_multiples_succ {p : Int} (hx : 0 < x.mantissa)
    (hp : (10 : ℚ) ^ p * 2 ^ 151 < 2) : x.roundsFrom (x.multiples p + 1) p = true := by
  obtain ⟨c, hcenter, hstart, hstop⟩ := exists_center hx
  have hpos : (0 : ℚ) < 2 ^ 151 := by norm_num
  have habove := mul_lt_mul_of_pos_right (x.lt_multiples_succ p) hpos
  have hbelow := mul_le_mul_of_nonneg_right (x.multiples_le p) hpos.le
  rw [hcenter] at habove hbelow
  have hstart' : (intervalStart x.magnitude : ℚ) < c := by exact_mod_cast hstart
  have hstop' : (c : ℚ) + 2 ≤ intervalEnd x.magnitude := by exact_mod_cast hstop
  have hnext : ((x.multiples p + 1 : Nat) : ℚ) * 10 ^ p * 2 ^ 151 =
      x.multiples p * 10 ^ p * 2 ^ 151 + 10 ^ p * 2 ^ 151 := by
    rw [Nat.cast_add_one, add_mul, add_mul, one_mul]
  have hlast : ((x.multiples p + 1 : Nat) : ℚ) * 10 ^ p * 2 ^ 151 < intervalEnd x.magnitude := by
    rw [hnext]
    exact (add_lt_add_of_le_of_lt hbelow hp).trans_le hstop'
  exact (x.roundsFrom_iff _ p).mpr ⟨.inl (hstart'.trans habove), .inl hlast⟩

/-! ## The search -/

/-- A search that comes to a grid with a hit ends there or before. -/
theorem searchGrids_spec {steps : Nat} {p : Int} {k : Nat} (hk : k < steps)
    (h : x.onGrid? (p - k) ≠ none) :
    x.onGrid? (x.searchGrids steps p).exponent = some (x.searchGrids steps p).digits ∧
      p - k ≤ (x.searchGrids steps p).exponent := by
  induction steps generalizing p k with
  | zero => exact absurd hk (Nat.not_lt_zero k)
  | succ steps ih =>
    unfold searchGrids
    split
    · next n hn =>
      refine ⟨hn, ?_⟩
      show p - k ≤ p
      omega
    · next hnone =>
      cases k with
      | zero =>
        rw [Int.natCast_zero, Int.sub_zero] at h
        exact absurd hnone h
      | succ k =>
        rw [Int.natCast_succ, Int.add_comm, ← Int.sub_sub] at h ⊢
        exact ih (Nat.lt_of_succ_lt_succ hk) h

theorem shortest_spec (hx : 0 < x.mantissa) :
    x.onGrid? x.shortest.exponent = some x.shortest.digits ∧ -46 ≤ x.shortest.exponent := by
  have hgrid : (10 : ℚ) ^ (-46 : Int) * 2 ^ 151 < 2 := by norm_num
  have hhit := onGrid?_ne_none hx (roundsFrom_multiples_succ hx hgrid)
  exact searchGrids_spec (k := 85) (by decide) hhit

/-- The decimal that a finite number is written with rounds to it. -/
theorem roundsFrom_shortest (hx : 0 < x.mantissa) :
    x.roundsFrom x.shortest.digits x.shortest.exponent = true :=
  x.roundsFrom_of_onGrid? (shortest_spec hx).1

/-- No decimal that rounds to a number lies on a coarser grid than the one it is written with. -/
theorem le_exponent_shortest {n : Nat} {p : Int} (hx : 0 < x.mantissa)
    (h : x.roundsFrom n p = true) (hp : p ≤ 39) : p ≤ x.shortest.exponent := by
  by_cases hcoarse : -46 ≤ p
  · have hplace : (39 : Int) - (39 - p).toNat = p := by omega
    have hhit := onGrid?_ne_none hx h
    rw [← hplace] at hhit ⊢
    exact (searchGrids_spec (by omega) hhit).2
  · exact (not_le.mp hcoarse).le.trans (shortest_spec hx).2

variable {n : Nat} {p : Int}

theorem bounds_of_roundsFrom (h : x.roundsFrom n p = true) :
    (x.lowEnd : ℚ) * 2 ^ (x.scale - 2) ≤ n * 10 ^ p ∧
      (n : ℚ) * 10 ^ p ≤ x.highEnd * 2 ^ (x.scale - 2) := by
  unfold roundsFrom at h
  rw [Bool.and_eq_true] at h
  constructor
  · rw [← not_lt, ← compareScaled_eq_lt]
    intro hlow
    rw [hlow] at h
    cases h.1
  · rw [← not_lt, ← compareScaled_eq_gt]
    intro hhigh
    rw [hhigh] at h
    cases h.2

theorem digits_pos (hx : 0 < x.mantissa) (h : x.roundsFrom n p = true) : 0 < n := by
  by_contra hn
  obtain rfl : n = 0 := by omega
  have hlow := (bounds_of_roundsFrom h).1
  have hend : 0 < x.lowEnd := by
    unfold lowEnd
    split <;> omega
  rw [Nat.cast_zero, zero_mul] at hlow
  exact absurd hlow (not_le.mpr (by positivity))

/-- Every finite number is below `2 ^ 128`, and so is what rounds to it. -/
theorem roundsFrom_lt (hx : x.isFinite = true) (h : x.roundsFrom n p = true) :
    (n : ℚ) * 10 ^ p < 2 ^ 128 := by
  have hexponent : x.exponentBits < 255 := by
    have hne : x.exponentBits ≠ 255 := by simpa [isFinite] using hx
    have : x.exponentBits < 0x100 := Nat.mod_lt _ (by decide)
    omega
  have hscale : x.scale - 2 ≤ 102 := by
    unfold scale
    split <;> omega
  have hmantissa : x.highEnd < 2 ^ 26 := by
    have : x.fractionBits < 0x800000 := Nat.mod_lt _ (by decide)
    unfold highEnd mantissa
    split <;> omega
  calc (n : ℚ) * 10 ^ p ≤ x.highEnd * 2 ^ (x.scale - 2) := (bounds_of_roundsFrom h).2
    _ ≤ x.highEnd * 2 ^ (102 : Int) :=
      mul_le_mul_of_nonneg_left (zpow_le_zpow_right₀ (by norm_num) hscale) (by positivity)
    _ < 2 ^ 26 * 2 ^ (102 : Int) :=
      mul_lt_mul_of_pos_right (by exact_mod_cast hmantissa) (by positivity)
    _ = 2 ^ 128 := by norm_num

theorem exponent_lt_of_roundsFrom (hfinite : x.isFinite = true) (hx : 0 < x.mantissa)
    (h : x.roundsFrom n p = true) : p < 39 := by
  by_contra hp
  have hn : (1 : ℚ) ≤ n := by exact_mod_cast digits_pos hx h
  have hlt : (10 : ℚ) ^ (39 : Int) < 2 ^ 128 :=
    calc (10 : ℚ) ^ (39 : Int) ≤ 10 ^ p := zpow_le_zpow_right₀ (by norm_num) (not_lt.mp hp)
      _ ≤ n * 10 ^ p := le_mul_of_one_le_left (by positivity) hn
      _ < 2 ^ 128 := roundsFrom_lt hfinite h
  norm_num at hlt

/-- A number is written with as few digits as any decimal that rounds to it. With more digits
there would be a power of ten between the two, on the next coarser grid. -/
theorem length_digits_shortest_le (hfinite : x.isFinite = true) (hx : 0 < x.mantissa)
    (h : x.roundsFrom n p = true) :
    (Nat.toDigits 10 x.shortest.digits).length ≤ (Nat.toDigits 10 n).length := by
  by_contra hlonger
  have hshortest := roundsFrom_shortest hx
  have hexponent := le_exponent_shortest hx h (exponent_lt_of_roundsFrom hfinite hx h).le
  have hcoarser {m : Nat} : x.roundsFrom m (x.shortest.exponent + 1) = false := by
    by_contra hm
    have hlast := exponent_lt_of_roundsFrom hfinite hx hshortest
    have := le_exponent_shortest hx (by simpa using hm) (by omega)
    omega
  obtain ⟨k, hk⟩ := Nat.exists_eq_succ_of_ne_zero
    (Nat.length_toDigits_pos (b := 10) (n := n)).ne'
  generalize x.shortest.digits = d at hlonger hshortest
  generalize x.shortest.exponent = e at hexponent hcoarser hshortest
  have hn : n < 10 ^ (k + 1) := (Nat.length_toDigits_le_iff (by decide) (by omega)).mp hk.le
  have hd : 10 ^ (k + 1) ≤ d := by
    by_contra hlt
    have := (Nat.length_toDigits_le_iff (by decide) (Nat.succ_pos k)).mpr (not_le.mp hlt)
    omega
  have hpower : ((10 ^ k : Nat) : ℚ) * 10 ^ (e + 1) = (10 ^ (k + 1) : Nat) * 10 ^ e := by
    rw [zpow_add_one₀ (by norm_num)]
    push_cast
    ring
  have hlow : (n : ℚ) * 10 ^ p ≤ (10 ^ (k + 1) : Nat) * 10 ^ e :=
    mul_le_mul (by exact_mod_cast hn.le) (zpow_le_zpow_right₀ (by norm_num) hexponent)
      (by positivity) (by positivity)
  have hhigh : ((10 ^ (k + 1) : Nat) : ℚ) * 10 ^ e ≤ d * 10 ^ e :=
    mul_le_mul_of_nonneg_right (by exact_mod_cast hd) (by positivity)
  have hbetween : x.roundsFrom (10 ^ k) (e + 1) = true := by
    apply roundsFrom_between ((x.roundsFrom_iff n p).mp h) hshortest
    rw [hpower]
    exact .inl ⟨hlow, hhigh⟩
  rw [hcoarser] at hbetween
  cases hbetween

theorem isWhole_iff (hx : x.isFinite = true) :
    x.isWhole = true ↔ ∃ n : Nat, (x.mantissa : ℚ) * 2 ^ x.scale = n := by
  unfold isWhole
  rw [hx, Bool.true_and, Bool.or_eq_true, decide_eq_true_eq, beq_iff_eq]
  by_cases hscale : 0 ≤ x.scale
  · obtain ⟨k, hk⟩ := Int.eq_ofNat_of_zero_le hscale
    refine iff_of_true (.inl hscale) ⟨x.mantissa * 2 ^ k, ?_⟩
    rw [hk]
    push_cast
    rw [zpow_natCast]
  · obtain ⟨k, hk⟩ := Int.eq_ofNat_of_zero_le (a := -x.scale) (by omega)
    have hk' : x.scale = -(k : Int) := by omega
    rw [or_iff_right hscale, hk, Int.toNat_natCast, Nat.pow_eq, ← Nat.dvd_iff_mod_eq_zero, hk',
      zpow_neg, zpow_natCast]
    simp only [← div_eq_mul_inv, div_eq_iff (show (2 : ℚ) ^ k ≠ 0 by positivity)]
    constructor
    · rintro ⟨n, hn⟩
      exact ⟨n, by rw [hn]; push_cast; ring⟩
    · rintro ⟨n, hn⟩
      exact ⟨n, by rw [mul_comm]; exact_mod_cast hn⟩

/-- A whole number that rounds to a number is that number: where there are places after the
binary point, the interval holds no other multiple of the last one. -/
theorem isWhole_of_roundsFrom (hx : x.isFinite = true) (h : x.roundsFrom n p = true) (hp : 0 ≤ p) :
    x.isWhole = true := by
  by_cases hscale : 0 ≤ x.scale
  · simp [isWhole, hx, hscale]
  obtain ⟨k, hk⟩ := Int.eq_ofNat_of_zero_le (a := -x.scale) (by omega)
  obtain ⟨q, rfl⟩ := Int.eq_ofNat_of_zero_le hp
  obtain ⟨hlow, hhigh⟩ := bounds_of_roundsFrom h
  have hunit : (2 : ℚ) ^ (x.scale - 2) * (4 * 2 ^ k) = 1 := by
    have hk' : x.scale - 2 = -((k + 2 : Nat) : Int) := by omega
    have hfour : (4 : ℚ) * 2 ^ k = 2 ^ (k + 2) := by ring
    rw [hk', hfour, zpow_neg, zpow_natCast]
    exact inv_mul_cancel₀ (by positivity)
  have hquarters (a : Nat) : (a : ℚ) * 2 ^ (x.scale - 2) * (4 * 2 ^ k) = a := by
    rw [mul_assoc, hunit, mul_one]
  have hpos : (0 : ℚ) ≤ 4 * 2 ^ k := by positivity
  have hlow := mul_le_mul_of_nonneg_right hlow hpos
  have hhigh := mul_le_mul_of_nonneg_right hhigh hpos
  rw [hquarters, zpow_natCast] at hlow hhigh
  have hlow : x.lowEnd ≤ n * 10 ^ q * (4 * 2 ^ k) := by exact_mod_cast hlow
  have hhigh : n * 10 ^ q * (4 * 2 ^ k) ≤ x.highEnd := by exact_mod_cast hhigh
  have hmantissa : x.mantissa = n * 10 ^ q * 2 ^ k := by
    unfold highEnd at hhigh
    unfold lowEnd at hlow
    rw [Nat.mul_left_comm] at hlow hhigh
    split at hlow <;> omega
  have hdiv : x.mantissa % 2 ^ k = 0 := by
    rw [hmantissa]
    exact Nat.mul_mod_left _ _
  simp [isWhole, hx, hk, hdiv]

/-- A number is written with digits after its point exactly if it is not whole. -/
theorem exponent_shortest_nonneg_iff (hfinite : x.isFinite = true) (hx : 0 < x.mantissa) :
    0 ≤ x.shortest.exponent ↔ x.isWhole = true := by
  constructor
  · exact isWhole_of_roundsFrom hfinite (roundsFrom_shortest hx)
  · intro hwhole
    obtain ⟨n, hn⟩ := (isWhole_iff hfinite).mp hwhole
    have hself : x.roundsFrom n 0 = true := by
      rw [roundsFrom_iff, zpow_zero, mul_one, ← hn]
      exact roundsTo_self hx
    exact le_exponent_shortest hx hself (by decide)

end Single

end ShaderGraph
