import Mathlib.Data.List.Basic
import ShaderGraph.Proofs.Single.Shortest

/-!
# Texts of numbers

The text of a finite number is read back as a sign and a decimal, which rounds
to its magnitude. Two numbers therefore have the same text only if they are
equal, apart from the sign of zero and from what kind of NaN they are.
-/

namespace ShaderGraph

namespace Decimal

/-- The value of the digits before and after a point. -/
def valueOf (whole fraction : List Char) : ℚ :=
  Nat.ofDigitChars 10 (whole ++ fraction) 0 * 10 ^ (-fraction.length : Int)

theorem valueOf_parts (d : Decimal) :
    valueOf d.parts.1 d.parts.2 = d.digits * 10 ^ d.exponent := by
  unfold parts valueOf
  dsimp only
  split
  · next hexponent =>
    have hpow : (10 : ℚ) ^ d.exponent = 10 ^ d.exponent.toNat := by
      rw [← zpow_natCast, Int.toNat_of_nonneg hexponent]
    rw [List.append_nil, Nat.ofDigitChars_append, Nat.ofDigitChars_ten_toDigits,
      Nat.ofDigitChars_replicate_zero, hpow]
    push_cast
    simp [mul_comm]
  · next hexponent =>
    have hpow : (-((-d.exponent).toNat : Int)) = d.exponent := by omega
    split
    · next hplaces =>
      rw [List.take_append_drop, Nat.ofDigitChars_ten_toDigits, List.length_drop]
      congr 2
      omega
    · next hplaces =>
      rw [List.nil_append, Nat.ofDigitChars_append, Nat.ofDigitChars_replicate_zero, Nat.mul_zero,
        Nat.ofDigitChars_ten_toDigits, List.length_append, List.length_replicate]
      congr 2
      omega

theorem isDigit_of_mem_parts {d : Decimal} {c : Char} (hc : c ∈ d.parts.1 ++ d.parts.2) :
    c.isDigit = true := by
  have hdigit {c : Char} (hc : c ∈ Nat.toDigits 10 d.digits) : c.isDigit = true :=
    Nat.isDigit_of_mem_toDigits (by decide) (by decide) hc
  have hzero {n : Nat} (hc : c ∈ List.replicate n '0') : c.isDigit = true :=
    List.eq_of_mem_replicate hc ▸ rfl
  unfold parts at hc
  dsimp only at hc
  split at hc
  · rw [List.append_nil] at hc
    exact (List.mem_append.mp hc).elim hdigit hzero
  · split at hc
    · rw [List.take_append_drop] at hc
      exact hdigit hc
    · rw [List.nil_append] at hc
      exact (List.mem_append.mp hc).elim hzero hdigit

theorem snd_parts_eq_nil_iff {d : Decimal} : d.parts.2 = [] ↔ 0 ≤ d.exponent := by
  unfold parts
  dsimp only
  split
  · next hexponent => exact iff_of_true rfl hexponent
  · next hexponent =>
    refine iff_of_false ?_ hexponent
    split
    · next hplaces =>
      rw [List.drop_eq_nil_iff]
      omega
    · exact List.append_ne_nil_of_right_ne_nil _ Nat.toDigits_ne_nil

theorem fst_parts_ne_nil {d : Decimal} (h : 0 ≤ d.exponent) : d.parts.1 ≠ [] := by
  unfold parts
  rw [if_pos h]
  exact List.append_ne_nil_of_left_ne_nil Nat.toDigits_ne_nil _

theorem head?_toDigits_ne {n : Nat} (hn : 0 < n) : (Nat.toDigits 10 n).head? ≠ some '0' := by
  induction n using Nat.strongRec with
  | ind n ih =>
    rw [Nat.toDigits_eq_if (by decide)]
    split
    · next hlt =>
      have hdigit : ∀ m < 10, 0 < m → [m.digitChar].head? ≠ some '0' := by decide
      exact hdigit n hlt hn
    · next hge =>
      rw [List.head?_append_of_ne_nil _ Nat.toDigits_ne_nil]
      exact ih (n / 10) (by omega) (by omega)

/-- Before the point there are no zeros in front. -/
theorem head?_fst_parts_ne {d : Decimal} (h : 0 < d.digits) : d.parts.1.head? ≠ some '0' := by
  have hhead := head?_toDigits_ne h
  unfold parts
  dsimp only
  split
  · rwa [List.head?_append_of_ne_nil _ Nat.toDigits_ne_nil]
  · split
    · next hplaces => rwa [List.head?_take, if_neg (by omega)]
    · nofun

end Decimal

namespace Single

/-- A number that stands for all numbers that are written like it: there is one NaN, and one
zero. -/
def canonical (x : Single) : Single :=
  if x.isNaN then ⟨0x7FC00000⟩ else if x.isZero then zero else x

variable {x y : Single}

theorem eq_of_magnitude (h : x.magnitude = y.magnitude) (hsign : x.negative = y.negative) :
    x = y := by
  obtain ⟨a⟩ := x
  obtain ⟨b⟩ := y
  have hsign : 0x80000000 ≤ a.toNat ↔ 0x80000000 ≤ b.toNat := decide_eq_decide.mp hsign
  have h : a.toNat % 0x80000000 = b.toNat % 0x80000000 := h
  have ha := a.toNat_lt
  have hb := b.toNat_lt
  have hnat : a.toNat = b.toNat := by omega
  exact congrArg Single.mk (UInt32.toNat_inj.mp hnat)

theorem isZero_iff : x.isZero = true ↔ x.magnitude = 0 := by
  unfold isZero
  rw [Bool.and_eq_true, beq_iff_eq, beq_iff_eq, exponentBits_eq, fractionBits_eq]
  omega

theorem mantissa_pos_iff : 0 < x.mantissa ↔ x.isZero = false := by
  rw [← Bool.not_eq_true, isZero_iff, mantissa_eq]
  unfold significand
  split <;> omega

theorem isNaN_eq_false (hx : x.isFinite = true) : x.isNaN = false := by
  have hexponent : (x.exponentBits == 255) = false := by simpa [isFinite] using hx
  simp [isNaN, hexponent]

theorem canonical_of_isFinite (hx : x.isFinite = true) :
    x.canonical = if x.isZero then zero else x := by
  rw [canonical, isNaN_eq_false hx]
  rfl

theorem isNaN_of_isZero (hx : x.isZero = true) : x.isNaN = false := by
  have hexponent : x.exponentBits = 0 := by
    rw [isZero, Bool.and_eq_true] at hx
    simpa using hx.1
  simp [isNaN, hexponent]

theorem isNaN_canonical (x : Single) : x.canonical.isNaN = x.isNaN := by
  rw [canonical]
  split
  · next hx => exact hx.symm
  · split
    · next hx hzero => exact (isNaN_of_isZero hzero).symm
    · rfl

theorem isZero_canonical (x : Single) : x.canonical.isZero = x.isZero := by
  rw [canonical]
  split
  · next hx =>
    have hzero : x.isZero = false := by
      by_contra h
      rw [isNaN_of_isZero (by simpa using h)] at hx
      cases hx
    exact hzero.symm
  · split
    · next hzero => exact hzero.symm
    · rfl

/-- Numbers stand for one another if they are equal, both NaN, or both zero. -/
theorem canonical_eq_iff : x.canonical = y.canonical ↔
    x = y ∨ x.isNaN = true ∧ y.isNaN = true ∨ x.isZero = true ∧ y.isZero = true := by
  constructor
  · intro h
    have hnan : x.isNaN = y.isNaN := by rw [← isNaN_canonical, h, isNaN_canonical]
    have hzero : x.isZero = y.isZero := by rw [← isZero_canonical, h, isZero_canonical]
    cases hx : x.isNaN with
    | true => exact .inr (.inl ⟨rfl, hnan ▸ hx⟩)
    | false =>
      cases hx' : x.isZero with
      | true => exact .inr (.inr ⟨rfl, hzero ▸ hx'⟩)
      | false => exact .inl (by simpa [canonical, ← hnan, ← hzero, hx, hx'] using h)
  · rintro (rfl | ⟨hx, hy⟩ | ⟨hx, hy⟩)
    · rfl
    · simp [canonical, hx, hy]
    · simp [canonical, hx, hy, isNaN_of_isZero]

/-- The digits that a finite number is written with, before and after the point. -/
def parts (x : Single) : List Char × List Char :=
  if x.isZero then (['0'], []) else x.shortest.parts

/-- Whether a number is written with a sign. -/
def signed (x : Single) : Bool := x.negative && !x.isZero

def decimalText (negative : Bool) (whole fraction : List Char) : List Char :=
  (if negative then ['-'] else []) ++ (whole ++ '.' :: fraction)

theorem toList_plainText (hx : x.isFinite = true) (hzero : x.isZero = false) :
    x.plainText.toList = (if x.negative then ['-'] else []) ++
      ((if x.shortest.parts.1.isEmpty then ['0'] else x.shortest.parts.1) ++
        if x.shortest.parts.2.isEmpty then [] else '.' :: x.shortest.parts.2) := by
  unfold plainText
  rw [isNaN_eq_false hx, hx, hzero]
  generalize x.shortest.parts = parts
  obtain ⟨whole, fraction⟩ := parts
  cases x.negative <;> cases hfraction : fraction.isEmpty <;> simp [hfraction]

theorem withoutLeadingZero_text (n : Bool) {whole : List Char} (fraction : List Char)
    (hwhole : ∀ c ∈ whole, c.isDigit = true) (hhead : whole.head? ≠ some '0') :
    withoutLeadingZero ((if n then ['-'] else []) ++
      ((if whole.isEmpty then ['0'] else whole) ++ '.' :: fraction)) =
        decimalText n whole fraction := by
  cases whole with
  | nil => cases n <;> rfl
  | cons c cs =>
    have hzero : c ≠ '0' := fun h ↦ hhead (congrArg some h)
    have hsign : c ≠ '-' := by
      rintro rfl
      exact absurd (hwhole '-' List.mem_cons_self) (by decide)
    cases n <;> simp [withoutLeadingZero, decimalText, hzero, hsign]

/-- A number is written as its digits with a point between them, whether the point is put behind
a whole number, or the plain text has it and loses a zero before it, or keeps all it has. -/
theorem toList_literalText (hx : x.isFinite = true) :
    x.literalText.toList = decimalText x.signed x.parts.1 x.parts.2 := by
  unfold literalText parts signed
  cases hzero : x.isZero with
  | true => simp [decimalText]
  | false =>
    have hmantissa := mantissa_pos_iff.mpr hzero
    have hexponent := exponent_shortest_nonneg_iff hx hmantissa
    have hdigits := digits_pos hmantissa (roundsFrom_shortest hmantissa)
    have hplain := toList_plainText hx hzero
    cases hwhole : x.isWhole with
    | true =>
      have hexponent := hexponent.mpr hwhole
      have hfraction := Decimal.snd_parts_eq_nil_iff.mpr hexponent
      have hne := Decimal.fst_parts_ne_nil hexponent
      simp [hplain, decimalText, hfraction, hne]
    | false =>
      have hfraction : x.shortest.parts.2 ≠ [] := by
        rw [Ne, Decimal.snd_parts_eq_nil_iff, hexponent, hwhole]
        decide
      have htrimmed := withoutLeadingZero_text x.negative x.shortest.parts.2
        (fun c hc ↦ Decimal.isDigit_of_mem_parts (List.mem_append_left _ hc))
        (Decimal.head?_fst_parts_ne hdigits)
      simpa [hplain, hfraction] using htrimmed

example : (⟨0x4B800000⟩ : Single).literalText = "16777216." := by decide +kernel

example : (⟨0xBE800000⟩ : Single).literalText = "-.25" := by decide +kernel

theorem isDigit_of_mem_parts {c : Char} (hc : c ∈ x.parts.1 ++ x.parts.2) : c.isDigit = true := by
  unfold parts at hc
  split at hc
  · obtain rfl := List.mem_singleton.mp hc
    rfl
  · exact Decimal.isDigit_of_mem_parts hc

theorem parts_ne_nil (x : Single) : x.parts.1 ++ x.parts.2 ≠ [] := by
  unfold parts
  split
  · nofun
  · by_cases hexponent : 0 ≤ x.shortest.exponent
    · exact List.append_ne_nil_of_left_ne_nil (Decimal.fst_parts_ne_nil hexponent) _
    · apply List.append_ne_nil_of_right_ne_nil
      rwa [Ne, Decimal.snd_parts_eq_nil_iff]

theorem roundsTo_zero : RoundsTo 0 0 where
  start := .inr ⟨by rw [intervalStart_zero, Nat.cast_zero], rfl⟩
  stop := .inl (by rw [intervalEnd_zero]; exact two_pos)

/-- What a finite number is written with rounds to it. -/
theorem roundsTo_parts (x : Single) :
    RoundsTo (Decimal.valueOf x.parts.1 x.parts.2 * 2 ^ 151) x.magnitude := by
  unfold parts
  split
  · next hzero =>
    have hvalue : Decimal.valueOf ['0'] [] = 0 := by simp [Decimal.valueOf, Nat.ofDigitChars]
    rw [hvalue, isZero_iff.mp hzero, zero_mul]
    exact roundsTo_zero
  · next hzero =>
    have hzero : x.isZero = false := by simpa using hzero
    rw [Decimal.valueOf_parts]
    exact (x.roundsFrom_iff _ _).mp (roundsFrom_shortest (mantissa_pos_iff.mpr hzero))

theorem append_point_inj {w w' f f' : List Char} (hw : '.' ∉ w) (hw' : '.' ∉ w')
    (h : w ++ '.' :: f = w' ++ '.' :: f') : w = w' ∧ f = f' := by
  have hbefore {w : List Char} (hw : '.' ∉ w) (f : List Char) :
      (w ++ '.' :: f).takeWhile (· != '.') = w := by
    rw [List.takeWhile_append_of_pos fun c hc ↦ bne_iff_ne.mpr (ne_of_mem_of_not_mem hc hw)]
    simp
  obtain rfl : w = w' := by rw [← hbefore hw f, h, hbefore hw' f']
  exact ⟨rfl, (List.cons.inj (List.append_cancel_left h)).2⟩

theorem decimalText_inj {n n' : Bool} {w w' f f' : List Char}
    (hw : ∀ c ∈ w, c.isDigit = true) (hw' : ∀ c ∈ w', c.isDigit = true)
    (h : decimalText n w f = decimalText n' w' f') : n = n' ∧ w = w' ∧ f = f' := by
  have hpoint {n : Bool} {w : List Char} (hw : ∀ c ∈ w, c.isDigit = true) :
      '.' ∉ (if n then ['-'] else []) ++ w := by
    intro hmem
    rcases List.mem_append.mp hmem with hmem | hmem
    · cases n <;> simp at hmem
    · exact absurd (hw '.' hmem) (by decide)
  have hsign {w : List Char} (hw : ∀ c ∈ w, c.isDigit = true) : '-' ∉ w :=
    fun hmem ↦ absurd (hw '-' hmem) (by decide)
  unfold decimalText at h
  rw [← List.append_assoc, ← List.append_assoc] at h
  obtain ⟨hfirst, hfraction⟩ := append_point_inj (hpoint hw) (hpoint hw') h
  cases n with
  | false =>
    cases n' with
    | false => exact ⟨rfl, hfirst, hfraction⟩
    | true => exact absurd (by simp_all) (hsign hw)
  | true =>
    cases n' with
    | false => exact absurd (by simp [← show '-' :: w = w' from hfirst]) (hsign hw')
    | true => exact ⟨rfl, (List.cons.inj hfirst).2, hfraction⟩

theorem canonical_eq_of_finite (hx : x.isFinite = true) (hy : y.isFinite = true)
    (h : x.literalText = y.literalText) : x.canonical = y.canonical := by
  have htext := congrArg String.toList h
  rw [toList_literalText hx, toList_literalText hy] at htext
  obtain ⟨hsign, hwhole, hfraction⟩ := decimalText_inj
    (fun c hc ↦ isDigit_of_mem_parts (List.mem_append_left _ hc))
    (fun c hc ↦ isDigit_of_mem_parts (List.mem_append_left _ hc)) htext
  have hmagnitude : x.magnitude = y.magnitude := by
    have hx' := x.roundsTo_parts
    rw [hwhole, hfraction] at hx'
    exact hx'.unique y.roundsTo_parts
  have hzero : x.isZero = y.isZero := by
    rw [Bool.eq_iff_iff, isZero_iff, isZero_iff, hmagnitude]
  rw [canonical_of_isFinite hx, canonical_of_isFinite hy, hzero]
  split
  · rfl
  · next hne =>
    have hne : y.isZero = false := by simpa using hne
    unfold signed at hsign
    rw [hzero, hne] at hsign
    exact eq_of_magnitude hmagnitude (by simpa using hsign)

theorem literalText_of_not_finite (hx : x.isFinite = false) :
    x.literalText = String.ofList (withoutLeadingZero x.plainText.toList) := by
  have hexponent : x.exponentBits = 255 := by simpa [isFinite] using hx
  have hzero : x.isZero = false := by simp [isZero, hexponent]
  have hwhole : x.isWhole = false := by simp [isWhole, hx]
  simp [literalText, hzero, hwhole]

theorem not_finite_cases (hx : x.isFinite = false) :
    x.literalText = "NaN" ∧ x.isNaN = true ∨
      x.literalText = (if x.negative then "-inf" else "inf") ∧ x.isNaN = false ∧
        x.magnitude = 0x7F800000 := by
  rw [literalText_of_not_finite hx]
  cases hnan : x.isNaN with
  | true =>
    have hplain : x.plainText = "NaN" := by simp [plainText, hnan]
    exact .inl ⟨by rw [hplain]; rfl, rfl⟩
  | false =>
    have hplain : x.plainText = if x.negative then "-inf" else "inf" := by
      cases hsign : x.negative <;> simp [plainText, hnan, hx, hsign]
    refine .inr ⟨by rw [hplain]; cases x.negative <;> rfl, rfl, ?_⟩
    have hexponent : x.exponentBits = 255 := by simpa [isFinite] using hx
    have hfraction : x.fractionBits = 0 := by simpa [isNaN, hexponent] using hnan
    rw [exponentBits_eq] at hexponent
    rw [fractionBits_eq] at hfraction
    omega

theorem point_mem_iff : '.' ∈ x.literalText.toList ↔ x.isFinite = true := by
  constructor
  · intro hmem
    by_contra hx
    rcases not_finite_cases (Bool.not_eq_true _ ▸ hx) with ⟨htext, -⟩ | ⟨htext, -⟩
    · rw [htext] at hmem
      exact absurd hmem (by decide)
    · rw [htext] at hmem
      revert hmem
      cases x.negative <;> decide
  · intro hx
    rw [toList_literalText hx]
    simp [decimalText]

theorem canonical_eq_of_not_finite (hx : x.isFinite = false) (hy : y.isFinite = false)
    (h : x.literalText = y.literalText) : x.canonical = y.canonical := by
  rcases not_finite_cases hx with ⟨hx', hxn⟩ | ⟨hx', hxn, hxm⟩
  · rcases not_finite_cases hy with ⟨-, hyn⟩ | ⟨hy', -⟩
    · rw [canonical, canonical, hxn, hyn]
      rfl
    · rw [hx', hy'] at h
      exact absurd h (by cases y.negative <;> decide)
  · rcases not_finite_cases hy with ⟨hy', -⟩ | ⟨hy', -, hym⟩
    · rw [hx', hy'] at h
      exact absurd h (by cases x.negative <;> decide)
    · have hsign : x.negative = y.negative := by
        rw [hx', hy'] at h
        revert h
        cases x.negative <;> cases y.negative <;> decide
      exact congrArg canonical (eq_of_magnitude (hxm.trans hym.symm) hsign)

/-- Numbers are written alike only if they are equal, zeros and NaNs apart. -/
theorem literalText_inj (h : x.literalText = y.literalText) : x.canonical = y.canonical := by
  have hfinite : x.isFinite = y.isFinite := by
    rw [Bool.eq_iff_iff, ← point_mem_iff, ← point_mem_iff, h]
  cases hx : x.isFinite with
  | true => exact canonical_eq_of_finite hx (hfinite ▸ hx) h
  | false => exact canonical_eq_of_not_finite hx (hfinite ▸ hx) h

end Single

end ShaderGraph
