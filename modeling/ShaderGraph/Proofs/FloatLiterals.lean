import ShaderGraph.Proofs.Literal
import ShaderGraph.Proofs.Single.Nearest

/-!
# Literals of floats

A float is written with one point and without an exponent, and never like a
whole number. Read as a decimal, what is written lies nearest to the float
among all finite ones, so that rounding gives the float back, and the positive
zero for both zeros: floats that are written alike are equal.
-/

namespace ShaderGraph

namespace Decimal

/-- What digits with a point between or around them stand for. A part without digits counts as
zero, but one of the two has some. -/
def unsigned? (text : List Char) : Option ℚ :=
  let whole := text.takeWhile Char.isDigit
  match text.dropWhile Char.isDigit with
  | [] => if whole.isEmpty then none else some (Nat.ofDigitChars 10 whole 0)
  | '.' :: fraction =>
    if !fraction.all Char.isDigit || (whole ++ fraction).isEmpty then none
    else some (Nat.ofDigitChars 10 whole 0 +
      Nat.ofDigitChars 10 fraction 0 / 10 ^ fraction.length)
  | _ => none

/-- The number that a text stands for as a decimal. -/
def value? (text : String) : Option ℚ :=
  match text.toList with
  | '-' :: digits => (unsigned? digits).map (-·)
  | digits => unsigned? digits

theorem valueOf_eq_add (whole fraction : List Char) : valueOf whole fraction =
    Nat.ofDigitChars 10 whole 0 + Nat.ofDigitChars 10 fraction 0 / 10 ^ fraction.length := by
  have hpos : (10 : ℚ) ^ fraction.length ≠ 0 := by positivity
  rw [valueOf, Nat.ofDigitChars_append, Nat.ofDigitChars_eq_ofDigitChars_zero, zpow_neg,
    zpow_natCast, ← div_eq_mul_inv, Nat.cast_add, add_div]
  push_cast
  rw [mul_div_cancel_left₀ _ hpos]

variable {whole fraction : List Char}

theorem unsigned?_eq_some (hdigits : ∀ c ∈ whole ++ fraction, c.isDigit = true)
    (hne : whole ++ fraction ≠ []) :
    unsigned? (whole ++ '.' :: fraction) = some (valueOf whole fraction) := by
  have hwhole (c) (hc : c ∈ whole) := hdigits c (List.mem_append_left _ hc)
  have hfraction : fraction.all Char.isDigit = true :=
    List.all_eq_true.mpr fun c hc ↦ hdigits c (List.mem_append_right _ hc)
  have hpoint : Next (Char.isDigit · = false) ('.' :: fraction) := by
    rintro c hc
    cases hc
    rfl
  have hsome : (whole ++ fraction).isEmpty = false := List.isEmpty_eq_false_iff.mpr hne
  rw [unsigned?, takeWhile_append hwhole hpoint, dropWhile_append hwhole hpoint]
  simp [hfraction, hsome, valueOf_eq_add]

theorem value?_eq_some {text : String} {negative : Bool}
    (htext : text.toList = Single.decimalText negative whole fraction)
    (hdigits : ∀ c ∈ whole ++ fraction, c.isDigit = true) (hne : whole ++ fraction ≠ []) :
    value? text = some ((if negative then -1 else 1) * valueOf whole fraction) := by
  have hread := unsigned?_eq_some hdigits hne
  rw [value?, htext, Single.decimalText]
  cases negative with
  | true => simp [hread]
  | false =>
    have hminus (digits : List Char) : whole ++ '.' :: fraction ≠ '-' :: digits := by
      intro h
      cases whole with
      | nil => cases h
      | cons c cs =>
        obtain rfl := (List.cons.inj h).1
        exact absurd (hdigits '-' List.mem_cons_self) (by decide)
    split
    · next digits htext => exact absurd htext (hminus digits)
    · simp [hread]

end Decimal

theorem Literal.canonical_eq_of_text {l l' : Literal} (h : l.text = l'.text) :
    l.canonical = l'.canonical := by
  have hchars : l.shape.chars = l'.shape.chars := by
    rw [← toList_text, ← toList_text, h]
  exact canonical_eq_of_shape (l.legible_shape.eq_of_chars l'.legible_shape hchars)

namespace Single

variable {x : Single}

theorem text_float1 (x : Single) : (Literal.float1 x).text = x.literalText := rfl

theorem count_decimalText {negative : Bool} {whole fraction : List Char}
    (hdigits : ∀ c ∈ whole ++ fraction, c.isDigit = true) :
    (decimalText negative whole fraction).count '.' = 1 := by
  have hpoint : '.' ∉ whole ++ fraction := fun hmem ↦ absurd (hdigits '.' hmem) (by decide)
  have hcount := List.count_eq_zero.mpr hpoint
  rw [List.count_append] at hcount
  cases negative <;> simp [decimalText] <;> omega

/-! ## Reading back -/

/-- The number that a finite number is written as. -/
def written (x : Single) : ℚ :=
  (if x.signed then -1 else 1) * Decimal.valueOf x.parts.1 x.parts.2

theorem value?_literalText (hx : x.isFinite = true) :
    Decimal.value? x.literalText = some x.written :=
  Decimal.value?_eq_some (toList_literalText hx) (fun _ ↦ isDigit_of_mem_parts) x.parts_ne_nil

theorem valueOf_nonneg (whole fraction : List Char) : 0 ≤ Decimal.valueOf whole fraction := by
  unfold Decimal.valueOf
  positivity

theorem abs_written (x : Single) : |x.written| = Decimal.valueOf x.parts.1 x.parts.2 := by
  have hsign : |if x.signed then (-1 : ℚ) else 1| = 1 := by cases x.signed <;> simp
  rw [written, abs_mul, hsign, one_mul, abs_of_nonneg (valueOf_nonneg _ _)]

theorem roundsTo_written (x : Single) : RoundsTo (|x.written| * 2 ^ 151) x.magnitude := by
  rw [abs_written]
  exact x.roundsTo_parts

theorem valueOf_parts_ne_zero (hzero : x.isZero = false) :
    Decimal.valueOf x.parts.1 x.parts.2 ≠ 0 := by
  intro hvalue
  have hrounded := x.roundsTo_parts
  rw [hvalue, zero_mul] at hrounded
  rw [isZero_iff.mpr (hrounded.unique roundsTo_zero)] at hzero
  cases hzero

theorem written_of_isZero (hzero : x.isZero = true) : x.written = 0 := by
  have hparts : x.parts = (['0'], []) := by rw [parts, if_pos hzero]
  simp [written, hparts, Decimal.valueOf, Nat.ofDigitChars]

theorem decide_written_neg (hzero : x.isZero = false) : decide (x.written < 0) = x.negative := by
  have hpos := (valueOf_nonneg x.parts.1 x.parts.2).lt_of_ne' (valueOf_parts_ne_zero hzero)
  rw [written, signed, hzero]
  cases x.negative <;> simp [hpos, hpos.le]

theorem written_mul_value_nonneg (x : Single) : 0 ≤ x.written * x.value := by
  have hmagnitude : (0 : ℚ) ≤ x.mantissa * 2 ^ x.scale := by positivity
  have hproduct := mul_nonneg (valueOf_nonneg x.parts.1 x.parts.2) hmagnitude
  cases hzero : x.isZero with
  | true => rw [written_of_isZero hzero, zero_mul]
  | false =>
    rw [written, value, signed, hzero]
    cases x.negative <;> simpa using hproduct

/-- What a number is written as is rounded back to it, without the sign of zero. -/
theorem nearest_written (hx : x.isFinite = true) :
    nearest x.written = if x.isZero then zero else x := by
  cases hzero : x.isZero with
  | true =>
    have hrounded : RoundsTo (|(0 : ℚ)| * 2 ^ 151) zero.magnitude := by
      rw [abs_zero, zero_mul]
      exact roundsTo_zero
    rw [written_of_isZero hzero, if_pos rfl]
    exact nearest_of_roundsTo rfl rfl hrounded
  | false =>
    exact nearest_of_roundsTo hx (decide_written_neg hzero).symm x.roundsTo_written

theorem equal_of_written {y : Single} (hx : x.isFinite = true) (hy : y.isFinite = true)
    (h : y.written = x.written) : y.equal x = true := by
  have hcanonical : y.canonical = x.canonical := by
    rw [canonical_of_isFinite hy, canonical_of_isFinite hx, ← nearest_written hy,
      ← nearest_written hx, h]
  have hxn := isNaN_eq_false hx
  have hyn := isNaN_eq_false hy
  rcases canonical_eq_iff.mp hcanonical with rfl | ⟨hnan, -⟩ | ⟨hy', hx'⟩
  · simp [equal, hxn]
  · rw [hyn] at hnan
    cases hnan
  · simp [equal, hxn, hyn, hx', hy']

/-- A text that can be taken for nothing but a number: it has one point and no exponent, no literal
of whole numbers is written like it, the decimal that it shows lies nearest to the number and is
rounded back to it, and only an equal number is written like it. -/
structure IsLiteralOf (text : String) (x : Single) : Prop where
  point : text.toList.count '.' = 1
  plain : ∀ c ∈ text.toList, c.isDigit = true ∨ c = '-' ∨ c = '.'
  ne_int : ∀ xs, (Literal.int xs).text ≠ text
  ne_uint : ∀ xs, (Literal.uint xs).text ≠ text
  readsBack : ∃ v, Decimal.value? text = some v ∧ IsNearest v x ∧
    nearest v = if x.isZero then zero else x
  unique : ∀ y : Single, y.isFinite = true → y.literalText = text → y.equal x = true

/-- What a finite number is written as is a literal of it. -/
theorem literals_read_back {x : Single} (hx : x.isFinite = true) :
    IsLiteralOf x.literalText x := by
  refine ⟨?_, fun c hc ↦ ?_, fun xs h ↦ ?_, fun xs h ↦ ?_, ?_, fun y hy h ↦ ?_⟩
  · rw [toList_literalText hx]
    exact count_decimalText fun _ ↦ isDigit_of_mem_parts
  · have hfigure := Literal.isFigure_of_mem_floatWord hx hc
    simpa [Literal.isFigure, or_assoc] using hfigure
  · cases Literal.canonical_eq_of_text (h.trans x.text_float1.symm)
  · cases Literal.canonical_eq_of_text (h.trans x.text_float1.symm)
  · exact ⟨x.written, value?_literalText hx,
      isNearest_of_roundsTo hx x.written_mul_value_nonneg x.roundsTo_written, nearest_written hx⟩
  · have hread := value?_literalText hy
    rw [h, value?_literalText hx] at hread
    exact equal_of_written hx hy (Option.some.inj hread).symm

/-- The negative number nearest to zero. -/
theorem literals_read_back_least : (⟨0x80000001⟩ : Single).isFinite = true ∧
    (⟨0x80000001⟩ : Single).literalText = "-.000000000000000000000000000000000000000000001" ∧
      IsLiteralOf "-.000000000000000000000000000000000000000000001" ⟨0x80000001⟩ := by
  have htext : (⟨0x80000001⟩ : Single).literalText =
      "-.000000000000000000000000000000000000000000001" := by decide +kernel
  exact ⟨by decide, htext, htext ▸ literals_read_back (by decide)⟩

end Single

end ShaderGraph
