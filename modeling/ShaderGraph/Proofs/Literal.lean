import ShaderGraph.Literal
import ShaderGraph.Proofs.Expr.Reading
import ShaderGraph.Proofs.NamePool
import ShaderGraph.Proofs.Single.Text

/-!
# Words of literals

A literal is written as one word for each entry. The words of truth values,
whole numbers and floats differ in how they end and in whether they have a
point, so that the entries and their kind are known from the words, and the
literal from its shape.
-/

namespace ShaderGraph

theorem isDigit_of_mem_repr {n : Nat} {c : Char} (hc : c ∈ n.repr.toList) : c.isDigit = true := by
  rw [Nat.toList_repr] at hc
  exact Nat.isDigit_of_mem_toDigits (by decide) (by decide) hc

theorem toList_repr_ne_nil (n : Nat) : n.repr.toList ≠ [] := by
  rw [Nat.toList_repr]
  exact Nat.toDigits_ne_nil

/-- Whole numbers are written as a sign and digits. -/
theorem toList_toString_int (i : Int) :
    (toString i).toList = (if i < 0 then ['-'] else []) ++ i.natAbs.repr.toList := by
  rw [Int.toString_eq_repr, Int.repr_eq_if]
  by_cases hi : 0 ≤ i
  · rw [if_pos hi, if_neg (by omega)]
    congr 2
    omega
  · rw [if_neg hi, if_pos (by omega), String.toList_append]
    congr 2
    congr 1
    omega

theorem toString_int_injective : Function.Injective (toString : Int → String) := by
  intro i j h
  have hlist := congrArg String.toList h
  rw [toList_toString_int, toList_toString_int] at hlist
  have hsign {n : Nat} : '-' ∉ n.repr.toList := fun hmem ↦
    absurd (isDigit_of_mem_repr hmem) (by decide)
  have habs {m n : Nat} (h : m.repr.toList = n.repr.toList) : m = n :=
    repr_injective (String.toList_inj.mp h)
  by_cases hi : i < 0
  · by_cases hj : j < 0
    · rw [if_pos hi, if_pos hj] at hlist
      have := habs (List.cons.inj hlist).2
      omega
    · rw [if_pos hi, if_neg hj] at hlist
      exact absurd (by rw [List.nil_append] at hlist; simp [← hlist]) (hsign (n := j.natAbs))
  · by_cases hj : j < 0
    · rw [if_neg hi, if_pos hj] at hlist
      exact absurd (by rw [List.nil_append] at hlist; simp [hlist]) (hsign (n := i.natAbs))
    · rw [if_neg hi, if_neg hj] at hlist
      have := habs hlist
      omega

theorem PrimType.mem_all (p : PrimType) : p ∈ all := by
  obtain kind | dim | dim | dim := p
  · cases kind <;> rename_i dim <;> cases dim <;> decide
  all_goals cases dim <;> decide

theorem PrimType.text_injective : Function.Injective PrimType.text := by
  have hall : ∀ p ∈ all, ∀ q ∈ all, p.text = q.text → p = q := by decide +kernel
  exact fun p q ↦ hall p p.mem_all q q.mem_all

theorem ValueType.eq_of_isScalar {t t' : ValueType} (ht : t.isScalar = true)
    (ht' : t'.isScalar = true) (h : t.scalarKind = t'.scalarKind) : t = t' := by
  have hscalar {t : ValueType} (ht : t.isScalar = true) : t.scalarKind.map scalar = some t := by
    obtain ⟨⟨kind, dim⟩ | _ | _ | _, _ | _⟩ := t <;> try cases ht
    cases dim with
    | one => rfl
    | two | three | four => cases ht
  exact Option.some.inj ((hscalar ht).symm.trans (h ▸ hscalar ht'))

theorem ValueType.text_inj {t t' : ValueType} (ht : t.length = none) (ht' : t'.length = none)
    (h : t.text = t'.text) : t = t' := by
  obtain ⟨p, _⟩ := t
  obtain ⟨p', _⟩ := t'
  cases ht
  cases ht'
  exact congrArg (ValueType.mk · none) (PrimType.text_injective h)

/-- What one function does not tell apart in two lists, another one does not either. -/
theorem map_eq_of_map_eq {α β γ : Type} {f : α → β} {g : α → γ} {xs ys : List α}
    (hfg : ∀ x ∈ xs, ∀ y ∈ ys, f x = f y → g x = g y) (h : xs.map f = ys.map f) :
    xs.map g = ys.map g := by
  induction xs generalizing ys with
  | nil =>
    obtain rfl := List.map_eq_nil_iff.mp h.symm
    rfl
  | cons x xs ih =>
    cases ys with
    | nil => cases h
    | cons y ys =>
      obtain ⟨hfirst, hrest⟩ := List.cons.inj h
      rw [List.map_cons, List.map_cons, hfg x List.mem_cons_self y List.mem_cons_self hfirst]
      congr 1
      exact ih (fun x hx y hy ↦ hfg x (List.mem_cons_of_mem _ hx) y (List.mem_cons_of_mem _ hy))
        hrest

theorem Components.eq_of_toList {α : Type} {xs ys : Components α} (hdim : xs.dim = ys.dim)
    (h : xs.toList = ys.toList) : xs = ys := by
  cases xs
  cases ys
  cases hdim
  cases h
  rfl

theorem MatrixEntries.eq_of_toList {m m' : MatrixEntries} (hdim : m.dim = m'.dim)
    (h : m.toList = m'.toList) : m = m' := by
  cases m
  cases m'
  cases hdim
  cases h
  rfl

def Components.map {α β : Type} (f : α → β) (xs : Components α) : Components β :=
  ⟨xs.dim, xs.toList.map f, by rw [List.length_map, xs.length_eq]⟩

def MatrixEntries.map (f : Single → Single) (m : MatrixEntries) : MatrixEntries :=
  ⟨m.dim, m.toList.map f, by rw [List.length_map, m.length_eq]⟩

namespace Literal

def intWord (x : Int32) : List Char := (toString x.toInt).toList

def uintWord (x : UInt32) : List Char := (toString x.toNat ++ "u").toList

def floatWord (x : Single) : List Char := x.literalText.toList

def boolWord (x : Bool) : List Char := (if x then "true" else "false").toList

def words : Literal → List (List Char)
  | int xs => xs.toList.map intWord
  | uint xs => xs.toList.map uintWord
  | float xs => xs.toList.map floatWord
  | bool xs => xs.toList.map boolWord
  | matrix m => m.toList.map floatWord

/-- The shape of words after the name of a type. -/
def shapeOf (type : ValueType) : List (List Char) → Shape
  | [w] => .word w
  | ws => .call type.text.toList (ws.map .word)

def shape (l : Literal) : Shape := shapeOf l.type l.words

/-- The literal with all floats standing for those that are written like them. -/
def canonical : Literal → Literal
  | float xs => float (xs.map Single.canonical)
  | matrix m => matrix (m.map Single.canonical)
  | l => l

theorem type_canonical (l : Literal) : l.canonical.type = l.type := by
  cases l <;> rfl

/-- Texts with commas between them are the characters of shapes that they are the texts of. -/
theorem toList_commaSeparated {ss : List String} {shapes : List Shape}
    (h : ss.map String.toList = shapes.map Shape.chars) :
    (commaSeparated ss).toList = Shape.charsOfList shapes := by
  induction ss generalizing shapes with
  | nil =>
    obtain rfl := List.map_eq_nil_iff.mp h.symm
    rfl
  | cons s ss ih =>
    obtain ⟨a, shapes, rfl, hfirst, hrest⟩ := List.map_eq_cons_iff.mp h.symm
    cases ss with
    | nil =>
      obtain rfl := List.map_eq_nil_iff.mp hrest
      exact hfirst.symm
    | cons t ss =>
      cases shapes with
      | nil => cases hrest
      | cons b shapes =>
        show _ = a.chars ++ ',' :: ' ' :: Shape.charsOfList (b :: shapes)
        rw [commaSeparated, String.toList_append, String.toList_append, ih hrest.symm, hfirst]
        · simp
        · nofun

theorem toList_entriesText (type : ValueType) (ss : List String) :
    (entriesText type ss).toList = (shapeOf type (ss.map String.toList)).chars := by
  have hcall : (type.text ++ "(" ++ commaSeparated ss ++ ")").toList =
      (Shape.call type.text.toList ((ss.map String.toList).map .word)).chars := by
    have hwords : ss.map String.toList =
        ((ss.map String.toList).map Shape.word).map Shape.chars := by
      rw [List.map_map]
      exact (List.map_id _).symm
    simp [Shape.chars, toList_commaSeparated hwords]
  cases ss with
  | nil => exact hcall
  | cons s ss =>
    cases ss with
    | nil => rfl
    | cons t ss => exact hcall

theorem toList_text (l : Literal) : l.text.toList = l.shape.chars := by
  unfold text shape
  cases l with
  | int xs | uint xs | float xs | bool xs | matrix m =>
    dsimp only
    rw [toList_entriesText, List.map_map]
    rfl

/-- The kind of what a word stands for. -/
def wordKind (w : List Char) : ScalarKind :=
  if w = "true".toList ∨ w = "false".toList then .bool
  else if w.getLast? = some 'u' then .uint
  else if '.' ∈ w ∨ w = "NaN".toList ∨ w = "inf".toList ∨ w = "-inf".toList then .float
  else .int

theorem wordKind_boolWord (x : Bool) : wordKind (boolWord x) = .bool := by
  cases x <;> decide

theorem wordKind_uintWord (x : UInt32) : wordKind (uintWord x) = .uint := by
  have hlast : (uintWord x).getLast? = some 'u' := by simp [uintWord]
  have hbool : ¬(uintWord x = "true".toList ∨ uintWord x = "false".toList) := by
    rintro (h | h) <;> rw [h] at hlast <;> revert hlast <;> decide
  rw [wordKind, if_neg hbool, if_pos hlast]

/-- What whole and finite numbers are made of. -/
def isFigure (c : Char) : Bool := c.isDigit || c == '-' || c == '.'

theorem wordKind_of_figures {w : List Char} (hw : ∀ c ∈ w, isFigure c = true) :
    wordKind w = if '.' ∈ w then .float else .int := by
  have hne {v : List Char} (c : Char) (hc : c ∈ v) (hletter : isFigure c = false) : w ≠ v := by
    rintro rfl
    rw [hw c hc] at hletter
    cases hletter
  have hbool : ¬(w = "true".toList ∨ w = "false".toList) :=
    not_or.mpr ⟨hne 'e' (by decide) (by decide), hne 'e' (by decide) (by decide)⟩
  have huint : w.getLast? ≠ some 'u' := fun h ↦
    absurd (hw 'u' (List.mem_of_getLast? h)) (by decide)
  have hnan : w ≠ "NaN".toList := hne 'N' (by decide) (by decide)
  have hinf : w ≠ "inf".toList := hne 'i' (by decide) (by decide)
  have hneg : w ≠ "-inf".toList := hne 'i' (by decide) (by decide)
  rw [wordKind, if_neg hbool, if_neg huint]
  simp only [hnan, hinf, hneg, or_false]

theorem isFigure_of_isDigit {c : Char} (hc : c.isDigit = true) : isFigure c = true := by
  simp [isFigure, hc]

theorem isFigure_of_mem_intWord {x : Int32} {c : Char} (hc : c ∈ intWord x) :
    isFigure c = true ∧ c ≠ '.' := by
  rw [intWord, toList_toString_int] at hc
  rcases List.mem_append.mp hc with hc | hc
  · split at hc
    · obtain rfl := List.mem_singleton.mp hc
      decide
    · cases hc
  · have hdigit := isDigit_of_mem_repr hc
    refine ⟨isFigure_of_isDigit hdigit, ?_⟩
    rintro rfl
    exact absurd hdigit (by decide)

theorem isFigure_of_mem_floatWord {x : Single} (hx : x.isFinite = true) {c : Char}
    (hc : c ∈ floatWord x) : isFigure c = true := by
  have hdigit {c : Char} (hc : c ∈ x.parts.1 ++ x.parts.2) : isFigure c = true :=
    isFigure_of_isDigit (Single.isDigit_of_mem_parts hc)
  rw [floatWord, Single.toList_literalText hx] at hc
  rcases List.mem_append.mp hc with hc | hc
  · split at hc
    · obtain rfl := List.mem_singleton.mp hc
      rfl
    · cases hc
  · rcases List.mem_append.mp hc with hc | hc
    · exact hdigit (List.mem_append_left _ hc)
    · rcases List.mem_cons.mp hc with rfl | hc
      · rfl
      · exact hdigit (List.mem_append_right _ hc)

theorem wordKind_intWord (x : Int32) : wordKind (intWord x) = .int := by
  rw [wordKind_of_figures fun c hc ↦ (isFigure_of_mem_intWord hc).1, if_neg]
  intro hpoint
  exact (isFigure_of_mem_intWord hpoint).2 rfl

/-- Numbers that are not finite are written as one of three words. -/
theorem floatWord_of_not_finite {x : Single} (hx : x.isFinite = false) :
    floatWord x ∈ ["NaN".toList, "inf".toList, "-inf".toList] := by
  unfold floatWord
  rcases Single.not_finite_cases hx with ⟨htext, -⟩ | ⟨htext, -⟩
  · rw [htext]
    decide
  · rw [htext]
    cases x.negative <;> decide

theorem wordKind_floatWord (x : Single) : wordKind (floatWord x) = .float := by
  cases hx : x.isFinite with
  | true =>
    rw [wordKind_of_figures fun c hc ↦ isFigure_of_mem_floatWord hx hc, if_pos]
    exact Single.point_mem_iff.mpr hx
  | false =>
    have hall : ∀ w ∈ ["NaN".toList, "inf".toList, "-inf".toList], wordKind w = .float := by decide
    exact hall _ (floatWord_of_not_finite hx)

/-! ## Words are legible -/

/-- The words that literals are written with and that could be names. -/
def reserved : List String := ["true", "false", "NaN", "inf"]

theorem isLetter_of_isFigure {c : Char} (hc : isFigure c = true) :
    isLetter c = false ∧ isNumberChar c = true := by
  simp only [isFigure, Bool.or_eq_true, beq_iff_eq] at hc
  rcases hc with (hc | rfl) | rfl
  · exact ⟨isLetter_of_isDigit hc, by simp [isNumberChar, isNameChar, hc]⟩
  · decide
  · decide

theorem isNumber_append {w rest : List Char} (hne : w ≠ []) (hw : ∀ c ∈ w, isFigure c = true)
    (hrest : ∀ c ∈ rest, isNumberChar c = true) : IsNumber (w ++ rest) := by
  obtain ⟨c, cs, rfl⟩ := List.exists_cons_of_ne_nil hne
  refine ⟨c, cs ++ rest, rfl, (isLetter_of_isFigure (hw c List.mem_cons_self)).1, ?_⟩
  intro d hd
  rcases List.mem_append.mp (show d ∈ (c :: cs) ++ rest from hd) with hd | hd
  · exact (isLetter_of_isFigure (hw d hd)).2
  · exact hrest d hd

theorem isNumber_of_figures {w : List Char} (hne : w ≠ []) (hw : ∀ c ∈ w, isFigure c = true) :
    IsNumber w := by
  have h : IsNumber (w ++ []) := isNumber_append hne hw nofun
  rwa [List.append_nil] at h

theorem isNumber_intWord (x : Int32) : IsNumber (intWord x) := by
  have hne : intWord x ≠ [] := by
    rw [intWord, toList_toString_int]
    exact List.append_ne_nil_of_right_ne_nil _ (toList_repr_ne_nil _)
  exact isNumber_of_figures hne fun c hc ↦ (isFigure_of_mem_intWord hc).1

theorem isNumber_uintWord (x : UInt32) : IsNumber (uintWord x) := by
  have hword : uintWord x = x.toNat.repr.toList ++ ['u'] := by simp [uintWord]
  rw [hword]
  apply isNumber_append (toList_repr_ne_nil _)
  · exact fun c hc ↦ isFigure_of_isDigit (isDigit_of_mem_repr hc)
  · exact List.all_eq_true.mp (by decide)

theorem isNumber_or_reserved_floatWord (x : Single) :
    IsNumber (floatWord x) ∨ floatWord x ∈ reserved.map String.toList := by
  cases hx : x.isFinite with
  | true =>
    have hne : floatWord x ≠ [] := List.ne_nil_of_mem (Single.point_mem_iff.mpr hx)
    exact .inl (isNumber_of_figures hne fun c hc ↦ isFigure_of_mem_floatWord hx hc)
  | false =>
    rcases List.mem_cons.mp (floatWord_of_not_finite hx) with h | h
    · exact .inr (by rw [h]; decide)
    · rcases List.mem_cons.mp h with h | h
      · exact .inr (by rw [h]; decide)
      · rw [List.mem_singleton.mp h]
        exact .inl ⟨'-', _, rfl, by decide, List.all_eq_true.mp (by decide)⟩

theorem isNumber_or_reserved {l : Literal} {w : List Char} (hw : w ∈ l.words) :
    IsNumber w ∨ w ∈ reserved.map String.toList := by
  cases l with
  | int xs =>
    obtain ⟨x, -, rfl⟩ := List.mem_map.mp hw
    exact .inl (isNumber_intWord x)
  | uint xs =>
    obtain ⟨x, -, rfl⟩ := List.mem_map.mp hw
    exact .inl (isNumber_uintWord x)
  | float xs | matrix xs =>
    obtain ⟨x, -, rfl⟩ := List.mem_map.mp hw
    exact isNumber_or_reserved_floatWord x
  | bool xs =>
    obtain ⟨x, -, rfl⟩ := List.mem_map.mp hw
    exact .inr (by cases x <;> decide)

theorem legible_word {l : Literal} {w : List Char} (hw : w ∈ l.words) :
    (Shape.word w).Legible := by
  have hreserved : ∀ w ∈ reserved.map String.toList, IsName w := by decide
  rcases isNumber_or_reserved hw with hnumber | hname
  · exact .number hnumber
  · exact .name (hreserved w hname)

theorem length_type (l : Literal) : l.type.length = none := by
  cases l <;> rfl

theorem isName_type (l : Literal) : IsName l.type.text.toList := by
  have hall : ∀ p ∈ PrimType.all, IsName p.text.toList := by decide
  have htext : l.type.text = l.type.prim.text := by simp [ValueType.text, length_type]
  rw [htext]
  exact hall _ l.type.prim.mem_all

theorem shapeOf_of_length {type : ValueType} {ws : List (List Char)} (h : ws.length ≠ 1) :
    shapeOf type ws = .call type.text.toList (ws.map .word) := by
  cases ws with
  | nil => rfl
  | cons w ws =>
    cases ws with
    | nil => exact absurd rfl h
    | cons v ws => rfl

theorem legible_shape (l : Literal) : l.shape.Legible := by
  unfold shape
  by_cases hlength : l.words.length = 1
  · obtain ⟨w, hw⟩ := List.length_eq_one_iff.mp hlength
    rw [hw]
    exact legible_word (hw ▸ List.mem_singleton_self w)
  · rw [shapeOf_of_length hlength]
    refine .call l.isName_type fun s hs ↦ ?_
    obtain ⟨w, hw, rfl⟩ := List.mem_map.mp hs
    exact legible_word hw

/-! ## Literals from their shapes -/

theorem length_words (l : Literal) : l.words.length =
    match l with
    | int xs => xs.dim.count
    | uint xs => xs.dim.count
    | float xs => xs.dim.count
    | bool xs => xs.dim.count
    | matrix m => m.dim.size * m.dim.size := by
  cases l with
  | int xs | uint xs | float xs | bool xs | matrix xs =>
    exact (List.length_map _).trans xs.length_eq

/-- The words of a literal tell what it has as components. -/
theorem scalarKind_type {l : Literal} {w : List Char} (hw : w ∈ l.words) :
    l.type.scalarKind = some (wordKind w) := by
  cases l with
  | int xs =>
    obtain ⟨x, -, rfl⟩ := List.mem_map.mp hw
    rw [wordKind_intWord]
    rfl
  | uint xs =>
    obtain ⟨x, -, rfl⟩ := List.mem_map.mp hw
    rw [wordKind_uintWord]
    rfl
  | float xs | matrix xs =>
    obtain ⟨x, -, rfl⟩ := List.mem_map.mp hw
    rw [wordKind_floatWord]
    rfl
  | bool xs =>
    obtain ⟨x, -, rfl⟩ := List.mem_map.mp hw
    rw [wordKind_boolWord]
    rfl

theorem isScalar_type_iff (l : Literal) : l.type.isScalar = true ↔ l.words.length = 1 := by
  rw [length_words]
  cases l with
  | int xs | uint xs | float xs | bool xs => cases h : xs.dim <;> simp [type, h] <;> decide
  | matrix m => cases h : m.dim <;> simp [type, h] <;> decide

theorem shapeOf_inj {t t' : ValueType} {ws ws' : List (List Char)}
    (h : shapeOf t ws = shapeOf t' ws') : ws = ws' ∧ (ws.length ≠ 1 → t.text = t'.text) := by
  by_cases hws : ws.length = 1
  · obtain ⟨w, rfl⟩ := List.length_eq_one_iff.mp hws
    refine ⟨?_, fun hne ↦ absurd rfl hne⟩
    by_cases hws' : ws'.length = 1
    · obtain ⟨w', rfl⟩ := List.length_eq_one_iff.mp hws'
      rw [Shape.word.inj h]
    · rw [shapeOf_of_length hws'] at h
      cases h
  · by_cases hws' : ws'.length = 1
    · obtain ⟨w', rfl⟩ := List.length_eq_one_iff.mp hws'
      rw [shapeOf_of_length hws] at h
      cases h
    · rw [shapeOf_of_length hws, shapeOf_of_length hws'] at h
      obtain ⟨htext, hwords⟩ := Shape.call.inj h
      have hinj : Function.Injective Shape.word := fun _ _ ↦ Shape.word.inj
      exact ⟨hinj.list_map hwords, fun _ ↦ String.toList_inj.mp htext⟩

theorem eq_of_shape {l l' : Literal} (h : l.shape = l'.shape) :
    l.type = l'.type ∧ l.words = l'.words := by
  obtain ⟨hwords, htext⟩ := shapeOf_inj h
  refine ⟨?_, hwords⟩
  by_cases hlength : l.words.length = 1
  · have hscalar := l.isScalar_type_iff.mpr hlength
    have hscalar' := l'.isScalar_type_iff.mpr (hwords ▸ hlength)
    obtain ⟨w, hw⟩ := List.exists_mem_of_length_pos (l := l.words) (by omega)
    apply ValueType.eq_of_isScalar hscalar hscalar'
    rw [scalarKind_type hw, scalarKind_type (hwords ▸ hw)]
  · exact ValueType.text_inj l.length_type l'.length_type (htext hlength)

theorem intWord_injective : Function.Injective intWord := fun _ _ h ↦
  Int32.toInt_inj.mp (toString_int_injective (String.toList_inj.mp h))

theorem uintWord_injective : Function.Injective uintWord := by
  intro x y h
  have hdigits : x.toNat.repr.toList = y.toNat.repr.toList := by
    simpa [uintWord] using h
  exact UInt32.toNat_inj.mp (repr_injective (String.toList_inj.mp hdigits))

theorem boolWord_injective : Function.Injective boolWord := by
  decide

theorem canonical_of_floatWords {xs ys : List Single} (h : xs.map floatWord = ys.map floatWord) :
    xs.map Single.canonical = ys.map Single.canonical :=
  map_eq_of_map_eq (fun _ _ _ _ h ↦ Single.literalText_inj (String.toList_inj.mp h)) h

/-- Literals of one shape are one literal, as far as they are told apart. -/
theorem canonical_eq_of_shape {l l' : Literal} (h : l.shape = l'.shape) :
    l.canonical = l'.canonical := by
  obtain ⟨htype, hwords⟩ := eq_of_shape h
  have hdim {k k' : ScalarKind} {d d' : Dim} (h : ValueType.vector k d = .vector k' d') :
      d = d' := by cases h; rfl
  have hmatrix {d d' : MatrixDim} (h : ValueType.matrix d = .matrix d') : d = d' := by cases h; rfl
  cases l with
  | int xs =>
    cases l' with
    | int ys =>
      have hlist := intWord_injective.list_map hwords
      exact congrArg int (Components.eq_of_toList (hdim htype) hlist)
    | _ => cases htype
  | uint xs =>
    cases l' with
    | uint ys =>
      have hlist := uintWord_injective.list_map hwords
      exact congrArg uint (Components.eq_of_toList (hdim htype) hlist)
    | _ => cases htype
  | float xs =>
    cases l' with
    | float ys =>
      have hlist := canonical_of_floatWords hwords
      exact congrArg float (Components.eq_of_toList (hdim htype) hlist)
    | _ => cases htype
  | bool xs =>
    cases l' with
    | bool ys =>
      have hlist := boolWord_injective.list_map hwords
      exact congrArg bool (Components.eq_of_toList (hdim htype) hlist)
    | _ => cases htype
  | matrix m =>
    cases l' with
    | matrix m' =>
      have hlist := canonical_of_floatWords hwords
      exact congrArg matrix (MatrixEntries.eq_of_toList (hmatrix htype) hlist)
    | _ => cases htype

end Literal

end ShaderGraph
