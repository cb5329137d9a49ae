import ShaderGraph.Swizzle

/-!
# Masks of swizzles

A mask is read letter by letter, and both alphabets give the same selectors.
So a mask is known by its canonical form, where all letters are of the first
alphabet: this is how its swizzle is written, and written swizzles are read
back.
-/

namespace ShaderGraph

namespace Selector

/-- The letters of both alphabets. -/
def letters : List Char := ['x', 'y', 'z', 'w', 'r', 'g', 'b', 'a']

/-- The letter of the first alphabet for one of the second. -/
def canonicalLetter : Char → Char
  | 'r' => 'x'
  | 'g' => 'y'
  | 'b' => 'z'
  | 'a' => 'w'
  | c => c

variable {c : Char} {a : Selector}

@[simp] theorem ofLetter?_letter (a : Selector) : ofLetter? a.letter = some a := by
  cases a <;> rfl

theorem letter_of_ofLetter? (h : ofLetter? c = some a) :
    a.letter = canonicalLetter c ∧ c ∈ letters := by
  unfold ofLetter? at h
  split at h <;> cases h <;> exact ⟨rfl, by decide⟩

theorem exists_ofLetter? (h : c ∈ letters) : ∃ a, ofLetter? c = some a := by
  have hall : letters.all (fun c ↦ (ofLetter? c).isSome) = true := by decide
  exact Option.isSome_iff_exists.mp (List.all_eq_true.mp hall c h)

theorem ofLetter?_eq_none_iff : ofLetter? c = none ↔ c ∉ letters := by
  constructor
  · intro h hmem
    obtain ⟨a, ha⟩ := exists_ofLetter? hmem
    rw [h] at ha
    cases ha
  · intro h
    cases ha : ofLetter? c with
    | none => rfl
    | some a => exact absurd (letter_of_ofLetter? ha).2 h

end Selector

namespace Swizzle

/-- A mask with the letters of the first alphabet in place of those of the second. -/
def canonicalMask (mask : String) : String :=
  String.ofList (mask.toList.map Selector.canonicalLetter)

variable {mask mask' : String} {cs : List Char} {ss : List Selector} {s s' : Swizzle}

theorem readLetters_eq_ok (mask : String) :
    readLetters mask cs = .ok ss ↔ cs.map Selector.ofLetter? = ss.map some := by
  induction cs generalizing ss with
  | nil => cases ss <;> simp [readLetters]
  | cons c rest ih =>
    rw [readLetters]
    cases hc : Selector.ofLetter? c with
    | none => cases ss <;> simp [hc]
    | some a =>
      cases hrest : readLetters mask rest with
      | ok tail =>
        have htail := ih.mp hrest
        have hsome : (a :: tail).map some = ss.map some ↔ a :: tail = ss :=
          List.map_inj_right fun _ _ ↦ Option.some.inj
        simpa [hc, htail] using hsome.symm
      | error e =>
        refine ⟨nofun, fun h ↦ ?_⟩
        cases ss with
        | nil => cases h
        | cons b tail => rw [ih.mpr (List.cons.inj h).2] at hrest; cases hrest

/-- The first letter that is no selector is at fault, whatever comes after it. -/
theorem readLetters_eq_error {c : Char} (h : cs.find? (· ∉ Selector.letters) = some c) :
    readLetters mask cs = .error (.typeMismatch "swizzle" ("component `" ++ c.toString ++ "`")
      "one of xyzw or rgba" mask) := by
  induction cs with
  | nil => cases h
  | cons d rest ih =>
    rw [readLetters]
    by_cases hd : d ∈ Selector.letters
    · obtain ⟨a, ha⟩ := Selector.exists_ofLetter? hd
      rw [List.find?_cons_of_neg (by simpa using hd)] at h
      rw [ha, ih h]
    · rw [List.find?_cons_of_pos (by simpa using hd)] at h
      obtain rfl := Option.some.inj h
      rw [Selector.ofLetter?_eq_none_iff.mpr hd]

theorem exists_readLetters (mask : String) (h : ∀ c ∈ cs, c ∈ Selector.letters) :
    ∃ ss, readLetters mask cs = .ok ss ∧ ss.length = cs.length := by
  induction cs with
  | nil => exact ⟨[], rfl, rfl⟩
  | cons c rest ih =>
    obtain ⟨a, ha⟩ := Selector.exists_ofLetter? (h c List.mem_cons_self)
    obtain ⟨ss, hss, hlength⟩ := ih fun d hd ↦ h d (List.mem_cons_of_mem c hd)
    exact ⟨a :: ss, by rw [readLetters, ha, hss], by simp [hlength]⟩

theorem selectors_of_ofSelectors? (h : ofSelectors? ss = some s) : s.selectors = ss := by
  unfold ofSelectors? at h
  split at h <;> cases h <;> rfl

theorem exists_ofSelectors? (hpos : 1 ≤ ss.length) (hle : ss.length ≤ 4) :
    ∃ s, ofSelectors? ss = some s := by
  obtain _ | ⟨a, _ | ⟨b, _ | ⟨c, _ | ⟨d, _ | ⟨e, rest⟩⟩⟩⟩⟩ := ss
  · cases hpos
  · exact ⟨_, rfl⟩
  · exact ⟨_, rfl⟩
  · exact ⟨_, rfl⟩
  · exact ⟨_, rfl⟩
  · simp only [List.length_cons] at hle
    omega

theorem ofSelectors?_eq_none (h : ss.length = 0 ∨ 4 < ss.length) : ofSelectors? ss = none := by
  cases hs : ofSelectors? ss with
  | none => rfl
  | some s =>
    have hlength := congrArg List.length (selectors_of_ofSelectors? hs)
    rw [length_selectors] at hlength
    cases s <;> simp only [dim, Dim.count] at hlength <;> omega

/-- A mask is read as the swizzle that selects what its letters say. -/
theorem ofMask_eq_ok :
    ofMask mask = .ok s ↔ mask.toList.map Selector.ofLetter? = s.selectors.map some := by
  rw [← readLetters_eq_ok mask, ofMask]
  cases hread : readLetters mask mask.toList with
  | error e => simp
  | ok ss =>
    constructor
    · intro h
      cases hs : ofSelectors? ss with
      | none => simp [hs] at h
      | some s' =>
        simp only [hs, Except.ok.injEq] at h
        rw [← h, selectors_of_ofSelectors? hs]
    · intro h
      obtain rfl := Except.ok.inj h
      simp

theorem length_of_ofMask (h : ofMask mask = .ok s) : mask.length = s.selectors.length := by
  rw [← String.length_toList]
  simpa using congrArg List.length (ofMask_eq_ok.mp h)

/-- What is written for a mask is its canonical form. -/
theorem letters_of_ofMask (h : ofMask mask = .ok s) :
    s.selectors.map Selector.letter = mask.toList.map Selector.canonicalLetter := by
  have hmap := ofMask_eq_ok.mp h
  have hlength := length_of_ofMask h
  rw [← String.length_toList] at hlength
  refine List.ext_getElem (by simpa using hlength.symm) fun i hi hi' ↦ ?_
  simp only [List.length_map] at hi hi'
  have hget := congrArg (·[i]?) hmap
  simp only [List.getElem?_map, List.getElem?_eq_getElem hi, List.getElem?_eq_getElem hi',
    Option.map_some, Option.some.injEq] at hget
  simpa using (Selector.letter_of_ofLetter? hget).1

/-- A swizzle is read back from the letters that are written for it. -/
theorem ofMask_letters (s : Swizzle) :
    ofMask (String.ofList (s.selectors.map Selector.letter)) = .ok s := by
  rw [ofMask_eq_ok, String.toList_ofList, List.map_map]
  exact List.map_congr_left fun a _ ↦ a.ofLetter?_letter

theorem ofMask_canonicalMask (h : ofMask mask = .ok s) : ofMask (canonicalMask mask) = .ok s := by
  rw [canonicalMask, ← letters_of_ofMask h]
  exact s.ofMask_letters

theorem eq_iff_canonicalMask_eq (h : ofMask mask = .ok s) (h' : ofMask mask' = .ok s') :
    s = s' ↔ canonicalMask mask = canonicalMask mask' := by
  constructor
  · rintro rfl
    rw [canonicalMask, canonicalMask, ← letters_of_ofMask h, ← letters_of_ofMask h']
  · intro heq
    have hread := ofMask_canonicalMask h
    rw [heq, ofMask_canonicalMask h'] at hread
    exact (Except.ok.inj hread).symm

theorem exists_ofMask_iff : (∃ s, ofMask mask = .ok s) ↔
    (1 ≤ mask.length ∧ mask.length ≤ 4) ∧ ∀ c ∈ mask.toList, c ∈ Selector.letters := by
  constructor
  · rintro ⟨s, h⟩
    refine ⟨?_, fun c hc ↦ ?_⟩
    · rw [length_of_ofMask h, length_selectors]
      cases s <;> exact ⟨by simp [dim, Dim.count], by simp [dim, Dim.count]⟩
    · have hmem := List.mem_map_of_mem (f := Selector.ofLetter?) hc
      rw [ofMask_eq_ok.mp h] at hmem
      obtain ⟨a, -, ha⟩ := List.mem_map.mp hmem
      exact (Selector.letter_of_ofLetter? ha.symm).2
  · rintro ⟨⟨hpos, hle⟩, hletters⟩
    obtain ⟨ss, hss, hlength⟩ := exists_readLetters mask hletters
    rw [String.length_toList] at hlength
    obtain ⟨s, hs⟩ := exists_ofSelectors? (hlength ▸ hpos) (hlength ▸ hle)
    exact ⟨s, by rw [ofMask, hss]; simp [hs]⟩

theorem eq_vector_of_resultType {source t : ValueType} (h : s.resultType source = .ok t) :
    ∃ kind dim, source = .vector kind dim := by
  unfold resultType at h
  split at h
  · exact ⟨_, _, rfl⟩
  · cases h

theorem resultType_vector_eq_ok {kind : ScalarKind} {dim : Dim} {t : ValueType} :
    s.resultType (.vector kind dim) = .ok t ↔
      (dim ≠ .one ∧ s.dim.count ≤ dim.count ∧ ∀ a ∈ s.selectors, a.index < dim.count) ∧
        .vector kind s.dim = t := by
  have hfind : s.selectors.find? (fun c ↦ decide (dim.count ≤ c.index)) = none ↔
      ∀ a ∈ s.selectors, a.index < dim.count := by simp
  rw [ValueType.vector, resultType]
  by_cases hone : dim = .one
  · simp [hone]
  by_cases hcount : dim.count < s.dim.count
  · simp [hone, hcount, Nat.not_le.mpr hcount]
  rw [if_neg hone, if_neg hcount, ← hfind]
  cases s.selectors.find? (fun c ↦ decide (dim.count ≤ c.index)) with
  | none => simp [hone, Nat.not_lt.mp hcount]
  | some c => simp

theorem exists_resultType_iff {source : ValueType} : (∃ t, s.resultType source = .ok t) ↔
    ∃ kind dim, source = .vector kind dim ∧ 2 ≤ dim.count ∧ s.selectors.length ≤ dim.count ∧
      ∀ a ∈ s.selectors, a.index < dim.count := by
  have harity (dim : Dim) : dim ≠ .one ↔ 2 ≤ dim.count := by cases dim <;> simp [Dim.count]
  rw [length_selectors]
  constructor
  · rintro ⟨t, h⟩
    obtain ⟨kind, dim, rfl⟩ := eq_vector_of_resultType h
    obtain ⟨⟨hone, hcount, hindex⟩, -⟩ := resultType_vector_eq_ok.mp h
    exact ⟨kind, dim, rfl, (harity dim).mp hone, hcount, hindex⟩
  · rintro ⟨kind, dim, rfl, htwo, hcount, hindex⟩
    exact ⟨_, resultType_vector_eq_ok.mpr ⟨⟨(harity dim).mpr htwo, hcount, hindex⟩, rfl⟩⟩

/-! ## What a mask means -/

/-- What there is to know about a mask: whether it is read, as what, and which error it gives if it
is not. A bad letter comes before a bad length. -/
structure MaskRules (mask : String) : Prop where
  ok_iff : (∃ s, ofMask mask = .ok s) ↔
    (1 ≤ mask.length ∧ mask.length ≤ 4) ∧ ∀ c ∈ mask.toList, c ∈ Selector.letters
  text_eq : ∀ s, ofMask mask = .ok s → s.text = "." ++ canonicalMask mask
  reads_back : ∀ s, ofMask mask = .ok s → ofMask (String.ofList s.text.toList.tail) = .ok s
  eq_iff : ∀ mask' s s', ofMask mask = .ok s → ofMask mask' = .ok s' →
    (s = s' ↔ canonicalMask mask = canonicalMask mask')
  bad_letter : ∀ c, mask.toList.find? (· ∉ Selector.letters) = some c →
    ofMask mask = .error (.typeMismatch "swizzle" ("component `" ++ c.toString ++ "`")
      "one of xyzw or rgba" mask)
  bad_length : (∀ c ∈ mask.toList, c ∈ Selector.letters) → mask.length = 0 ∨ 4 < mask.length →
    ofMask mask = .error (.indexOutOfRange ("swizzle ." ++ mask) mask.length 4)
  resultType_iff : ∀ s source, ofMask mask = .ok s →
    ((∃ t, s.resultType source = .ok t) ↔
      ∃ kind dim, source = .vector kind dim ∧ 2 ≤ dim.count ∧ mask.length ≤ dim.count ∧
        ∀ a ∈ s.selectors, a.index < dim.count)

theorem ofMask_of_bad_length (hletters : ∀ c ∈ mask.toList, c ∈ Selector.letters)
    (hlength : mask.length = 0 ∨ 4 < mask.length) :
    ofMask mask = .error (.indexOutOfRange ("swizzle ." ++ mask) mask.length 4) := by
  obtain ⟨ss, hss, heq⟩ := exists_readLetters mask hletters
  rw [String.length_toList] at heq
  rw [ofMask, hss]
  simp only [ofSelectors?_eq_none (heq ▸ hlength), heq]

/-- Of all texts exactly the masks of one to four letters are read, and masks with one canonical
form are one swizzle, which is written in this form. A swizzle has a type exactly on vectors that
have what it selects. -/
theorem masks_read_exactly (mask : String) : MaskRules mask where
  ok_iff := exists_ofMask_iff
  text_eq s h := by
    rw [text, letters_of_ofMask h, canonicalMask, ← String.toList_inj]
    simp
  reads_back s _ := by
    rw [text, String.toList_ofList, List.tail_cons]
    exact s.ofMask_letters
  eq_iff mask' s s' := eq_iff_canonicalMask_eq
  bad_letter c h := by rw [ofMask, readLetters_eq_error h]
  bad_length := ofMask_of_bad_length
  resultType_iff s source h := by
    rw [length_of_ofMask h]
    exact exists_resultType_iff

example : ofMask "bgr" = .ok (.three .z .y .x) := by rfl

end Swizzle

end ShaderGraph
