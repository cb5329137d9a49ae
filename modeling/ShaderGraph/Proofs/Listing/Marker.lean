import Mathlib.Data.List.Infix
import ShaderGraph.Listing

/-!
# The marker before effects

What a statement reads and writes is shown after a marker. A text that has no
marker, not even with blanks around it, can be joined with others by texts that
do not complete a marker on either side. What stands before the first marker in
a line is then the code of the line.
-/

namespace ShaderGraph

/-- What the effects of a statement are shown after. -/
def marker : List Char := [' ', '/', '/', ' ', 'r', 'e', 'a', 'd', 's', ':', ' ']

/-- A text up to the first marker in it. -/
def beforeMarker : List Char → List Char
  | [] => []
  | c :: rest => if marker.isPrefixOf (c :: rest) then [] else c :: beforeMarker rest

/-- The lines of a text. After the last line break there is a line as well. -/
def textLines (s : String) : List (List Char) := s.toList.splitOn '\n'

/-- There is no marker in a text, also if there are blanks before and after it. -/
def Unmarked (s : String) : Prop := ¬marker <:+: ' ' :: (s.toList ++ [' '])

instance (s : String) : Decidable (Unmarked s) := inferInstanceAs (Decidable ¬_)

/-- A text has no marker, is in none, and completes none that begins before it or ends after it,
but by a blank. -/
def Joining (s : String) : Prop :=
  (¬marker <:+: s.toList ∧ ¬s.toList <:+: marker) ∧
    ∀ n ∈ List.range' 1 10,
      (marker.drop n <+: s.toList → marker.drop n = [' ']) ∧
        (marker.take n <:+ s.toList → marker.take n = [' '])

instance (s : String) : Decidable (Joining s) := inferInstanceAs (Decidable (_ ∧ _))

variable {cs cs' front back : List Char} {a b : String}

/-- The front of a marker is nothing, all of it, or one of ten pieces. -/
theorem front_cases (h : marker = front ++ back) : front = [] ∨ back = [] ∨
    ∃ n ∈ List.range' 1 10, front = marker.take n ∧ back = marker.drop n := by
  by_cases hfront : front = []
  · exact .inl hfront
  by_cases hback : back = []
  · exact .inr (.inl hback)
  refine .inr (.inr ⟨front.length, List.mem_range'_1.mpr ⟨?_, ?_⟩, ?_, ?_⟩)
  · exact List.length_pos_of_ne_nil hfront
  · have hlength := congrArg List.length h
    have hpos := List.length_pos_of_ne_nil hback
    rw [List.length_append, show marker.length = 11 from rfl] at hlength
    omega
  · rw [h, List.take_left]
  · rw [h, List.drop_left]

namespace Unmarked

/-! ## Joining texts -/

theorem of_slash_notMem (h : '/' ∉ a.toList) : Unmarked a := by
  intro hmarker
  have hslash : '/' ∈ ' ' :: (a.toList ++ [' ']) := hmarker.subset (by decide)
  simp [h] at hslash

theorem not_infix (h : Unmarked a) : ¬marker <:+: a.toList :=
  fun hmarker ↦ h (hmarker.trans ((List.prefix_append _ _).isInfix.trans
    (List.suffix_cons _ _).isInfix))

theorem not_infix_left (h : Unmarked a) : ¬marker <:+: ' ' :: a.toList :=
  fun hmarker ↦ h (hmarker.trans (List.prefix_append (' ' :: a.toList) [' ']).isInfix)

theorem not_infix_right (h : Unmarked a) : ¬marker <:+: a.toList ++ [' '] :=
  fun hmarker ↦ h (hmarker.trans (List.suffix_cons _ _).isInfix)

/-- A marker in texts that are joined would be in one of them, or would be completed by what joins
them. -/
theorem join (ha : Unmarked a) (s : String) (hb : Unmarked b) (hs : Joining s) :
    Unmarked (a ++ s ++ b) := by
  obtain ⟨⟨hhas, hin⟩, hpart⟩ := hs
  intro h
  simp only [String.toList_append, List.append_assoc] at h
  rw [← List.cons_append] at h
  rcases List.infix_append_iff.mp h with h | h | ⟨front, back, heq, hfront, hback⟩
  · exact ha.not_infix_left h
  · -- the marker begins after `a`, and may go beyond `s`
    rcases List.infix_append_iff.mp h with h | h | ⟨front, back, heq, hfront, hback⟩
    · exact hhas h
    · exact hb.not_infix_right h
    · rcases front_cases heq with rfl | rfl | ⟨n, hn, hn', -⟩
      · exact hb.not_infix_right (heq ▸ hback.isInfix)
      · rw [List.append_nil] at heq
        exact hhas (heq ▸ hfront.isInfix)
      · obtain rfl : front = [' '] := hn'.trans ((hpart n hn).2 (hn' ▸ hfront))
        apply hb
        rw [heq]
        exact ((List.prefix_cons_inj ' ').mpr hback).isInfix
  · -- it begins in `a`, and ends in `s` or has all of `s`
    rcases List.prefix_or_prefix_of_prefix hback (List.prefix_append _ _) with hback | hjoin
    · rcases front_cases heq with rfl | rfl | ⟨n, hn, -, hn'⟩
      · exact hhas (heq ▸ hback.isInfix)
      · rw [List.append_nil] at heq
        exact ha.not_infix_left (heq ▸ hfront.isInfix)
      · obtain rfl : back = [' '] := hn'.trans ((hpart n hn).1 (hn' ▸ hback))
        apply ha
        obtain ⟨rest, hrest⟩ := hfront
        exact ⟨rest, [], by rw [heq, List.append_nil, ← List.append_assoc, hrest]; rfl⟩
    · apply hin
      rw [heq]
      exact hjoin.isInfix.trans (List.suffix_append _ _).isInfix

theorem of_empty : Unmarked "" := by decide

/-- A text may follow. -/
theorem before (h : Unmarked a) (s : String) (hs : Joining s) : Unmarked (a ++ s) := by
  have hjoin := h.join s of_empty hs
  rwa [String.append_empty] at hjoin

/-- A text may go first. -/
theorem behind (s : String) (h : Unmarked a) (hs : Joining s) : Unmarked (s ++ a) := by
  have hjoin := of_empty.join s h hs
  rwa [String.empty_append] at hjoin

/-- A blank behind a text without slashes is not one in a marker. -/
theorem blank (ha : '/' ∉ a.toList) (hb : Unmarked b) : Unmarked (a ++ " " ++ b) := by
  intro h
  have hchars : ' ' :: ((a ++ " " ++ b).toList ++ [' ']) =
      (' ' :: a.toList) ++ (' ' :: (b.toList ++ [' '])) := by simp
  rw [hchars] at h
  rcases List.infix_append_iff.mp h with h | h | ⟨front, back, heq, hfront, hback⟩
  · exact (of_slash_notMem ha).not_infix_left h
  · exact hb h
  · have hslash : '/' ∉ front := fun hmem ↦ by
      rcases List.mem_cons.mp (hfront.subset hmem) with hblank | hmem
      · cases hblank
      · exact ha hmem
    rcases front_cases heq with rfl | rfl | ⟨n, hn, hn', hn''⟩
    · exact hb (heq ▸ hback.isInfix)
    · rw [List.append_nil] at heq
      exact hslash (heq ▸ by decide)
    · -- of the pieces only the blank is without slashes, and a slash follows it
      have hall : ∀ n ∈ List.range' 1 10, '/' ∉ marker.take n → n = 1 := by decide
      obtain rfl := hall n hn (hn' ▸ hslash)
      rw [hn''] at hback
      exact absurd (List.cons_prefix_cons.mp hback).1 (by decide)

theorem indented (h : Unmarked a) (n : Nat) :
    Unmarked (String.ofList (List.replicate n ' ') ++ a) := by
  induction n with
  | zero => simpa using h
  | succ n ih =>
    have htext : String.ofList (List.replicate (n + 1) ' ') ++ a =
        "" ++ " " ++ (String.ofList (List.replicate n ' ') ++ a) :=
      String.toList_inj.mp (by simp [List.replicate_succ])
    rw [htext]
    exact blank (by simp) ih

end Unmarked

/-! ## Cutting lines -/

theorem beforeMarker_of_not_infix (h : ¬marker <:+: cs) : beforeMarker cs = cs := by
  induction cs with
  | nil => rfl
  | cons c rest ih =>
    have hhead : ¬marker <+: c :: rest := fun hmarker ↦ h hmarker.isInfix
    have hrest : ¬marker <:+: rest := fun hmarker ↦
      h (hmarker.trans (List.suffix_cons c rest).isInfix)
    rw [beforeMarker, if_neg (by rwa [List.isPrefixOf_iff_prefix]), ih hrest]

/-- Where a marker begins before another one and runs into it, they share no more than a blank. -/
theorem infix_of_overlap {rest : List Char} (hcs : cs <+: marker)
    (h : marker <+: cs ++ (marker ++ rest)) (hne : cs ≠ []) : marker <:+: cs ++ [' '] := by
  obtain ⟨back, hback⟩ := hcs
  have hshared : back <+: marker := by
    have hrest : cs ++ back <+: cs ++ (marker ++ rest) := by rwa [hback]
    refine List.prefix_of_prefix_length_le ((List.prefix_append_right_inj cs).mp hrest)
      (List.prefix_append marker rest) ?_
    rw [← hback, List.length_append]
    exact Nat.le_add_left _ _
  rcases front_cases hback.symm with rfl | rfl | ⟨n, hn, -, hn'⟩
  · exact absurd rfl hne
  · rw [List.append_nil] at hback
    exact hback ▸ (List.prefix_append _ _).isInfix
  · have hall : ∀ n ∈ List.range' 1 10, marker.drop n <+: marker → marker.drop n = [' '] := by
      decide
    rw [← hback, hn', hall n hn (hn' ▸ hshared)]

/-- The first marker is the one that follows a text without any, where the text does not end with
all of one but its last blank. -/
theorem beforeMarker_append (h : ¬marker <:+: cs ++ [' ']) (rest : List Char) :
    beforeMarker (cs ++ (marker ++ rest)) = cs := by
  induction cs with
  | nil =>
    have hprefix : marker.isPrefixOf (' ' :: (marker.tail ++ rest)) = true :=
      List.isPrefixOf_iff_prefix.mpr (List.prefix_append marker rest)
    exact if_pos hprefix
  | cons c cs ih =>
    have hrest : ¬marker <:+: cs ++ [' '] := fun hmarker ↦
      h (hmarker.trans (List.suffix_cons c _).isInfix)
    have hhead : ¬marker <+: c :: (cs ++ (marker ++ rest)) := by
      intro hmarker
      rw [← List.cons_append] at hmarker
      rcases List.prefix_or_prefix_of_prefix hmarker (List.prefix_append _ _) with hin | hover
      · exact h (hin.isInfix.trans (List.prefix_append _ _).isInfix)
      · exact h (infix_of_overlap hover hmarker (List.cons_ne_nil c cs))
    rw [List.cons_append, beforeMarker, if_neg (by rwa [List.isPrefixOf_iff_prefix]), ih hrest]

/-- The lines of a text without a marker stay as they are. -/
theorem map_beforeMarker_splitOn (cs : List Char) (h : ¬marker <:+: cs) :
    (cs.splitOn '\n').map beforeMarker = cs.splitOn '\n' := by
  by_cases hbreak : '\n' ∈ cs
  · obtain ⟨first, rest, heq⟩ := List.append_of_mem hbreak
    rw [heq] at h
    have hfirst : ¬marker <:+: first := fun hmarker ↦
      h (hmarker.trans (List.prefix_append _ _).isInfix)
    have hrest : ¬marker <:+: rest := fun hmarker ↦
      h (hmarker.trans ((List.suffix_cons _ _).isInfix.trans (List.suffix_append _ _).isInfix))
    rw [heq, List.splitOn_append_cons_self, List.map_append, map_beforeMarker_splitOn first hfirst,
      map_beforeMarker_splitOn rest hrest]
  · rw [List.splitOn_eq_singleton hbreak, List.map_singleton, beforeMarker_of_not_infix h]
termination_by cs.length
decreasing_by all_goals simp only [heq, List.length_append, List.length_cons]; omega

/-- What follows a marker at the end of a text is cut off its last line. No other line is cut. -/
theorem map_beforeMarker_splitOn_append (cs : List Char) (h : ¬marker <:+: cs ++ [' '])
    {comment : List Char} (hcomment : '\n' ∉ comment) :
    ((cs ++ (marker ++ comment)).splitOn '\n').map beforeMarker = cs.splitOn '\n' := by
  by_cases hbreak : '\n' ∈ cs
  · obtain ⟨first, rest, heq⟩ := List.append_of_mem hbreak
    rw [heq, List.append_assoc, List.cons_append] at h
    have hfirst : ¬marker <:+: first := fun hmarker ↦
      h (hmarker.trans (List.prefix_append _ _).isInfix)
    have hrest : ¬marker <:+: rest ++ [' '] := fun hmarker ↦
      h (hmarker.trans ((List.suffix_cons _ _).isInfix.trans (List.suffix_append _ _).isInfix))
    rw [heq, List.append_assoc, List.cons_append, List.splitOn_append_cons_self,
      List.splitOn_append_cons_self, List.map_append, map_beforeMarker_splitOn first hfirst,
      map_beforeMarker_splitOn_append rest hrest hcomment]
  · have hall : '\n' ∉ cs ++ (marker ++ comment) := by
      simp only [List.mem_append, not_or]
      exact ⟨hbreak, by decide, hcomment⟩
    rw [List.splitOn_eq_singleton hbreak, List.splitOn_eq_singleton hall, List.map_singleton,
      beforeMarker_append h]
termination_by cs.length
decreasing_by simp only [heq, List.length_append, List.length_cons]; omega

/-- A line has no marker in its code, and no line break among the names of its effects. -/
structure Line.Clean (l : Line) : Prop where
  unmarked : Unmarked l.code
  names : ∀ e, l.effects = some e → ∀ name ∈ e.reads.names ++ e.writes.names, '\n' ∉ name.toList

theorem newline_notMem_listText {s : VarSet} (h : ∀ name ∈ s.names, '\n' ∉ name.toList) :
    '\n' ∉ s.listText.toList := by
  have hfold (rest : List String) (text : String) (htext : '\n' ∉ text.toList)
      (hrest : ∀ name ∈ rest, '\n' ∉ name.toList) :
      '\n' ∉ (rest.foldl (fun text name ↦ text ++ ", " ++ name) text).toList := by
    induction rest generalizing text with
    | nil => exact htext
    | cons name rest ih =>
      refine ih _ ?_ fun other hother ↦ hrest other (List.mem_cons_of_mem name hother)
      simp only [String.toList_append, List.mem_append, not_or]
      exact ⟨⟨htext, by decide⟩, hrest name List.mem_cons_self⟩
  unfold VarSet.listText
  split
  · decide
  · next first rest hnames =>
    rw [hnames] at h
    exact hfold rest first (h first List.mem_cons_self) fun name hname ↦
      h name (List.mem_cons_of_mem first hname)

theorem Effects.toList_comment (e : Effects) : ∃ rest, e.comment.toList = marker ++ rest ∧
    ((∀ name ∈ e.reads.names ++ e.writes.names, '\n' ∉ name.toList) → '\n' ∉ rest) := by
  refine ⟨(e.reads.listText ++ " writes: " ++ e.writes.listText).toList, ?_, fun h ↦ ?_⟩
  · rw [comment, String.append_assoc, String.append_assoc, String.toList_append,
      ← String.append_assoc]
    rfl
  · have hreads := newline_notMem_listText fun name hname ↦ h name (List.mem_append_left _ hname)
    have hwrites := newline_notMem_listText fun name hname ↦ h name (List.mem_append_right _ hname)
    simp only [String.toList_append, List.mem_append, not_or]
    exact ⟨⟨hreads, by decide⟩, hwrites⟩

theorem Line.Clean.cut {l : Line} (h : l.Clean) :
    (textLines (l.text .effects)).map beforeMarker = textLines (l.text .none) := by
  have hcode : Unmarked (l.text .none) := h.unmarked.indented (2 * l.depth)
  cases heffects : l.effects with
  | none =>
    have htext : l.text .effects = l.text .none := by simp [Line.text, heffects]
    rw [htext]
    exact map_beforeMarker_splitOn _ hcode.not_infix
  | some e =>
    obtain ⟨rest, hcomment, hbreak⟩ := e.toList_comment
    have htext : (l.text .effects).toList = (l.text .none).toList ++ (marker ++ rest) := by
      rw [← hcomment, ← String.toList_append]
      simp [Line.text, heffects]
    rw [textLines, htext]
    exact map_beforeMarker_splitOn_append _ hcode.not_infix_right (hbreak (h.names e heffects))

theorem textLines_listingText (a : Annotations) (lines : List Line) :
    textLines (listingText a lines) = lines.flatMap (fun l ↦ textLines (l.text a)) ++ [[]] := by
  have hchars : (listingText a lines).toList =
      lines.flatMap fun l ↦ (l.text a).toList ++ ['\n'] := by
    simp [listingText, String.toList_join, List.flatMap_map]
  rw [textLines, hchars]
  clear hchars
  induction lines with
  | nil => rfl
  | cons l rest ih =>
    rw [List.flatMap_cons, List.append_assoc, List.singleton_append,
      List.splitOn_append_cons_self, ih, List.flatMap_cons, List.append_assoc]
    rfl

/-- In a listing of clean lines, what stands before the markers is the listing without effects. -/
theorem cut_listingText {lines : List Line} (h : ∀ l ∈ lines, l.Clean) :
    (textLines (listingText .effects lines)).map beforeMarker =
      textLines (listingText .none lines) := by
  rw [textLines_listingText, textLines_listingText, List.map_append, List.map_flatMap]
  congr 1
  exact List.flatMap_congr fun l hl ↦ (h l hl).cut

end ShaderGraph
