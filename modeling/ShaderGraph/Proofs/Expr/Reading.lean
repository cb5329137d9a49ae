import Mathlib.Data.List.Basic
import ShaderGraph.Operator

/-!
# Reading expressions

The text of an expression is read back as a tree of words. Operations are in
brackets, and what follows an operand is told from its first character, so that
reading never has to look ahead. A tree of legible words is what its own text
is read as: no other tree has this text.
-/

namespace ShaderGraph

def isLetter (c : Char) : Bool := c.isAlpha || c == '_' || decide (127 < c.toNat)

def isNameChar (c : Char) : Bool := isLetter c || c.isDigit

def isNumberChar (c : Char) : Bool := isNameChar c || c == '.' || c == '-'

theorem isLetter_of_isDigit {c : Char} (hc : c.isDigit = true) : isLetter c = false := by
  have hrange : 48 ≤ c.toNat ∧ c.toNat ≤ 57 := by
    simpa [Char.isDigit, UInt32.le_iff_toNat_le] using hc
  have hupper : c.isUpper = false := by
    apply decide_eq_false
    rintro ⟨h, -⟩
    have h : 65 ≤ c.toNat := UInt32.le_iff_toNat_le.mp h
    omega
  have hlower : c.isLower = false := by
    rw [← Bool.not_eq_true]
    intro h
    have h : 97 ≤ c.toNat :=
      UInt32.le_iff_toNat_le.mp (of_decide_eq_true (Bool.and_eq_true_iff.mp h).1)
    omega
  have halpha : c.isAlpha = false := Bool.or_eq_false_iff.mpr ⟨hupper, hlower⟩
  have hunderscore : c ≠ '_' := by
    rintro rfl
    exact absurd hc (by decide)
  have hascii : ¬127 < c.toNat := by omega
  simp [isLetter, halpha, hunderscore, hascii]

/-- A character before which an expression ends. -/
def isStop (c : Char) : Bool := c == ' ' || c == ')' || c == ',' || c == ']'

/-- The next character, if there is one, satisfies a condition. -/
def Next (p : Char → Prop) (cs : List Char) : Prop := ∀ c ∈ cs.head?, p c

theorem Next.mono {p q : Char → Prop} {cs : List Char} (h : Next p cs) (hpq : ∀ c, p c → q c) :
    Next q cs :=
  fun c hc ↦ hpq c (h c hc)

theorem next_cons {p : Char → Prop} {c : Char} (cs : List Char) (h : p c) : Next p (c :: cs) := by
  intro d hd
  obtain rfl := Option.some.inj hd
  exact h

/-- A run of characters of a class ends before the next one that is not in it. -/
theorem takeWhile_append {p : Char → Bool} {w rest : List Char} (hw : ∀ c ∈ w, p c = true)
    (hrest : Next (p · = false) rest) : (w ++ rest).takeWhile p = w := by
  rw [List.takeWhile_append_of_pos hw]
  cases rest with
  | nil => simp
  | cons c rest => simp [hrest c rfl]

theorem dropWhile_append {p : Char → Bool} {w rest : List Char} (hw : ∀ c ∈ w, p c = true)
    (hrest : Next (p · = false) rest) : (w ++ rest).dropWhile p = rest := by
  rw [List.dropWhile_append_of_pos hw]
  cases rest with
  | nil => rfl
  | cons c rest => simp [hrest c rfl]

/-- What the text of an expression shows. -/
inductive Shape where
  | word (w : List Char)
  | unary (op : UnaryOp) (a : Shape)
  | binary (op : BinaryOp) (a b : Shape)
  | call (name : List Char) (args : List Shape)
  | swizzle (source : Shape) (mask : List Char)
  | lookup (object index : Shape)

/-- A name starts with a letter and goes on with letters and digits. -/
def IsName (w : List Char) : Prop :=
  ∃ c cs, w = c :: cs ∧ isLetter c = true ∧ ∀ d ∈ cs, isNameChar d = true

instance : DecidablePred IsName
  | [] => .isFalse fun ⟨_, _, h, _⟩ ↦ by cases h
  | c :: cs => decidable_of_iff (isLetter c = true ∧ cs.all isNameChar = true)
      ⟨fun h ↦ ⟨c, cs, rfl, h.1, List.all_eq_true.mp h.2⟩,
        fun ⟨_, _, h, h', hall⟩ ↦ by cases h; exact ⟨h', List.all_eq_true.mpr hall⟩⟩

/-- A number starts with a sign, a digit or a point. -/
def IsNumber (w : List Char) : Prop :=
  ∃ c cs, w = c :: cs ∧ isLetter c = false ∧ ∀ d ∈ c :: cs, isNumberChar d = true

namespace Shape

mutual

def chars : Shape → List Char
  | word w => w
  | unary op a => op.symbol.toList ++ '(' :: (a.chars ++ [')'])
  | binary op a b =>
    '(' :: (a.chars ++ ' ' :: (op.symbol.toList ++ ' ' :: (b.chars ++ [')'])))
  | call name args => name ++ '(' :: (charsOfList args ++ [')'])
  | swizzle source mask => source.chars ++ '.' :: mask
  | lookup object index => object.chars ++ '[' :: (index.chars ++ [']'])

def charsOfList : List Shape → List Char
  | [] => []
  | [a] => a.chars
  | a :: rest => a.chars ++ ',' :: ' ' :: charsOfList rest

end

/-- Whether selections and lookups can follow: numbers would swallow them. -/
def opens : Shape → Bool
  | word [] => false
  | word (c :: _) => isLetter c
  | unary .. | binary .. | call .. | swizzle .. | lookup .. => true

/-- All words can be told from what is around them. -/
inductive Legible : Shape → Prop
  | name {w : List Char} (hw : IsName w) : Legible (word w)
  | number {w : List Char} (hw : IsNumber w) : Legible (word w)
  | unary {op : UnaryOp} {a : Shape} (ha : Legible a) : Legible (unary op a)
  | binary {op : BinaryOp} {a b : Shape} (ha : Legible a) (hb : Legible b) :
      Legible (binary op a b)
  | call {name : List Char} {args : List Shape} (hname : IsName name)
      (hargs : ∀ a ∈ args, Legible a) : Legible (call name args)
  | swizzle {source : Shape} {mask : List Char} (hs : Legible source) (hopens : source.opens = true)
      (hmask : ∀ c ∈ mask, isNameChar c = true) : Legible (swizzle source mask)
  | lookup {object index : Shape} (ho : Legible object) (hopens : object.opens = true)
      (hi : Legible index) : Legible (lookup object index)

/-! ## The reader -/

def skip (c : Char) : List Char → Option (List Char)
  | d :: rest => if d = c then some rest else none
  | [] => none

mutual

/-- Reads an expression from the front, as far as it goes. Calls may be nested `n` deep. -/
def read (n : Nat) (cs : List Char) : Option (Shape × List Char) :=
  match n, cs with
  | 0, _ => none
  | n + 1, '(' :: rest => do
    let (a, rest) ← read n rest
    let rest ← skip ' ' rest
    let op ← BinaryOp.ofSymbol? (String.ofList (rest.takeWhile (· != ' ')))
    let rest ← skip ' ' (rest.dropWhile (· != ' '))
    let (b, rest) ← read n rest
    let rest ← skip ')' rest
    readAfter n (.binary op a b) rest
  | n + 1, '-' :: '(' :: rest => do
    let (a, rest) ← read n rest
    let rest ← skip ')' rest
    readAfter n (.unary .neg a) rest
  | n + 1, '!' :: '(' :: rest => do
    let (a, rest) ← read n rest
    let rest ← skip ')' rest
    readAfter n (.unary .not a) rest
  | _ + 1, [] => none
  | n + 1, c :: cs =>
    if isLetter c then
      readNamed n ((c :: cs).takeWhile isNameChar) ((c :: cs).dropWhile isNameChar)
    else some (.word ((c :: cs).takeWhile isNumberChar), (c :: cs).dropWhile isNumberChar)

/-- Reads on after a name, which is that of a function if a bracket follows. -/
def readNamed (n : Nat) (name cs : List Char) : Option (Shape × List Char) :=
  match n, cs with
  | 0, _ => none
  | n + 1, '(' :: rest => do
    let (args, rest) ← readArgs n rest
    readAfter n (.call name args) rest
  | n + 1, cs => readAfter n (.word name) cs

/-- Reads selections and lookups after what was read already. -/
def readAfter (n : Nat) (s : Shape) (cs : List Char) : Option (Shape × List Char) :=
  match n, cs with
  | 0, _ => none
  | n + 1, '.' :: rest =>
    readAfter n (.swizzle s (rest.takeWhile isNameChar)) (rest.dropWhile isNameChar)
  | n + 1, '[' :: rest => do
    let (i, rest) ← read n rest
    let rest ← skip ']' rest
    readAfter n (.lookup s i) rest
  | _ + 1, cs => some (s, cs)

/-- Reads arguments up to the closing bracket. -/
def readArgs (n : Nat) (cs : List Char) : Option (List Shape × List Char) :=
  match n, cs with
  | 0, _ => none
  | _ + 1, ')' :: rest => some ([], rest)
  | n + 1, cs => readMore n cs

def readMore (n : Nat) (cs : List Char) : Option (List Shape × List Char) :=
  match n with
  | 0 => none
  | n + 1 => do
    let (a, rest) ← read n cs
    match rest with
    | ')' :: rest => return ([a], rest)
    | ',' :: ' ' :: rest =>
      let (as, rest) ← readMore n rest
      return (a :: as, rest)
    | _ => none

end

/-- What may follow a part that selections and lookups can follow. -/
def Follows (rest : List Char) : Prop := Next (fun c ↦ isNameChar c = false ∧ c ≠ '(') rest

def Stops (rest : List Char) : Prop := Next (isStop · = true) rest

theorem stop_cases {c : Char} (h : isStop c = true) : c = ' ' ∨ c = ')' ∨ c = ',' ∨ c = ']' := by
  simpa [isStop, or_assoc] using h

theorem Stops.follows {rest : List Char} (h : Stops rest) : Follows rest := by
  refine Next.mono h fun c hc ↦ ?_
  rcases stop_cases hc with rfl | rfl | rfl | rfl <;> decide

theorem Stops.readAfter {rest : List Char} (h : Stops rest) (n : Nat) (s : Shape) :
    readAfter (n + 1) s rest = some (s, rest) := by
  cases rest with
  | nil => rw [Shape.readAfter] <;> nofun
  | cons c rest =>
    rcases stop_cases (h c rfl) with rfl | rfl | rfl | rfl
    all_goals rw [Shape.readAfter] <;> nofun

theorem skip_cons (c : Char) (rest : List Char) : skip c (c :: rest) = some rest := if_pos rfl

/-- If calls may be nested deep enough, a shape is read, and reading goes on after it as deep as
wanted. -/
def Reads (s : Shape) : Prop :=
  (∃ k, ∀ n, k ≤ n → ∀ rest, Stops rest → read n (s.chars ++ rest) = some (s, rest)) ∧
    (s.opens = true → ∀ depth, ∃ k, ∀ n, k ≤ n → ∀ rest, Follows rest →
      ∃ m, depth ≤ m ∧ read n (s.chars ++ rest) = readAfter m s rest)

/-- What is read up to where it may be followed is read up to where it ends. -/
theorem Reads.of_opens {s : Shape}
    (h : ∀ depth, ∃ k, ∀ n, k ≤ n → ∀ rest, Follows rest →
      ∃ m, depth ≤ m ∧ read n (s.chars ++ rest) = readAfter m s rest) : s.Reads := by
  refine ⟨?_, fun _ ↦ h⟩
  obtain ⟨k, hk⟩ := h 1
  refine ⟨k, fun n hn rest hrest ↦ ?_⟩
  obtain ⟨m, hm, hread⟩ := hk n hn rest hrest.follows
  obtain ⟨m, rfl⟩ := Nat.exists_eq_add_of_le' hm
  rw [hread, hrest.readAfter]

theorem stops_cons {c : Char} (rest : List Char) (h : isStop c = true) : Stops (c :: rest) :=
  next_cons rest h

theorem read_of_letter {c : Char} (n : Nat) (cs : List Char) (hc : isLetter c = true) :
    read (n + 1) (c :: cs) =
      readNamed n ((c :: cs).takeWhile isNameChar) ((c :: cs).dropWhile isNameChar) := by
  have hne {d : Char} (hd : isLetter d = false) : c ≠ d := by
    rintro rfl
    simp [hc] at hd
  rw [read, if_pos hc]
  · exact hne (by decide)
  · exact fun rest h ↦ (hne (by decide) h).elim
  · exact fun rest h ↦ (hne (by decide) h).elim

theorem read_of_name {w rest : List Char} (n : Nat) (hw : IsName w)
    (hrest : Next (isNameChar · = false) rest) : read (n + 1) (w ++ rest) = readNamed n w rest := by
  obtain ⟨c, cs, rfl, hc, hcs⟩ := hw
  have hall : ∀ d ∈ c :: cs, isNameChar d = true :=
    List.forall_mem_cons.mpr ⟨by simp [isNameChar, hc], hcs⟩
  have hname := takeWhile_append hall hrest
  have hafter := dropWhile_append hall hrest
  rw [List.cons_append] at hname hafter ⊢
  rw [read_of_letter n _ hc, hname, hafter]

theorem read_name {w rest : List Char} (n : Nat) (hw : IsName w) (hrest : Follows rest) :
    read (n + 2) (w ++ rest) = readAfter n (.word w) rest := by
  rw [read_of_name (n + 1) hw (hrest.mono fun _ h ↦ h.1), readNamed]
  rintro rest' rfl
  exact (hrest '(' rfl).2 rfl

theorem read_number {w rest : List Char} (n : Nat) (hw : IsNumber w) (hrest : Stops rest) :
    read (n + 1) (w ++ rest) = some (.word w, rest) := by
  obtain ⟨c, cs, rfl, hc, hcs⟩ := hw
  have hstop {d : Char} (hd : isStop d = true) : isNumberChar d = false ∧ d ≠ '(' := by
    rcases stop_cases hd with rfl | rfl | rfl | rfl <;> decide
  have hnumber := takeWhile_append hcs (hrest.mono fun _ h ↦ (hstop h).1)
  have hafter := dropWhile_append hcs (hrest.mono fun _ h ↦ (hstop h).1)
  have hbracket (rest' : List Char) : cs ++ rest ≠ '(' :: rest' := by
    intro h
    cases cs with
    | nil => exact (hstop (hrest '(' (by rw [← List.nil_append rest, h]; rfl))).2 rfl
    | cons d cs =>
      obtain rfl := (List.cons.inj h).1
      exact absurd (hcs '(' (by simp)) (by decide)
  rw [List.cons_append] at hnumber hafter ⊢
  rw [read, if_neg (by simp [hc]), hnumber, hafter]
  · rintro rfl
    exact absurd (hcs '(' (by simp)) (by decide)
  · exact fun rest' _ h ↦ hbracket rest' h
  · exact fun rest' _ h ↦ hbracket rest' h

/-! ## Shapes are read back -/

theorem reads_name {w : List Char} (hw : IsName w) : (word w).Reads := by
  apply Reads.of_opens
  intro depth
  refine ⟨depth + 2, fun n hn rest hrest ↦ ?_⟩
  obtain ⟨m, rfl⟩ := Nat.exists_eq_add_of_le' hn
  exact ⟨m + depth, by omega, read_name _ hw hrest⟩

theorem reads_unary {op : UnaryOp} {a : Shape} (ha : a.Reads) : (unary op a).Reads := by
  obtain ⟨k, hk⟩ := ha.1
  apply Reads.of_opens
  intro depth
  refine ⟨k + depth + 1, fun n hn rest _ ↦ ?_⟩
  obtain ⟨m, rfl⟩ := Nat.exists_eq_add_of_le' (show 1 ≤ n by omega)
  refine ⟨m, by omega, ?_⟩
  have harg := hk m (by omega) (')' :: rest) (stops_cons rest rfl)
  have hchars : (unary op a).chars ++ rest =
      op.symbol.toList ++ '(' :: (a.chars ++ ')' :: rest) := by
    simp [chars]
  rw [hchars]
  cases op with
  | neg =>
    show read (m + 1) ('-' :: '(' :: (a.chars ++ ')' :: rest)) = _
    rw [read, harg]
    simp [skip_cons]
  | not =>
    show read (m + 1) ('!' :: '(' :: (a.chars ++ ')' :: rest)) = _
    rw [read, harg]
    simp [skip_cons]

theorem reads_binary {op : BinaryOp} {a b : Shape} (ha : a.Reads) (hb : b.Reads) :
    (binary op a b).Reads := by
  obtain ⟨ka, hka⟩ := ha.1
  obtain ⟨kb, hkb⟩ := hb.1
  apply Reads.of_opens
  intro depth
  refine ⟨ka + kb + depth + 1, fun n hn rest _ ↦ ?_⟩
  obtain ⟨m, rfl⟩ := Nat.exists_eq_add_of_le' (show 1 ≤ n by omega)
  refine ⟨m, by omega, ?_⟩
  have hchars : (binary op a b).chars ++ rest =
      '(' :: (a.chars ++ ' ' :: (op.symbol.toList ++ ' ' :: (b.chars ++ ')' :: rest))) := by
    simp [chars]
  have hleft := hka m (by omega) (' ' :: (op.symbol.toList ++ ' ' :: (b.chars ++ ')' :: rest)))
    (stops_cons _ rfl)
  have hright := hkb m (by omega) (')' :: rest) (stops_cons rest rfl)
  have hsymbol : ∀ c ∈ op.symbol.toList, (c != ' ') = true :=
    List.all_eq_true.mp (by cases op <;> decide)
  have hspace : Next ((· != ' ') · = false) (' ' :: (b.chars ++ ')' :: rest)) := next_cons _ rfl
  have hop : BinaryOp.ofSymbol? (String.ofList op.symbol.toList) = some op := by
    cases op <;> decide
  rw [hchars, read, hleft]
  simp only [Option.bind_eq_bind, Option.bind_some, skip_cons, takeWhile_append hsymbol hspace,
    dropWhile_append hsymbol hspace, hop, hright]

theorem opens_of_name {w : List Char} (hw : IsName w) : (word w).opens = true := by
  obtain ⟨c, cs, rfl, hc, -⟩ := hw
  exact hc

theorem reads_number {w : List Char} (hw : IsNumber w) : (word w).Reads := by
  constructor
  · refine ⟨1, fun n hn rest hrest ↦ ?_⟩
    obtain ⟨m, rfl⟩ := Nat.exists_eq_add_of_le' hn
    exact read_number m hw hrest
  · intro hopens
    obtain ⟨c, cs, rfl, hc, -⟩ := hw
    rw [opens, hc] at hopens
    cases hopens

theorem reads_swizzle {source : Shape} {mask : List Char} (hs : source.Reads)
    (hopens : source.opens = true) (hmask : ∀ c ∈ mask, isNameChar c = true) :
    (swizzle source mask).Reads := by
  apply Reads.of_opens
  intro depth
  obtain ⟨k, hk⟩ := hs.2 hopens (depth + 1)
  refine ⟨k, fun n hn rest hrest ↦ ?_⟩
  have hchars : (swizzle source mask).chars ++ rest = source.chars ++ '.' :: (mask ++ rest) := by
    simp [chars]
  have hpoint : Follows ('.' :: (mask ++ rest)) := next_cons _ (by decide)
  have hend := hrest.mono fun _ h ↦ h.1
  obtain ⟨m, hm, hread⟩ := hk n hn _ hpoint
  obtain ⟨m, rfl⟩ := Nat.exists_eq_add_of_le' (show 1 ≤ m by omega)
  refine ⟨m, by omega, ?_⟩
  rw [hchars, hread, readAfter, takeWhile_append hmask hend, dropWhile_append hmask hend]

theorem reads_lookup {object index : Shape} (ho : object.Reads) (hopens : object.opens = true)
    (hi : index.Reads) : (lookup object index).Reads := by
  obtain ⟨ki, hki⟩ := hi.1
  apply Reads.of_opens
  intro depth
  obtain ⟨k, hk⟩ := ho.2 hopens (ki + depth + 1)
  refine ⟨k, fun n hn rest hrest ↦ ?_⟩
  have hchars : (lookup object index).chars ++ rest =
      object.chars ++ '[' :: (index.chars ++ ']' :: rest) := by
    simp [chars]
  have hbracket : Follows ('[' :: (index.chars ++ ']' :: rest)) := next_cons _ (by decide)
  obtain ⟨m, hm, hread⟩ := hk n hn _ hbracket
  obtain ⟨m, rfl⟩ := Nat.exists_eq_add_of_le' (show 1 ≤ m by omega)
  refine ⟨m, by omega, ?_⟩
  rw [hchars, hread, readAfter, hki m (by omega) _ (stops_cons rest rfl)]
  simp [skip_cons]

theorem readMore_chars {args : List Shape} (hargs : ∀ a ∈ args, a.Reads) (hne : args ≠ []) :
    ∃ k, ∀ n, k ≤ n → ∀ rest, readMore n (charsOfList args ++ ')' :: rest) = some (args, rest) := by
  induction args with
  | nil => exact absurd rfl hne
  | cons a args ih =>
    rw [List.forall_mem_cons] at hargs
    obtain ⟨ka, hka⟩ := hargs.1.1
    cases args with
    | nil =>
      refine ⟨ka + 1, fun n hn rest ↦ ?_⟩
      obtain ⟨m, rfl⟩ := Nat.exists_eq_add_of_le' (show 1 ≤ n by omega)
      rw [charsOfList, readMore, hka m (by omega) _ (stops_cons rest rfl)]
      rfl
    | cons b args =>
      obtain ⟨k, hk⟩ := ih hargs.2 (List.cons_ne_nil b args)
      refine ⟨ka + k + 1, fun n hn rest ↦ ?_⟩
      obtain ⟨m, rfl⟩ := Nat.exists_eq_add_of_le' (show 1 ≤ n by omega)
      have hchars : charsOfList (a :: b :: args) ++ ')' :: rest =
          a.chars ++ ',' :: ' ' :: (charsOfList (b :: args) ++ ')' :: rest) := by
        simp [charsOfList]
      rw [hchars, readMore, hka m (by omega) _ (stops_cons _ rfl)]
      simp only [Option.bind_eq_bind, Option.bind_some, hk m (by omega) rest]
      rfl

/-- No expression starts with a character that ends one. -/
theorem Legible.chars_eq_cons {s : Shape} (h : s.Legible) :
    ∃ c cs, s.chars = c :: cs ∧ c ≠ ')' := by
  have happend {cs : List Char} (h : ∃ c cs', cs = c :: cs' ∧ c ≠ ')') (rest : List Char) :
      ∃ c cs', cs ++ rest = c :: cs' ∧ c ≠ ')' := by
    obtain ⟨c, cs', rfl, hc⟩ := h
    exact ⟨c, cs' ++ rest, rfl, hc⟩
  have hname {w : List Char} (hw : IsName w) : ∃ c cs, w = c :: cs ∧ c ≠ ')' := by
    obtain ⟨c, cs, rfl, hc, -⟩ := hw
    exact ⟨c, cs, rfl, fun h ↦ absurd (h ▸ hc) (by decide)⟩
  induction h with
  | name hw => exact hname hw
  | number hw =>
    obtain ⟨c, cs, rfl, -, hcs⟩ := hw
    exact ⟨c, cs, rfl, fun h ↦ absurd (h ▸ hcs c List.mem_cons_self) (by decide)⟩
  | @unary op a _ _ => exact happend (by cases op <;> exact ⟨_, _, rfl, by decide⟩) _
  | binary _ _ _ _ => exact ⟨_, _, rfl, by decide⟩
  | call hw _ _ => exact happend (hname hw) _
  | swizzle _ _ _ ih | lookup _ _ _ ih _ => exact happend ih _

theorem readArgs_chars {args : List Shape} (hlegible : ∀ a ∈ args, a.Legible)
    (hargs : ∀ a ∈ args, a.Reads) :
    ∃ k, ∀ n, k ≤ n → ∀ rest, readArgs n (charsOfList args ++ ')' :: rest) = some (args, rest) := by
  cases args with
  | nil =>
    refine ⟨1, fun n hn rest ↦ ?_⟩
    obtain ⟨m, rfl⟩ := Nat.exists_eq_add_of_le' hn
    rw [charsOfList, List.nil_append, readArgs]
  | cons a args =>
    obtain ⟨k, hk⟩ := readMore_chars hargs (List.cons_ne_nil a args)
    refine ⟨k + 1, fun n hn rest ↦ ?_⟩
    obtain ⟨m, rfl⟩ := Nat.exists_eq_add_of_le' (show 1 ≤ n by omega)
    rw [readArgs, hk m (by omega)]
    obtain ⟨c, cs, hfirst, hc⟩ := (hlegible a List.mem_cons_self).chars_eq_cons
    intro rest' h
    cases args <;> simp only [charsOfList, hfirst, List.cons_append, List.cons.injEq] at h <;>
      exact hc h.1

theorem reads_call {name : List Char} {args : List Shape} (hname : IsName name)
    (hlegible : ∀ a ∈ args, a.Legible) (hargs : ∀ a ∈ args, a.Reads) :
    (call name args).Reads := by
  obtain ⟨k, hk⟩ := readArgs_chars hlegible hargs
  apply Reads.of_opens
  intro depth
  refine ⟨k + depth + 2, fun n hn rest _ ↦ ?_⟩
  obtain ⟨m, rfl⟩ := Nat.exists_eq_add_of_le' (show 2 ≤ n by omega)
  refine ⟨m, by omega, ?_⟩
  have hchars : (call name args).chars ++ rest =
      name ++ '(' :: (charsOfList args ++ ')' :: rest) := by
    simp [chars]
  rw [hchars, read_of_name (m + 1) hname (next_cons _ (by decide)), readNamed,
    hk m (by omega)]
  rfl

/-- A legible shape is what its text is read as. -/
theorem Legible.reads {s : Shape} (h : s.Legible) : s.Reads := by
  induction h with
  | name hw => exact reads_name hw
  | number hw => exact reads_number hw
  | unary _ ih => exact reads_unary ih
  | binary _ _ iha ihb => exact reads_binary iha ihb
  | call hname hargs ih => exact reads_call hname hargs ih
  | swizzle _ hopens hmask ih => exact reads_swizzle ih hopens hmask
  | lookup _ hopens _ iho ihi => exact reads_lookup iho hopens ihi

/-- Legible shapes with one text are one shape. -/
theorem Legible.eq_of_chars {s t : Shape} (hs : s.Legible) (ht : t.Legible)
    (h : s.chars = t.chars) : s = t := by
  have hnil : Stops [] := fun c hc ↦ by cases hc
  obtain ⟨ks, hks⟩ := hs.reads.1
  obtain ⟨kt, hkt⟩ := ht.reads.1
  have hread := hks (ks + kt) (by omega) [] hnil
  rw [h, hkt (ks + kt) (by omega) [] hnil] at hread
  exact (Prod.mk.inj (Option.some.inj hread)).1.symm

end Shape

end ShaderGraph
