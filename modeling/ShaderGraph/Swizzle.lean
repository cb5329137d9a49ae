import ShaderGraph.BuildError

/-!
# Swizzles

A swizzle selects one to four components of a vector, in any order and with
repetitions. Masks spell it with `xyzw` or `rgba`, or a mixture of them; the
written form has a point and `xyzw`.
-/

namespace ShaderGraph

inductive Selector where
  | x
  | y
  | z
  | w
  deriving DecidableEq, Repr

namespace Selector

def index : Selector → Nat
  | x => 0
  | y => 1
  | z => 2
  | w => 3

def letter : Selector → Char
  | x => 'x'
  | y => 'y'
  | z => 'z'
  | w => 'w'

/-- The selector of a letter of either alphabet. -/
def ofLetter? : Char → Option Selector
  | 'x' | 'r' => some x
  | 'y' | 'g' => some y
  | 'z' | 'b' => some z
  | 'w' | 'a' => some w
  | _ => none

end Selector

inductive Swizzle where
  | one (a : Selector)
  | two (a b : Selector)
  | three (a b c : Selector)
  | four (a b c d : Selector)
  deriving DecidableEq, Repr

namespace Swizzle

def selectors : Swizzle → List Selector
  | one a => [a]
  | two a b => [a, b]
  | three a b c => [a, b, c]
  | four a b c d => [a, b, c, d]

def dim : Swizzle → Dim
  | one .. => .one
  | two .. => .two
  | three .. => .three
  | four .. => .four

def ofSelectors? : List Selector → Option Swizzle
  | [a] => some (one a)
  | [a, b] => some (two a b)
  | [a, b, c] => some (three a b c)
  | [a, b, c, d] => some (four a b c d)
  | _ => none

/-- Whether no component is selected twice, so that the selection can be assigned to. -/
def assignable (s : Swizzle) : Bool := decide s.selectors.Nodup

def text (s : Swizzle) : String := String.ofList ('.' :: s.selectors.map Selector.letter)

/-- Reads the letters of a mask; the first one that is no selector is at fault. -/
def readLetters (mask : String) : List Char → Except BuildError (List Selector)
  | [] => .ok []
  | c :: rest =>
    match Selector.ofLetter? c with
    | none =>
      .error (.typeMismatch "swizzle" ("component `" ++ c.toString ++ "`") "one of xyzw or rgba"
        mask)
    | some s =>
      match readLetters mask rest with
      | .ok ss => .ok (s :: ss)
      | .error e => .error e

/-- Reads a mask. A bad letter is reported before a bad length. -/
def ofMask (mask : String) : Except BuildError Swizzle :=
  match readLetters mask mask.toList with
  | .error e => .error e
  | .ok selectors =>
    match ofSelectors? selectors with
    | some s => .ok s
    | none => .error (.indexOutOfRange ("swizzle ." ++ mask) selectors.length 4)

/-- The type of a swizzle of a source. The source is a vector with at least as many components
as are selected, and has every selected one. -/
def resultType (s : Swizzle) (source : ValueType) : Except BuildError ValueType :=
  match source with
  | ⟨.vector kind dim, none⟩ =>
    if dim = .one then .error (.typeMismatch "swizzle" "source" "vector" source.text)
    else if dim.count < s.dim.count then
      .error (.indexOutOfRange ("swizzle " ++ s.text) s.dim.count dim.count)
    else
      match s.selectors.find? (fun c ↦ decide (dim.count ≤ c.index)) with
      | some c => .error (.indexOutOfRange ("swizzle " ++ s.text) c.index dim.count)
      | none => .ok (.vector kind s.dim)
  | _ => .error (.typeMismatch "swizzle" "source" "vector" source.text)

@[simp] theorem length_selectors (s : Swizzle) : s.selectors.length = s.dim.count := by
  cases s <;> rfl

@[simp] theorem ofSelectors?_selectors (s : Swizzle) : ofSelectors? s.selectors = some s := by
  cases s <;> rfl

end Swizzle

end ShaderGraph
