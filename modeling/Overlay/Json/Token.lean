import Overlay.Json.Basic
import Overlay.Json.Text

/-!
The tokens of a JSON text. White space separates tokens and carries no meaning.
-/

namespace Overlay.Json

inductive Token
  | openArray
  | closeArray
  | openObject
  | closeObject
  | comma
  | colon
  | null
  | bool (b : Bool)
  | number (text : List Char)
  | string (text : List Char)

namespace Token

def isBlank (c : Char) : Bool :=
  c == ' ' || c == '\t' || c == '\n' || c == '\r'

/-- Characters that a number may consist of. -/
def isNumeric (c : Char) : Bool :=
  c.isDigit || c == '+' || c == '-' || c == '.' || c == 'e' || c == 'E'

/-! ## Numbers -/

/-- Nothing, or `e` with an optional sign and digits. -/
def isExponent : List Char → Bool
  | [] => true
  | e :: rest =>
    (e == 'e' || e == 'E') &&
      let digits := match rest with
        | '+' :: ds => ds
        | '-' :: ds => ds
        | ds => ds
      !digits.isEmpty && digits.all Char.isDigit

/-- Nothing, or a point with digits, then an exponent. -/
def isFraction : List Char → Bool
  | '.' :: rest =>
    !(rest.takeWhile Char.isDigit).isEmpty && isExponent (rest.dropWhile Char.isDigit)
  | rest => isExponent rest

/-- Digits without a leading zero, then a fraction. -/
def isUnsigned : List Char → Bool
  | '0' :: rest => isFraction rest
  | c :: rest => c.isDigit && isFraction (rest.dropWhile Char.isDigit)
  | [] => false

/-- The texts that stand for a number. -/
def isNumber : List Char → Bool
  | '-' :: rest => isUnsigned rest
  | cs => isUnsigned cs

/-! ## Strings -/

/-- Splits behind the quote that ends a string; `done` (last first) has been read before. -/
def quotedOnto (done : List Char) : List Char → Option (List Char × List Char)
  | [] => none
  | '"' :: rest => some (done.reverse, rest)
  | '\\' :: c :: rest => quotedOnto (c :: '\\' :: done) rest
  | c :: rest => quotedOnto (c :: done) rest

theorem length_of_quotedOnto {done cs text rest : List Char}
    (h : quotedOnto done cs = some (text, rest)) : rest.length < cs.length := by
  fun_induction quotedOnto done cs with
  | case1 => simp at h
  | case2 done tail => simp_all
  | case3 done c tail ih => have := ih h; simp only [List.length_cons]; omega
  | case4 done c tail _ _ ih => have := ih h; simp only [List.length_cons]; omega

/-! ## All tokens -/

/-- The token at the front of a text that starts with no blank, and what follows it. -/
def next? : List Char → Option (Token × List Char)
  | '[' :: rest => some (.openArray, rest)
  | ']' :: rest => some (.closeArray, rest)
  | '\x7b' :: rest => some (.openObject, rest)
  | '\x7d' :: rest => some (.closeObject, rest)
  | ',' :: rest => some (.comma, rest)
  | ':' :: rest => some (.colon, rest)
  | '"' :: rest =>
    match quotedOnto [] rest with
    | some (text, rest) => if (Text.pieces? text).isSome then some (.string text, rest) else none
    | none => none
  | 'n' :: 'u' :: 'l' :: 'l' :: rest => some (.null, rest)
  | 't' :: 'r' :: 'u' :: 'e' :: rest => some (.bool true, rest)
  | 'f' :: 'a' :: 'l' :: 's' :: 'e' :: rest => some (.bool false, rest)
  | c :: rest =>
    let text := c :: rest.takeWhile isNumeric
    if isNumber text then some (.number text, rest.dropWhile isNumeric) else none
  | [] => none

theorem length_of_next? {cs rest : List Char} {t : Token} (h : next? cs = some (t, rest)) :
    rest.length < cs.length := by
  unfold next? at h
  split at h
  case h_7 tail =>
    split at h
    · rename_i hq
      have := length_of_quotedOnto hq
      split at h <;> simp at h
      obtain ⟨_, rfl⟩ := h
      simp only [List.length_cons]; omega
    · simp at h
  case h_11 c tail _ _ _ _ _ _ _ _ _ _ =>
    dsimp only at h
    split at h <;> simp at h
    obtain ⟨_, rfl⟩ := h
    have := (List.dropWhile_suffix isNumeric (l := tail)).length_le
    simp only [List.length_cons]; omega
  all_goals simp at h
  all_goals obtain ⟨_, rfl⟩ := h; simp only [List.length_cons]; omega

/-- The tokens of a text, in front of which `done` (last first) have been read. -/
def scanOnto (done : List Token) (cs : List Char) : Option (List Token) :=
  match cs with
  | [] => some done.reverse
  | c :: tail =>
    if isBlank c then scanOnto done tail
    else
      match _h : next? (c :: tail) with
      | some (t, rest) => scanOnto (t :: done) rest
      | none => none
termination_by cs.length
decreasing_by
  · simp
  · exact length_of_next? _h

/-- The tokens of a text. -/
def scan? (cs : List Char) : Option (List Token) :=
  scanOnto [] cs

end Token

end Overlay.Json
