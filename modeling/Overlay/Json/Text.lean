import Overlay.Text.Hex

/-!
The text of JSON strings. `encode` escapes only what has to be escaped; `decode?` reads every
escape, joins pairs of surrogates and refuses surrogates that stand alone. `pieces?` is the purely
lexical part of reading and says which texts may stand between quotes at all.
-/

namespace Overlay.Json.Text

/-- One element of a string's text: a character or a 16-bit code unit given by number. -/
inductive Piece
  | char (c : Char)
  | unit (n : Nat)

/-- The character that a backslash and `c` stand for. -/
def short? : Char → Option Char
  | '"' => some '"'
  | '\\' => some '\\'
  | '/' => some '/'
  | 'b' => some '\x08'
  | 'f' => some '\x0c'
  | 'n' => some '\n'
  | 'r' => some '\r'
  | 't' => some '\t'
  | _ => none

/-- The pieces of a text, in front of which `done` (last first) have been read. -/
def piecesOnto (done : List Piece) : List Char → Option (List Piece)
  | [] => some done.reverse
  | '\\' :: 'u' :: a :: b :: c :: d :: rest =>
    match Hex.value? [a, b, c, d] with
    | some n => piecesOnto (.unit n :: done) rest
    | none => none
  | '\\' :: c :: rest =>
    match short? c with
    | some c => piecesOnto (.char c :: done) rest
    | none => none
  | c :: rest => if c < ' ' ∨ c = '"' ∨ c = '\\' then none else piecesOnto (.char c :: done) rest

/-- The pieces of a text; `none` if it cannot stand between quotes. -/
def pieces? (cs : List Char) : Option (List Piece) :=
  piecesOnto [] cs

def isLeading (n : Nat) : Bool :=
  0xd800 ≤ n && n < 0xdc00

def isTrailing (n : Nat) : Bool :=
  0xdc00 ≤ n && n < 0xe000

/-- The characters of the pieces, in front of which `done` (last first) have been joined. -/
def joinOnto (done : List Char) : List Piece → Option (List Char)
  | [] => some done.reverse
  | .char c :: rest => joinOnto (c :: done) rest
  | .unit n :: rest =>
    if isLeading n then
      match rest with
      | .unit m :: rest =>
        if isTrailing m then
          joinOnto (Char.ofNat (0x10000 + (n - 0xd800) * 0x400 + (m - 0xdc00)) :: done) rest
        else none
      | _ => none
    else if isTrailing n then none
    else joinOnto (Char.ofNat n :: done) rest

/-- The characters that a string's text stands for. -/
def decode? (cs : List Char) : Option (List Char) :=
  pieces? cs >>= joinOnto []

/-- How one character is written. -/
def escape (c : Char) : List Char :=
  match c with
  | '"' => ['\\', '"']
  | '\\' => ['\\', '\\']
  | '\x08' => ['\\', 'b']
  | '\x0c' => ['\\', 'f']
  | '\n' => ['\\', 'n']
  | '\r' => ['\\', 'r']
  | '\t' => ['\\', 't']
  | c =>
    if c < ' ' then ['\\', 'u', '0', '0'] ++ Hex.byte c.toNat else [c]

/-- The text between the quotes of a string. -/
def encode (cs : List Char) : List Char :=
  cs.flatMap escape

end Overlay.Json.Text
