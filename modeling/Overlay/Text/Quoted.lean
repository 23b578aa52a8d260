/-!
Text between double quotes for messages. Quote, backslash and control characters are escaped,
every other character stands for itself, so a message stays on one line.
-/

namespace Overlay.Quoted

/-- The lower-case hexadecimal digits of `n`, without leading zeros. -/
def hex (n : Nat) : List Char :=
  Nat.toDigits 16 n

/-- Control characters are U+0000 to U+001F and U+007F to U+009F. -/
def isControl (c : Char) : Bool :=
  c.toNat < 0x20 || (0x7f ≤ c.toNat && c.toNat < 0xa0)

/-- How one character is written between the quotes. -/
def escape (c : Char) : List Char :=
  match c with
  | '\x00' => ['\\', '0']
  | '\t' => ['\\', 't']
  | '\n' => ['\\', 'n']
  | '\r' => ['\\', 'r']
  | '"' => ['\\', '"']
  | '\\' => ['\\', '\\']
  | c => if isControl c then "\\u\x7b".toList ++ hex c.toNat ++ ['\x7d'] else [c]

/-- The text `s` between quotes. -/
def render (s : String) : String :=
  String.ofList ('"' :: s.toList.flatMap escape ++ ['"'])

end Overlay.Quoted
