/-!
Hexadecimal text. Numbers are written in lower case and read in either case; a digit that is written
reads back (`digit?_digitChar`).
-/

namespace Overlay.Hex

/-- The value of a hexadecimal digit of either case. -/
def digit? (c : Char) : Option Nat :=
  if '0' ≤ c ∧ c ≤ '9' then some (c.toNat - '0'.toNat)
  else if 'a' ≤ c ∧ c ≤ 'f' then some (c.toNat - 'a'.toNat + 10)
  else if 'A' ≤ c ∧ c ≤ 'F' then some (c.toNat - 'A'.toNat + 10)
  else none

/-- The number that a run of hexadecimal digits stands for. -/
def value? (cs : List Char) : Option Nat :=
  (cs.mapM digit?).map fun ds => ds.foldl (fun n d => n * 16 + d) 0

/-- The number that a numeral stands for: one digit or more, with or without a plus sign in front. -/
def numeral? : List Char → Option Nat
  | [] => none
  | '+' :: c :: cs => value? (c :: cs)
  | cs => value? cs

/-- The two digits of a number below 256. -/
def byte (n : Nat) : List Char :=
  [Nat.digitChar (n / 16), Nat.digitChar (n % 16)]

theorem digit?_digitChar {n : Nat} (h : n < 16) : digit? (Nat.digitChar n) = some n := by
  have all : ∀ m ∈ List.range 16, digit? (Nat.digitChar m) = some m := by decide
  exact all n (List.mem_range.2 h)

end Overlay.Hex
