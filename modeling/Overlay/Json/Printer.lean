import Overlay.Json.Basic
import Overlay.Json.Text
import Overlay.Text.Decimal

/-!
Writing JSON values, without white space or with one element a line.
-/

namespace Overlay.Json

/-! ## Values -/

def ofNat (n : Nat) : Json :=
  .number (Decimal.render n)

def ofChars (cs : List Char) : Json :=
  .string (Text.encode cs)

def ofString (s : String) : Json :=
  ofChars s.toList

/-- An object with the given fields, in this order. -/
def record (fields : List (String × Json)) : Json :=
  .object (fields.map fun (k, v) => (Text.encode k.toList, v))

/-! ## Without white space -/

def quote (text : List Char) : List Char :=
  '"' :: text ++ ['"']

mutual

/-- The value without white space. -/
def compact : Json → List Char
  | .null => ['n', 'u', 'l', 'l']
  | .bool true => ['t', 'r', 'u', 'e']
  | .bool false => ['f', 'a', 'l', 's', 'e']
  | .number text => text
  | .string text => quote text
  | .array [] => ['[', ']']
  | .array (v :: vs) => '[' :: compact v ++ compactItems vs ++ [']']
  | .object [] => ['\x7b', '\x7d']
  | .object ((k, v) :: fs) =>
    '\x7b' :: quote k ++ ':' :: compact v ++ compactFields fs ++ ['\x7d']

/-- Further items of an array, each behind a comma. -/
def compactItems : List Json → List Char
  | [] => []
  | v :: vs => ',' :: compact v ++ compactItems vs

/-- Further fields of an object, each behind a comma. -/
def compactFields : List (List Char × Json) → List Char
  | [] => []
  | (k, v) :: fs => ',' :: quote k ++ ':' :: compact v ++ compactFields fs

end

/-! ## One element a line -/

/-- The start of a line at a depth, two blanks a level. -/
def newline (depth : Nat) : List Char :=
  '\n' :: List.replicate (2 * depth) ' '

mutual

/-- The value with every item and field on a line of its own, `depth` levels deep. -/
def prettyAt (depth : Nat) : Json → List Char
  | .null => ['n', 'u', 'l', 'l']
  | .bool true => ['t', 'r', 'u', 'e']
  | .bool false => ['f', 'a', 'l', 's', 'e']
  | .number text => text
  | .string text => quote text
  | .array [] => ['[', ']']
  | .array (v :: vs) =>
    '[' :: newline (depth + 1) ++ prettyAt (depth + 1) v ++ prettyItems (depth + 1) vs ++
      newline depth ++ [']']
  | .object [] => ['\x7b', '\x7d']
  | .object ((k, v) :: fs) =>
    '\x7b' :: newline (depth + 1) ++ quote k ++ ':' :: ' ' :: prettyAt (depth + 1) v ++
      prettyFields (depth + 1) fs ++ newline depth ++ ['\x7d']

/-- Further items of an array, each behind a comma. -/
def prettyItems (depth : Nat) : List Json → List Char
  | [] => []
  | v :: vs => ',' :: newline depth ++ prettyAt depth v ++ prettyItems depth vs

/-- Further fields of an object, each behind a comma. -/
def prettyFields (depth : Nat) : List (List Char × Json) → List Char
  | [] => []
  | (k, v) :: fs =>
    ',' :: newline depth ++ quote k ++ ':' :: ' ' :: prettyAt depth v ++ prettyFields depth fs

end

/-- The value with every item and field on a line of its own. -/
def pretty (v : Json) : List Char :=
  prettyAt 0 v

end Overlay.Json
