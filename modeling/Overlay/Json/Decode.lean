import Overlay.Json.Reader
import Overlay.Text.Decimal

/-!
From JSON values to data. Each reader answers `none` for a value of the wrong shape.
-/

namespace Overlay.Json

variable {α β : Type}

/-- The characters of a string. -/
def chars? : Json → Option (List Char)
  | .string text => Text.decode? text
  | _ => none

/-- The text of a string. -/
def text? (v : Json) : Option String :=
  v.chars?.map .ofList

/-- A number written as a plain natural number. -/
def nat? : Json → Option Nat
  | .number text => Decimal.canonical? text
  | _ => none

def uint32? (v : Json) : Option UInt32 :=
  (v.nat?.filter (· < UInt32.size)).map .ofNat

def uint8? (v : Json) : Option UInt8 :=
  (v.nat?.filter (· < UInt8.size)).map .ofNat

/-- The items of an array, each read by `f`. -/
def list? (f : Json → Option α) : Json → Option (List α)
  | .array items => items.mapM f
  | _ => none

/-- An array of two items. -/
def pair? (f : Json → Option α) (g : Json → Option β) : Json → Option (α × β)
  | .array [a, b] => do return (← f a, ← g b)
  | _ => none

/-- The name of a case without data: a string, or an object with the name as its only key and
`null` as its value. -/
def caseName? : Json → Option String
  | .string text => (Text.decode? text).map .ofList
  | .object [(key, .null)] => (Text.decode? key).map .ofList
  | _ => none

/-- The value of the field that goes by any of `names`, `none` inside if it is missing. A field
given more than once is refused. -/
def field? (names : List String) (fields : List (String × Json)) : Option (Option Json) :=
  match fields.filter fun f => f.1 ∈ names with
  | [] => some none
  | [(_, v)] => some (some v)
  | _ => none

/-- The fields of an object with their keys read. -/
def fields? (fields : List (List Char × Json)) : Option (List (String × Json)) :=
  fields.mapM fun (k, v) => (Text.decode? k).map fun k => (.ofList k, v)

/-- The values of the fields of a record, declared with all names that each goes by. A record is an
object, in which other fields are ignored, or an array of the fields in declaration order. -/
def record? (names : List (List String)) : Json → Option (List (Option Json))
  | .object fields => do
    let fields ← fields? fields
    names.mapM fun ns => field? ns fields
  | .array items =>
    if items.length ≤ names.length then
      some (items.map some ++ List.replicate (names.length - items.length) none)
    else none
  | _ => none

/-- The entries of an object whose keys are node numbers in plain decimal. -/
def numbered? (f : Json → Option α) : Json → Option (List (UInt32 × α))
  | .object fields => fields.mapM fun (k, v) => do
    let key ← (Decimal.canonical? k).filter (· < UInt32.size)
    return (.ofNat key, ← f v)
  | _ => none

end Overlay.Json
