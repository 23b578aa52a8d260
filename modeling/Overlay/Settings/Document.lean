import Overlay.Settings.Basic
import Overlay.Yaml.Reader

/-!
Settings as YAML documents. Unknown fields are ignored; a field may be given only once.
-/

namespace Overlay

open Ipv4 (Net)

namespace Yaml

/-! ## Scalars -/

/-- The characters of a scalar of any style. -/
def chars? : Yaml → Option (List Char)
  | .plain text => some text
  | .quoted text => some text
  | _ => none

/-- The text of a scalar of any style. -/
def text? (v : Yaml) : Option String :=
  v.chars?.map .ofList

/-- A plain scalar that says that there is no value. -/
def isUnset : Yaml → Bool
  | .plain text => ["", "~", "null", "Null", "NULL"].contains (String.ofList text)
  | _ => false

/-- A value that may be left unset, read by `f`. -/
def optional? (f : Yaml → Option α) (v : Yaml) : Option (Option α) :=
  if v.isUnset then some none else (f v).map some

/-- The value of a run of digits of a base. -/
def digits? (base : Nat) (cs : List Char) : Option Nat := do
  guard (!cs.isEmpty)
  let ds ← cs.mapM Hex.digit?
  guard (ds.all (· < base))
  return ds.foldl (fun n d => n * base + d) 0

/-- An integer without sign: hexadecimal, octal, binary or decimal without leading zeros. -/
def unsigned? : List Char → Option Nat
  | '0' :: 'x' :: cs => digits? 16 cs
  | '0' :: 'o' :: cs => digits? 8 cs
  | '0' :: 'b' :: cs => digits? 2 cs
  | ['0'] => some 0
  | '0' :: _ => none
  | cs => digits? 10 cs

/-- A plain integer, which may have a plus sign. -/
def nat? : Yaml → Option Nat
  | .plain ('+' :: cs) => unsigned? cs
  | .plain cs => unsigned? cs
  | _ => none

/-! ## Records -/

/-- The fields of a record by key. Nothing at all is a record without fields. -/
def fields? : Yaml → Option (List (String × Yaml))
  | .mapping entries => entries.mapM fun (k, v) => k.text?.map fun k => (k, v)
  | .plain [] => some []
  | _ => none

/-- The value of a field, `none` inside if it is missing. -/
def field? (name : String) (fields : List (String × Yaml)) : Option (Option Yaml) :=
  match fields.filter fun f => f.1 = name with
  | [] => some none
  | [(_, v)] => some (some v)
  | _ => none

/-- The field `name` read by `f`, or `fallback` if it is missing. -/
def fieldOr (name : String) (f : Yaml → Option α) (fallback : α)
    (fields : List (String × Yaml)) : Option α := do
  match ← field? name fields with
  | some v => f v
  | none => some fallback

end Yaml

namespace AddressPlan

def ofYaml? (v : Yaml) : Option AddressPlan := do
  let fields ← v.fields?
  let space ← (← Yaml.field? "address_space" fields) >>= Yaml.chars? >>= Net.parse?
  let length ← (← Yaml.field? "prefix_len" fields) >>= Yaml.nat?
  guard (length < UInt8.size)
  return ⟨space, .ofNat length⟩

end AddressPlan

namespace Settings

/-- The part that governs placements. -/
def mappingOfYaml? (v : Yaml) : Option RootCatchAll := do
  let read := fun (v : Yaml) => v.text? >>= RootCatchAll.ofName?
  Yaml.fieldOr "root_default_route" read .absent (← v.fields?)

def ofYaml? (v : Yaml) : Option Settings := do
  let fields ← v.fields?
  let readTarget := fun (v : Yaml) => v.text? >>= Target.ofName?
  let target ← Yaml.fieldOr "target" (Yaml.optional? readTarget) none fields
  let path := fun key => Yaml.fieldOr key (Yaml.optional? Yaml.text?) none fields
  return {
    target
    env := ← path "env"
    ir := ← path "ir"
    host := ← path "host"
    plan := ← path "plan"
    addressPlan := ← Yaml.fieldOr "address_plan" AddressPlan.ofYaml? .standard fields
    rootCatchAll := ← Yaml.fieldOr "mapping" mappingOfYaml? .absent fields }

/-- Reads a document. -/
def parse? (text : String) : Option Settings :=
  Yaml.ofString? text >>= ofYaml?

end Settings

end Overlay
