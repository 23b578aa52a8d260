import Overlay.Json.Magnitude
import Overlay.Placement.Deploy

/-!
Plans as JSON documents: a list of instructions, each an object whose field `table` names its kind.
A reader has to keep the other fields until it has met `table`, so these must hold representable
values even if the instruction has no such field.
-/

namespace Overlay

open Ipv4 (Net)

namespace Json

mutual

/-- The value can be kept: its strings are texts, its numbers finite, and it is nested at most
`levels` deep. -/
def isStorable (levels : Nat) : Json → Bool
  | .null => true
  | .bool _ => true
  | .number text => Magnitude.isFinite text
  | .string text => (Text.decode? text).isSome
  | .array items =>
    match levels with
    | 0 => false
    | levels + 1 => areStorable levels items
  | .object fields =>
    match levels with
    | 0 => false
    | levels + 1 => areFieldsStorable levels fields

def areStorable (levels : Nat) : List Json → Bool
  | [] => true
  | v :: vs => isStorable levels v && areStorable levels vs

def areFieldsStorable (levels : Nat) : List (List Char × Json) → Bool
  | [] => true
  | (k, v) :: fs =>
    (Text.decode? k).isSome && isStorable levels v && areFieldsStorable levels fs

end

end Json

namespace Instruction

def toJson : Instruction → Json
  | .portMapping ingress router =>
    .record [
      ("table", .ofString "port_mapping"),
      ("ingress_port", .ofNat ingress.toNat),
      ("router", .ofNat router.toNat)]
  | .route router destination mac egress =>
    .record [
      ("table", .ofString "route"),
      ("router", .ofNat router.toNat),
      ("destination", destination.toJson),
      ("mac", mac.toJson),
      ("egress_port", .ofNat egress.toNat)]

/-- The fields of each kind of instruction, in order. -/
def fieldNames : String → Option (List String)
  | "port_mapping" => some ["ingress_port", "router"]
  | "route" => some ["router", "destination", "mac", "egress_port"]
  | _ => none

/-- The instruction of a kind with the values of its fields. -/
def ofFields? : String → List Json → Option Instruction
  | "port_mapping", [ingress, router] => do
    return .portMapping (← ingress.uint32?) (← router.uint32?)
  | "route", [router, destination, mac, egress] => do
    return .route (← router.uint32?) (← Net.ofJson? destination) (← Mac.ofJson? mac)
      (← egress.uint32?)
  | _, _ => none

/-- How deep the fields of an instruction may be nested: a document has fewer than 128 levels, and
the list and the instruction are two of them. -/
def storableLevels : Nat :=
  125

/-- An instruction is an object, or an array of the kind and the fields in order. -/
def ofJson? : Json → Option Instruction
  | .object fields => do
    let fields ← Json.fields? fields
    let table ← Json.field? ["table"] fields
    let table ← table >>= Json.text?
    guard (fields.all fun f => f.1 = "table" || f.2.isStorable storableLevels)
    let names ← fieldNames table
    let values ← names.mapM fun name => (Json.field? [name] fields).join
    ofFields? table values
  | .array (table :: values) => do
    guard (Json.areStorable storableLevels values)
    ofFields? (← table.text?) values
  | _ => none

end Instruction

namespace Plan

def toJson (plan : List Instruction) : Json :=
  .array (plan.map Instruction.toJson)

def ofJson? (v : Json) : Option (List Instruction) :=
  v.list? Instruction.ofJson?

/-- The document that describes the plan. -/
def render (plan : List Instruction) : String :=
  .ofList (toJson plan).pretty

/-- Reads a document. -/
def parse? (text : String) : Option (List Instruction) :=
  Json.ofString? text >>= ofJson?

end Plan

end Overlay
