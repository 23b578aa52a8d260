import Mathlib
import Overlay.Placement.HostConfig
import Overlay.Proofs.Snapshot.Document

/-!
The documents that hold hostnames. A cabling reads back with its loops and host links in order, and
a host configuration reads back with the record of every hostname, whatever characters the names
are made of (`Placement.host_documents_read_back`): in a cabling a hostname is an item of a list, in
a host configuration it is a key.
-/

namespace Overlay

open Json

/-! ## Cablings -/

theorem Loop.legible_toJson (l : Loop) : l.toJson.Legible :=
  .array (by simp [legible_ofNat])

theorem Loop.ofJson?_toJson (l : Loop) : ofJson? l.toJson = some l := by
  simp [ofJson?, toJson, pair?]

theorem HostLink.legible_toJson (l : HostLink) : l.toJson.Legible :=
  .array (by simp [ofString, legible_ofChars, legible_ofNat])

theorem HostLink.ofJson?_toJson (l : HostLink) : ofJson? l.toJson = some l := by
  simp [ofJson?, toJson, pair?]

namespace Cabling

theorem legible_toJson (c : Cabling) : c.toJson.Legible := by
  have hloops := legible_array_map Loop.legible_toJson c.loops
  have hlinks := legible_array_map HostLink.legible_toJson c.hostLinks
  exact legible_record (by simp [hloops, hlinks])

theorem ofJson?_toJson (c : Cabling) : ofJson? c.toJson = some c := by
  have hloops := list?_array_map Loop.ofJson?_toJson c.loops
  have hlinks := list?_array_map HostLink.ofJson?_toJson c.hostLinks
  rw [ofJson?, toJson, record?_record]
  simp [fieldNames, field?, itemsOf, hloops, hlinks]

/-- Every document of its value is read as the cabling. -/
theorem parse?_of_writtenAs {c : Cabling} {text : String} (h : c.toJson.WrittenAs text.toList) :
    parse? text = some c := by
  rw [parse?, h.ofString?_eq, Option.bind_eq_bind, Option.bind_some, ofJson?_toJson]

theorem writtenAs_render (c : Cabling) : c.toJson.WrittenAs c.render.toList :=
  c.legible_toJson.writtenAs_compact

end Cabling

/-! ## Host configurations -/

namespace HostConfig

/-- Reads a host configuration. -/
def parse? (text : String) : Option (KeyedMap String HostRecord) :=
  Json.ofString? text >>= ofJson?

theorem legible_toJson (hosts : KeyedMap String HostRecord) : (toJson hosts).Legible := by
  refine legible_record fun f hf => ?_
  obtain ⟨e, -, rfl⟩ := List.mem_map.1 hf
  exact e.2.legible_toJson

theorem ofJson?_toJson (hosts : KeyedMap String HostRecord) :
    ofJson? (toJson hosts) = some hosts := by
  have hrecords : (hosts.entries.map fun e => (e.1, e.2.toJson)).mapM
      (fun f => return (f.1, ← HostRecord.ofJson? f.2)) = some hosts.entries :=
    Lists.mapM_map_eq_some fun e _ => by simp [HostRecord.ofJson?_toJson]
  rw [toJson, record, ofJson?, fields?_encode, Option.bind_eq_bind, Option.bind_some, hrecords]
  exact congrArg some hosts.ofList_entries

/-- Every document of their value is read as the records. -/
theorem parse?_of_writtenAs {hosts : KeyedMap String HostRecord} {text : String}
    (h : (toJson hosts).WrittenAs text.toList) : parse? text = some hosts := by
  rw [parse?, h.ofString?_eq, Option.bind_eq_bind, Option.bind_some, ofJson?_toJson]

end HostConfig

/-! ## Both -/

/-- The documents with hostnames are strict JSON for their values and read back. Either form of a
host configuration has the record of every hostname, and either form of a cabling has the loops and
host links in order. -/
theorem Placement.host_documents_read_back (p : Placement) (c : Cabling) :
    ((HostConfig.toJson p.hosts).WrittenAs p.hostConfig.toList ∧
      HostConfig.parse? p.hostConfig = some p.hosts) ∧
    ((HostConfig.toJson p.hosts).WrittenAs p.prettyHostConfig.toList ∧
      HostConfig.parse? p.prettyHostConfig = some p.hosts) ∧
    (c.toJson.WrittenAs c.render.toList ∧ Cabling.parse? c.render = some c) ∧
    c.toJson.WrittenAs (String.ofList c.toJson.pretty).toList ∧
      Cabling.parse? (.ofList c.toJson.pretty) = some c := by
  have hhosts := HostConfig.legible_toJson p.hosts
  have hcabling := c.legible_toJson
  have hconfig : (HostConfig.toJson p.hosts).WrittenAs p.hostConfig.toList :=
    hhosts.writtenAs_compact
  have hpretty : (HostConfig.toJson p.hosts).WrittenAs p.prettyHostConfig.toList :=
    hhosts.writtenAs_pretty
  have hlines := hcabling.writtenAs_pretty
  exact ⟨⟨hconfig, HostConfig.parse?_of_writtenAs hconfig⟩,
    ⟨hpretty, HostConfig.parse?_of_writtenAs hpretty⟩,
    ⟨c.writtenAs_render, Cabling.parse?_of_writtenAs c.writtenAs_render⟩, hlines,
    Cabling.parse?_of_writtenAs hlines⟩

end Overlay
