import Mathlib
import Overlay.Snapshot.Document
import Overlay.Proofs.Ipv4
import Overlay.Proofs.Json.Decode
import Overlay.Proofs.KeyedMap
import Overlay.Proofs.Mac

/-!
The documents of snapshots read back. Part by part, from networks up to the tables of records, the
value that is written is legible and is read as the part it was written for; so the text spells the
value of the snapshot, and that value is read as the snapshot (`Snapshot.document_reads_back`).
-/

namespace Overlay

open Json

/-! ## Networks and MAC addresses -/

theorem Ipv4.Net.legible_toJson (n : Net) : n.toJson.Legible :=
  legible_ofChars _

@[simp]
theorem Ipv4.Net.ofJson?_toJson (n : Net) : ofJson? n.toJson = some n := by
  simp [ofJson?, toJson, parse?_render]

theorem Mac.legible_toJson (m : Mac) : m.toJson.Legible :=
  legible_ofChars _

@[simp]
theorem Mac.ofJson?_toJson (m : Mac) : ofJson? m.toJson = some m := by
  simp [ofJson?, toJson, parse?_render]

/-! ## Records -/

theorem Kind.legible_toJson (k : Kind) : k.toJson.Legible :=
  legible_ofChars _

@[simp]
theorem Kind.ofJson?_toJson (k : Kind) : ofJson? k.toJson = some k := by
  cases k <;> simp [ofJson?, toJson, name]

theorem Route.legible_toJson (r : Route) : r.toJson.Legible :=
  .array (by simp [legible_ofNat, Ipv4.Net.legible_toJson])

theorem Route.ofJson?_toJson (r : Route) : ofJson? r.toJson = some r := by
  simp [ofJson?, toJson, pair?]

theorem NeighborRef.legible_toJson (n : NeighborRef) : n.toJson.Legible :=
  .array (by simp [legible_ofNat, Kind.legible_toJson])

theorem NeighborRef.ofJson?_toJson (n : NeighborRef) : ofJson? n.toJson = some n := by
  simp [ofJson?, toJson]

theorem RouterRecord.legible_toJson (r : RouterRecord) : r.toJson.Legible := by
  have hneighbors := legible_array_map NeighborRef.legible_toJson r.neighbors
  have htable := legible_array_map Route.legible_toJson r.table
  exact legible_record
    (by simp [ofString, legible_ofChars, Ipv4.Net.legible_toJson, hneighbors, htable])

theorem RouterRecord.ofJson?_toJson (r : RouterRecord) : ofJson? r.toJson = some r := by
  have hneighbors := list?_array_map NeighborRef.ofJson?_toJson r.neighbors
  have htable := list?_array_map Route.ofJson?_toJson r.table
  rw [ofJson?, toJson, record?_record]
  simp [fieldNames, field?, hneighbors, htable]

theorem HostRecord.legible_toJson (h : HostRecord) : h.toJson.Legible :=
  legible_record
    (by simp [ofString, legible_ofChars, Ipv4.Net.legible_toJson, Mac.legible_toJson])

theorem HostRecord.ofJson?_toJson (h : HostRecord) : ofJson? h.toJson = some h := by
  rw [ofJson?, toJson, record?_record]
  simp [fieldNames, field?]

/-! ## Tables of records -/

namespace KeyedMap

variable {ν : Type} {f : ν → Json}

theorem legible_toJson (h : ∀ v, (f v).Legible) (m : KeyedMap NodeId ν) :
    (m.toJson f).Legible := by
  refine .object (fun e he => ?_) fun e he => ?_
  · obtain ⟨d, -, rfl⟩ := List.mem_map.1 he
    have hkey := Text.pieces?_encode (Decimal.render d.1.toNat)
    rwa [encode_render] at hkey
  · obtain ⟨d, -, rfl⟩ := List.mem_map.1 he
    exact h d.2

theorem ofJson?_toJson {g : Json → Option ν} (h : ∀ v, g (f v) = some v)
    (m : KeyedMap NodeId ν) : ofJson? g (m.toJson f) = some m := by
  have hentries : (m.toJson f).numbered? g = some m.entries := by
    refine Lists.mapM_map_eq_some fun e _ => ?_
    have hlt : e.1.toNat < UInt32.size := e.1.toNat_lt
    simp [h, Decimal.canonical?_eq_some_iff.2 rfl, Option.filter, hlt]
  rw [ofJson?, hentries, Option.map_some, ofList_entries]

end KeyedMap

namespace Snapshot

theorem legible_toJson (s : Snapshot) : s.toJson.Legible := by
  have hrouters := s.routers.legible_toJson RouterRecord.legible_toJson
  have hhosts := s.hosts.legible_toJson HostRecord.legible_toJson
  exact legible_record (by simp [hrouters, hhosts])

theorem ofJson?_toJson (s : Snapshot) : ofJson? s.toJson = some s := by
  have hrouters := KeyedMap.ofJson?_toJson RouterRecord.ofJson?_toJson s.routers
  have hhosts := KeyedMap.ofJson?_toJson HostRecord.ofJson?_toJson s.hosts
  rw [ofJson?, toJson, record?_record]
  simp [fieldNames, field?, hrouters, hhosts]

theorem ofString?_render (s : Snapshot) : Json.ofString? s.render = some s.toJson :=
  s.legible_toJson.writtenAs_pretty.ofString?_eq

theorem parse?_render (s : Snapshot) : parse? s.render = some s := by
  rw [parse?, ofString?_render, Option.bind_eq_bind, Option.bind_some, ofJson?_toJson]

/-- The document of a snapshot spells its value, field by field in strict form, and reads back as
the snapshot. -/
theorem document_reads_back (s : Snapshot) :
    Json.ofString? s.render = some s.toJson ∧ parse? s.render = some s :=
  ⟨ofString?_render s, parse?_render s⟩

end Snapshot

end Overlay
