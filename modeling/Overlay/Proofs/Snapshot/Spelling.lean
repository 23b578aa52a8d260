import Mathlib
import Overlay.Proofs.Json.Spelling
import Overlay.Proofs.Snapshot.Checks
import Overlay.Proofs.Snapshot.Document

/-!
The ways to spell a snapshot. Some names have an older one: the routers of a document, the routes of
a router, and both kinds of neighbors. Part by part, from kinds up to the tables of records, every
spelling is read as the part, whatever the order of the fields and the choice of names at each
place; what is written has current names only. A document with both names of one field is refused
(`Snapshot.spellings_read_alike`).
-/

namespace Overlay

open Json

/-- Which names there may be in a document. -/
inductive Naming
  | current
  /-- At every place the current name or the older one. -/
  | any

namespace Naming

def names : Naming → String → String → List String
  | .current, name, _ => [name]
  | .any, name, older => [name, older]

theorem mem_names (g : Naming) (name older : String) : name ∈ g.names name older := by
  cases g <;> exact List.mem_cons_self

end Naming

/-! ## Kinds, routes and neighbors -/

def Kind.names (g : Naming) : Kind → List String
  | .router => g.names "Router" "vRouter"
  | .host => g.names "Host" "host"

def Kind.EncodedBy (g : Naming) (k : Kind) (v : Json) : Prop :=
  ∃ name ∈ k.names g, v.Spells name.toList

theorem Kind.encodedBy_toJson (g : Naming) (k : Kind) : k.EncodedBy g k.toJson := by
  refine ⟨k.name, ?_, spells_ofChars _⟩
  cases k <;> exact g.mem_names _ _

theorem Kind.ofJson?_of_encodedBy {k : Kind} {v : Json} (h : k.EncodedBy .any v) :
    ofJson? v = some k := by
  obtain ⟨name, hname, hv⟩ := h
  rw [ofJson?, hv.caseName?_eq]
  cases k with
  | router =>
    obtain rfl | rfl : name = "Router" ∨ name = "vRouter" := by
      simpa [names, Naming.names] using hname
    all_goals rfl
  | host =>
    obtain rfl | rfl : name = "Host" ∨ name = "host" := by
      simpa [names, Naming.names] using hname
    all_goals rfl

def Route.EncodedBy (r : Route) (v : Json) : Prop :=
  ∃ net : Json, v = .array [.ofNat r.egress.toNat, net] ∧ net.Spells r.subnet.render

theorem Route.encodedBy_toJson (r : Route) : r.EncodedBy r.toJson :=
  ⟨_, rfl, spells_ofChars _⟩

theorem Ipv4.Net.ofJson?_of_spells {n : Net} {v : Json} (h : v.Spells n.render) :
    ofJson? v = some n := by
  rw [ofJson?, h.chars?_eq, Option.bind_eq_bind, Option.bind_some, parse?_render]

theorem Mac.ofJson?_of_spells {m : Mac} {v : Json} (h : v.Spells m.render) :
    ofJson? v = some m := by
  rw [ofJson?, h.chars?_eq, Option.bind_eq_bind, Option.bind_some, parse?_render]

theorem Route.ofJson?_of_encodedBy (r : Route) (v : Json) (h : r.EncodedBy v) :
    ofJson? v = some r := by
  obtain ⟨net, rfl, hnet⟩ := h
  simp [ofJson?, pair?, Ipv4.Net.ofJson?_of_spells hnet]

def NeighborRef.EncodedBy (g : Naming) (n : NeighborRef) (v : Json) : Prop :=
  ∃ kind : Json, v = .array [.ofNat n.egress.toNat, .ofNat n.id.toNat, kind] ∧
    n.kind.EncodedBy g kind

theorem NeighborRef.encodedBy_toJson (g : Naming) (n : NeighborRef) : n.EncodedBy g n.toJson :=
  ⟨_, rfl, n.kind.encodedBy_toJson g⟩

theorem NeighborRef.ofJson?_of_encodedBy (n : NeighborRef) (v : Json) (h : n.EncodedBy .any v) :
    ofJson? v = some n := by
  obtain ⟨kind, rfl, hkind⟩ := h
  simp [ofJson?, Kind.ofJson?_of_encodedBy hkind]

/-! ## Records -/

namespace RouterRecord

def fields (g : Naming) (r : RouterRecord) : List Json.Field :=
  [⟨["name"], fun v => v.Spells r.name.toList⟩,
    ⟨["uplink_network"], fun v => v.Spells r.uplink.render⟩,
    ⟨["neighbors"], IsArrayOf (NeighborRef.EncodedBy g) r.neighbors⟩,
    ⟨g.names "routing_table" "routingtable", IsArrayOf Route.EncodedBy r.table⟩]

def EncodedBy (g : Naming) (r : RouterRecord) (v : Json) : Prop :=
  v.IsRecord (r.fields g)

theorem encodedBy_toJson (g : Naming) (r : RouterRecord) : r.EncodedBy g r.toJson :=
  isRecord_record (.refl _)
    (.cons ⟨List.mem_cons_self, spells_ofChars _⟩
    (.cons ⟨List.mem_cons_self, spells_ofChars _⟩
    (.cons ⟨List.mem_cons_self, isArrayOf_map (NeighborRef.encodedBy_toJson g) _⟩
    (.cons ⟨g.mem_names _ _, isArrayOf_map Route.encodedBy_toJson _⟩ .nil))))

theorem ofJson?_of_encodedBy (r : RouterRecord) (v : Json) (h : r.EncodedBy .any v) :
    ofJson? v = some r := by
  obtain ⟨values, hvalues, hall⟩ := h.record?_eq (by simp [Field.Apart, fields, Naming.names])
  obtain _ | ⟨⟨name, rfl, hname⟩, _ | ⟨⟨uplink, rfl, huplink⟩, _ | ⟨⟨neighbors, rfl, hneighbors⟩,
    _ | ⟨⟨table, rfl, htable⟩, _ | _⟩⟩⟩⟩ := hall
  have hnames : (r.fields .any).map (·.names) = fieldNames := rfl
  rw [ofJson?, ← hnames, hvalues]
  simp [hname.text?_eq, Ipv4.Net.ofJson?_of_spells huplink,
    hneighbors.list?_eq NeighborRef.ofJson?_of_encodedBy, htable.list?_eq Route.ofJson?_of_encodedBy]

end RouterRecord

namespace HostRecord

def fields (h : HostRecord) : List Json.Field :=
  [⟨["name"], fun v => v.Spells h.name.toList⟩, ⟨["ip"], fun v => v.Spells h.ip.render⟩,
    ⟨["mac"], fun v => v.Spells h.mac.render⟩]

def EncodedBy (h : HostRecord) (v : Json) : Prop :=
  v.IsRecord h.fields

theorem encodedBy_toJson (h : HostRecord) : h.EncodedBy h.toJson :=
  isRecord_record (.refl _)
    (.cons ⟨List.mem_cons_self, spells_ofChars _⟩
    (.cons ⟨List.mem_cons_self, spells_ofChars _⟩
    (.cons ⟨List.mem_cons_self, spells_ofChars _⟩ .nil)))

theorem ofJson?_of_encodedBy (h : HostRecord) (v : Json) (hv : h.EncodedBy v) :
    ofJson? v = some h := by
  obtain ⟨values, hvalues, hall⟩ := hv.record?_eq (by simp [Field.Apart, fields])
  obtain _ | ⟨⟨name, rfl, hname⟩, _ | ⟨⟨ip, rfl, hip⟩, _ | ⟨⟨mac, rfl, hmac⟩, _ | _⟩⟩⟩ := hall
  have hnames : h.fields.map (·.names) = fieldNames := rfl
  rw [ofJson?, ← hnames, hvalues]
  simp [hname.text?_eq, Ipv4.Net.ofJson?_of_spells hip, Mac.ofJson?_of_spells hmac]

end HostRecord

/-! ## Tables of records -/

namespace KeyedMap

variable {ν : Type} {R : ν → Json → Prop} {m : KeyedMap NodeId ν}

/-- The value is an object of the records, in any order, by their numbers in plain decimal. -/
def EncodedBy (R : ν → Json → Prop) (m : KeyedMap NodeId ν) (v : Json) : Prop :=
  v.IsObjectOf (fun e f => f.1 = Decimal.render e.1.toNat ∧ R e.2 f.2) m.entries

theorem encodedBy_toJson {f : ν → Json} (h : ∀ a, R a (f a)) (m : KeyedMap NodeId ν) :
    m.EncodedBy R (m.toJson f) :=
  isObjectOf_map fun e _ => ⟨rfl, h e.2⟩

theorem ofJson?_of_encodedBy {g : Json → Option ν} (hread : ∀ a w, R a w → g w = some a) {v : Json}
    (h : m.EncodedBy R v) : ofJson? g v = some m := by
  obtain ⟨order, fields, hperm, hfields, rfl⟩ := h
  have hentries : (Json.object fields).numbered? g = some order := by
    refine Lists.mapM_of_forall₂ (hfields.imp ?_)
    rintro e f ⟨hkey, hvalue⟩
    have hlt : e.1.toNat < UInt32.size := e.1.toNat_lt
    simp [hkey, hread _ _ hvalue, Decimal.canonical?_eq_some_iff.2 rfl, Option.filter, hlt]
  rw [ofJson?, hentries, Option.map_some, ofList_of_perm hperm]

/-- A table with a record that cannot be read cannot be read. -/
theorem ofJson?_eq_none {g : Json → Option ν} {fields : List (List Char × Json)}
    {f : List Char × Json} (hf : f ∈ fields) (hread : g f.2 = none) :
    ofJson? g (.object fields) = none := by
  have hentry : (do
      let key ← (Decimal.canonical? f.1).filter (· < UInt32.size)
      return ((.ofNat key, ← g f.2) : UInt32 × ν)) = none := by
    rw [hread]
    cases (Decimal.canonical? f.1).filter (· < UInt32.size) <;> rfl
  rw [ofJson?, numbered?, Lists.mapM_eq_none_of_mem hf hentry]
  rfl

end KeyedMap

namespace Snapshot

variable {s : Snapshot}

def fields (g : Naming) (s : Snapshot) : List Json.Field :=
  [⟨g.names "Router" "vRouter", s.routers.EncodedBy (RouterRecord.EncodedBy g)⟩,
    ⟨["Host"], s.hosts.EncodedBy HostRecord.EncodedBy⟩]

/-- The value spells the snapshot: with the fields of each object in any order, and with names of
this kind at every place. -/
def EncodedBy (g : Naming) (s : Snapshot) (v : Json) : Prop :=
  v.IsRecord (s.fields g)

theorem encodedBy_toJson (g : Naming) (s : Snapshot) : s.EncodedBy g s.toJson :=
  isRecord_record (.refl _)
    (.cons ⟨g.mem_names _ _, s.routers.encodedBy_toJson (RouterRecord.encodedBy_toJson g)⟩
    (.cons ⟨List.mem_cons_self, s.hosts.encodedBy_toJson HostRecord.encodedBy_toJson⟩ .nil))

theorem ofJson?_of_encodedBy {v : Json} (h : s.EncodedBy .any v) : ofJson? v = some s := by
  obtain ⟨values, hvalues, hall⟩ := h.record?_eq (by simp [Field.Apart, fields, Naming.names])
  obtain _ | ⟨⟨routers, rfl, hrouters⟩, _ | ⟨⟨hosts, rfl, hhosts⟩, _ | _⟩⟩ := hall
  have hnames : (s.fields .any).map (·.names) = fieldNames := rfl
  rw [ofJson?, ← hnames, hvalues]
  simp [KeyedMap.ofJson?_of_encodedBy RouterRecord.ofJson?_of_encodedBy hrouters,
    KeyedMap.ofJson?_of_encodedBy HostRecord.ofJson?_of_encodedBy hhosts]

theorem parse?_of_writtenAs {v : Json} {text : String} (h : v.WrittenAs text.toList) :
    parse? text = ofJson? v := by
  rw [parse?, h.ofString?_eq]
  rfl

/-! ## Names given twice -/

/-- A table of routers with the routes of one of them under both names. -/
def HasBothTables (v : Json) : Prop :=
  ∃ records id fields, v = .object records ∧ (id, .object fields) ∈ records ∧
    HasBoth fields "routing_table" "routingtable"

/-- A document with a field under both of its names: the routers, or the routes of one of them. The
document may be an array of its fields. -/
inductive Ambiguous : Json → Prop
  | routers {fields : List (List Char × Json)} (h : HasBoth fields "Router" "vRouter") :
    Ambiguous (.object fields)
  | routes {fields : List (List Char × Json)} {f : List Char × Json} {name : String}
    (hf : f ∈ fields) (hname : name ∈ Naming.any.names "Router" "vRouter")
    (hkey : Text.decode? f.1 = some name.toList) (h : HasBothTables f.2) :
    Ambiguous (.object fields)
  | listed {v : Json} {rest : List Json} (h : HasBothTables v) : Ambiguous (.array (v :: rest))

theorem HasBothTables.ofJson?_eq_none {v : Json} (h : HasBothTables v) :
    KeyedMap.ofJson? RouterRecord.ofJson? v = none := by
  obtain ⟨records, id, fields, rfl, hmem, hboth⟩ := h
  have hnames : ["routing_table", "routingtable"] ∈ RouterRecord.fieldNames := by decide
  refine KeyedMap.ofJson?_eq_none hmem ?_
  rw [RouterRecord.ofJson?, hboth.record?_eq_none (by decide) hnames (by decide) (by decide)]
  rfl

theorem Ambiguous.ofJson?_eq_none {v : Json} (h : Ambiguous v) : ofJson? v = none := by
  have hnames : Naming.any.names "Router" "vRouter" ∈ fieldNames := by decide
  cases h with
  | routers h =>
    rw [ofJson?, h.record?_eq_none (by decide) hnames (by decide) (by decide)]
    rfl
  | @routes fields f name hf hname hkey h =>
    rcases hkeyed : fields? fields with _ | keyed
    · simp [ofJson?, record?, hkeyed]
    -- Unless there is a second table of routers, the ambiguous one is the one that is read.
    · rcases field?_of_mem (mem_of_fields?_eq_some hkeyed hf hkey) hname with hnone | ⟨hfield, -⟩
      · rw [ofJson?, record?_eq_none_of_field? hkeyed hnone hnames]
        rfl
      · rw [Naming.names] at hfield
        rcases hhosts : field? ["Host"] keyed with _ | _ | hosts <;>
          simp [ofJson?, record?, fieldNames, hkeyed, hfield, hhosts, h.ofJson?_eq_none]
  | @listed v rest h =>
    rcases rest with _ | ⟨hosts, _ | ⟨w, rest⟩⟩ <;>
      simp [ofJson?, record?, fieldNames, h.ofJson?_eq_none]

/-- The spelling of a document does not matter. The fields of each object may stand in any order, and
each field and kind that has an older name under either name, at every place anew: the document is
read as the snapshot that it spells, and what is written for that has current names only. A document
with a field under both of its names is refused. -/
theorem spellings_read_alike (s : Snapshot) :
    (∀ v text, s.EncodedBy .any v → v.WrittenAs text.toList →
      parse? text = some s ∧ (parse? text).map render = some s.render) ∧
    (s.EncodedBy .current s.toJson ∧ s.toJson.WrittenAs s.render.toList) ∧
    ∀ v text, Ambiguous v → v.WrittenAs text.toList → parse? text = none := by
  refine ⟨fun v text hv htext => ?_,
    ⟨s.encodedBy_toJson .current, s.legible_toJson.writtenAs_pretty⟩, fun v text hv htext => ?_⟩
  · rw [parse?_of_writtenAs htext, ofJson?_of_encodedBy hv]
    exact ⟨rfl, rfl⟩
  · rw [parse?_of_writtenAs htext, hv.ofJson?_eq_none]

end Snapshot

/-! ## Older documents -/

def Kind.olderName : Kind → String
  | .router => "vRouter"
  | .host => "host"

/-- The entry with the older name of its kind. -/
def NeighborRef.olderJson (n : NeighborRef) : Json :=
  .array [.ofNat n.egress.toNat, .ofNat n.id.toNat, .ofString n.kind.olderName]

theorem NeighborRef.legible_olderJson (n : NeighborRef) : n.olderJson.Legible :=
  .array (by simp [ofString, legible_ofNat, legible_ofChars])

theorem NeighborRef.encodedBy_olderJson (n : NeighborRef) : n.EncodedBy .any n.olderJson := by
  refine ⟨_, rfl, n.kind.olderName, ?_, spells_ofChars _⟩
  cases n.kind <;> exact List.mem_cons_of_mem _ List.mem_cons_self

namespace RouterRecord

/-- The record with older names and with its fields the other way round. -/
def olderJson (r : RouterRecord) : Json :=
  .record [
    ("routingtable", .array (r.table.map Route.toJson)),
    ("neighbors", .array (r.neighbors.map NeighborRef.olderJson)),
    ("uplink_network", r.uplink.toJson),
    ("name", .ofString r.name)]

theorem legible_olderJson (r : RouterRecord) : r.olderJson.Legible := by
  have hneighbors := legible_array_map NeighborRef.legible_olderJson r.neighbors
  have htable := legible_array_map Route.legible_toJson r.table
  exact legible_record
    (by simp [ofString, legible_ofChars, Ipv4.Net.legible_toJson, hneighbors, htable])

theorem encodedBy_olderJson (r : RouterRecord) : r.EncodedBy .any r.olderJson :=
  isRecord_record (List.reverse_perm _).symm
    (.cons ⟨List.mem_cons_of_mem _ List.mem_cons_self, isArrayOf_map Route.encodedBy_toJson _⟩
    (.cons ⟨List.mem_cons_self, isArrayOf_map NeighborRef.encodedBy_olderJson _⟩
    (.cons ⟨List.mem_cons_self, spells_ofChars _⟩
    (.cons ⟨List.mem_cons_self, spells_ofChars _⟩ .nil))))

end RouterRecord

namespace Snapshot

/-- The value of the snapshot with older names and with all fields the other way round. -/
def olderJson (s : Snapshot) : Json :=
  .record [
    ("Host", s.hosts.toJson HostRecord.toJson),
    ("vRouter", s.routers.toJson RouterRecord.olderJson)]

theorem legible_olderJson (s : Snapshot) : s.olderJson.Legible := by
  have hrouters := s.routers.legible_toJson RouterRecord.legible_olderJson
  have hhosts := s.hosts.legible_toJson HostRecord.legible_toJson
  exact legible_record (by simp [hrouters, hhosts])

theorem encodedBy_olderJson (s : Snapshot) : s.EncodedBy .any s.olderJson :=
  isRecord_record (List.reverse_perm _).symm
    (.cons ⟨List.mem_cons_self, s.hosts.encodedBy_toJson HostRecord.encodedBy_toJson⟩
    (.cons ⟨List.mem_cons_of_mem _ List.mem_cons_self,
      s.routers.encodedBy_toJson RouterRecord.encodedBy_olderJson⟩ .nil))

/-- A document with the routers under both names. -/
def twofold : Json :=
  .record [("vRouter", .object []), ("Host", .object []), ("Router", .object [])]

/-- The older document of two routers and a host is read as they are, and a twofold one is
refused. -/
theorem spellings_read_alike_pair :
    pair.EncodedBy .any pair.olderJson ∧ parse? (.ofList pair.olderJson.pretty) = some pair ∧
      Ambiguous twofold ∧ parse? (.ofList twofold.pretty) = none := by
  obtain ⟨hread, -, hrefused⟩ := spellings_read_alike pair
  have hboth : Ambiguous twofold :=
    .routers (hasBoth_record (v := .object []) (w := .object []) (by simp) (by simp))
  have hlegible : twofold.Legible := legible_record (by simp [Legible.object])
  obtain ⟨hpair, -⟩ := hread _ _ pair.encodedBy_olderJson pair.legible_olderJson.writtenAs_pretty
  exact ⟨pair.encodedBy_olderJson, hpair, hboth, hrefused _ _ hboth hlegible.writtenAs_pretty⟩

end Snapshot

end Overlay
