import Overlay.Placement.Basic
import Overlay.Snapshot.Document

/-!
The host configuration as a JSON document: the record of each host in use by its hostname.
-/

namespace Overlay

namespace HostConfig

def toJson (hosts : KeyedMap String HostRecord) : Json :=
  .record (hosts.entries.map fun (hostname, host) => (hostname, host.toJson))

/-- Of records with one hostname the last counts. -/
def ofJson? : Json → Option (KeyedMap String HostRecord)
  | .object fields => do
    let fields ← Json.fields? fields
    return .ofList (← fields.mapM fun (k, v) => return (k, ← HostRecord.ofJson? v))
  | _ => none

end HostConfig

namespace Placement

/-- The host configuration without white space. -/
def hostConfig (p : Placement) : String :=
  .ofList (HostConfig.toJson p.hosts).compact

/-- The host configuration for people. -/
def prettyHostConfig (p : Placement) : String :=
  .ofList (HostConfig.toJson p.hosts).pretty

end Placement

end Overlay
