import Overlay.AddressPlan
import Overlay.Allocator
import Overlay.Cabling
import Overlay.Command.Arguments
import Overlay.Command.FileTree
import Overlay.Command.Run
import Overlay.Ipv4.Address
import Overlay.Ipv4.Net
import Overlay.Json.Basic
import Overlay.Json.Decode
import Overlay.Json.Magnitude
import Overlay.Json.Network
import Overlay.Json.Printer
import Overlay.Json.Reader
import Overlay.Json.Text
import Overlay.Json.Token
import Overlay.KeyedMap
import Overlay.Mac
import Overlay.Main
import Overlay.Node.Basic
import Overlay.Node.Routing
import Overlay.Node.Walk
import Overlay.Placement.Basic
import Overlay.Placement.Deploy
import Overlay.Placement.HostConfig
import Overlay.Placement.Instruction
import Overlay.Placement.Plan
import Overlay.Session
import Overlay.Settings.Basic
import Overlay.Settings.Document
import Overlay.Snapshot.Basic
import Overlay.Snapshot.Check
import Overlay.Snapshot.Document
import Overlay.SubnetPool
import Overlay.Text.Decimal
import Overlay.Text.Hex
import Overlay.Text.Quoted
import Overlay.Topology.Basic
import Overlay.Topology.Dot
import Overlay.Topology.Shape
import Overlay.Yaml.Reader
import Overlay.Yaml.Scalar
import Overlay.Yaml.Token
import Overlay.Proofs.KeyedMap
import Overlay.Proofs.Snapshot.Walk
import Overlay.Proofs.Snapshot.Checks
import Overlay.Proofs.Snapshot.Tree
import Overlay.Proofs.Snapshot.Parent
import Overlay.Proofs.Placement.Scan
import Overlay.Proofs.Placement.Wiring
import Overlay.Proofs.Placement.Progress
import Overlay.Proofs.Placement.Outcome
import Overlay.Proofs.Placement.Ports
import Overlay.Proofs.Node
import Overlay.Proofs.Topology.Synthesis
import Overlay.Proofs.Snapshot.OfTree
import Overlay.Proofs.AddressPlan
import Overlay.Proofs.Topology.Construction
import Overlay.Proofs.Placement.Routes
import Overlay.Proofs.Placement.CatchAll
import Overlay.Proofs.Forwarding.Basic
import Overlay.Proofs.Forwarding.Delivery
import Overlay.Proofs.Topology.Generate
import Overlay.Proofs.Topology.Tables
import Overlay.Proofs.Placement.Egress
import Overlay.Proofs.Snapshot.Rebuild
import Overlay.Proofs.Json.Reader
import Overlay.Proofs.Json.Printer
import Overlay.Proofs.Json.Decode
import Overlay.Proofs.Ipv4
import Overlay.Proofs.Mac
import Overlay.Proofs.Snapshot.Document
import Overlay.Proofs.Placement.Deploy
import Overlay.Proofs.Placement.Safety
import Overlay.Proofs.Topology.Acceptance
import Overlay.Proofs.SubnetPool
import Overlay.Proofs.Allocator
import Overlay.Proofs.Snapshot.Rejection
import Overlay.Proofs.Topology.Chain
import Overlay.Proofs.Topology.Outcome
import Overlay.Proofs.Placement.Entries
import Overlay.Proofs.Snapshot.Collisions
import Overlay.Proofs.Topology.HostAddresses
import Overlay.Proofs.Placement.Plan
import Overlay.Proofs.Json.Spelling
import Overlay.Proofs.Snapshot.Spelling
import Overlay.Proofs.Placement.Hosts
import Overlay.Proofs.Placement.HostConfig
import Overlay.Proofs.Position
import Overlay.Proofs.Topology.Drawing
import Overlay.Proofs.Topology.Passes
import Overlay.Proofs.Command
import Overlay.Proofs.Counters
import Overlay.Proofs.Json.Mac
import Overlay.Proofs.Visits
import Overlay.Proofs.Traversal
