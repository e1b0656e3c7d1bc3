import NodeAgent.Ports

/-!
# The listener for upstream changes

`internal/app/backends/listener.go`, and the checks of `internal/wire/jsonv1/upstream.go` on a decoded
message: the events that add backends to the registry and remove them.
-/

namespace NodeAgent

namespace Jsonv1

/-- The JSON of an `upstream_changed` event, as `internal/wire/jsonv1` declares it. -/
structure UpstreamChangedDTO where
  eventID : String := ""
  nodeID : String := ""
  upstreamNodeID : String
  upstreamName : String := ""
  upstreamPublicHost : String := ""
  upstreamRealityIP : Option String := none
  upstreamInternalWgIP : Option String := none
  upstreamAgentPort : Option ℤ := none
  removed : Bool := false
  deriving DecidableEq, Repr

/-- `jsonv1.UpstreamChange`: what the decoder makes of the event. -/
structure UpstreamChange where
  eventID : String
  nodeID : NodeID
  backendID : BackendID
  backendName : String
  publicDomain : String
  realityIP : String
  internalWgIP : String
  agentPort : ℕ
  removed : Bool
  deriving DecidableEq, Repr

/-- `UnmarshalUpstreamChanged` on a message that is JSON of the right shape. -/
def unmarshalUpstreamChanged (dto : UpstreamChangedDTO) : Except GoError UpstreamChange :=
  if dto.upstreamNodeID = "" then
    .error (.new "jsonv1: upstream_changed missing upstream_node_id")
  else .ok {
    eventID := dto.eventID
    nodeID := dto.nodeID
    backendID := dto.upstreamNodeID
    backendName := dto.upstreamName
    publicDomain := dto.upstreamPublicHost
    realityIP := dto.upstreamRealityIP.getD ""
    internalWgIP := dto.upstreamInternalWgIP.getD ""
    agentPort := match dto.upstreamAgentPort with
      | some n => if 0 < n ∧ n ≤ 65535 then n.toNat else 0
      | none => 0
    removed := dto.removed }

end Jsonv1

open Jsonv1

/-- The listener's configuration; `NewListener` requires the default port. -/
structure Listener where
  nodeID : NodeID
  port : ℕ
  transport : TransportKind := .unset
  port_ne : port ≠ 0

namespace Listener

variable (l : Listener)

/-- `Listener.buildSpec`: the mesh address is preferred to the reality IP, and that to the domain. -/
def buildSpec (change : UpstreamChange) : BackendSpec where
  id := change.backendID
  name := change.backendName
  address :=
    let addr := change.internalWgIP
    let addr := if addr = "" then change.realityIP else addr
    if addr = "" then change.publicDomain else addr
  port := l.port
  serverName := change.publicDomain
  transport := l.transport

/-- `Handle`; the message is what the decoder makes of the data. -/
def handle (msg : Except GoError UpstreamChange) (reg : Registry) : Err × Registry :=
  match msg with
  | .error err => (some err, reg)
  | .ok change =>
    if change.nodeID ≠ l.nodeID then (none, reg)
    else if change.removed then (none, (reg.remove change.backendID).1)
    else (none, (reg.upsert (l.buildSpec change)).1)

end Listener

end NodeAgent
