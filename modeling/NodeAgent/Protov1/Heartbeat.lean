import NodeAgent.Protobuf

/-!
# Heartbeats over protobuf

`internal/domain/heartbeat.go` and `internal/wire/protov1/heartbeat.go`. The metrics are of any type `F`,
the codec only copies them. The message has no field for the mesh section.
-/

namespace NodeAgent

/-! ## The heartbeat -/

structure HeartbeatMeshPeer where
  publicKey : String
  handshakeAgeSec : ℕ := 0
  handshakeOK : Bool := false
  rxBytes : ℤ := 0
  txBytes : ℤ := 0
  deriving DecidableEq, Repr

/-- The section about the mesh, for which the message has no field. -/
structure HeartbeatMesh where
  peersTotal : ℕ := 0
  peersHealthy : ℕ := 0
  oldestHandshakeAgeSec : ℕ := 0
  peers : List HeartbeatMeshPeer := []
  deriving DecidableEq, Repr

structure HeartbeatPool where
  slotsTotal : ℕ := 0
  slotsActive : ℕ := 0
  desiredBackends : ℕ := 0
  droppedOverflow : ℕ := 0
  lastApplyOk : Bool := false
  lastApplyError : String := ""
  consecutiveApplyFailures : ℕ := 0
  lastAppliedGeneration : ℕ := 0
  lastAppliedAt : Time := 0
  deriving DecidableEq, Repr

structure HeartbeatUpstream where
  configured : Bool := false
  lastApplyOk : Bool := false
  lastApplyError : String := ""
  consecutiveApplyFailures : ℕ := 0
  upstreamNodeID : String := ""
  upstreamHost : String := ""
  upstreamAddr : String := ""
  lastAppliedAt : Time := 0
  deriving DecidableEq, Repr

/-- `domain.Heartbeat`; its time is the field `At`. -/
structure Heartbeat (F : Type) where
  nodeID : NodeID
  emittedAt : Time
  isHealthy : Bool := false
  ready : Bool := false
  lastError : String := ""
  pollCount : ℕ := 0
  applied : ℕ := 0
  failed : ℕ := 0
  cpuPct : Option F := none
  memPct : Option F := none
  bandwidthPct : Option F := none
  pool : Option HeartbeatPool := none
  upstream : Option HeartbeatUpstream := none
  mesh : Option HeartbeatMesh := none
  deriving DecidableEq, Repr

namespace Protov1

open Protobuf

/-! ## The message -/

structure HeartbeatPoolHealth where
  slotsTotal : ℕ
  slotsActive : ℕ
  desiredBackends : ℕ
  droppedOverflow : ℕ
  lastApplyOk : Bool
  lastApplyError : Option String
  consecutiveApplyFailures : ℕ
  lastAppliedGeneration : ℕ
  lastAppliedAt : Option Timestamp

structure HeartbeatUpstreamHealth where
  configured : Bool
  lastApplyOk : Bool
  lastApplyError : Option String
  consecutiveApplyFailures : ℕ
  upstreamNodeID : Option String
  upstreamHost : Option String
  upstreamAddr : Option String
  lastAppliedAt : Option Timestamp

/-- The message `HeartbeatEvent`. -/
structure HeartbeatEvent (F : Type) where
  schemaVersion : ℕ := 1
  eventID : String
  nodeID : String
  emittedAt : Option Timestamp
  agentVersion : String
  isHealthy : Bool
  ready : Bool
  lastError : Option String
  pollCount : ℕ
  applied : ℕ
  failed : ℕ
  cpuPct : Option F
  memPct : Option F
  bandwidthPct : Option F
  pool : Option HeartbeatPoolHealth
  upstream : Option HeartbeatUpstreamHealth

/-! ## Encoding -/

section Codec

variable [Timestamps]

def poolToProto (p : HeartbeatPool) : HeartbeatPoolHealth where
  slotsTotal := p.slotsTotal
  slotsActive := p.slotsActive
  desiredBackends := p.desiredBackends
  droppedOverflow := p.droppedOverflow
  lastApplyOk := p.lastApplyOk
  lastApplyError := stringToProto p.lastApplyError
  consecutiveApplyFailures := p.consecutiveApplyFailures
  lastAppliedGeneration := p.lastAppliedGeneration
  lastAppliedAt := timeToProto p.lastAppliedAt

def upstreamHealthToProto (u : HeartbeatUpstream) : HeartbeatUpstreamHealth where
  configured := u.configured
  lastApplyOk := u.lastApplyOk
  lastApplyError := stringToProto u.lastApplyError
  consecutiveApplyFailures := u.consecutiveApplyFailures
  upstreamNodeID := stringToProto u.upstreamNodeID
  upstreamHost := stringToProto u.upstreamHost
  upstreamAddr := stringToProto u.upstreamAddr
  lastAppliedAt := timeToProto u.lastAppliedAt

variable {F : Type}

/-- The event that `MarshalHeartbeatEvent` encodes. -/
def heartbeatEvent (h : Heartbeat F) (eventID agentVersion : String) : HeartbeatEvent F where
  eventID := eventID
  nodeID := h.nodeID
  emittedAt := timeToProto h.emittedAt
  agentVersion := agentVersion
  isHealthy := h.isHealthy
  ready := h.ready
  lastError := stringToProto h.lastError
  pollCount := h.pollCount
  applied := h.applied
  failed := h.failed
  cpuPct := h.cpuPct
  memPct := h.memPct
  bandwidthPct := h.bandwidthPct
  pool := h.pool.map poolToProto
  upstream := h.upstream.map upstreamHealthToProto

/-- `MarshalHeartbeatEvent`: the checks come first. -/
def marshalHeartbeatEvent (h : Heartbeat F) (eventID agentVersion : String) :
    Except GoError (HeartbeatEvent F) :=
  if eventID = "" then .error (.new "protov1: event_id required")
  else if h.nodeID = "" then .error (.new "protov1: node_id required")
  else if h.emittedAt = 0 then .error (.new "protov1: At required")
  else .ok (heartbeatEvent h eventID agentVersion)

/-! ## Decoding -/

def poolFromProto (pb : HeartbeatPoolHealth) : HeartbeatPool where
  slotsTotal := pb.slotsTotal
  slotsActive := pb.slotsActive
  desiredBackends := pb.desiredBackends
  droppedOverflow := pb.droppedOverflow
  lastApplyOk := pb.lastApplyOk
  lastApplyError := pb.lastApplyError.getD ""
  consecutiveApplyFailures := pb.consecutiveApplyFailures
  lastAppliedGeneration := pb.lastAppliedGeneration
  lastAppliedAt := timeFromProto pb.lastAppliedAt

def upstreamHealthFromProto (pb : HeartbeatUpstreamHealth) : HeartbeatUpstream where
  configured := pb.configured
  lastApplyOk := pb.lastApplyOk
  lastApplyError := pb.lastApplyError.getD ""
  consecutiveApplyFailures := pb.consecutiveApplyFailures
  upstreamNodeID := pb.upstreamNodeID.getD ""
  upstreamHost := pb.upstreamHost.getD ""
  upstreamAddr := pb.upstreamAddr.getD ""
  lastAppliedAt := timeFromProto pb.lastAppliedAt

/-- `UnmarshalHeartbeatEvent`, with what the clock reads; it also returns the event id and the version. -/
def unmarshalHeartbeatEvent (now : Time) (pb : HeartbeatEvent F) : Heartbeat F × String × String :=
  let emittedAt := timeFromProto pb.emittedAt
  ({ nodeID := pb.nodeID
     emittedAt := if emittedAt = 0 then now else emittedAt
     isHealthy := pb.isHealthy
     ready := pb.ready
     lastError := pb.lastError.getD ""
     pollCount := pb.pollCount
     applied := pb.applied
     failed := pb.failed
     cpuPct := pb.cpuPct
     memPct := pb.memPct
     bandwidthPct := pb.bandwidthPct
     pool := pb.pool.map poolFromProto
     upstream := pb.upstream.map upstreamHealthFromProto }, pb.eventID, pb.agentVersion)

/-! ## The round trip -/

@[simp] theorem poolFromProto_poolToProto (p : HeartbeatPool) : poolFromProto (poolToProto p) = p := by
  simp [poolFromProto, poolToProto]

@[simp] theorem upstreamHealthFromProto_upstreamHealthToProto (u : HeartbeatUpstream) :
    upstreamHealthFromProto (upstreamHealthToProto u) = u := by
  simp [upstreamHealthFromProto, upstreamHealthToProto]

theorem unmarshal_heartbeatEvent {h : Heartbeat F} (hat : h.emittedAt ≠ 0) (eventID agentVersion : String)
    (now : Time) : unmarshalHeartbeatEvent now (heartbeatEvent h eventID agentVersion) =
      ({ h with mesh := none }, eventID, agentVersion) := by
  have hpool : poolFromProto ∘ poolToProto = id := funext poolFromProto_poolToProto
  have hupstream : upstreamHealthFromProto ∘ upstreamHealthToProto = id :=
    funext upstreamHealthFromProto_upstreamHealthToProto
  simp [unmarshalHeartbeatEvent, heartbeatEvent, hat, Option.map_map, hpool, hupstream]

theorem marshalHeartbeatEvent_ok {h : Heartbeat F} {eventID agentVersion : String} {pb : HeartbeatEvent F}
    (hpb : marshalHeartbeatEvent h eventID agentVersion = .ok pb) :
    h.emittedAt ≠ 0 ∧ pb = heartbeatEvent h eventID agentVersion := by
  unfold marshalHeartbeatEvent at hpb
  split_ifs at hpb with hevent hnode hat
  cases hpb
  exact ⟨hat, rfl⟩

/-- A heartbeat that is accepted comes back, with its event id and version, exactly if it has no mesh
section. -/
theorem heartbeat_round_trip_iff {h : Heartbeat F} {eventID agentVersion : String} {pb : HeartbeatEvent F}
    (hpb : marshalHeartbeatEvent h eventID agentVersion = .ok pb) (now : Time) :
    unmarshalHeartbeatEvent now pb = (h, eventID, agentVersion) ↔ h.mesh = none := by
  obtain ⟨hat, rfl⟩ := marshalHeartbeatEvent_ok hpb
  rw [unmarshal_heartbeatEvent hat, Prod.mk.injEq, and_iff_left rfl]
  constructor
  · intro heq
    exact (congrArg Heartbeat.mesh heq).symm
  · intro hmesh
    rw [← hmesh]

end Codec

section Fixed

open scoped Eval

/-- A heartbeat with every section but the mesh. -/
def beat : Heartbeat ℕ where
  nodeID := "n"
  emittedAt := 63914745600000000000
  lastError := "prev failed"
  cpuPct := some 13
  pool := some { slotsTotal := 4, lastAppliedAt := 63914745595000000000 }
  upstream := some { configured := true, upstreamNodeID := "praha-02" }

/-- The same from a node with a mesh. -/
def meshBeat : Heartbeat ℕ := { beat with mesh := some { peersTotal := 1, peers := [{ publicKey := "k" }] } }

theorem heartbeat_round_trip_beat :
    unmarshalHeartbeatEvent 0 (heartbeatEvent beat "evt-1" "1.2.3") = (beat, "evt-1", "1.2.3") :=
  (heartbeat_round_trip_iff (rfl : marshalHeartbeatEvent beat "evt-1" "1.2.3" = .ok _) 0).mpr rfl

/-- The event is accepted, and its mesh section is not in what comes back. -/
theorem heartbeat_loses_mesh :
    marshalHeartbeatEvent meshBeat "evt-1" "1.2.3" = .ok (heartbeatEvent meshBeat "evt-1" "1.2.3") ∧
      unmarshalHeartbeatEvent 0 (heartbeatEvent meshBeat "evt-1" "1.2.3") = (beat, "evt-1", "1.2.3") ∧
      meshBeat ≠ beat :=
  ⟨rfl, by decide, by decide⟩

end Fixed

end Protov1

end NodeAgent
