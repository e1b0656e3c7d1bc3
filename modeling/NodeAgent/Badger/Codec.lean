import NodeAgent.Protobuf
import NodeAgent.Jsonv1

/-!
# Stored records

`internal/adapters/badger/codec.go`: a placement and the identity of the node as they lie in the store, and
what is read back. A message stands for its encoding here. The states and the transport go through tables
that have every value the decoder of commands lets through. The protocol goes through a table with one
entry, and the decoder lets every text through.
-/

namespace NodeAgent.Badger

open Protobuf Jsonv1

/-! ## The messages -/

namespace Agentv1

inductive DesiredState
  | unspecified
  | active
  | inactive
  deriving DecidableEq, Repr

inductive AppliedState
  | unspecified
  | pending
  | applied
  | error
  deriving DecidableEq, Repr

inductive TransportKind
  | unspecified
  | ws
  | xhttp
  | tcp
  | reality
  deriving DecidableEq, Repr

inductive Protocol
  | unspecified
  | vless
  deriving DecidableEq, Repr

/-- The message `StoredPlacement` of `stored.proto`. -/
structure StoredPlacement where
  id : String
  keyID : String
  clientID : String
  nodeID : String
  backendNodeID : String
  opVersion : ℕ
  desiredState : DesiredState
  appliedState : AppliedState
  transport : TransportKind
  protocol : Protocol
  isRevoked : Bool
  validUntil : Option Timestamp
  updatedAt : Option Timestamp
  lastAppliedAt : Option Timestamp
  entryOverrideTag : String
  deriving DecidableEq, Repr

/-- The message `StoredIdentity` of `stored.proto`. -/
structure StoredIdentity where
  nodeID : String
  agentInstanceID : String
  authToken : String
  bootstrappedAt : Option Timestamp
  deriving DecidableEq, Repr

end Agentv1

/-! ## The tables -/

def desiredToProto : DesiredState → Agentv1.DesiredState
  | .active => .active
  | .inactive => .inactive
  | .unset => .unspecified

def desiredFromProto : Agentv1.DesiredState → DesiredState
  | .active => .active
  | .inactive => .inactive
  | .unspecified => .unset

def appliedToProto : AppliedState → Agentv1.AppliedState
  | .pending => .pending
  | .ok => .applied
  | .error => .error
  | .unset => .unspecified

def appliedFromProto : Agentv1.AppliedState → AppliedState
  | .pending => .pending
  | .applied => .ok
  | .error => .error
  | .unspecified => .unset

def transportToProto : TransportKind → Agentv1.TransportKind
  | .ws => .ws
  | .xhttp => .xhttp
  | .tcp => .tcp
  | .reality => .reality
  | .unset => .unspecified

def transportFromProto : Agentv1.TransportKind → TransportKind
  | .ws => .ws
  | .xhttp => .xhttp
  | .tcp => .tcp
  | .reality => .reality
  | .unspecified => .unset

/-- `domain.ProtocolVLESS`, the one protocol that the tables know. -/
def protocolVLESS : String := "vless"

/-- Every protocol but one is written as unspecified. -/
def protocolToProto (p : String) : Agentv1.Protocol :=
  if p = protocolVLESS then .vless else .unspecified

def protocolFromProto (p : Agentv1.Protocol) : String :=
  if p = .vless then protocolVLESS else ""

section Tables

@[simp] theorem desiredFromProto_desiredToProto (d : DesiredState) :
    desiredFromProto (desiredToProto d) = d := by
  cases d <;> rfl

@[simp] theorem appliedFromProto_appliedToProto (a : AppliedState) :
    appliedFromProto (appliedToProto a) = a := by
  cases a <;> rfl

@[simp] theorem transportFromProto_transportToProto (t : TransportKind) :
    transportFromProto (transportToProto t) = t := by
  cases t <;> rfl

theorem protocolFromProto_protocolToProto (p : String) :
    protocolFromProto (protocolToProto p) = if p = protocolVLESS then protocolVLESS else "" := by
  unfold protocolToProto protocolFromProto
  split_ifs with h <;> simp_all

end Tables

/-! ## Records -/

section Records

variable [Timestamps]

/-- The message that `marshalPlacement` encodes. -/
def marshalPlacement (p : Placement) : Agentv1.StoredPlacement where
  id := p.id
  keyID := p.keyID
  clientID := p.clientID
  nodeID := p.nodeID
  backendNodeID := p.backendNodeID
  opVersion := p.opVersion
  desiredState := desiredToProto p.desired
  appliedState := appliedToProto p.applied
  transport := transportToProto p.transport
  protocol := protocolToProto p.protocol
  isRevoked := p.isRevoked
  validUntil := timeToProto p.validUntil
  updatedAt := timeToProto p.updatedAt
  lastAppliedAt := timeToProto p.lastAppliedAt
  entryOverrideTag := p.entryOverrideTag

/-- The placement that `unmarshalPlacement` makes of a decoded message. -/
def unmarshalPlacement (pb : Agentv1.StoredPlacement) : Placement where
  id := pb.id
  keyID := pb.keyID
  clientID := pb.clientID
  nodeID := pb.nodeID
  backendNodeID := pb.backendNodeID
  opVersion := pb.opVersion
  desired := desiredFromProto pb.desiredState
  applied := appliedFromProto pb.appliedState
  transport := transportFromProto pb.transport
  protocol := protocolFromProto pb.protocol
  isRevoked := pb.isRevoked
  validUntil := timeFromProto pb.validUntil
  updatedAt := timeFromProto pb.updatedAt
  lastAppliedAt := timeFromProto pb.lastAppliedAt
  entryOverrideTag := pb.entryOverrideTag

theorem unmarshal_marshal (p : Placement) : unmarshalPlacement (marshalPlacement p) =
    { p with protocol := if p.protocol = protocolVLESS then protocolVLESS else "" } := by
  simp [unmarshalPlacement, marshalPlacement, protocolFromProto_protocolToProto]

theorem unmarshal_marshal_eq_iff (p : Placement) : unmarshalPlacement (marshalPlacement p) = p ↔
    p.protocol = "" ∨ p.protocol = protocolVLESS := by
  rw [unmarshal_marshal]
  constructor
  · intro h
    have hprotocol := congrArg Placement.protocol h
    dsimp only at hprotocol
    split_ifs at hprotocol with hvless
    · exact .inr hvless
    · exact .inl hprotocol.symm
  · intro h
    split_ifs with hvless
    · rw [← hvless]
    · rw [← h.resolve_right hvless]

/-- The message that `marshalIdentity` encodes. -/
def marshalIdentity (id : NodeIdentity) : Agentv1.StoredIdentity where
  nodeID := id.nodeID
  agentInstanceID := id.agentInstanceID
  authToken := id.authToken
  bootstrappedAt := timeToProto id.bootstrappedAt

/-- The identity that `unmarshalIdentity` makes of a decoded message. -/
def unmarshalIdentity (pb : Agentv1.StoredIdentity) : NodeIdentity where
  nodeID := pb.nodeID
  agentInstanceID := pb.agentInstanceID
  authToken := pb.authToken
  bootstrappedAt := timeFromProto pb.bootstrappedAt

theorem unmarshal_marshalIdentity (id : NodeIdentity) :
    unmarshalIdentity (marshalIdentity id) = id := by
  simp [unmarshalIdentity, marshalIdentity]

end Records

theorem protocol_unmarshalPlacementCommandEvent {parse : String → Except GoError Time}
    {dto : PlacementCommandDTO} {cmd : PlacementCommand}
    (h : unmarshalPlacementCommandEvent parse dto = .ok cmd) : cmd.placement.protocol = dto.protocol := by
  unfold unmarshalPlacementCommandEvent at h
  split_ifs at h
  obtain ⟨emittedAt, -, h⟩ := Lib.except_bind_ok h
  obtain ⟨validUntil, -, h⟩ := Lib.except_bind_ok h
  obtain ⟨updatedAt, -, h⟩ := Lib.except_bind_ok h
  cases h
  rfl

/-- The placement of an accepted command, with any outcome and time stamp, is read back as it was stored
exactly if the command names no protocol or the one that the table knows. -/
theorem stored_placement_reads_back_iff [Timestamps] {parse : String → Except GoError Time}
    {dto : PlacementCommandDTO} {cmd : PlacementCommand}
    (h : unmarshalPlacementCommandEvent parse dto = .ok cmd)
    (applied : AppliedState) (lastAppliedAt : Time) :
    unmarshalPlacement (marshalPlacement (cmd.placement.stamp applied lastAppliedAt)) =
        cmd.placement.stamp applied lastAppliedAt ↔
      dto.protocol = "" ∨ dto.protocol = protocolVLESS := by
  rw [unmarshal_marshal_eq_iff, ← protocol_unmarshalPlacementCommandEvent h]
  rfl

section Fixed

open scoped Eval

/-- A command with the given protocol. -/
def speaking (protocol : String) : PlacementCommandDTO where
  nodeID := "n"
  emittedAt := "2026-05-19T12:00:00Z"
  eventID := "e"
  placementID := "p"
  opVersion := 1
  desiredState := "active"
  protocol := protocol

/-- What the decoder makes of it when every time is read as the same instant. -/
def spoken (protocol : String) : PlacementCommand where
  eventID := "e"
  nodeID := "n"
  emittedAt := 1
  placement := { id := "p", nodeID := "n", opVersion := 1, desired := .active, protocol := protocol }

theorem unmarshal_speaking (protocol : String) :
    unmarshalPlacementCommandEvent (fun _ => .ok 1) (speaking protocol) = .ok (spoken protocol) := rfl

theorem stored_placement_reads_back_vless :
    unmarshalPlacement (marshalPlacement ((spoken "vless").placement.stamp .ok 5)) =
      (spoken "vless").placement.stamp .ok 5 :=
  (stored_placement_reads_back_iff (unmarshal_speaking "vless") .ok 5).mpr (.inr rfl)

/-- Another protocol is accepted and is lost. -/
theorem stored_placement_loses_protocol :
    unmarshalPlacementCommandEvent (fun _ => .ok 1) (speaking "trojan") = .ok (spoken "trojan") ∧
      (unmarshalPlacement (marshalPlacement ((spoken "trojan").placement.stamp .ok 5))).protocol = "" :=
  ⟨rfl, by decide⟩

end Fixed

end NodeAgent.Badger
