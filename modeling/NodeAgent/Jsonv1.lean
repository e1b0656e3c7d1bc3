import NodeAgent.Ports

/-!
# The JSON wire format, after the JSON parser

`internal/wire/jsonv1`: the checks on a decoded placement command and snapshot chunk, and on a
report before it is encoded. `time.Parse` is a parameter.
-/

namespace NodeAgent.Jsonv1

/-- The JSON of a placement command, as `internal/wire/jsonv1` declares it. -/
structure PlacementCommandDTO where
  nodeID : String
  emittedAt : String
  snapshotID : Option String := none
  eventID : String
  placementID : String
  keyID : String := ""
  opVersion : ℕ
  desiredState : String
  backendNodeID : String := ""
  protocol : String := ""
  transport : String := ""
  clientID : String := ""
  isRevoked : Bool := false
  snapshotComplete : Bool := false
  validUntil : Option String := none
  updatedAt : Option String := none
  entryOverrideTag : Option String := none
  deriving DecidableEq, Repr

/-- `domain.DesiredState(s)`; every text that is not a state reads as the invalid one. -/
def desiredState (s : String) : DesiredState :=
  if s = "active" then .active else if s = "inactive" then .inactive else .unset

/-- `domain.TransportKind(s)`. -/
def transportKind (s : String) : TransportKind :=
  if s = "tcp" then .tcp else if s = "ws" then .ws else if s = "xhttp" then .xhttp
  else if s = "reality" then .reality else .unset

section Unmarshal

variable (parse : String → Except GoError Time)

/-- `parseTime`: an empty text is an error. -/
def parseTime (s : String) : Except GoError Time :=
  if s = "" then .error (.new "empty time") else parse s

def parseOptTime : Option String → Except GoError Time
  | none => .ok 0
  | some s => if s = "" then .ok 0 else parseTime parse s

/-- `UnmarshalPlacementCommandEvent` on a message that is JSON of the right shape. -/
def unmarshalPlacementCommandEvent (dto : PlacementCommandDTO) : Except GoError PlacementCommand :=
  if dto.eventID = "" ∨ dto.placementID = "" ∨ dto.nodeID = "" then
    .error (.new ("jsonv1: placement command missing required ids (event_id=" ++
      quote dto.eventID ++ " placement_id=" ++ quote dto.placementID ++ " node_id=" ++
      quote dto.nodeID ++ ")"))
  else if dto.opVersion = 0 then
    .error (.new "jsonv1: placement command op_version must be >= 1")
  else if (desiredState dto.desiredState).valid = false then
    .error (.new ("jsonv1: invalid desired_state " ++ quote dto.desiredState))
  else if dto.transport ≠ "" ∧ (transportKind dto.transport).valid = false then
    .error (.new ("jsonv1: invalid transport " ++ quote dto.transport))
  else do
    let emittedAt ← (parseTime parse dto.emittedAt).mapError (.wrap "jsonv1: emitted_at")
    let validUntil ← (parseOptTime parse dto.validUntil).mapError (.wrap "jsonv1: valid_until")
    let updatedAt ← (parseOptTime parse dto.updatedAt).mapError (.wrap "jsonv1: updated_at")
    return {
      eventID := dto.eventID
      nodeID := dto.nodeID
      emittedAt := emittedAt
      snapshotID := dto.snapshotID.getD ""
      snapshotComplete := dto.snapshotComplete
      placement := {
        id := dto.placementID
        keyID := dto.keyID
        clientID := dto.clientID
        nodeID := dto.nodeID
        backendNodeID := dto.backendNodeID
        opVersion := dto.opVersion
        desired := desiredState dto.desiredState
        protocol := dto.protocol
        transport := transportKind dto.transport
        isRevoked := dto.isRevoked
        validUntil := validUntil
        updatedAt := updatedAt
        entryOverrideTag := dto.entryOverrideTag.getD "" } }

theorem unmarshalPlacementCommandEvent_accepted {dto : PlacementCommandDTO} {c : PlacementCommand}
    (h : unmarshalPlacementCommandEvent parse dto = .ok c) : c.Accepted := by
  unfold unmarshalPlacementCommandEvent at h
  split_ifs at h with hids hop hdes htr
  rw [not_or, not_or] at hids
  obtain ⟨he, hp, hn⟩ := hids
  obtain ⟨emittedAt, -, h⟩ := Lib.except_bind_ok h
  obtain ⟨validUntil, -, h⟩ := Lib.except_bind_ok h
  obtain ⟨updatedAt, -, h⟩ := Lib.except_bind_ok h
  cases h
  exact ⟨he, hp, hn, rfl, Nat.one_le_iff_ne_zero.mpr hop, by simpa using hdes, rfl, rfl⟩

/-- The decoder as the handlers see it. -/
def decodeCommand (dto : PlacementCommandDTO) : Except GoError Command :=
  match h : unmarshalPlacementCommandEvent parse dto with
  | .ok c => .ok ⟨c, unmarshalPlacementCommandEvent_accepted parse h⟩
  | .error err => .error err

/-! ## The data of a command message -/

/-- What `json.Unmarshal` makes of the data of a command message: into the struct that has only the id, and
into the whole one. Both read the same id. -/
structure CommandData where
  placementID : Except GoError String
  dto : Except GoError PlacementCommandDTO
  sameID : ∀ d, dto = .ok d → placementID = .ok d.placementID

/-- `PlacementIDFromCommandEvent`. -/
def placementIDFromCommandEvent (data : CommandData) : Except GoError String := data.placementID

/-- `UnmarshalPlacementCommandEvent` with its JSON parser. -/
def commandFromData (data : CommandData) : Except GoError Command :=
  match data.dto with
  | .error err => .error (.wrap "jsonv1: decode placement command" err)
  | .ok dto => decodeCommand parse dto

theorem unmarshalPlacementCommandEvent_id {dto : PlacementCommandDTO} {c : PlacementCommand}
    (h : unmarshalPlacementCommandEvent parse dto = .ok c) : c.placement.id = dto.placementID := by
  unfold unmarshalPlacementCommandEvent at h
  split_ifs at h
  obtain ⟨emittedAt, -, h⟩ := Lib.except_bind_ok h
  obtain ⟨validUntil, -, h⟩ := Lib.except_bind_ok h
  obtain ⟨updatedAt, -, h⟩ := Lib.except_bind_ok h
  cases h
  rfl

theorem decodeCommand_val {dto : PlacementCommandDTO} {cmd : Command}
    (h : decodeCommand parse dto = .ok cmd) :
    unmarshalPlacementCommandEvent parse dto = .ok cmd.val := by
  unfold decodeCommand at h
  split at h
  · rename_i c hc
    cases h
    exact hc
  · cases h

/-- The id is the one that was read first. -/
theorem commandFromData_id {data : CommandData} {cmd : Command}
    (h : commandFromData parse data = .ok cmd) :
    placementIDFromCommandEvent data = .ok cmd.placement.id := by
  unfold commandFromData at h
  cases hdto : data.dto with
  | error err =>
    rw [hdto] at h
    cases h
  | ok dto =>
    rw [hdto] at h
    have hid : cmd.placement.id = dto.placementID :=
      unmarshalPlacementCommandEvent_id parse (decodeCommand_val parse h)
    rw [hid]
    exact data.sameID dto hdto

/-! ## Snapshot chunks -/

/-- The JSON of a chunk of a snapshot. -/
structure SnapshotChunkDTO where
  nodeID : String
  emittedAt : String
  snapshotID : Option String := none
  chunkIndex : ℕ
  isLastChunk : Bool := false
  items : List PlacementCommandDTO := []
  deriving DecidableEq, Repr

/-- `jsonv1.SnapshotChunk`. -/
structure SnapshotChunk where
  nodeID : NodeID
  emittedAt : Time := 0
  snapshotID : String
  chunkIndex : ℕ
  isLastChunk : Bool := false
  items : List Command := []

/-- The loop of `UnmarshalSnapshotChunkEvent` over the items, from the given index. -/
def decodeItems : ℕ → List PlacementCommandDTO → Except GoError (List Command)
  | _, [] => .ok []
  | i, dto :: dtos => do
    let cmd ← (decodeCommand parse dto).mapError (.wrap ("jsonv1: snapshot item " ++ toString i))
    let cmds ← decodeItems (i + 1) dtos
    return cmd :: cmds

/-- `UnmarshalSnapshotChunkEvent` on a message that is JSON of the right shape. -/
def unmarshalSnapshotChunkEvent (dto : SnapshotChunkDTO) : Except GoError SnapshotChunk :=
  if dto.nodeID = "" then .error (.new "jsonv1: snapshot chunk missing node_id")
  else do
    let emittedAt ←
      (parseTime parse dto.emittedAt).mapError (.wrap "jsonv1: snapshot chunk emitted_at")
    let items ← decodeItems parse 0 dto.items
    return {
      nodeID := dto.nodeID
      emittedAt := emittedAt
      snapshotID := dto.snapshotID.getD ""
      chunkIndex := dto.chunkIndex
      isLastChunk := dto.isLastChunk
      items := items }

end Unmarshal

/-! ## Reports -/

/-- The checks of `MarshalApplyResultEvent`. -/
def marshalApplyResultEvent (r : PlacementReport) (eventID : String) : Except GoError Message :=
  if eventID = "" then .error (.new "jsonv1: event_id required")
  else if r.placementID = "" ∨ r.nodeID = "" then .error (.new "jsonv1: result missing ids")
  else if r.opVersion = 0 then .error (.new "jsonv1: result op_version must be >= 1")
  else if r.appliedState.valid = false then
    .error (.new ("jsonv1: invalid applied_state " ++ quote ""))
  else .ok (.applyResult eventID r)

/-- The checks of `MarshalSyncReportEvent`. -/
def marshalSyncReportEvent (r : SyncReport) : Except GoError Message :=
  if r.eventID = "" then .error (.new "jsonv1: sync_report event_id required")
  else if r.nodeID = "" then .error (.new "jsonv1: sync_report node_id required")
  else .ok (.syncReport r)

end NodeAgent.Jsonv1
