import NodeAgent.Jsonv1
import NodeAgent.Lib.Codec

/-!
# The items of a snapshot chunk

`UnmarshalSnapshotChunkEvent` of `internal/wire/jsonv1`, on JSON. It decodes a chunk with its items,
writes every item as JSON again, and decodes that as a command. A field that were not written, or were
written under another name, would be lost on the way. None is: an item means what the same JSON means
when it comes as a command of its own.
-/

namespace NodeAgent.Jsonv1

open Lib

variable [Folding]

/-! ## The records -/

/-- `placementCommandDTO`, with the two fields that nothing reads. -/
structure CommandRecord where
  schemaVersion : ℤ
  epoch : Option ℕ
  dto : PlacementCommandDTO
  deriving DecidableEq, Repr

/-- The members of `placementCommandDTO`, by their tags. -/
def commandFields : Fields CommandRecord :=
  ((Fields.field "schema_version" .int64).prod <|
    (Fields.field "node_id" .str).prod <|
    (Fields.field "emitted_at" .str).prod <|
    (Fields.optional "snapshot_id" .str).prod <|
    (Fields.optional "epoch" (.uint 64)).prod <|
    (Fields.field "event_id" .str).prod <|
    (Fields.field "placement_id" .str).prod <|
    (Fields.field "key_id" .str).prod <|
    (Fields.field "op_version" (.uint 64)).prod <|
    (Fields.field "desired_state" .str).prod <|
    (Fields.field "backend_node_id" .str).prod <|
    (Fields.field "protocol" .str).prod <|
    (Fields.field "transport" .str).prod <|
    (Fields.field "client_id" .str).prod <|
    (Fields.field "is_revoked" .bool).prod <|
    (Fields.field "snapshot_complete" .bool).prod <|
    (Fields.optional "valid_until" .str).prod <|
    (Fields.optional "updated_at" .str).prod <|
    Fields.optional "entry_routing_override_backend_tag" .str).map
  (fun (schemaVersion, nodeID, emittedAt, snapshotID, epoch, eventID, placementID, keyID, opVersion,
      desiredState, backendNodeID, protocol, transport, clientID, isRevoked, snapshotComplete,
      validUntil, updatedAt, entryOverrideTag) =>
    ⟨schemaVersion, epoch, ⟨nodeID, emittedAt, snapshotID, eventID, placementID, keyID, opVersion,
      desiredState, backendNodeID, protocol, transport, clientID, isRevoked, snapshotComplete,
      validUntil, updatedAt, entryOverrideTag⟩⟩)
  (fun r => (r.schemaVersion, r.dto.nodeID, r.dto.emittedAt, r.dto.snapshotID, r.epoch, r.dto.eventID,
    r.dto.placementID, r.dto.keyID, r.dto.opVersion, r.dto.desiredState, r.dto.backendNodeID,
    r.dto.protocol, r.dto.transport, r.dto.clientID, r.dto.isRevoked, r.dto.snapshotComplete,
    r.dto.validUntil, r.dto.updatedAt, r.dto.entryOverrideTag))

def placementCommand : Codec CommandRecord := commandFields.obj

/-- `snapshotChunkDTO`, with the two fields that nothing reads. -/
structure ChunkRecord where
  schemaVersion : ℕ
  nodeID : String
  emittedAt : String
  snapshotID : Option String
  epoch : Option ℕ
  chunkIndex : ℕ
  isLastChunk : Bool
  items : List CommandRecord
  deriving DecidableEq, Repr

/-- The members of `snapshotChunkDTO`, by their tags. -/
def chunkFields : Fields ChunkRecord :=
  ((Fields.field "schema_version" (.uint 32)).prod <|
    (Fields.field "node_id" .str).prod <|
    (Fields.field "emitted_at" .str).prod <|
    (Fields.optional "snapshot_id" .str).prod <|
    (Fields.optional "epoch" (.uint 64)).prod <|
    (Fields.field "chunk_index" (.uint 32)).prod <|
    (Fields.field "is_last_chunk" .bool).prod <|
    Fields.field "items" (.list placementCommand)).map
  (fun (schemaVersion, nodeID, emittedAt, snapshotID, epoch, chunkIndex, isLastChunk, items) =>
    ⟨schemaVersion, nodeID, emittedAt, snapshotID, epoch, chunkIndex, isLastChunk, items⟩)
  (fun r => (r.schemaVersion, r.nodeID, r.emittedAt, r.snapshotID, r.epoch, r.chunkIndex,
    r.isLastChunk, r.items))

def snapshotChunk : Codec ChunkRecord := chunkFields.obj

/-- Without the fields that nothing reads. -/
def ChunkRecord.dto (r : ChunkRecord) : SnapshotChunkDTO where
  nodeID := r.nodeID
  emittedAt := r.emittedAt
  snapshotID := r.snapshotID
  chunkIndex := r.chunkIndex
  isLastChunk := r.isLastChunk
  items := r.items.map CommandRecord.dto

/-! ## The decoders -/

section Decode

-- `time.Parse`, and what `encoding/json` says about JSON that it cannot decode
variable (parse : String → Except GoError Time) (decodeErr : Doc → GoError)

/-- `UnmarshalPlacementCommandEvent` -/
def commandOfJson (d : Doc) : Except GoError Command :=
  match placementCommand.decode d with
  | none => .error (.wrap "jsonv1: decode placement command" (decodeErr d))
  | some r => decodeCommand parse r.dto

/-- The loop over the items: each is written and read again. -/
def remarshalItems : ℕ → List CommandRecord → Except GoError (List Command)
  | _, [] => .ok []
  | i, item :: items => do
    let raw := placementCommand.encode item
    let cmd ←
      (commandOfJson parse decodeErr raw).mapError (.wrap ("jsonv1: snapshot item " ++ toString i))
    let cmds ← remarshalItems (i + 1) items
    return cmd :: cmds

/-- What both ways of decoding a chunk have in common: the checks before and after the items. -/
def chunkOf (r : ChunkRecord) (items : Except GoError (List Command)) : Except GoError SnapshotChunk :=
  if r.nodeID = "" then .error (.new "jsonv1: snapshot chunk missing node_id")
  else do
    let emittedAt ←
      (parseTime parse r.emittedAt).mapError (.wrap "jsonv1: snapshot chunk emitted_at")
    let items ← items
    return {
      nodeID := r.nodeID
      emittedAt := emittedAt
      snapshotID := r.snapshotID.getD ""
      chunkIndex := r.chunkIndex
      isLastChunk := r.isLastChunk
      items := items }

/-- `UnmarshalSnapshotChunkEvent` -/
def chunkOfJson (d : Doc) : Except GoError SnapshotChunk :=
  match snapshotChunk.decode d with
  | none => .error (.wrap "jsonv1: decode snapshot_chunk" (decodeErr d))
  | some r => chunkOf parse r (remarshalItems parse decodeErr 0 r.items)

/-! ## Items as commands -/

/-- The members of a message that are read as its items. -/
def itemsMembers : Doc → List (String × Doc)
  | .obj members => members.filter fun m => Fields.resolve chunkFields.names m.1 = some "items"
  | _ => []

/-- The items as they stand in a message where at most one member is read as its items. -/
def rawItems (d : Doc) : List Doc :=
  (itemsMembers d).flatMap fun m =>
    match m.2 with
    | .arr ds => ds
    | _ => []

/-- The items as commands that came on their own. -/
def commandsOfJson : ℕ → List Doc → Except GoError (List Command)
  | _, [] => .ok []
  | i, d :: ds => do
    let cmd ←
      (commandOfJson parse decodeErr d).mapError (.wrap ("jsonv1: snapshot item " ++ toString i))
    let cmds ← commandsOfJson (i + 1) ds
    return cmd :: cmds

variable {parse decodeErr}

theorem commandOfJson_of_decode {d : Doc} {r : CommandRecord}
    (h : placementCommand.decode d = some r) :
    commandOfJson parse decodeErr d = decodeCommand parse r.dto := by
  rw [commandOfJson, h]

theorem remarshalItems_eq {items : List CommandRecord} (h : ∀ r ∈ items, placementCommand.Valid r)
    (i : ℕ) :
    remarshalItems parse decodeErr i items = decodeItems parse i (items.map CommandRecord.dto) := by
  induction items generalizing i with
  | nil => rfl
  | cons r items ih =>
    obtain ⟨hr, hitems⟩ := List.forall_mem_cons.mp h
    rw [remarshalItems, commandOfJson_of_decode (placementCommand.decode_encode hr), ih hitems]
    rfl

theorem commandsOfJson_eq {ds : List Doc} {items : List CommandRecord}
    (h : ds.mapM placementCommand.decode = some items) (i : ℕ) :
    commandsOfJson parse decodeErr i ds = decodeItems parse i (items.map CommandRecord.dto) := by
  induction ds generalizing items i with
  | nil =>
    cases h
    rfl
  | cons d ds ih =>
    rw [List.mapM_cons] at h
    obtain ⟨r, hr, h⟩ := Option.bind_eq_some_iff.mp h
    obtain ⟨items, hitems, heq⟩ := Option.bind_eq_some_iff.mp h
    cases heq
    rw [commandsOfJson, commandOfJson_of_decode hr, ih hitems]
    rfl

/-- The items are the last of the eight fields. -/
def itemsAt : chunkFields.At "items" (.list placementCommand) :=
  (Fields.At.field.right (by decide) |>.right (by decide) |>.right (by decide) |>.right (by decide)
    |>.right (by decide) |>.right (by decide) |>.right (by decide)).map

theorem valid_items {d : Doc} {r : ChunkRecord} (h : snapshotChunk.decode d = some r) :
    ∀ item ∈ r.items, placementCommand.Valid item :=
  (snapshotChunk.valid_of_decode h).2.2.2.2.2.2.2

theorem mapM_rawItems {d : Doc} {r : ChunkRecord} (h : snapshotChunk.decode d = some r)
    (hone : (itemsMembers d).length ≤ 1) :
    (rawItems d).mapM placementCommand.decode = some r.items := by
  obtain ⟨x, hx, rfl⟩ := Option.map_eq_some_iff.mp h
  cases d with
  | obj members =>
    have hitems : storeAll (fun _ => (Codec.list placementCommand).store) (itemsMembers (.obj members))
        (Codec.list placementCommand).zero = some (itemsAt.cell x) := itemsAt.storeAll_own hx
    unfold rawItems
    generalize itemsMembers (.obj members) = own at hitems hone ⊢
    match own, hone with
    | [], _ =>
      have hcell : (Codec.list placementCommand).zero = itemsAt.cell x := Option.some.inj hitems
      exact congrArg some (congrArg (Codec.list placementCommand).value hcell)
    | [(key, d)], _ =>
      have hstore : placementCommand.storeList d ([], 0) = some (itemsAt.cell x) :=
        (Option.bind_fun_some _).symm.trans hitems
      cases d with
      | arr ds =>
        rw [List.flatMap_singleton, ← placementCommand.storeList_arr ds, hstore]
        rfl
      | null => exact congrArg (Option.map placementCommand.elems) hstore
      | _ => cases hstore
  | null =>
    cases hx
    rfl
  | _ => cases hx

/-- Whatever the message, writing the items and reading them again changes nothing. If only one member of
it is read as the items, they are what the same JSON gives as commands of their own, and where one of
them is rejected, the chunk is rejected as that command is. -/
theorem chunk_items_are_commands (parse : String → Except GoError Time) (decodeErr : Doc → GoError)
    (d : Doc) :
    match snapshotChunk.decode d with
    | none =>
      chunkOfJson parse decodeErr d =
        .error (.wrap "jsonv1: decode snapshot_chunk" (decodeErr d))
    | some r =>
      chunkOfJson parse decodeErr d = unmarshalSnapshotChunkEvent parse r.dto ∧
        ((itemsMembers d).length ≤ 1 →
          chunkOfJson parse decodeErr d =
            chunkOf parse r (commandsOfJson parse decodeErr 0 (rawItems d))) := by
  unfold chunkOfJson
  rcases h : snapshotChunk.decode d with _ | r
  · rfl
  · dsimp only
    rw [remarshalItems_eq (valid_items h)]
    refine ⟨rfl, fun hone => ?_⟩
    rw [commandsOfJson_eq (mapM_rawItems h hone)]

end Decode

end NodeAgent.Jsonv1
