import NodeAgent.Jsonv1
import NodeAgent.Lib.Group

/-!
# The snapshot consumer

`internal/app/snapshot/consumer.go`: the chunks of a full snapshot, the prune of what the snapshot
does not have, the rebuild and the report at the end.
-/

namespace NodeAgent.Snapshot

open Lib Jsonv1

/-! ## Rebuilders -/

/-- The calls a rebuilder may make: it changes neither the store, other than through the coalescer,
nor the consumer's own state, and publishes nothing. -/
def RebuildCall : Call → Prop
  | .putPlacement _ => False
  | .deletePlacement _ => False
  | .publish _ => False
  | .submit overlay => overlay = none
  | .receive _ => False
  | .answer _ _ => False
  | .trackSeen _ _ => False
  | .takeSeen => False
  | .storeCompleted => False
  | .count _ _ => False
  | _ => True

/-- `RebuildFromStore` of one of the node's roles. -/
structure Rebuilder where
  rebuildFromStore : Go Err
  calls : rebuildFromStore.All RebuildCall

/-- `NoopRebuilder`. -/
def noopRebuilder : Rebuilder := ⟨return none, trivial⟩

/-! ## One item -/

/-- Store the item unless the store has it in this version or a newer one. -/
def applyItem (cmd : Command) : Go (Except GoError Bool) := do
  match ← port (.getPlacement cmd.placement.id) with
  | .error err => return .error err
  | .ok existing =>
    if existing.any (·.opVersion ≥ cmd.placement.opVersion) then return .ok false
    else do
      let t : Time ← port .now
      match ← port (.putPlacement (cmd.placement.stamp .ok t)) with
      | some err => return .error err
      | none => return .ok true

/-- The goroutine that `Handle` starts for an item. -/
def itemTask (chunkIndex : ℕ) (cmd : Command) : Go (Except GoError Bool) := do
  match ← applyItem cmd with
  | .error err =>
    return .error (.wrap ("snapshot chunk " ++ toString chunkIndex ++ " item " ++ cmd.placement.id) err)
  | .ok applied => return .ok applied

/-! ## The prune -/

/-- The loop of `pruneAbsent`, with the number of records deleted so far. -/
def deleteAbsent (seen : List PlacementID) : List Placement → ℕ → Go (Except GoError ℕ)
  | [], pruned => return .ok pruned
  | p :: ps, pruned =>
    if p.id ∈ seen then deleteAbsent seen ps pruned
    else do
      match ← port (.deletePlacement p.id) with
      | some err => return .error (.wrap ("delete absent " ++ p.id) err)
      | none => deleteAbsent seen ps (pruned + 1)

/-- `pruneAbsent`: placements that the snapshot has not named are deleted. -/
def pruneAbsent (snapshotID : String) : Go (Except GoError ℕ) := do
  let seen : Seen ← port .takeSeen
  if seen.snap ≠ snapshotID then return .ok 0
  else if seen.ids.getD [] = [] then return .ok 0
  else
    match ← port .listPlacements with
    | .error err => return .error err
    | .ok all => deleteAbsent (seen.ids.getD []) all 0

/-! ## One chunk -/

/-- `publishSyncReport`, with the counter as it stands. -/
def publishSyncReport (nodeID : NodeID) (snapshotID : String) : Go Err := do
  let eventID : String ← port .newID
  let emittedAt : Time ← port .now
  let syncedCount : ℕ ← port .loadSyncedItems
  let report : SyncReport :=
    { eventID := eventID
      nodeID := nodeID
      emittedAt := emittedAt
      syncedCount := syncedCount
      fullResyncCompleted := true
      inventoryHash := snapshotID }
  match marshalSyncReportEvent report with
  | .error err => return some err
  | .ok data => port (.publish data)

/-- How `Handle` ends: it returns, or writing to the nil map panics. -/
inductive Result
  | returned (err : Err)
  | panicked
  deriving DecidableEq, Repr

/-- The end of `Handle` for the last chunk of a snapshot. -/
def finishSnapshot (nodeID : NodeID) (rebuilder : Rebuilder) (snapshotID : String) : Go Err := do
  match ← pruneAbsent snapshotID with
  | .error err => return some (.wrap "prune after last chunk" err)
  | .ok _ =>
    match ← rebuilder.rebuildFromStore with
    | some err => return some (.wrap "rebuild after last chunk" err)
    | none =>
      match ← publishSyncReport nodeID snapshotID with
      | some err => return some (.wrap "publish sync report" err)
      | none =>
        port .storeCompleted
        return none

/-- How many items of a chunk are applied at a time. -/
def snapshotApplyConcurrency : ℕ := 8

/-- `Handle` after the chunk's ids have been noted. -/
def handleItems (nodeID : NodeID) (rebuilder : Rebuilder) (sched : List ℕ) (chunk : SnapshotChunk) :
    Go Err := do
  match ← Prog.group snapshotApplyConcurrency sched (chunk.items.map (itemTask chunk.chunkIndex)) with
  | .error err => return some err
  | .ok applied =>
    port (.count .syncedItems (applied.count true))
    if chunk.isLastChunk then finishSnapshot nodeID rebuilder chunk.snapshotID else return none

/-- The ids of the items. -/
def ids (chunk : SnapshotChunk) : List PlacementID := chunk.items.map (·.placement.id)

/-- `Handle` on a chunk for this node. -/
def handleOwn (nodeID : NodeID) (rebuilder : Rebuilder) (sched : List ℕ) (chunk : SnapshotChunk) :
    Go Result := do
  port (.count .receivedChunks 1)
  if ← port (.trackSeen chunk.snapshotID (ids chunk)) then
    return .returned (← handleItems nodeID rebuilder sched chunk)
  else return .panicked

/-- `Handle`; the message is what the decoder makes of the data, `sched` how the goroutines of the
items take turns. -/
def handle (nodeID : NodeID) (rebuilder : Rebuilder) (sched : List ℕ)
    (msg : Except GoError SnapshotChunk) : Go Result :=
  match msg with
  | .error err => return .returned (some err)
  | .ok chunk =>
    if chunk.nodeID ≠ nodeID then return .returned none
    else handleOwn nodeID rebuilder sched chunk

end NodeAgent.Snapshot
