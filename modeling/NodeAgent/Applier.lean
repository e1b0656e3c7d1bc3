import NodeAgent.Executor.FlipExecutor
import NodeAgent.Jsonv1

/-!
# The applier

`internal/app/applier/applier.go`: one placement command from the bus, over an executor.
-/

namespace NodeAgent.Applier

open Lib

/-- `Applier.publishReport`: the report says which placement, at which version, and how it ended. -/
def publishReport (nodeID : NodeID) (cmd : Command) (state : AppliedState) (status : ReportStatus)
    (errStr : String) : Go Err := do
  let appliedAt : Time ← port .now
  let report : PlacementReport :=
    { placementID := cmd.placement.id
      nodeID := nodeID
      opVersion := cmd.placement.opVersion
      appliedState := state
      status := status
      err := errStr
      appliedAt := appliedAt }
  let eventID : String ← port .newID
  match Jsonv1.marshalApplyResultEvent report eventID with
  | .error err => return some (.wrap "marshal result" err)
  | .ok data =>
    match ← port (.publish data) with
    | some err => return some (.wrap "publish result" err)
    | none => return none

/-- The stored record already is what a command with this version asks for. -/
def alreadyApplied (existing desired : Placement) : Bool :=
  existing.opVersion = desired.opVersion ∧ existing.applied = .ok ∧
    existing.desired = desired.desired ∧ existing.backendNodeID = desired.backendNodeID

/-- The end of `Handle` after the executor has failed for good: store the error, report it. -/
def recordFailure (nodeID : NodeID) (cmd : Command) (err : GoError) : Go Err := do
  let t : Time ← port .now
  let _ ← port (.putPlacement (cmd.placement.stamp .error t))
  port (.count .failedTotal 1)
  publishReport nodeID cmd .error .error err.message

/-- The end of `Handle` after the executor has succeeded. -/
def recordSuccess (nodeID : NodeID) (cmd : Command) : Go Err := do
  let t : Time ← port .now
  match ← port (.putPlacement (cmd.placement.stamp .ok t)) with
  | some err => return some (.wrap "persist" err)
  | none =>
    port (.count .appliedTotal 1)
    publishReport nodeID cmd .ok .applied ""

/-- What `Handle` does with the executor's result. -/
def finish (nodeID : NodeID) (cmd : Command) : Bool × Err → Go Err
  | (retryable, some err) => if retryable then return some err else recordFailure nodeID cmd err
  | (_, none) => recordSuccess nodeID cmd

/-- `Apply` of an executor, whatever it calls. -/
abbrev Apply := (desired existing : Placement) → (found : Bool) → Go (Bool × Err)

/-- `NoopExecutor`. -/
def noopExecutor : Apply := fun _ _ _ => return (false, none)

/-- `Handle` on a command that is for this node. -/
def handleOwn (nodeID : NodeID) (apply : Apply) (cmd : Command) : Go Err := do
  port (.count .receivedTotal 1)
  match ← port (.getPlacement cmd.placement.id) with
  | .error err => return some (.wrap "load placement" err)
  | .ok stored =>
    let existing := stored.getD {}
    let found := stored.isSome
    if found ∧ existing.opVersion > cmd.placement.opVersion then
      publishReport nodeID cmd existing.applied .skippedStale ""
    else if found ∧ alreadyApplied existing cmd.placement then
      publishReport nodeID cmd existing.applied .skippedIdempotent ""
    else apply cmd.placement existing found >>= finish nodeID cmd

/-- `Handle`; the message is what the decoder makes of the data. -/
def handleBy (nodeID : NodeID) (apply : Apply) (msg : Except GoError Command) : Go Err :=
  match msg with
  | .error err => return some err
  | .ok cmd => if cmd.val.nodeID ≠ nodeID then return none else handleOwn nodeID apply cmd

/-- `Handle` over one of the agent's executors. -/
def handle (nodeID : NodeID) (executor : Executor) (msg : Except GoError Command) : Go Err :=
  handleBy nodeID executor.apply msg

end NodeAgent.Applier
