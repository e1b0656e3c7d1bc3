import NodeAgent.Lib.Prog
import NodeAgent.Singboxgen.Merge

/-!
# Ports

The calls the agent's code makes to what lies outside the function at hand: the placement store, the
clock, the message bus, the entry proxy, sing-box, xray, and the state shared between goroutines
(atomics, channels, fields under a mutex). Every call is one atomic step; what happens between two
calls of a goroutine is pure and belongs to the program.
-/

namespace NodeAgent

open Lib

/-- A Go `error` result; `none` is `nil`. -/
abbrev Err := Option GoError

/-- `ports.XrayUser`. -/
structure XrayUser where
  clientID : ClientID
  transport : TransportKind
  deriving DecidableEq, Repr

/-- `jsonv1.SyncReport`, which closes a snapshot. -/
structure SyncReport where
  eventID : String
  nodeID : NodeID
  emittedAt : Time
  syncedCount : ℕ
  fullResyncCompleted : Bool
  inventoryHash : String
  deriving DecidableEq, Repr

/-- What is published, before its JSON encoding. -/
inductive Message
  | applyResult (eventID : String) (report : PlacementReport)
  | syncReport (report : SyncReport)
  deriving DecidableEq, Repr

/-- The counters of the applier and of the snapshot consumer. -/
inductive Counter
  | receivedTotal
  | appliedTotal
  | failedTotal
  | receivedChunks
  | syncedItems
  deriving DecidableEq, Repr

/-- A render request in the coalescer's channel; the ticket names its `done` channel. -/
structure RenderReq where
  ticket : ℕ
  overlay : Option Placement
  deriving DecidableEq, Repr

/-- What the `select` of the coalescer's loop came back with. -/
inductive Selected
  | request (req : RenderReq)
  | flushTimer
  | cancelled (err : GoError)
  | idle
  deriving DecidableEq, Repr

/-- The snapshot consumer's `seenIDs` (`none` is the nil map) and `seenSnap`. -/
structure Seen where
  ids : Option (List PlacementID) := none
  snap : String := ""
  deriving DecidableEq, Repr, Inhabited

/-- The calls of the ports, and the few other steps that the outside decides. -/
inductive Call
  -- placement store
  | getPlacement (id : PlacementID)
  | putPlacement (p : Placement)
  | deletePlacement (id : PlacementID)
  | listPlacements
  -- clock, context, ids, bus, order of a map range
  | now
  | sleep (interval : ℕ)
  | ctxErr
  | newID
  | publish (m : Message)
  | rangeOrder (keys : List String)
  -- embedded entry proxy
  | setBackends (specs : List EntryBackend)
  | addUser (clientID flow : String)
  | removeUser (clientID : String)
  | selectBackend (clientID backendID : String)
  | setUserBackends (clientID : String) (backendIDs : List String)
  | backendConnections (backendID : String)
  | dial (address : String) (port : ℕ)
  | loadPending
  | storePending (pending : Bool)
  | storeUsers (n : ℕ)
  -- the epoch of the proxy's process, its restart, `lastEpoch` of `runEntryProxyResync`
  | epoch
  | restart (epoch : ℤ)
  | storeEpoch (epoch : ℤ)
  -- `flip.Actions`, as the orchestrator sees it
  | validateBackend (plan : FlipPlan)
  | swapRoute (plan : FlipPlan)
  | oldBackendConnections (plan : FlipPlan)
  | oldBackendReachable (plan : FlipPlan)
  | coolOldBackend (plan : FlipPlan)
  -- external sing-box
  | readConfig
  | writeConfig (cfg : Singboxgen.Rendered)
  | reload
  | selectOutbound (selectorTag target : String)
  | connections
  -- render coalescer
  | submit (overlay : Option Placement)
  | poll (ticket : ℕ)
  | receive (timer : Bool)
  | answer (ticket : ℕ) (err : Err)
  -- xray
  | xrayAddUser (user : XrayUser)
  | xrayRemoveUser (clientID : ClientID)
  -- snapshot consumer
  | trackSeen (snapshotID : String) (ids : List PlacementID)
  | takeSeen
  | loadSyncedItems
  | storeCompleted
  | count (c : Counter) (n : ℕ)
  deriving DecidableEq, Repr

abbrev Reply : Call → Type
  | .getPlacement _ => Except GoError (Option Placement)
  | .putPlacement _ => Err
  | .deletePlacement _ => Err
  | .listPlacements => Except GoError (List Placement)
  | .now => Time
  | .sleep _ => Err
  | .ctxErr => Err
  | .newID => String
  | .publish _ => Err
  | .rangeOrder keys => {l : List String // l.Perm keys}
  | .setBackends _ => Err
  | .addUser _ _ => Err
  | .removeUser _ => Err
  | .selectBackend _ _ => Err
  | .setUserBackends _ _ => Err
  | .backendConnections _ => Except GoError ℕ
  | .dial _ _ => Bool
  | .loadPending => Bool
  | .storePending _ => Unit
  | .storeUsers _ => Unit
  | .epoch => Except GoError ℤ
  | .restart _ => Unit
  | .storeEpoch _ => Unit
  | .validateBackend _ => Err
  | .swapRoute _ => Err
  | .oldBackendConnections _ => Except GoError ℕ
  | .oldBackendReachable _ => Bool
  | .coolOldBackend _ => Err
  | .readConfig => Except GoError Singboxgen.BaseFile
  | .writeConfig _ => Err
  | .reload => Err
  | .selectOutbound _ _ => Err
  | .connections => Except GoError (List (String × ℕ))
  | .submit _ => Except GoError ℕ
  | .poll _ => Option Err
  | .receive _ => Selected
  | .answer _ _ => Unit
  | .xrayAddUser _ => Err
  | .xrayRemoveUser _ => Err
  | .trackSeen _ _ => Bool
  | .takeSeen => Seen
  | .loadSyncedItems => ℕ
  | .storeCompleted => Unit
  | .count _ _ => Unit

/-- The signature of the agent's programs. -/
abbrev ports : Sig where
  Call := Call
  Reply := Reply

/-- A goroutine of the agent. -/
abbrev Go (α : Type) := Prog ports α

/-- Make one call. -/
abbrev port (c : Call) : Go (Reply c) := Prog.invoke (S := ports) c

/-- A call with what it has returned. -/
abbrev GoEvent := Event ports

end NodeAgent
