import NodeAgent.Traffic.Attribution

/-!
# The traffic publishers

`internal/app/traffic`: `BackendPublisher` reads the user counters of xray and resets them,
`Publisher` reads the connections of sing-box and remembers their counters. Each tick publishes what was
added since the last one. Byte counts are `uint64`, whose sums wrap around; the number of connections in a
list does not come near that.
-/

namespace NodeAgent.Traffic

open Lib

/-- `a + b` on `uint64`. -/
def add64 (a b : ℕ) : ℕ := (a + b) % 2 ^ 64

/-! ## Calls -/

/-- `xray.UserStat` -/
structure UserStat where
  clientID : String
  link : String
  value : ℤ
  deriving DecidableEq, Repr

/-- `nodeTrafficPayload`: the bytes of a backend since the last payload. -/
structure NodeTrafficPayload where
  entryNodeID : String := ""
  backendNodeID : String := ""
  bytesIn : ℕ
  bytesOut : ℕ
  activeSessions : ℕ := 0
  totalSessions : ℕ := 0
  deriving DecidableEq, Repr

/-- `userTrafficDelta`: the bytes of a client. -/
structure UserTrafficDelta where
  identifier : String
  deltaBytes : ℕ
  deriving DecidableEq, Repr

/-- `none` is the nil slice. -/
structure BackendLivePayload where
  nodeID : NodeID
  ts : Time
  activeClientIDs : Option (List String)
  deriving DecidableEq, Repr

/-- What is published, before its JSON encoding. -/
inductive Payload
  | node (entries : List NodeTrafficPayload)
  | users (deltas : List UserTrafficDelta)
  deriving DecidableEq, Repr

/-- What the publishers ask of the outside. -/
inductive Call
  /-- `QueryUserStats(ctx, true)` -/
  | queryUserStats
  /-- `Connections`, of which the publisher reads `Conns` -/
  | connections
  | now
  /-- the order in which a map is ranged over -/
  | rangeOrder (keys : List String)
  | kvPut (bucket key : String) (payload : BackendLivePayload)
  | publish (subject : String) (payload : Payload)

abbrev Reply : Call → Type
  | .queryUserStats => Except GoError (List UserStat)
  | .connections => Except GoError (List Singbox.Connection)
  | .now => Time
  | .rangeOrder keys => {order : List String // order.Perm keys}
  | .kvPut _ _ _ => Option GoError
  | .publish _ _ => Option GoError

/-- The programs of the publishers. -/
abbrev traffic : Sig where
  Call := Call
  Reply := Reply

abbrev TrafficEvent := Event traffic

abbrev port (c : Call) : Prog traffic (Reply c) := Prog.invoke (S := traffic) c

/-! ## The backend's publisher -/

def linkUplink : String := "uplink"

def linkDownlink : String := "downlink"

def backendStatsKeyPrefix : String := "backend."

/-- `BackendPublisher`: its configuration. -/
structure BackendPublisher where
  nodeID : NodeID
  nodeTrafficSubject : String := "nodes.traffic"
  userTrafficSubject : String := ""
  /-- `none` without a KV client -/
  liveStatsBucket : Option String := none
  probe : List String := []

/-- `accum`: the bytes of a client in one tick. -/
structure Accum where
  up : ℕ := 0
  down : ℕ := 0
  deriving DecidableEq, Repr

/-- The `switch` over the link. -/
def Accum.add (u : Accum) (link : String) (v : ℕ) : Accum :=
  if link = linkUplink then { u with up := add64 u.up v }
  else if link = linkDownlink then { u with down := add64 u.down v }
  else u

/-- A row of the statistics goes to its client, by its link. -/
def addStat (users : GoMap Accum) (s : UserStat) : GoMap Accum :=
  if s.value ≤ 0 then users
  else users.insert s.clientID ((users[s.clientID]?.getD {}).add s.link s.value.toNat)

/-- What the loop over the clients has put together. -/
structure Totals where
  sumUp : ℕ := 0
  sumDown : ℕ := 0
  deltas : List UserTrafficDelta := []
  activeIDs : List String := []

/-- The loop body over the users. -/
def addClient (p : BackendPublisher) (users : GoMap Accum) (t : Totals) (clientID : String) : Totals :=
  if clientID ∈ p.probe then t
  else
    let u := users[clientID]?.getD {}
    let total := add64 u.up u.down
    if total = 0 then t
    else
      { sumUp := add64 t.sumUp u.up
        sumDown := add64 t.sumDown u.down
        deltas := t.deltas ++ [{ identifier := clientID, deltaBytes := total }]
        activeIDs := t.activeIDs ++ [clientID] }

/-- A failed put is logged. -/
def publishLive (p : BackendPublisher) (activeIDs : Option (List String)) : Prog traffic Unit :=
  match p.liveStatsBucket with
  | none => return ()
  | some bucket => do
    let ts ← port .now
    let _ ← port (.kvPut bucket (backendStatsKeyPrefix ++ p.nodeID)
      { nodeID := p.nodeID, ts := ts, activeClientIDs := activeIDs })
    return ()

/-- The end of `tick`: the node's aggregate and the deltas of the users. -/
def BackendPublisher.publish (p : BackendPublisher) (t : Totals) : Prog traffic (Option GoError) :=
  if t.sumUp = 0 ∧ t.sumDown = 0 then return none
  else do
    match ← port (.publish p.nodeTrafficSubject
      (.node [{ backendNodeID := p.nodeID, bytesIn := t.sumUp, bytesOut := t.sumDown }])) with
    | some err => return some (.wrap "publish node" err)
    | none =>
      if p.userTrafficSubject ≠ "" ∧ t.deltas.length > 0 then
        match ← port (.publish p.userTrafficSubject (.users t.deltas)) with
        | some err => return some (.wrap "publish users" err)
        | none => return none
      else return none

/-- `BackendPublisher.tick`. -/
def BackendPublisher.tick (p : BackendPublisher) : Prog traffic (Option GoError) := do
  match ← port .queryUserStats with
  | .error err => return some (.wrap "xray stats query" err)
  | .ok statsList =>
    let users := statsList.foldl addStat ∅
    if users.size = 0 then
      publishLive p none
      return none
    else
      let order ← port (.rangeOrder users.keys)
      let t := order.val.foldl (addClient p users) {}
      publishLive p (some t.activeIDs)
      p.publish t

/-- So many ticks of `Run`; an error is logged. -/
def BackendPublisher.run (p : BackendPublisher) : ℕ → Prog traffic Unit
  | 0 => return ()
  | n + 1 => do
    let _ ← p.tick
    p.run n

/-! ## The entry's publisher -/

/-- The last reading of a connection. -/
structure ConnState where
  upload : ℕ
  download : ℕ
  deriving DecidableEq, Repr

/-- `Publisher`: its configuration. -/
structure Publisher where
  nodeID : NodeID
  nodeRole : String
  subject : String := "nodes.traffic"
  /-- whether there is a source of connections -/
  conns : Bool := true

/-- The node is an entry, and its payloads name it as one. -/
def Publisher.isEntry (p : Publisher) : Bool :=
  p.nodeRole = "entry" || p.nodeRole = "whitelist_entry"

/-- The maps of one tick. -/
structure PerBackend where
  bytesIn : GoMap ℕ := ∅
  bytesOut : GoMap ℕ := ∅
  active : GoMap ℕ := ∅
  cur : GoMap ConnState := ∅

/-- `m[k] += v` -/
def bump (m : GoMap ℕ) (k : String) (v : ℕ) : GoMap ℕ := m.insert k (m[k]?.getD 0 + v)

/-- `m[k] += v` of byte counts. -/
def bump64 (m : GoMap ℕ) (k : String) (v : ℕ) : GoMap ℕ := m.insert k (add64 (m[k]?.getD 0) v)

/-- A counter since the last observation; one that has gone back counts as nothing. -/
def deltaSince (last : Option ℕ) (now : ℕ) : ℕ :=
  match last with
  | none => 0
  | some before => if now ≥ before then now - before else 0

/-- The loop body over the connections. -/
def addConn (lastConn : GoMap ConnState) (t : PerBackend) (c : Singbox.Connection) : PerBackend :=
  let backend := pickBackendID c.chains
  if backend = "" then t
  else
    let deltaUp := deltaSince (lastConn[c.id]?.map ConnState.upload) c.upload
    let deltaDn := deltaSince (lastConn[c.id]?.map ConnState.download) c.download
    { bytesOut := if deltaUp > 0 then bump64 t.bytesOut backend deltaUp else t.bytesOut
      bytesIn := if deltaDn > 0 then bump64 t.bytesIn backend deltaDn else t.bytesIn
      active := bump t.active backend 1
      cur := t.cur.insert c.id { upload := c.upload, download := c.download } }

/-- The entry of a backend in the payload. -/
def Publisher.entry (p : Publisher) (t : PerBackend) (backend : String) : NodeTrafficPayload where
  entryNodeID := if p.isEntry then p.nodeID else ""
  backendNodeID := backend
  bytesIn := t.bytesIn[backend]?.getD 0
  bytesOut := t.bytesOut[backend]?.getD 0
  activeSessions := t.active[backend]?.getD 0

/-- It returns the new `lastConn` too. -/
def Publisher.tick (p : Publisher) (lastConn : GoMap ConnState) :
    Prog traffic (GoMap ConnState × Option GoError) :=
  if p.conns = false then return (lastConn, none)
  else do
    match ← port .connections with
    | .error err => return (lastConn, some (.wrap "connections fetch" err))
    | .ok conns =>
      let t := conns.foldl (addConn lastConn) {}
      if t.active.size = 0 then return (t.cur, none)
      else
        let order ← port (.rangeOrder t.active.keys)
        match ← port (.publish p.subject (.node (order.val.map (p.entry t)))) with
        | some err => return (t.cur, some (.wrap "publish" err))
        | none => return (t.cur, none)

/-- The ticks one after the other, each with the readings of the last. -/
def Publisher.run (p : Publisher) : ℕ → GoMap ConnState → Prog traffic Unit
  | 0, _ => return ()
  | n + 1, lastConn => do
    let r ← p.tick lastConn
    p.run n r.1

end NodeAgent.Traffic
