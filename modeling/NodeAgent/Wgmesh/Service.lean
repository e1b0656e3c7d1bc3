import NodeAgent.Domain
import NodeAgent.Lib.Pool

/-!
# The WireGuard mesh

`internal/app/wgmesh/service.go`: one goroutine applies the peer updates of the key-value bucket, another
one applies the cached state again when a peer has no recent handshake. The mutex of the service only
guards single reads and writes of `lastState`.
-/

namespace NodeAgent.Wgmesh

open Lib

/-- `wg.Peer` -/
structure Peer where
  publicKey : String
  endpoint : String
  listenPort : ℤ
  address : String
  deriving DecidableEq, Repr

/-- `wg.ApplyState` -/
structure ApplyState where
  address : String
  listenPort : ℤ
  peers : List Peer
  deriving DecidableEq, Repr

/-- `wg.PeerStat`, as far as it is read. -/
structure PeerStat where
  publicKey : String
  handshakeOK : Bool
  deriving DecidableEq, Repr

/-- A peer as the control plane sends it. -/
structure PeerEntryDTO where
  nodeID : String := ""
  name : String := ""
  publicKey : String := ""
  endpoint : String := ""
  listenPort : ℤ := 0
  address : String := ""
  deriving DecidableEq, Repr

/-- An update: the address of the node, and all peers of the mesh. -/
structure PeerPayload where
  nodeID : String := ""
  address : String := ""
  listenPort : ℤ := 0
  peers : List PeerEntryDTO := []
  deriving DecidableEq, Repr

/-- What decoding the value of a `KVUpdate` gives. -/
abbrev Update := Except String PeerPayload

/-! ## Calls -/

/-- What the service asks of the outside. -/
inductive Call
  /-- `mgr.Apply` -/
  | apply (state : ApplyState)
  /-- `mgr.PeerStats` -/
  | peerStats
  /-- `s.lastState`, under the mutex -/
  | loadLast
  | storeLast (state : ApplyState)

abbrev Reply : Call → Type
  | .apply _ => Option GoError
  | .peerStats => Except GoError (List PeerStat)
  | .loadLast => Option ApplyState
  | .storeLast _ => Unit

/-- The programs of the service. -/
abbrev mesh : Sig where
  Call := Call
  Reply := Reply

abbrev MeshEvent := Event mesh

abbrev port (c : Call) : Prog mesh (Reply c) := Prog.invoke (S := mesh) c

/-! ## The service -/

def peerOf (p : PeerEntryDTO) : Peer where
  publicKey := p.publicKey
  endpoint := p.endpoint
  listenPort := p.listenPort
  address := p.address

/-- The state that an update asks for. -/
def stateOf (payload : PeerPayload) : ApplyState where
  address := payload.address
  listenPort := payload.listenPort
  peers := payload.peers.map peerOf

/-- `handlePeerUpdate`. -/
def handlePeerUpdate : Update → Prog mesh (Option GoError)
  | .error msg => return some (.wrap "decode peers payload" (.new msg))
  | .ok payload => do
    match ← port (.apply (stateOf payload)) with
    | some err => return some (.wrap "apply" err)
    | none =>
      port (.storeLast (stateOf payload))
      return none

/-- The watch hands over one update after the other; an error is logged. -/
def watch : List Update → Prog mesh Unit
  | [] => return ()
  | u :: us => do
    let _ ← handlePeerUpdate u
    watch us

/-- The number of peers without a recent handshake. -/
def stale (stats : List PeerStat) : ℕ := (stats.filter fun ps => !ps.handshakeOK).length

/-- `maybeSelfHeal`: the last state is applied once more if some peer is stale. -/
def maybeSelfHeal : Prog mesh Unit := do
  match ← port .loadLast with
  | none => return ()
  | some st =>
    if st.peers.length = 0 then return ()
    else
      match ← port .peerStats with
      | .error _ => return ()
      | .ok stats =>
        if stale stats = 0 then return ()
        else
          let _ ← port (.apply st)
          return ()

/-! ## The device -/

/-- What was applied last, and the cached state. -/
structure Mesh where
  device : Option ApplyState := none
  lastState : Option ApplyState := none

/-- What the environment chooses for one call. -/
structure MeshEnv where
  fail : Option String := none
  stats : List PeerStat := []

instance : Inhabited MeshEnv := ⟨{}⟩

/-- What a call does to the interface. -/
def Mesh.exec : (c : Call) → MeshEnv → Mesh → Reply c × Mesh
  | .apply state, e, m =>
    match e.fail with
    | some msg => (some (.new msg), m)
    | none => (none, { m with device := some state })
  | .peerStats, e, m =>
    (match e.fail with
      | some msg => .error (.new msg)
      | none => .ok e.stats, m)
  | .loadLast, _, m => (m.lastState, m)
  | .storeLast state, _, m => ((), { m with lastState := some state })

def wg : Handler mesh MeshEnv Mesh where
  exec := Mesh.exec

/-! ## What the two goroutines do -/

section Events

variable {tr : List MeshEvent} {u : Update} {us : List Update}

/-- No `Apply` of the trace fails. -/
def Applies (tr : List MeshEvent) : Prop :=
  ∀ state r, (⟨.apply state, r⟩ : MeshEvent) ∈ tr → r = none

/-- The state of an update that can be decoded. -/
def handled : Update → Option ApplyState
  | .error _ => none
  | .ok payload => some (stateOf payload)

/-- Apply and cache. -/
def updateEvents (state : ApplyState) : List MeshEvent :=
  [⟨.apply state, none⟩, ⟨.storeLast state, ()⟩]

theorem handlePeerUpdate_events {r : Option GoError} (hok : Applies tr)
    (h : (handlePeerUpdate u).After tr (.done r)) : tr = (handled u).toList.flatMap updateEvents := by
  cases u with
  | error msg =>
    obtain ⟨rfl, -⟩ := Prog.after_done_iff.mp h
    rfl
  | ok payload =>
    obtain ⟨r, tr₁, rfl, h₁⟩ := Prog.after_invoke_done_iff.mp h
    obtain rfl : r = none := hok _ r List.mem_cons_self
    obtain ⟨_, tr₂, rfl, h₂⟩ := Prog.after_invoke_done_iff.mp h₁
    obtain ⟨rfl, -⟩ := Prog.after_done_iff.mp h₂
    rfl

/-- The watch applies and caches the updates that can be decoded, in their order. -/
theorem watch_events (hok : Applies tr) (h : (watch us).After tr (.done ())) :
    tr = (us.filterMap handled).flatMap updateEvents := by
  induction us generalizing tr with
  | nil =>
    obtain ⟨rfl, -⟩ := Prog.after_done_iff.mp h
    rfl
  | cons u us ih =>
    obtain ⟨r, tr₁, tr₂, rfl, h₁, h₂⟩ := Prog.after_bind_done_iff.mp h
    rw [handlePeerUpdate_events (fun s r hs => hok s r (List.mem_append_left _ hs)) h₁,
      ih (fun s r hs => hok s r (List.mem_append_right _ hs)) h₂]
    cases hu : handled u with
    | none => rw [List.filterMap_cons_none hu]; rfl
    | some state => rw [List.filterMap_cons_some hu]; rfl

/-- A heal reads the cached state, and if it applies one, it is that one. -/
theorem maybeSelfHeal_events (h : maybeSelfHeal.After tr (.done ())) :
    ∃ found rest, tr = ⟨.loadLast, found⟩ :: rest ∧
      ((∀ ev ∈ rest, ev.call = .peerStats) ∨
        ∃ st stats r, found = some st ∧ rest = [⟨.peerStats, stats⟩, ⟨.apply st, r⟩]) := by
  obtain ⟨found, rest, rfl, h₁⟩ := Prog.after_invoke_done_iff.mp h
  refine ⟨found, rest, rfl, ?_⟩
  cases found with
  | none =>
    obtain ⟨rfl, -⟩ := Prog.after_done_iff.mp h₁
    exact .inl (by simp)
  | some st =>
    dsimp only at h₁
    split_ifs at h₁ with hpeers
    · obtain ⟨rfl, -⟩ := Prog.after_done_iff.mp h₁
      exact .inl (by simp)
    obtain ⟨stats, tr₂, rfl, h₂⟩ := Prog.after_invoke_done_iff.mp h₁
    cases stats with
    | error err =>
      obtain ⟨rfl, -⟩ := Prog.after_done_iff.mp h₂
      exact .inl (by simp)
    | ok stats =>
      dsimp only at h₂
      split_ifs at h₂ with hstale
      · obtain ⟨rfl, -⟩ := Prog.after_done_iff.mp h₂
        exact .inl (by simp)
      · obtain ⟨r, tr₃, rfl, h₃⟩ := Prog.after_invoke_done_iff.mp h₂
        obtain ⟨rfl, -⟩ := Prog.after_done_iff.mp h₃
        exact .inr ⟨st, .ok stats, r, rfl, rfl⟩

end Events

end NodeAgent.Wgmesh
