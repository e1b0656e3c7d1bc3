import NodeAgent.EntryProxy
import NodeAgent.Traffic.Stats

/-!
# The proxy with its live connections

`internal/entryproxy/proxy.go`: the table of connections that the proxy keeps beside its maps, and the
surface that `internal/entryproxy/control.go` exposes (`Controller`). A call of the surface holds the
lock for its whole body.
-/

namespace NodeAgent

open Traffic (EntryConnection)

/-- `connStat`; the counters are atomics of their own. -/
structure ConnStat where
  id : ℕ
  clientID : String
  backendID : String
  up : UInt64 := 0
  down : UInt64 := 0
  deriving DecidableEq, Repr

/-- The fields of `Proxy` that change. A connection lies under its own id. -/
structure Live where
  proxy : Proxy := .new
  active : Std.ExtTreeMap ℕ ConnStat compare := ∅
  /-- `uint64` -/
  nextID : ℕ := 0
  /-- `int64`: when the process was started -/
  epoch : ℤ := 1
  keyed : ∀ (id : ℕ) (s : ConnStat), active[id]? = some s → s.id = id := by simp
  nextID_lt : nextID < 2 ^ 64 := by decide

instance : Inhabited Live := ⟨{}⟩

/-- A proxy that serves nobody yet. -/
def Live.idle (p : Proxy) : Live := { proxy := p }

namespace Live

/-! ## The table of connections -/

/-- The connections in the order of their ids. -/
def stats (w : Live) : List ConnStat := w.active.toList.map Prod.snd

/-- The critical section in which `handleConn` and `handlePacket` enter a connection. -/
def openConn (w : Live) (clientID backendID : String) : ℕ × Live :=
  let id := (w.nextID + 1) % 2 ^ 64
  (id,
    { w with
      nextID := id
      active := w.active.insert id { id := id, clientID := clientID, backendID := backendID }
      keyed := fun id' s h => by
        rw [Std.ExtTreeMap.getElem?_insert] at h
        split_ifs at h with hid
        · cases h
          exact compare_eq_iff_eq.mp hid
        · exact w.keyed id' s h
      nextID_lt := Nat.mod_lt _ (Nat.two_pow_pos 64) })

/-- The deferred one in which they take it out. -/
def closeConn (w : Live) (id : ℕ) : Live :=
  { w with
    active := w.active.erase id
    keyed := fun id' s h => by
      rw [Std.ExtTreeMap.getElem?_erase] at h
      split_ifs at h
      exact w.keyed id' s h }

/-- The counters of a connection grow. -/
def addBytes (w : Live) (id : ℕ) (up down : UInt64) : Live :=
  { w with
    active := w.active.modify id fun s => { s with up := s.up + up, down := s.down + down }
    keyed := fun id' s h => by
      rw [Std.ExtTreeMap.getElem?_modify] at h
      split_ifs at h with hid
      · obtain ⟨s₀, hs₀, rfl⟩ := Option.map_eq_some_iff.mp h
        rw [← compare_eq_iff_eq.mp hid]
        exact w.keyed id s₀ hs₀
      · exact w.keyed id' s h }

/-- `Controller.BackendConnections`: how many connections of the table go to the backend. -/
def backendConnections (w : Live) (backendID : String) : ℕ :=
  (w.stats.filter fun s => s.backendID = backendID).length

/-- In which order a map is ranged over. -/
abbrev Order := (l : List ConnStat) → {l' : List ConnStat // l'.Perm l}

/-- `strconv.FormatUint` of the id, and the counters as they are now. -/
def connectionOf (s : ConnStat) : EntryConnection where
  id := toString s.id
  clientID := s.clientID
  backendID := s.backendID
  upload := s.up.toNat
  download := s.down.toNat

/-- `Controller.ActiveConnections`, in the order in which the map is ranged over. -/
def activeConnections (w : Live) (order : Order) : List EntryConnection :=
  (order w.stats).val.map connectionOf

end Live

/-! ## The surface -/

namespace Control

/-- The calls of `Controller`. -/
inductive Op
  | addUser (clientID flow : String)
  | removeUser (clientID : String)
  | selectBackend (clientID backendID : String)
  | setUserBackends (clientID : String) (backendIDs : List String)
  | setBackends (backends : List EntryBackend)
  | backendConnections (backendID : String)
  | activeConnections
  | epoch
  deriving DecidableEq, Repr

/-- What a call returns besides an error. -/
abbrev Op.Value : Op → Type
  | .addUser _ _ => Unit
  | .removeUser _ => Unit
  | .selectBackend _ _ => Unit
  | .setUserBackends _ _ => Unit
  | .setBackends _ => Unit
  | .backendConnections _ => ℕ
  | .activeConnections => List EntryConnection
  | .epoch => ℤ

/-- A call that checks its arguments leaves the proxy alone if it rejects them. -/
def ofProxy (w : Live) : Except GoError Proxy → Except GoError Unit × Live
  | .error err => (.error err, w)
  | .ok p => (.ok (), { w with proxy := p })

/-- A call of the surface on the running proxy. -/
def exec (order : Live.Order) (w : Live) : (op : Op) → Except GoError op.Value × Live
  | .addUser clientID flow => ofProxy w (w.proxy.addUser clientID flow)
  | .removeUser clientID => (.ok (), { w with proxy := w.proxy.removeUser clientID })
  | .selectBackend clientID backendID => ofProxy w (w.proxy.selectBackend clientID backendID)
  | .setUserBackends clientID backendIDs => ofProxy w (w.proxy.setUserBackends clientID backendIDs)
  | .setBackends backends => (.ok (), { w with proxy := w.proxy.setBackends backends })
  | .backendConnections backendID => (.ok (w.backendConnections backendID), w)
  | .activeConnections => (.ok (w.activeConnections order), w)
  | .epoch => (.ok w.epoch, w)

variable {order : Live.Order} {w : Live}

theorem ofProxy_error {x : Except GoError Proxy} {err : GoError} (h : (ofProxy w x).1 = .error err) :
    x = .error err ∧ (ofProxy w x).2 = w := by
  cases x with
  | error err' =>
    cases h
    exact ⟨rfl, rfl⟩
  | ok p => cases h

/-- A call that fails changes nothing, and has something to say. -/
theorem exec_error {op : Op} {err : GoError} (h : (exec order w op).1 = .error err) :
    (exec order w op).2 = w ∧ err.message ≠ "" := by
  cases op with
  | addUser clientID flow =>
    obtain ⟨hproxy, hw⟩ := ofProxy_error h
    refine ⟨hw, ?_⟩
    unfold Proxy.addUser at hproxy
    split_ifs at hproxy
    cases hproxy
    simp [GoError.message]
  | selectBackend clientID backendID =>
    obtain ⟨hproxy, hw⟩ := ofProxy_error h
    refine ⟨hw, ?_⟩
    unfold Proxy.selectBackend at hproxy
    split_ifs at hproxy
    cases hproxy
    simp [GoError.message]
  | setUserBackends clientID backendIDs =>
    obtain ⟨hproxy, hw⟩ := ofProxy_error h
    refine ⟨hw, ?_⟩
    unfold Proxy.setUserBackends at hproxy
    split_ifs at hproxy
    cases hproxy
    simp [GoError.message]
  | _ => cases h

end Control

end NodeAgent
