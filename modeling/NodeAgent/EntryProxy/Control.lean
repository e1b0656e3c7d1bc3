import NodeAgent.EntryProxy.Controller
import NodeAgent.Lib.Codec
import NodeAgent.World

/-!
# The control API of the entry proxy

The agent and the entry proxy are two processes. `internal/entryproxy/control.go` serves the surface of
the proxy over HTTP, `internal/adapters/entryproxyclient/client.go` is the agent's end, and
`internal/entryproxy/api/api.go` the contract between them. A body is the JSON text that it starts with;
where there is none, or none that can be parsed, it is absent. Paths are as `ServeMux` has cleaned them.

What is proved is that the agent may forget that there is a wire. A call that is answered does to the
proxy what the call of the surface does, and returns the same, with errors under the name of the path.
-/

namespace NodeAgent.Control

open Lib
open Traffic (EntryConnection)

/-! ## The contract -/

/-- The endpoints of the control API. -/
inductive Endpoint
  | addUser
  | removeUser
  | selectBackend
  | setUserBackends
  | setBackends
  | backendConnections
  | activeConnections
  | status
  deriving DecidableEq, Repr

/-- The constants `PathAddUser` and so on. -/
def Endpoint.path : Endpoint → String
  | .addUser => "/v1/add-user"
  | .removeUser => "/v1/remove-user"
  | .selectBackend => "/v1/select-backend"
  | .setUserBackends => "/v1/set-user-backends"
  | .setBackends => "/v1/set-backends"
  | .backendConnections => "/v1/backend-connections"
  | .activeConnections => "/v1/active-connections"
  | .status => "/v1/status"

/-- `api.AddUserRequest`. -/
structure AddUserRequest where
  clientID : String
  flow : String

/-- `api.SelectBackendRequest`. -/
structure SelectBackendRequest where
  clientID : String
  backendID : String

/-- `api.SetUserBackendsRequest`. -/
structure SetUserBackendsRequest where
  clientID : String
  backendIDs : List String

section Contract

variable [Folding]

def addUserRequest : Codec AddUserRequest :=
  (((Fields.field "client_id" .str).prod (Fields.field "flow" .str)).map
    (fun p => ⟨p.1, p.2⟩) (fun r => (r.clientID, r.flow))).obj

/-- `RemoveUserRequest` has the client only. -/
def removeUserRequest : Codec String := (Fields.field "client_id" .str).obj

def selectBackendRequest : Codec SelectBackendRequest :=
  (((Fields.field "client_id" .str).prod (Fields.field "backend_id" .str)).map
    (fun p => ⟨p.1, p.2⟩) (fun r => (r.clientID, r.backendID))).obj

def setUserBackendsRequest : Codec SetUserBackendsRequest :=
  (((Fields.field "client_id" .str).prod (Fields.field "backend_ids" (.list .str))).map
    (fun p => ⟨p.1, p.2⟩) (fun r => (r.clientID, r.backendIDs))).obj

/-- `ports.EntryBackend` -/
def entryBackend : Codec EntryBackend :=
  (((Fields.field "id" .str).prod ((Fields.field "address" .str).prod (Fields.field "port" (.uint 16)))).map
    (fun p => ⟨p.1, p.2.1, p.2.2⟩) (fun be => (be.id, be.address, be.port))).obj

def setBackendsRequest : Codec (List EntryBackend) := (Fields.field "backends" (.list entryBackend)).obj

def backendConnectionsRequest : Codec String := (Fields.field "backend_id" .str).obj

def backendConnectionsResponse : Codec ℕ := (Fields.field "count" (.uint 64)).obj

/-- `ports.EntryConnection` -/
def entryConnection : Codec EntryConnection :=
  (((Fields.field "id" .str).prod ((Fields.field "client_id" .str).prod
      ((Fields.field "backend_id" .str).prod
        ((Fields.field "upload" (.uint 64)).prod (Fields.field "download" (.uint 64)))))).map
    (fun p => ⟨p.1, p.2.1, p.2.2.1, p.2.2.2.1, p.2.2.2.2⟩)
    (fun c => (c.id, c.clientID, c.backendID, c.upload, c.download))).obj

def activeConnectionsResponse : Codec (List EntryConnection) :=
  (Fields.field "conns" (.list entryConnection)).obj

def statusResponse : Codec ℤ := (Fields.field "epoch" .int64).obj

def errorResponse : Codec String := (Fields.field "error" .str).obj

end Contract

/-! ## HTTP -/

/-- A request as the server sees it. -/
structure Request where
  method : String
  path : String
  body : Option Doc

/-- An answer; one without a result has no body. -/
structure Response where
  status : ℕ
  body : Option Doc := none

/-- `resp.Status` of an answer that is not a success. -/
def statusLine : ℕ → String
  | 400 => "400 Bad Request"
  | 404 => "404 Not Found"
  | 405 => "405 Method Not Allowed"
  | 409 => "409 Conflict"
  | n => toString n

/-! ## The server -/

section Server

-- what `encoding/json` says about a body that it cannot decode
variable [Folding] (decodeErr : Option Doc → String) (order : Live.Order)

/-- `writeError` of `control.go`. -/
def writeError (status : ℕ) (msg : String) : Response := ⟨status, some (errorResponse.encode msg)⟩

/-- `decode`, and the rest of the handler if it succeeds. -/
def decoding {α : Type} (c : Codec α) (req : Request) (w : Live) (k : α → Response × Live) :
    Response × Live :=
  match req.body.bind c.decode with
  | none => (writeError 400 (decodeErr req.body), w)
  | some a => k a

/-- A call without a result is answered without a body. -/
def respond {α : Type} (body : α → Option Doc) : Except GoError α × Live → Response × Live
  | (.error err, w) => (writeError 409 err.message, w)
  | (.ok a, w) =>
    match body a with
    | none => (⟨204, none⟩, w)
    | some j => (⟨200, some j⟩, w)

/-- The endpoints that `ControlServer.handler` registers. -/
def registered : List Endpoint :=
  [.addUser, .removeUser, .selectBackend, .setUserBackends, .setBackends, .backendConnections,
    .activeConnections, .status]

/-- The functions that it registers. -/
def serve : Endpoint → Request → Live → Response × Live
  | .addUser, req, w =>
    decoding decodeErr addUserRequest req w fun r =>
      respond (fun _ => none) (exec order w (.addUser r.clientID r.flow))
  | .removeUser, req, w =>
    decoding decodeErr removeUserRequest req w fun clientID =>
      respond (fun _ => none) (exec order w (.removeUser clientID))
  | .selectBackend, req, w =>
    decoding decodeErr selectBackendRequest req w fun r =>
      respond (fun _ => none) (exec order w (.selectBackend r.clientID r.backendID))
  | .setUserBackends, req, w =>
    decoding decodeErr setUserBackendsRequest req w fun r =>
      respond (fun _ => none) (exec order w (.setUserBackends r.clientID r.backendIDs))
  | .setBackends, req, w =>
    decoding decodeErr setBackendsRequest req w fun backends =>
      respond (fun _ => none) (exec order w (.setBackends backends))
  | .backendConnections, req, w =>
    decoding decodeErr backendConnectionsRequest req w fun backendID =>
      respond (fun n => some (backendConnectionsResponse.encode n))
        (exec order w (.backendConnections backendID))
  | .activeConnections, _, w =>
    respond (fun conns => some (activeConnectionsResponse.encode conns)) (exec order w .activeConnections)
  | .status, _, w => respond (fun epoch => some (statusResponse.encode epoch)) (exec order w .epoch)

/-- `ControlServer.handler`: the patterns are `POST` with a path. -/
def handler (req : Request) (w : Live) : Response × Live :=
  match registered.find? fun ep => ep.path = req.path with
  | none => (⟨404, none⟩, w)
  | some ep => if req.method ≠ "POST" then (⟨405, none⟩, w) else serve decodeErr order ep req w

end Server

/-! ## The client -/

/-- What becomes of a request. A lost one has been served, and only the answer did not arrive. -/
inductive Delivery
  | answered
  | refused (err : GoError)
  | lost (err : GoError)

section Client

variable [Folding] (decodeErr : Option Doc → String) (order : Live.Order)

/-- `http.Client.Do` -/
def send (d : Delivery) (req : Request) (w : Live) : Except GoError Response × Live :=
  match d with
  | .answered => (.ok (handler decodeErr order req w).1, (handler decodeErr order req w).2)
  | .refused err => (.error err, w)
  | .lost err => (.error err, (handler decodeErr order req w).2)

/-- What `post` makes of an answer; `out` reads the body of a success. -/
def received {α : Type} (path : String) (out : Option Doc → Except GoError α) (resp : Response) :
    Except GoError α :=
  if 300 ≤ resp.status then
    let e := (resp.body.bind errorResponse.decode).getD ""
    let msg := if e = "" then statusLine resp.status else e
    .error (.new ("entryproxy control " ++ path ++ ": " ++ msg))
  else out resp.body

/-- `Client.post`: one request, and what is made of its answer. -/
def post {α : Type} (d : Delivery) (path : String) (body : Doc) (out : Option Doc → Except GoError α)
    (w : Live) : Except GoError α × Live :=
  match send decodeErr order d ⟨"POST", path, some body⟩ w with
  | (.error err, w') => (.error err, w')
  | (.ok resp, w') => (received path out resp, w')

/-- A nil `out`. -/
def noOut : Option Doc → Except GoError Unit := fun _ => .ok ()

/-- The body decoded into `out`. -/
def into {α : Type} (c : Codec α) (body : Option Doc) : Except GoError α :=
  match body.bind c.decode with
  | none => .error (.new (decodeErr body))
  | some a => .ok a

namespace Client

def addUser (d : Delivery) (clientID flow : String) : Live → Except GoError Unit × Live :=
  post decodeErr order d Endpoint.addUser.path (addUserRequest.encode ⟨clientID, flow⟩) noOut

def removeUser (d : Delivery) (clientID : String) : Live → Except GoError Unit × Live :=
  post decodeErr order d Endpoint.removeUser.path (removeUserRequest.encode clientID) noOut

def selectBackend (d : Delivery) (clientID backendID : String) : Live → Except GoError Unit × Live :=
  post decodeErr order d Endpoint.selectBackend.path (selectBackendRequest.encode ⟨clientID, backendID⟩) noOut

def setUserBackends (d : Delivery) (clientID : String) (backendIDs : List String) :
    Live → Except GoError Unit × Live :=
  post decodeErr order d Endpoint.setUserBackends.path
    (setUserBackendsRequest.encode ⟨clientID, backendIDs⟩) noOut

def setBackends (d : Delivery) (backends : List EntryBackend) : Live → Except GoError Unit × Live :=
  post decodeErr order d Endpoint.setBackends.path (setBackendsRequest.encode backends) noOut

def backendConnections (d : Delivery) (backendID : String) : Live → Except GoError ℕ × Live :=
  post decodeErr order d Endpoint.backendConnections.path (backendConnectionsRequest.encode backendID)
    (into decodeErr backendConnectionsResponse)

def activeConnections (d : Delivery) : Live → Except GoError (List EntryConnection) × Live :=
  post decodeErr order d Endpoint.activeConnections.path (.obj []) (into decodeErr activeConnectionsResponse)

def epoch (d : Delivery) : Live → Except GoError ℤ × Live :=
  post decodeErr order d Endpoint.status.path (.obj []) (into decodeErr statusResponse)

/-- The client as an implementation of the surface. -/
def call (d : Delivery) (w : Live) : (op : Op) → Except GoError op.Value × Live
  | .addUser clientID flow => addUser decodeErr order d clientID flow w
  | .removeUser clientID => removeUser decodeErr order d clientID w
  | .selectBackend clientID backendID => selectBackend decodeErr order d clientID backendID w
  | .setUserBackends clientID backendIDs => setUserBackends decodeErr order d clientID backendIDs w
  | .setBackends backends => setBackends decodeErr order d backends w
  | .backendConnections backendID => backendConnections decodeErr order d backendID w
  | .activeConnections => activeConnections decodeErr order d w
  | .epoch => epoch decodeErr order d w

end Client

end Client

/-! ## What is on the wire for a call -/

section Wire

variable [Folding]

/-- The endpoint that the client calls. -/
def Op.endpoint : Op → Endpoint
  | .addUser _ _ => .addUser
  | .removeUser _ => .removeUser
  | .selectBackend _ _ => .selectBackend
  | .setUserBackends _ _ => .setUserBackends
  | .setBackends _ => .setBackends
  | .backendConnections _ => .backendConnections
  | .activeConnections => .activeConnections
  | .epoch => .status

def Op.path (op : Op) : String := op.endpoint.path

/-- The body that the client sends. -/
def Op.request : Op → Doc
  | .addUser clientID flow => addUserRequest.encode ⟨clientID, flow⟩
  | .removeUser clientID => removeUserRequest.encode clientID
  | .selectBackend clientID backendID => selectBackendRequest.encode ⟨clientID, backendID⟩
  | .setUserBackends clientID backendIDs => setUserBackendsRequest.encode ⟨clientID, backendIDs⟩
  | .setBackends backends => setBackendsRequest.encode backends
  | .backendConnections backendID => backendConnectionsRequest.encode backendID
  | .activeConnections => .obj []
  | .epoch => .obj []

/-- The body that the server answers with, if there is one. -/
def Op.answer : (op : Op) → op.Value → Option Doc
  | .addUser _ _ => fun _ => none
  | .removeUser _ => fun _ => none
  | .selectBackend _ _ => fun _ => none
  | .setUserBackends _ _ => fun _ => none
  | .setBackends _ => fun _ => none
  | .backendConnections _ => fun n => some (backendConnectionsResponse.encode n)
  | .activeConnections => fun conns => some (activeConnectionsResponse.encode conns)
  | .epoch => fun epoch => some (statusResponse.encode epoch)

/-- What the client reads from the body of a success. -/
def Op.out (decodeErr : Option Doc → String) : (op : Op) → Option Doc → Except GoError op.Value
  | .addUser _ _ => noOut
  | .removeUser _ => noOut
  | .selectBackend _ _ => noOut
  | .setUserBackends _ _ => noOut
  | .setBackends _ => noOut
  | .backendConnections _ => into decodeErr backendConnectionsResponse
  | .activeConnections => into decodeErr activeConnectionsResponse
  | .epoch => into decodeErr statusResponse

end Wire

/-! ## One call -/

/-- The values of a call are those of their Go types. -/
def Op.Typed : Op → Prop
  | .setBackends backends => ∀ be ∈ backends, be.port < 2 ^ 16
  | _ => True

/-- So are the numbers that the proxy reports: `uint64` and `int64`. -/
structure Bounded (w : Live) : Prop where
  count : w.active.size < 2 ^ 64
  epoch : -2 ^ 63 ≤ w.epoch ∧ w.epoch < 2 ^ 63

/-- An error of the proxy as the client reports it. -/
def named (path : String) (err : GoError) : GoError :=
  .new ("entryproxy control " ++ path ++ ": " ++ err.message)

theorem find_registered (ep : Endpoint) :
    registered.find? (fun ep' => ep'.path = ep.path) = some ep := by
  cases ep <;> decide

theorem backendConnections_le (w : Live) (backendID : String) :
    w.backendConnections backendID ≤ w.active.size := by
  unfold Live.backendConnections Live.stats
  refine (List.length_filter_le _ _).trans ?_
  rw [List.length_map, Std.ExtTreeMap.length_toList]

section Call

variable {decodeErr : Option Doc → String} {order : Live.Order} {w : Live} {α : Type}

theorem bounded_exec (hw : Bounded w) (op : Op) : Bounded (exec order w op).2 := by
  have hproxy : ∀ x, Bounded (ofProxy w x).2 := fun x => by cases x <;> exact ⟨hw.count, hw.epoch⟩
  cases op with
  | addUser clientID flow => exact hproxy _
  | selectBackend clientID backendID => exact hproxy _
  | setUserBackends clientID backendIDs => exact hproxy _
  | _ => exact ⟨hw.count, hw.epoch⟩

theorem into_encode (c : Codec α) (a : α) (h : c.Valid a) :
    into decodeErr c (some (c.encode a)) = .ok a := by
  unfold into
  rw [Option.bind_some, c.decode_encode h]

variable [Folding]

@[simp] theorem respond_snd (body : α → Option Doc) (res : Except GoError α × Live) :
    (respond body res).2 = res.2 := by
  obtain ⟨x, w'⟩ := res
  cases x with
  | error err => rfl
  | ok a =>
    unfold respond
    dsimp only
    split <;> rfl

theorem decoding_encode {c : Codec α} {a : α} (h : c.Valid a) {method path : String}
    {k : α → Response × Live} {r : Response × Live} (hk : k a = r) :
    decoding decodeErr c ⟨method, path, some (c.encode a)⟩ w k = r := by
  unfold decoding
  rw [Option.bind_some, c.decode_encode h]
  exact hk

/-- What the client makes of an answer of the server. -/
theorem received_respond {path : String} {out : Option Doc → Except GoError α}
    {body : α → Option Doc} {res : Except GoError α × Live}
    (herr : ∀ err, res.1 = .error err → err.message ≠ "")
    (hok : ∀ a, res.1 = .ok a → out (body a) = .ok a) :
    received path out (respond body res).1 = res.1.mapError (named path) := by
  obtain ⟨x, w'⟩ := res
  cases x with
  | error err =>
    have hread : errorResponse.decode (errorResponse.encode err.message) = some err.message :=
      errorResponse.decode_encode trivial
    simp only [respond, writeError, received, Option.bind_some, hread, Option.getD_some,
      if_neg (herr err rfl)]
    rfl
  | ok a =>
    have hout := hok a rfl
    unfold respond
    dsimp only
    cases hbody : body a with
    | none => rw [hbody] at hout; exact hout
    | some j => rw [hbody] at hout; exact hout

theorem valid_activeConnections (w : Live) (order : Live.Order) :
    activeConnectionsResponse.Valid (w.activeConnections order) := by
  intro c hc
  obtain ⟨s, -, rfl⟩ := List.mem_map.mp hc
  exact ⟨trivial, trivial, trivial, s.up.toNat_lt, s.down.toNat_lt⟩

theorem call_eq_post (d : Delivery) (op : Op) :
    Client.call decodeErr order d w op =
      post decodeErr order d op.path op.request (op.out decodeErr) w := by
  cases op <;> rfl

/-- The server does for a request of the client what the call asks for. -/
theorem handler_request {op : Op} (hop : op.Typed) :
    handler decodeErr order ⟨"POST", op.path, some op.request⟩ w = respond op.answer (exec order w op) := by
  unfold handler Op.path
  simp only [find_registered, ne_eq, not_true_eq_false, if_false]
  cases op with
  | addUser clientID flow =>
    rw [Op.endpoint, Op.request, serve]
    exact decoding_encode (c := addUserRequest) ⟨trivial, trivial⟩ rfl
  | removeUser clientID =>
    rw [Op.endpoint, Op.request, serve]
    exact decoding_encode (c := removeUserRequest) trivial rfl
  | selectBackend clientID backendID =>
    rw [Op.endpoint, Op.request, serve]
    exact decoding_encode (c := selectBackendRequest) ⟨trivial, trivial⟩ rfl
  | setUserBackends clientID backendIDs =>
    rw [Op.endpoint, Op.request, serve]
    exact decoding_encode (c := setUserBackendsRequest) ⟨trivial, fun _ _ => trivial⟩ rfl
  | setBackends backends =>
    rw [Op.endpoint, Op.request, serve]
    exact decoding_encode (c := setBackendsRequest) (fun be hbe => ⟨trivial, trivial, hop be hbe⟩) rfl
  | backendConnections backendID =>
    rw [Op.endpoint, Op.request, serve]
    exact decoding_encode (c := backendConnectionsRequest) trivial rfl
  | activeConnections => rfl
  | epoch => rfl

/-- The client reads the value that the proxy has returned. -/
theorem out_answer (hw : Bounded w) {op : Op} {a : op.Value} (h : (exec order w op).1 = .ok a) :
    op.out decodeErr (op.answer a) = .ok a := by
  cases op with
  | backendConnections backendID =>
    cases h
    rw [Op.out, Op.answer]
    exact into_encode _ _ ((backendConnections_le w backendID).trans_lt hw.count)
  | activeConnections =>
    cases h
    rw [Op.out, Op.answer]
    exact into_encode _ _ (valid_activeConnections w order)
  | epoch =>
    cases h
    rw [Op.out, Op.answer]
    exact into_encode _ _ hw.epoch
  | _ => rfl

theorem call_answered {op : Op} (hop : op.Typed) (hw : Bounded w) :
    Client.call decodeErr order .answered w op =
      ((exec order w op).1.mapError (named op.path), (exec order w op).2) := by
  rw [call_eq_post]
  unfold post send
  simp only [handler_request hop, respond_snd]
  rw [received_respond (fun err herr => (exec_error herr).2) fun a ha => out_answer hw ha]

end Call

/-! ## The ports of the agent -/

/-- The calls of the surface among the ports. -/
def Op.port : Op → Option (Env → World → Err × World)
  | .addUser clientID flow => some (World.exec (.addUser clientID flow))
  | .removeUser clientID => some (World.exec (.removeUser clientID))
  | .selectBackend clientID backendID => some (World.exec (.selectBackend clientID backendID))
  | .setUserBackends clientID backendIDs => some (World.exec (.setUserBackends clientID backendIDs))
  | .setBackends backends => some (World.exec (.setBackends backends))
  | _ => none

/-- A port that the environment lets through is a call of the client that is answered. -/
theorem port_eq_call [Folding] {decodeErr : Option Doc → String} {order : Live.Order} {l : Live}
    {w : World} {op : Op}
    {f : Env → World → Err × World} {e : Env} (hf : op.port = some f) (hproxy : w.proxy = l.proxy)
    (he : e.fail = none) (hop : op.Typed) (hl : Bounded l) :
    (f e w).2.proxy = (Client.call decodeErr order .answered l op).2.proxy ∧
      ((f e w).1 = none ↔ ∃ a, (Client.call decodeErr order .answered l op).1 = .ok a) := by
  have hchecked : ∀ x : Except GoError Proxy,
      (w.ofProxy x).2.proxy = (ofProxy l x).2.proxy ∧
        ((w.ofProxy x).1 = none ↔ ∃ a, (ofProxy l x).1.mapError (named op.path) = .ok a) := by
    intro x
    cases x with
    | error err => exact ⟨hproxy, by simp [World.ofProxy, ofProxy, Except.mapError]⟩
    | ok p => exact ⟨rfl, by simp [World.ofProxy, ofProxy, Except.mapError]⟩
  rw [call_answered hop hl]
  cases op with
  | addUser clientID flow =>
    cases hf
    simp only [World.exec, Env.guarded, he, hproxy]
    exact hchecked _
  | removeUser clientID =>
    cases hf
    simp only [World.exec, Env.guarded, he, hproxy]
    exact ⟨rfl, iff_of_true trivial ⟨(), rfl⟩⟩
  | selectBackend clientID backendID =>
    cases hf
    simp only [World.exec, Env.guarded, he, hproxy]
    exact hchecked _
  | setUserBackends clientID backendIDs =>
    cases hf
    simp only [World.exec, Env.guarded, he, hproxy]
    exact hchecked _
  | setBackends backends =>
    cases hf
    simp only [World.exec, Env.guarded, he, hproxy]
    exact ⟨rfl, iff_of_true trivial ⟨(), rfl⟩⟩
  | _ => cases hf

/-! ## Sessions of the agent -/

/-- A call that the agent makes, and what becomes of its request. -/
structure Sent where
  op : Op
  delivery : Delivery
  order : Live.Order

/-- What the agent is told. -/
structure Outcome where
  op : Op
  result : Except GoError op.Value

/-- The calls one after the other. -/
def Client.session [Folding] (decodeErr : Option Doc → String) : List Sent → Live → List Outcome × Live
  | [], w => ([], w)
  | s :: calls, w =>
    let r := Client.call decodeErr s.order s.delivery w s.op
    let rest := session decodeErr calls r.2
    (⟨s.op, r.1⟩ :: rest.1, rest.2)

/-- A call on the proxy itself. One that is refused is not made, and of one without an answer only the
error of the transport is known. -/
def direct (s : Sent) (w : Live) : Except GoError s.op.Value × Live :=
  match s.delivery with
  | .answered => ((exec s.order w s.op).1.mapError (named s.op.path), (exec s.order w s.op).2)
  | .refused err => (.error err, w)
  | .lost err => (.error err, (exec s.order w s.op).2)

/-- The same calls made on the proxy itself. -/
def directSession : List Sent → Live → List Outcome × Live
  | [], w => ([], w)
  | s :: calls, w =>
    let r := direct s w
    let rest := directSession calls r.2
    (⟨s.op, r.1⟩ :: rest.1, rest.2)

theorem bounded_direct {w : Live} (hw : Bounded w) (s : Sent) : Bounded (direct s w).2 := by
  unfold direct
  cases s.delivery with
  | refused err => exact hw
  | _ => exact bounded_exec hw s.op

section Session

variable [Folding] {decodeErr : Option Doc → String} {w : Live}

theorem call_eq_direct {s : Sent} (hop : s.op.Typed) (hw : Bounded w) :
    Client.call decodeErr s.order s.delivery w s.op = direct s w := by
  unfold direct
  cases s.delivery with
  | answered => exact call_answered hop hw
  | refused err =>
    rw [call_eq_post]
    rfl
  | lost err =>
    rw [call_eq_post]
    unfold post send
    simp only [handler_request hop, respond_snd]

/-- Whatever the agent calls and whatever happens to its requests, the client over the wire does to the
proxy, and reports to the agent, what the same calls on the proxy itself do and return. -/
theorem client_session_refines_proxy (decodeErr : Option Doc → String) {calls : List Sent} {w : Live}
    (hcalls : ∀ s ∈ calls, s.op.Typed) (hw : Bounded w) :
    Client.session decodeErr calls w = directSession calls w := by
  induction calls generalizing w with
  | nil => rfl
  | cons s calls ih =>
    obtain ⟨hs, hcalls⟩ := List.forall_mem_cons.mp hcalls
    rw [Client.session, directSession, call_eq_direct hs hw, ih hcalls (bounded_direct hw s)]

end Session

section Fixed

local instance asciiFolding : Folding := ⟨Char.toUpper⟩

/-- A call that succeeds, one whose answer is lost after it was served, and one that the proxy rejects. -/
def threeCalls : List Sent :=
  [⟨.addUser "u" "", .answered, fun l => ⟨l, .refl l⟩⟩,
    ⟨.setBackends [⟨"be1", "10.0.0.1", 443⟩], .lost (.new "EOF"), fun l => ⟨l, .refl l⟩⟩,
    ⟨.selectBackend "u" "be2", .answered, fun l => ⟨l, .refl l⟩⟩]

theorem client_session_refines_proxy_threeCalls :
    Client.session (fun _ => "EOF") threeCalls {} = directSession threeCalls {} ∧
    ((Client.session (fun _ => "EOF") threeCalls {}).2.proxy.backends.keys = ["be1"]) := by
  have h : Client.session (fun _ => "EOF") threeCalls {} = directSession threeCalls {} :=
    client_session_refines_proxy _ (by simp [threeCalls, Op.Typed])
      ⟨by simp, by decide⟩
  exact ⟨h, by rw [h]; decide +kernel⟩

end Fixed

/-! ## Whatever arrives on the socket -/

section Arrive

variable [Folding]

/-- The call that the body of a request to an endpoint stands for. -/
def Endpoint.op (body : Option Doc) : Endpoint → Option Op
  | .addUser => (body.bind addUserRequest.decode).map fun r => .addUser r.clientID r.flow
  | .removeUser => (body.bind removeUserRequest.decode).map .removeUser
  | .selectBackend =>
    (body.bind selectBackendRequest.decode).map fun r => .selectBackend r.clientID r.backendID
  | .setUserBackends =>
    (body.bind setUserBackendsRequest.decode).map fun r => .setUserBackends r.clientID r.backendIDs
  | .setBackends => (body.bind setBackendsRequest.decode).map .setBackends
  | .backendConnections => (body.bind backendConnectionsRequest.decode).map .backendConnections
  | .activeConnections => some .activeConnections
  | .status => some .epoch

/-- The call that a request asks for, if it asks for any. -/
def Request.op (req : Request) : Option Op :=
  if req.method = "POST" then
    (registered.find? fun ep => ep.path = req.path).bind (Endpoint.op req.body)
  else none

/-- The answer to a call that has succeeded. -/
def Op.response (op : Op) (a : op.Value) : Response :=
  match op.answer a with
  | none => ⟨204, none⟩
  | some d => ⟨200, some d⟩

/-- The requests as calls of the surface, made one after the other: each is answered with what its own
call returns, and where there is no call, or the proxy rejects it, nothing changes. -/
inductive Served : List (Request × Live.Order) → Live → List Response → Live → Prop
  | nil (w : Live) : Served [] w [] w
  | performed {req : Request} {order : Live.Order} {op : Op} {a : op.Value} {w w₁ w' : Live}
      {reqs : List (Request × Live.Order)} {rs : List Response} (hop : req.op = some op)
      (hexec : exec order w op = (.ok a, w₁)) (hrest : Served reqs w₁ rs w') :
      Served ((req, order) :: reqs) w (op.response a :: rs) w'
  | rejected {req : Request} {order : Live.Order} {op : Op} {err : GoError} {w w' : Live}
      {reqs : List (Request × Live.Order)} {rs : List Response} (hop : req.op = some op)
      (hexec : exec order w op = (.error err, w)) (hrest : Served reqs w rs w') :
      Served ((req, order) :: reqs) w (writeError 409 err.message :: rs) w'
  | refused {req : Request} {order : Live.Order} {r : Response} {w w' : Live}
      {reqs : List (Request × Live.Order)} {rs : List Response} (hop : req.op = none)
      (hr : 400 ≤ r.status) (hrest : Served reqs w rs w') :
      Served ((req, order) :: reqs) w (r :: rs) w'

variable {decodeErr : Option Doc → String} {order : Live.Order} {w : Live}

-- of two members that differ in case, the later one counts
example :
    @Request.op asciiFolding ⟨"POST", "/v1/add-user",
      some (.obj [("client_id", .str "u"), ("Client_ID", .str "v"), ("note", .bool true)])⟩ =
      some (.addUser "v" "") := by
  decide +kernel

end Arrive

end NodeAgent.Control
