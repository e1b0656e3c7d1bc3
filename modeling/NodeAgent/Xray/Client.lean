import NodeAgent.Lib.Exec
import NodeAgent.Ports

/-!
# The xray client

`internal/adapters/xray/user.go`: users are added to and removed from inbounds of a running xray, each
known by its tag. A client knows a default inbound, one per transport, and one that mirrors them.

The server is modelled as a set of users per tag, with their flows: adding a user that is there fails,
removing one that is not there fails, nothing else fails.
-/

namespace NodeAgent.Xray

open Lib

/-! ## The server -/

/-- `AddUserOperation`, `RemoveUserOperation`. -/
inductive Operation
  | add (email flow : String)
  | remove (email : String)
  deriving DecidableEq, Repr

/-- The calls of xray's `HandlerService`. -/
inductive HandlerCall
  | alterInbound (tag : String) (op : Operation)
  /-- the order in which Go ranges over the map of tags -/
  | rangeTags (tags : List (TransportKind × String))
  deriving DecidableEq, Repr

abbrev HandlerReply : HandlerCall → Type
  | .alterInbound _ _ => Err
  | .rangeTags tags => {l : List (TransportKind × String) // l.Perm tags}

/-- The programs of the client. -/
abbrev handlerService : Sig where
  Call := HandlerCall
  Reply := HandlerReply

abbrev XGo (α : Type) := Prog handlerService α

abbrev alterInbound (tag : String) (op : Operation) : XGo Err :=
  Prog.invoke (S := handlerService) (.alterInbound tag op)

/-- The flow of each user of each inbound. -/
def Server := String → ClientID → Option String

namespace Server

/-- The user is in the inbound. -/
def Has (s : Server) (tag : String) (c : ClientID) : Prop := (s tag c).isSome = true

instance (s : Server) (tag : String) (c : ClientID) : Decidable (s.Has tag c) :=
  inferInstanceAs (Decidable (_ = _))

def set (s : Server) (tag : String) (c : ClientID) (flow : Option String) : Server :=
  fun t d => if t = tag ∧ d = c then flow else s t d

/-- Without the user in the given inbounds. -/
def without (s : Server) (tags : List String) (c : ClientID) : Server :=
  fun t d => if t ∈ tags ∧ d = c then none else s t d

end Server

/-- The order of a map range, chosen by the environment. -/
abbrev Order := (l : List (TransportKind × String)) → {l' : List (TransportKind × String) // l'.Perm l}

instance : Inhabited Order := ⟨fun l => ⟨l, List.Perm.refl l⟩⟩

/-- What a call does to the inbounds. -/
def Server.exec : (c : HandlerCall) → Order → Server → HandlerReply c × Server
  | .alterInbound tag (.add email flow), _, s =>
    if s.Has tag email then (some (.new ("User " ++ email ++ " already exists.")), s)
    else (none, s.set tag email (some flow))
  | .alterInbound tag (.remove email), _, s =>
    if s.Has tag email then (none, s.set tag email none)
    else (some (.new ("User " ++ email ++ " not found.")), s)
  | .rangeTags tags, order, s => (order tags, s)

def server : Handler handlerService Order Server where
  exec := Server.exec

/-! ## The client -/

/-- `xray.Client`: the tags of its inbounds. -/
structure Client where
  inboundTag : String
  tagByXport : List (TransportKind × String)
  mirrorTag : String
  /-- the keys of a map -/
  nodup : (tagByXport.map Prod.fst).Nodup
  /-- `New` leaves out empty tags -/
  tag_ne : ∀ x ∈ tagByXport, x.2 ≠ ""

def transportText : TransportKind → String
  | .unset => ""
  | .tcp => "tcp"
  | .ws => "ws"
  | .xhttp => "xhttp"
  | .reality => "reality"

/-- `vlessFlowFor`: REALITY has a flow, the other transports have none. -/
def vlessFlowFor (t : TransportKind) : String :=
  if t = .reality then "xtls-rprx-vision" else ""

/-- `isAlreadyExistsError`: the text of the error is all there is to go by. -/
def isAlreadyExistsError (err : GoError) : Bool :=
  "already exists".toList <:+: err.message.toList

/-- `errors.Join`. -/
def join (err err' : GoError) : GoError := .new (err.message ++ "\n" ++ err'.message)

/-- The closure `add` of `allKnownTags`. -/
def addTag (out : List String) (tag : String) : List String :=
  if tag = "" ∨ tag ∈ out then out else out ++ [tag]

/-- The loop of `RemoveUser`. -/
def removeFrom (clientID : ClientID) : List String → Bool → Err → XGo Err
  | [], removed, lastErr => return if removed then none else lastErr
  | tag :: tags, removed, lastErr => do
    match ← alterInbound tag (.remove clientID) with
    | some err =>
      removeFrom clientID tags removed
        (some (.wrap ("xray: AlterInbound remove " ++ clientID ++ " tag=" ++ tag) err))
    | none => removeFrom clientID tags true lastErr

namespace Client

variable (c : Client)

/-- `Client.tagFor`: the inbound of a transport. -/
def tagFor (t : TransportKind) : String :=
  match c.tagByXport.lookup t with
  | some tag => if tag ≠ "" then tag else c.inboundTag
  | none => c.inboundTag

/-- `allKnownTags`, given the order of the range over the map. -/
def allKnownTags (order : List (TransportKind × String)) : List String :=
  ([c.inboundTag] ++ order.map Prod.snd ++ [c.mirrorTag]).foldl addTag []

/-- `Client.RemoveUser`: from every inbound, and an error only if no removal succeeded. -/
def removeUser (clientID : ClientID) : XGo Err :=
  if clientID = "" then return some (.new "xray: ClientID required")
  else do
    let order ← Prog.invoke (S := handlerService) (.rangeTags c.tagByXport)
    let tags := c.allKnownTags order.val
    if tags = [] then return some (.new ("xray: no inbound tags configured for remove " ++ clientID))
    else removeFrom clientID tags false none

/-- The user is added to an inbound, and an existing one is replaced. -/
def addUserToTag (clientID : ClientID) (tag : String) (op : Operation) : XGo Err := do
  match ← alterInbound tag op with
  | none => return none
  | some err =>
    if isAlreadyExistsError err = false then
      return some (.wrap ("xray: AlterInbound add " ++ clientID ++ " tag=" ++ tag) err)
    else
      match ← c.removeUser clientID with
      | some rmErr =>
        return some (.wrap ("xray: re-add " ++ clientID ++ " tag=" ++ tag ++ ": cleanup failed")
          (join err rmErr))
      | none =>
        match ← alterInbound tag op with
        | some err =>
          return some (.wrap ("xray: AlterInbound re-add " ++ clientID ++ " tag=" ++ tag) err)
        | none => return none

/-- `Client.AddUser`: to the inbound of the transport, and to the mirror if there is one. -/
def addUser (user : XrayUser) : XGo Err :=
  if user.clientID = "" then return some (.new "xray: ClientID required")
  else if user.transport.valid = false then return some (.new "xray: invalid transport")
  else
    let tag := c.tagFor user.transport
    if tag = "" then
      return some (.new ("xray: no inbound tag mapped for transport " ++
        quote (transportText user.transport)))
    else do
      match ← c.addUserToTag user.clientID tag (.add user.clientID (vlessFlowFor user.transport)) with
      | some err => return some err
      | none =>
        if c.mirrorTag ≠ "" ∧ c.mirrorTag ≠ tag then
          c.addUserToTag user.clientID c.mirrorTag (.add user.clientID "")
        else return none

end Client

end NodeAgent.Xray
