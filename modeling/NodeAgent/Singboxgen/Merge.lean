import NodeAgent.Lib.Json
import NodeAgent.Singboxgen

/-!
# Rendering into a base file

`internal/wire/singboxgen/merge.go`: the users, the per-user outbounds and their route rules of a state
are put into a configuration that is already there. Also `schema.go`, how a built configuration is
encoded: the next render may find it as its base.
-/

namespace NodeAgent.Singboxgen

open Lib

/-! ## Encoding a built configuration -/

/-- A member with `omitempty`. -/
def strMember (name s : String) : List (String × Json) := if s = "" then [] else [(name, .str s)]

/-- Members with `omitempty`: a flag, a number, a list of texts. -/
def flagMember (name : String) (b : Bool) : List (String × Json) := if b then [(name, .bool b)] else []

def numMember (name : String) (n : ℕ) : List (String × Json) := if n = 0 then [] else [(name, .num n)]

def strsMember (name : String) (l : List String) : List (String × Json) :=
  if l = [] then [] else [(name, .arr (l.map .str))]

def LogConfig.toJson (l : LogConfig) : Json :=
  .obj (strMember "level" l.level ++ flagMember "disabled" l.disabled)

def ClashAPIConfig.toJson (c : ClashAPIConfig) : Json :=
  .obj ([("external_controller", .str c.externalController)] ++ strMember "secret" c.secret)

def RealityConfig.toJson (r : RealityConfig) : Json :=
  .obj ([("enabled", .bool r.enabled),
    ("handshake", .obj [("server", .str r.handshake.server),
      ("server_port", .num r.handshake.serverPort)])] ++
    strMember "private_key" r.privateKey ++ strsMember "short_id" r.shortID)

def TLSConfig.toJson (t : TLSConfig) : Json :=
  .obj ([("enabled", .bool t.enabled)] ++ strMember "server_name" t.serverName ++
    (t.reality.map fun r => ("reality", r.toJson)).toList)

def VlessUser.toJson (u : VlessUser) : Json :=
  .obj ([("name", .str u.name), ("uuid", .str u.uuid)] ++ strMember "flow" u.flow)

def Inbound.toJson (i : Inbound) : Json :=
  .obj ([("type", .str i.type), ("tag", .str i.tag)] ++ strMember "listen" i.listen ++
    [("listen_port", .num i.listenPort)] ++ flagMember "sniff" i.sniff ++
    [("users", .arr (i.users.map VlessUser.toJson))] ++
    (i.tls.map fun t => ("tls", t.toJson)).toList)

def Outbound.toJson (o : Outbound) : Json :=
  .obj ([("type", .str o.type), ("tag", .str o.tag)] ++ strMember "server" o.server ++
    numMember "server_port" o.serverPort ++ strMember "uuid" o.uuid ++ strMember "flow" o.flow ++
    (o.tls.map fun t => ("tls", t.toJson)).toList ++ strsMember "outbounds" o.outbounds ++
    strMember "default" o.default ++
    flagMember "interrupt_exist_connections" o.interruptExistConnections)

def RouteRule.toJson (r : RouteRule) : Json :=
  .obj (strsMember "auth_user" r.authUser ++ [("outbound", .str r.outbound)])

def RouteConfig.toJson (r : RouteConfig) : Json :=
  .obj ([("rules", .arr (r.rules.map RouteRule.toJson)),
    ("auto_detect_interface", .bool r.autoDetectInterface)] ++ strMember "final" r.final)

def SingBoxConfig.toJson (c : SingBoxConfig) : Json :=
  .obj ((c.log.map fun l => ("log", l.toJson)).toList ++
    [("inbounds", .arr (c.inbounds.map Inbound.toJson)),
     ("outbounds", .arr (c.outbounds.map Outbound.toJson)),
     ("route", c.route.toJson)] ++
    (c.experimental.map fun e => ("experimental", .obj [("clash_api", e.toJson)])).toList)

/-! ## The merge -/

def dynamicTagPrefix : String := "b-"
def legacyDynamicTagPrefix : String := "backend-"

/-- The tag is one that the agent has rendered, now or in an earlier version. -/
def isDynamicTag (tag : String) : Bool :=
  dynamicTagPrefix.toList.isPrefixOf tag.toList || legacyDynamicTagPrefix.toList.isPrefixOf tag.toList

/-- `json.Unmarshal` into a `map[string]any`. -/
def decodeObject : Json → Except GoError (List (String × Json))
  | .obj members => .ok members
  | .null => .ok []
  | .bool _ => .error (.new "json: cannot unmarshal bool into Go value of type map[string]interface {}")
  | .num _ => .error (.new "json: cannot unmarshal number into Go value of type map[string]interface {}")
  | .str _ => .error (.new "json: cannot unmarshal string into Go value of type map[string]interface {}")
  | .arr _ => .error (.new "json: cannot unmarshal array into Go value of type map[string]interface {}")

/-- The entry of a user in `mergeInbounds`. -/
def mergedUser (u : VlessUser) : Json :=
  .obj ([("name", .str u.uuid), ("uuid", .str u.uuid)] ++ strMember "flow" u.flow)

/-- The inbound is the one that the state is about. -/
def isOwnInbound (state : NodeState) (inb : Json) : Bool :=
  inb.get? "tag" = some (.str state.inbound.tag)

/-- One round of the loop of `mergeInbounds`. -/
def mergeInbound (state : NodeState) (users : List Json) (inb : Json) : Json :=
  match inb with
  | .obj members =>
    if isOwnInbound state inb ∧ users ≠ [] then .obj (Json.setMember "users" (.arr users) members)
    else inb
  | _ => inb

/-- `mergeInbounds`: the users go into the inbound with the tag of the state. -/
def mergeInbounds (root : List (String × Json)) (state : NodeState) :
    Except GoError (List (String × Json)) :=
  match root.lookup "inbounds" with
  | none => .error (.new "singboxgen: base missing inbounds[]")
  | some (.arr inbounds) =>
    let users := (collectActiveUsers state.placements).map mergedUser
    if inbounds.any (isOwnInbound state) then
      .ok (Json.setMember "inbounds" (.arr (inbounds.map (mergeInbound state users))) root)
    else .error (.new ("singboxgen: base has no inbound with tag " ++ quote state.inbound.tag))
  | some _ => .error (.new "singboxgen: base inbounds must be array")

/-- The pairs of a client and a backend that have a routed placement, each once, sorted by backend and
then by client. -/
def routedPairs (placements : List Placement) (backends : List BackendSpec) :
    List (ClientID × BackendID) :=
  (((placements.filter (routed backends)).map fun p => (p.clientID, p.backendNodeID)).dedup).insertionSort
    fun a b => if a.2 ≠ b.2 then a.2 < b.2 else a.1 ≤ b.1

/-- `backendByID[id]`. -/
def backendByID (backends : List BackendSpec) (id : BackendID) : BackendSpec :=
  (backends.filter fun b => b.id = id).getLastD {}

/-- The outbound that `mergeOutbounds` adds for a pair. -/
def pairOutbound [Lowering] (backends : List BackendSpec) (x : ClientID × BackendID) : Json :=
  .obj [("type", .str vlessType), ("tag", .str (perUserOutboundTagFor x.1 x.2)),
    ("server", .str (backendByID backends x.2).address),
    ("server_port", .num (backendByID backends x.2).port), ("uuid", .str x.1), ("flow", .str "")]

/-- What the loops over the base's outbounds and rules keep: a member with that name does not name a
dynamic tag. -/
def keeps (name : String) (j : Json) : Bool := ((j.getStr? name).getD "" |> isDynamicTag) = false

/-- `mergeOutbounds`: the rendered outbounds of the base are replaced. -/
def mergeOutbounds [Lowering] (root : List (String × Json)) (state : NodeState) : List (String × Json) :=
  let rawOut := ((Json.obj root).getArr? "outbounds").getD []
  Json.setMember "outbounds"
    (.arr (rawOut.filter (keeps "tag") ++
      (routedPairs state.placements state.backends).map (pairOutbound state.backends))) root

/-- The rule that `buildDynamicRouteRules` makes for a pair. -/
def pairRule [Lowering] (x : ClientID × BackendID) : Json :=
  .obj [("auth_user", .arr [.str x.1]), ("outbound", .str (perUserOutboundTagFor x.1 x.2))]

/-- A rule for each pair of user and backend, sorted. -/
def buildDynamicRouteRules [Lowering] (state : NodeState) : List Json :=
  (routedPairs state.placements state.backends).map pairRule

/-- `mergeRoute`: the rendered rules come first, then those of the base that were not rendered. -/
def mergeRoute [Lowering] (root : List (String × Json)) (state : NodeState) : List (String × Json) :=
  let route := ((Json.obj root).get? "route").bind Json.obj? |>.getD []
  let rawRules := ((Json.obj route).getArr? "rules").getD []
  Json.setMember "route" (.obj (Json.setMember "rules"
    (.arr (buildDynamicRouteRules state ++ rawRules.filter (keeps "outbound"))) route)) root

/-- What is found in the base file. -/
inductive BaseFile
  | empty
  | malformed (err : GoError)
  | json (root : Json)
  deriving DecidableEq, Repr, Inhabited

/-- A rendered file; the two ways to write one differ in the order of the members. -/
inductive Rendered
  | built (cfg : SingBoxConfig)
  | merged (root : Json)
  deriving DecidableEq, Repr

/-- What is in the file. -/
def Rendered.toJson : Rendered → Json
  | .built cfg => cfg.toJson
  | .merged root => root

/-- `MergeBase`: the state is checked, and put into the base file. -/
def mergeBase [Lowering] (base : BaseFile) (state : NodeState) : Except GoError Rendered :=
  match base with
  | .empty => (build state).map .built
  | .malformed err => do
    validate state
    throw (.wrap "singboxgen: parse base" err)
  | .json root => do
    validate state
    let members ← (decodeObject root).mapError (.wrap "singboxgen: parse base")
    let members ← mergeInbounds members state
    return .merged (.obj (mergeRoute (mergeOutbounds members state) state))

theorem validate_of_mergeBase [Lowering] {base : BaseFile} {state : NodeState} {r : Rendered}
    (h : mergeBase base state = .ok r) : validate state = .ok () := by
  cases hv : validate state with
  | ok u => rfl
  | error err => cases base <;> simp [mergeBase, build, hv, bind, Except.bind, Except.map] at h

end NodeAgent.Singboxgen
