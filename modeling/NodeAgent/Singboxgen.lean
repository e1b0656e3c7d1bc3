import NodeAgent.Backends

/-!
# Rendering the sing-box configuration

`internal/wire/singboxgen`: the check of a node's state and the configuration built from it. A
rendered file stands here for the value it encodes.
-/

namespace NodeAgent

/-! ## Lower case -/

/-- `unicode.ToLower`. All that is asked of the mapping is that the dash stays and no other rune becomes
one. -/
class Lowering where
  rune : Char → Char
  dash : ∀ c, rune c = '-' ↔ c = '-'

/-- `strings.ToLower`, which maps rune by rune. -/
def toLower [Lowering] (s : String) : String := String.ofList (s.toList.map Lowering.rune)

namespace Eval

theorem toLower_eq_dash_iff (c : Char) : c.toLower = '-' ↔ c = '-' := by
  constructor
  · intro h
    by_cases hup : c.val ≥ 'A'.val ∧ c.val ≤ 'Z'.val
    · -- the letters are mapped to letters
      have hval := congrArg (fun x : Char => x.val.toNat) h
      rw [Char.toLower, dif_pos hup] at hval
      obtain ⟨hlo, hhi⟩ := hup
      have hlo' : 65 ≤ c.val.toNat := hlo
      have hhi' : c.val.toNat ≤ 90 := hhi
      have hsum : (c.val + ('a'.val - 'A'.val)).toNat = c.val.toNat + 32 := by
        rw [UInt32.toNat_add]
        show (c.val.toNat + 32) % 2 ^ 32 = _
        omega
      dsimp only at hval
      rw [hsum] at hval
      change c.val.toNat + 32 = 45 at hval
      omega
    · rw [Char.toLower, dif_neg hup] at h
      exact h
  · rintro rfl
    decide

/-- The mapping on ASCII, with which fixed inputs are evaluated. -/
scoped instance lowering : Lowering where
  rune := Char.toLower
  dash := toLower_eq_dash_iff

end Eval

namespace Singboxgen

structure ListenSpec where
  address : String := ""
  port : ℕ := 0
  sniff : Bool := false
  deriving DecidableEq, Repr, Inhabited

/-- The inbound that the users come in by. -/
structure InboundSpec where
  tag : String
  listen : ListenSpec
  reality : RealitySpec := {}
  deriving DecidableEq, Repr, Inhabited

structure LogSpec where
  level : String := ""
  disabled : Bool := false
  deriving DecidableEq, Repr, Inhabited

structure ClashAPISpec where
  enabled : Bool := false
  externalCt : String := ""
  secret : String := ""
  deriving DecidableEq, Repr, Inhabited

/-- `NodeState`: all that a configuration is rendered from. -/
structure NodeState where
  log : LogSpec := {}
  clashAPI : ClashAPISpec := {}
  inbound : InboundSpec
  backends : List BackendSpec
  placements : List Placement
  deriving DecidableEq, Repr

/-! ## The configuration -/

structure LogConfig where
  level : String
  disabled : Bool
  deriving DecidableEq, Repr

structure ClashAPIConfig where
  externalController : String
  secret : String
  deriving DecidableEq, Repr

structure Handshake where
  server : String
  serverPort : ℕ
  deriving DecidableEq, Repr

structure RealityConfig where
  enabled : Bool
  handshake : Handshake
  privateKey : String
  shortID : List String
  deriving DecidableEq, Repr

structure TLSConfig where
  enabled : Bool
  serverName : String
  reality : Option RealityConfig
  deriving DecidableEq, Repr

/-- A user of the inbound. -/
structure VlessUser where
  name : String
  uuid : String
  flow : String
  deriving DecidableEq, Repr

/-- An inbound as it is rendered. -/
structure Inbound where
  type : String
  tag : String
  listen : String
  listenPort : ℕ
  sniff : Bool
  users : List VlessUser
  tls : Option TLSConfig
  deriving DecidableEq, Repr

/-- An outbound as it is rendered: direct, block, a backend, or a selector. -/
structure Outbound where
  type : String
  tag : String
  server : String := ""
  serverPort : ℕ := 0
  uuid : String := ""
  flow : String := ""
  tls : Option TLSConfig := none
  outbounds : List String := []
  default : String := ""
  interruptExistConnections : Bool := false
  deriving DecidableEq, Repr

/-- A rule sends the connections of a user to an outbound. -/
structure RouteRule where
  authUser : List String
  outbound : String
  deriving DecidableEq, Repr

structure RouteConfig where
  rules : List RouteRule
  autoDetectInterface : Bool
  final : String
  deriving DecidableEq, Repr

/-- The configuration that `Build` returns. -/
structure SingBoxConfig where
  log : Option LogConfig
  inbounds : List Inbound
  outbounds : List Outbound
  route : RouteConfig
  experimental : Option ClashAPIConfig
  deriving DecidableEq, Repr

/-! ## Tags -/

def directOutboundTag : String := "direct"
def blockOutboundTag : String := "block"
def vlessType : String := "vless"
def selectorType : String := "selector"
def defaultClashAddr : String := "127.0.0.1:9090"

/-- `PerUserSelectorTagFor`: the tag of a user's selector. -/
def perUserSelectorTagFor [Lowering] (clientID : ClientID) : String := "u-" ++ toLower clientID

/-- `PerUserOutboundTagFor`: the tag of a user's outbound to a backend. -/
def perUserOutboundTagFor [Lowering] (clientID : ClientID) (backendID : BackendID) : String :=
  "b-" ++ toLower clientID ++ "-" ++ toLower backendID

/-- The vision flow on REALITY, none otherwise. -/
def flowForTransport (t : TransportKind) : String :=
  if t = .reality then "xtls-rprx-vision" else ""

/-! ## The check -/

/-- The loop over the backends; it returns the ids it has seen. -/
def validateBackends (seen : List BackendID) : List BackendSpec → Except GoError (List BackendID)
  | [] => .ok seen
  | b :: bs =>
    if b.id = "" then .error (.new "singboxgen: backend id required")
    else if b.address = "" ∨ b.port = 0 then
      .error (.new ("singboxgen: backend " ++ b.id ++ " requires address+port"))
    else if b.id ∈ seen then
      .error (.new ("singboxgen: duplicate backend id " ++ quote b.id))
    else validateBackends (b.id :: seen) bs

/-- The loop over the placements. -/
def validatePlacements (seen : List BackendID) : List Placement → Except GoError Unit
  | [] => .ok ()
  | p :: ps =>
    if p.desired ≠ .active then validatePlacements seen ps
    else if p.clientID = "" then
      .error (.new ("singboxgen: placement " ++ p.id ++ " missing client_id"))
    else if p.backendNodeID ∈ seen then validatePlacements seen ps
    else .error (.new ("singboxgen: placement " ++ p.id ++ " references unknown backend " ++
      quote p.backendNodeID))

/-- `validate` of `builder.go`: the inbound, unique backends, and a known backend for every active
placement. -/
def validate (state : NodeState) : Except GoError Unit := do
  if state.inbound.tag = "" then throw (.new "singboxgen: inbound.tag required")
  if state.inbound.listen.port = 0 then throw (.new "singboxgen: inbound.listen.port required")
  let seen ← validateBackends [] state.backends
  validatePlacements seen state.placements

/-! ## The build -/

section Build

variable [Lowering]

def buildLog (l : LogSpec) : Option LogConfig :=
  if l.level = "" ∧ l.disabled = false then none else some ⟨l.level, l.disabled⟩

def buildClashAPI (c : ClashAPISpec) : ClashAPIConfig :=
  ⟨if c.externalCt = "" then defaultClashAddr else c.externalCt, c.secret⟩

def buildTLS (r : RealitySpec) : TLSConfig :=
  { enabled := true
    serverName := r.serverName
    reality := some
      { enabled := true, handshake := ⟨r.handshake, 443⟩, privateKey := "", shortID := r.shortIDs } }

/-- The users of the first active placement of each client, in the order of the placements. -/
def activeUsers (seen : List ClientID) : List Placement → List VlessUser
  | [] => []
  | p :: ps =>
    if p.desired ≠ .active ∨ p.clientID = "" ∨ p.clientID ∈ seen then activeUsers seen ps
    else ⟨p.clientID, p.clientID, flowForTransport p.transport⟩ ::
      activeUsers (p.clientID :: seen) ps

/-- Each client with an active placement once, with the flow of its first one, sorted. -/
def collectActiveUsers (placements : List Placement) : List VlessUser :=
  (activeUsers [] placements).insertionSort fun a b => a.uuid ≤ b.uuid

/-- `buildInbound`. -/
def buildInbound (spec : InboundSpec) (placements : List Placement) : Inbound :=
  { type := vlessType
    tag := spec.tag
    listen := if spec.listen.address = "" then "::" else spec.listen.address
    listenPort := spec.listen.port
    sniff := spec.listen.sniff
    users := collectActiveUsers placements
    tls := if spec.reality.enabled then some (buildTLS spec.reality) else none }

/-- The placements that `buildOutbounds` and `buildRoute` look at. -/
def routed (backends : List BackendSpec) (p : Placement) : Bool :=
  p.desired = .active ∧ p.clientID ≠ "" ∧ p.backendNodeID ∈ backends.map BackendSpec.id

/-- The clients with a routed placement, each once, sorted. -/
def routedUsers (placements : List Placement) (backends : List BackendSpec) : List ClientID :=
  (((placements.filter (routed backends)).map Placement.clientID).dedup).insertionSort (· ≤ ·)

/-- `desiredBackendByUser[uid]`: the backend of the client's last routed placement. -/
def desiredBackendByUser (placements : List Placement) (backends : List BackendSpec)
    (uid : ClientID) : BackendID :=
  (((placements.filter (routed backends)).filter fun p => p.clientID = uid).map
    Placement.backendNodeID).getLastD ""

/-- One outbound per backend and the selector over them. -/
def userOutbounds (uid : ClientID) (sortedBackends : List BackendSpec) (desired : BackendID) :
    List Outbound :=
  (sortedBackends.map fun b =>
    { type := vlessType, tag := perUserOutboundTagFor uid b.id, server := b.address,
      serverPort := b.port, uuid := uid }) ++
  [{ type := selectorType
     tag := perUserSelectorTagFor uid
     outbounds := sortedBackends.map (fun b => perUserOutboundTagFor uid b.id) ++ [blockOutboundTag]
     default := perUserOutboundTagFor uid desired }]

/-- `buildOutbounds`: the two fixed ones, and for each user those to the backends and the selector. -/
def buildOutbounds (placements : List Placement) (backends : List BackendSpec) : List Outbound :=
  [{ type := directOutboundTag, tag := directOutboundTag },
   { type := blockOutboundTag, tag := blockOutboundTag }] ++
  (routedUsers placements backends).flatMap fun uid =>
    userOutbounds uid (backends.insertionSort fun a b => a.id ≤ b.id)
      (desiredBackendByUser placements backends uid)

/-- `buildRoute`: a rule for every user with a selector. -/
def buildRoute (placements : List Placement) (backends : List BackendSpec) : RouteConfig :=
  { rules := (routedUsers placements backends).map fun uid => ⟨[uid], perUserSelectorTagFor uid⟩
    autoDetectInterface := true
    final := directOutboundTag }

/-- `Build`: what passes the check is rendered. -/
def build (state : NodeState) : Except GoError SingBoxConfig := do
  validate state
  return {
    log := buildLog state.log
    inbounds := [buildInbound state.inbound state.placements]
    outbounds := buildOutbounds state.placements state.backends
    route := buildRoute state.placements state.backends
    experimental := if state.clashAPI.enabled then some (buildClashAPI state.clashAPI) else none }

end Build

/-! ## What the check accepts -/

/-- What the check asks of one placement. -/
def Renderable (backends : List BackendSpec) (p : Placement) : Prop :=
  p.desired = .active → p.clientID ≠ "" ∧ p.backendNodeID ∈ backends.map BackendSpec.id

/-- What the check asks of everything but the placements. -/
def FrameOk (inbound : InboundSpec) (backends : List BackendSpec) : Prop :=
  inbound.tag ≠ "" ∧ inbound.listen.port ≠ 0 ∧ ∃ seen, validateBackends [] backends = .ok seen

/-- What the loop over the backends asks for. -/
theorem validateBackends_ok_iff {bs : List BackendSpec} {seen : List BackendID} :
    (∃ ids, validateBackends seen bs = .ok ids) ↔
      (∀ b ∈ bs, b.id ≠ "" ∧ b.address ≠ "" ∧ b.port ≠ 0) ∧ (bs.map BackendSpec.id).Nodup ∧
        ∀ b ∈ bs, b.id ∉ seen := by
  induction bs generalizing seen with
  | nil => simp [validateBackends]
  | cons b bs ih =>
    rw [List.forall_mem_cons, List.forall_mem_cons, List.map_cons, List.nodup_cons, validateBackends]
    split_ifs with hid haddr hseen
    · simp [hid]
    · simp only [exists_false, false_iff]
      rintro ⟨⟨⟨-, h, h'⟩, -⟩, -⟩
      exact haddr.elim h h'
    · simp [hseen]
    · rw [ih]
      rw [not_or] at haddr
      have hnew : (∀ x ∈ bs, x.id ∉ b.id :: seen) ↔
          b.id ∉ bs.map BackendSpec.id ∧ ∀ x ∈ bs, x.id ∉ seen := by
        simp only [List.mem_cons, not_or, List.mem_map, not_exists, not_and]
        exact forall₂_and
      rw [hnew]
      tauto

theorem validateBackends_ok {bs : List BackendSpec} {seen ids : List BackendID}
    (h : validateBackends seen bs = .ok ids) (x : BackendID) :
    x ∈ ids ↔ x ∈ bs.map BackendSpec.id ∨ x ∈ seen := by
  induction bs generalizing seen with
  | nil =>
    cases h
    simp
  | cons b bs ih =>
    unfold validateBackends at h
    split_ifs at h
    rw [ih h, List.map_cons, List.mem_cons, List.mem_cons]
    tauto

theorem validatePlacements_ok_iff {seen : List BackendID} {ps : List Placement} :
    validatePlacements seen ps = .ok () ↔
      ∀ p ∈ ps, p.desired = .active → p.clientID ≠ "" ∧ p.backendNodeID ∈ seen := by
  induction ps with
  | nil => simp [validatePlacements]
  | cons p ps ih =>
    unfold validatePlacements
    split_ifs with hd hc hb <;> simp_all

/-- The check accepts a state exactly when its frame is fine and every placement is renderable. -/
theorem validate_ok_iff {st : NodeState} :
    validate st = .ok () ↔
      FrameOk st.inbound st.backends ∧ ∀ p ∈ st.placements, Renderable st.backends p := by
  unfold validate FrameOk Renderable
  by_cases ht : st.inbound.tag = ""
  · simp [ht, throw, throwThe, MonadExceptOf.throw, bind, Except.bind]
  by_cases hp : st.inbound.listen.port = 0
  · simp [ht, hp, throw, throwThe, MonadExceptOf.throw, bind, Except.bind]
  cases hb : validateBackends [] st.backends with
  | error err => simp [ht, hp, bind, Except.bind]
  | ok seen =>
    simp only [ht, hp, bind, Except.bind, if_false, not_false_eq_true, ne_eq, true_and,
      Except.ok.injEq, exists_eq', validatePlacements_ok_iff]
    refine forall₃_congr fun p _ _ => ?_
    rw [validateBackends_ok hb]
    simp

theorem build_ok_iff [Lowering] {st : NodeState} :
    (∃ cfg, build st = .ok cfg) ↔
      FrameOk st.inbound st.backends ∧ ∀ p ∈ st.placements, Renderable st.backends p := by
  rw [← validate_ok_iff]
  unfold build
  cases validate st with
  | error err => simp [bind, Except.bind]
  | ok u => simp [bind, Except.bind, pure, Except.pure]

end Singboxgen

end NodeAgent
