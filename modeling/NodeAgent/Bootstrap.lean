import NodeAgent.Domain
import NodeAgent.Lib.Crash
import NodeAgent.Lib.Typestate
import NodeAgent.Singboxgen

/-!
# Bootstrap

`internal/app/bootstrap`, `Initial` of `internal/adapters/controlapi` and `runBootstrapWithRetry` of
`cmd/agent`: where the identity of the node comes from. It is fetched once and stored; every later
start finds it in the store. A start is cut short anywhere, so the results are about sequences of
starts, not about one call.
-/

namespace NodeAgent.Bootstrap

open Lib

/-! ## Errors -/

/-- The errors that a start tells apart, and what is wrapped around them. -/
inductive ApiError
  | canceled
  | deadlineExceeded
  | other (msg : String)
  | wrap (context : String) (cause : ApiError)
  | retryable (status : ℕ) (underlying : ApiError)
  | nonRetryable (status : ℕ) (underlying : ApiError)
  deriving DecidableEq, Repr, Inhabited

namespace ApiError

/-- `Error()` of an error of the control API. -/
def message : ApiError → String
  | .canceled => "context canceled"
  | .deadlineExceeded => "context deadline exceeded"
  | .other msg => msg
  | .wrap context cause => context ++ ": " ++ cause.message
  | .retryable status underlying =>
    (if status ≠ 0 then "control-api: retryable status=" ++ toString status ++ ": "
      else "control-api: retryable: ") ++ underlying.message
  | .nonRetryable status underlying =>
    (if status ≠ 0 then "control-api: non-retryable status=" ++ toString status ++ ": "
      else "control-api: non-retryable: ") ++ underlying.message

/-- `errors.Is` for `context.Canceled` or `context.DeadlineExceeded`. -/
def isContext : ApiError → Bool
  | .canceled => true
  | .deadlineExceeded => true
  | .other _ => false
  | .wrap _ cause => cause.isContext
  | .retryable _ underlying => underlying.isContext
  | .nonRetryable _ underlying => underlying.isContext

/-- `errors.As` for `*controlapi.NonRetryableError`. -/
def isNonRetryable : ApiError → Bool
  | .nonRetryable _ _ => true
  | .wrap _ cause => cause.isNonRetryable
  | .retryable _ underlying => underlying.isNonRetryable
  | _ => false

end ApiError

/-! ## Calls -/

/-- The headers of a request; it has no body. -/
structure HttpRequest where
  authorization : String
  nodeKey : String
  agentInstanceID : String
  nodeRole : Option String
  deriving DecidableEq, Repr

/-- The JSON that the control plane answers with. -/
structure InitialResponseDTO where
  nodeID : String := ""
  nodeAuthToken : String := ""
  agentInstanceID : String := ""
  fullResyncRequired : Bool := false
  deriving DecidableEq, Repr

/-- What comes back from the control plane. -/
inductive HttpReply
  | failed (err : ApiError)
  /-- the body could not be read -/
  | broken (status : ℕ) (err : ApiError)
  /-- the body, as far as it is JSON of the right shape -/
  | answered (status : ℕ) (body : Except ApiError InitialResponseDTO)

/-- What a start asks of the outside. -/
inductive Call
  | getIdentity
  | putIdentity (id : NodeIdentity)
  | newID
  /-- `http.NewRequestWithContext` for the endpoint -/
  | newRequest
  | httpDo (req : HttpRequest)
  | ctxErr
  | now
  /-- until the time is over or the context is done -/
  | sleep (d : ℕ)

abbrev Reply : Call → Type
  | .getIdentity => Except ApiError (Option NodeIdentity)
  | .putIdentity _ => Option ApiError
  | .newID => String
  | .newRequest => Option ApiError
  | .httpDo _ => HttpReply
  | .ctxErr => Option ApiError
  | .now => Time
  | .sleep _ => Option ApiError

/-- The programs of a start. -/
abbrev starting : Sig where
  Call := Call
  Reply := Reply

abbrev ask (c : Call) : Prog starting (Reply c) := Prog.invoke (S := starting) c

/-! ## The request -/

/-- `ports.InitialRequest`: what the node says about itself. -/
structure InitialRequest where
  bootstrapToken : String
  nodeKey : String
  agentInstanceID : String
  nodeRole : String
  deriving DecidableEq, Repr

/-- `ports.InitialResponse`. -/
structure InitialResponse where
  identity : NodeIdentity
  fullResyncRequired : Bool
  deriving DecidableEq, Repr

/-- What a body that was read comes to. -/
def decodeInitial (status : ℕ) (body : Except ApiError InitialResponseDTO) :
    Except ApiError InitialResponseDTO :=
  if status ≥ 500 then .error (.retryable status (.other "server error"))
  else if status ≥ 400 then .error (.nonRetryable status (.other "client error"))
  else if status ≥ 300 then .error (.nonRetryable status (.other "unexpected redirect"))
  else
    match body with
    | .error err => .error (.nonRetryable status (.wrap "decode body" err))
    | .ok dto =>
      if dto.nodeID = "" ∨ dto.nodeAuthToken = "" ∨ dto.agentInstanceID = "" then
        .error (.nonRetryable status (.other "response missing required fields"))
      else .ok dto

/-- What the client makes of the reply. -/
def received : HttpReply → Prog starting (Except ApiError InitialResponse)
  | .failed err => do
    match ← ask .ctxErr with
    | some ctxErr => return .error ctxErr
    | none => return .error (.retryable 0 (.wrap "http do" err))
  | .broken status err => return .error (.retryable status (.wrap "read body" err))
  | .answered status body =>
    match decodeInitial status body with
    | .error err => return .error err
    | .ok dto => do
      let now ← ask .now
      return .ok {
        identity := {
          nodeID := dto.nodeID
          agentInstanceID := dto.agentInstanceID
          authToken := dto.nodeAuthToken
          bootstrappedAt := now }
        fullResyncRequired := dto.fullResyncRequired }

/-- The request that `Initial` posts. -/
def httpRequest (req : InitialRequest) : HttpRequest where
  authorization := "Bearer " ++ req.bootstrapToken
  nodeKey := req.nodeKey
  agentInstanceID := req.agentInstanceID
  nodeRole := if req.nodeRole ≠ "" then some req.nodeRole else none

/-- `Client.Initial` of `internal/adapters/controlapi`. -/
def initial (req : InitialRequest) : Prog starting (Except ApiError InitialResponse) :=
  if req.bootstrapToken = "" then
    return .error (.nonRetryable 0 (.other "BootstrapToken required"))
  else if req.nodeKey = "" then return .error (.nonRetryable 0 (.other "NodeKey required"))
  else if req.agentInstanceID = "" then
    return .error (.nonRetryable 0 (.other "AgentInstanceID required"))
  else do
    match ← ask .newRequest with
    | some err => return .error (.nonRetryable 0 (.wrap "build request" err))
    | none =>
      let reply ← ask (.httpDo (httpRequest req))
      received reply

/-! ## One attempt -/

/-- `bootstrap.Config`. -/
structure Config where
  expectedNodeID : NodeID := ""
  bootstrapToken : String := ""
  nodeKey : String := ""
  nodeRole : String := ""
  deriving DecidableEq, Repr

/-- `bootstrap.Result`. -/
structure Result where
  identity : NodeIdentity
  fullResyncRequired : Bool := false
  wasFresh : Bool
  deriving DecidableEq, Repr

/-- `assertExpectedNodeID`: an identity other than the configured one is an error. -/
def assertExpectedNodeID (cfg : Config) (got : NodeID) : Option ApiError :=
  if cfg.expectedNodeID = "" then none
  else if got ≠ cfg.expectedNodeID then
    some (.other ("node_id mismatch: config expected " ++ quote cfg.expectedNodeID ++ ", got " ++
      quote got))
  else none

/-- The rest of an attempt that has an answer. -/
def persist (cfg : Config) (resp : InitialResponse) : Prog starting (Except ApiError Result) :=
  match assertExpectedNodeID cfg resp.identity.nodeID with
  | some err => return .error err
  | none => do
    match ← ask (.putIdentity resp.identity) with
    | some err => return .error (.wrap "persist identity" err)
    | none =>
      return .ok {
        identity := resp.identity
        fullResyncRequired := resp.fullResyncRequired
        wasFresh := true }

/-- The identity from the control plane, which is stored before it is used. -/
def fetch (cfg : Config) : Prog starting (Except ApiError Result) := do
  let agentInstanceID ← ask .newID
  let resp ← initial ⟨cfg.bootstrapToken, cfg.nodeKey, agentInstanceID, cfg.nodeRole⟩
  match resp with
  | .error err => return .error (.wrap "control-api initial" err)
  | .ok resp => persist cfg resp

/-- `bootstrap.Run`: the stored identity, or else one from the control plane. -/
def run (cfg : Config) : Prog starting (Except ApiError Result) := do
  match ← ask .getIdentity with
  | .error err => return .error (.wrap "load identity" err)
  | .ok (some existing) =>
    match assertExpectedNodeID cfg existing.nodeID with
    | some err => return .error err
    | none => return .ok { identity := existing, wasFresh := false }
  | .ok none => fetch cfg

/-! ## Attempts -/

def second : ℕ := 1000000000

/-- The pause after the first attempt; `maxBackoff` is the longest one. -/
def initialBackoff : ℕ := 1 * second

def maxBackoff : ℕ := 30 * second

/-- The pause is doubled up to the longest one. -/
def nextBackoff (backoff : ℕ) : ℕ :=
  if backoff < maxBackoff then
    if backoff * 2 > maxBackoff then maxBackoff else backoff * 2
  else backoff

/-- At most so many attempts; `none` if the loop is still going then. -/
def runBootstrapWithRetry (cfg : Config) :
    ℕ → ℕ → Prog starting (Option (Except ApiError Result))
  | 0, _ => return none
  | rounds + 1, backoff => do
    let res ← run cfg
    match res with
    | .ok res => return some (.ok res)
    | .error err =>
      if err.isContext then return some (.error err)
      else if err.isNonRetryable then return some (.error err)
      else
        match ← ask (.sleep backoff) with
        | some ctxErr => return some (.error ctxErr)
        | none => runBootstrapWithRetry cfg rounds (nextBackoff backoff)

/-! ## The world -/

/-- What the store has, and the requests that have reached the control plane. -/
structure World where
  identity : Option NodeIdentity := none
  requests : List HttpRequest := []
  deriving DecidableEq, Repr

/-- What the environment chooses for one call. -/
structure Choice where
  fail : Option ApiError := none
  /-- a write that reports an error may have been made all the same -/
  kept : Bool := false
  id : String := ""
  reply : HttpReply := .failed (.other "")
  time : Time := 0

instance : Inhabited Choice := ⟨{}⟩

/-- What a call does to the disk and to the control plane. -/
def exec : (c : Call) → Choice → World → Reply c × World
  | .getIdentity, e, w =>
    match e.fail with
    | some err => (.error err, w)
    | none => (.ok w.identity, w)
  | .putIdentity id, e, w =>
    match e.fail with
    | some err => (some err, if e.kept then { w with identity := some id } else w)
    | none => (none, { w with identity := some id })
  | .newID, e, w => (e.id, w)
  | .newRequest, e, w => (e.fail, w)
  | .httpDo req, e, w => (e.reply, { w with requests := w.requests ++ [req] })
  | .ctxErr, e, w => (e.fail, w)
  | .now, e, w => (e.time, w)
  | .sleep _, e, w => (e.fail, w)

def world : Handler starting Choice World where
  exec := exec

/-- A start of the agent, up to the end of its bootstrap. -/
def start (input : Config × ℕ) : Prog starting (Option (Except ApiError Result)) :=
  runBootstrapWithRetry input.1 input.2 initialBackoff

/-- The node id is the one that is configured, if one is. -/
def Config.Expects (cfg : Config) (id : NodeID) : Prop :=
  cfg.expectedNodeID = "" ∨ id = cfg.expectedNodeID

instance (cfg : Config) (id : NodeID) : Decidable (cfg.Expects id) :=
  inferInstanceAs (Decidable (_ ∨ _))

theorem assertExpectedNodeID_eq_none {cfg : Config} {got : NodeID} :
    assertExpectedNodeID cfg got = none ↔ cfg.Expects got := by
  unfold assertExpectedNodeID Config.Expects
  by_cases hempty : cfg.expectedNodeID = ""
  · simp [hempty]
  · by_cases hgot : got = cfg.expectedNodeID <;> simp [hempty, hgot]

/-! ## The loop -/

section Loop

variable {A : Choice → Prop} {w : World} {cfg : Config} {K : World → Prop}
  {Q : Except ApiError Result → World → Prop}

/-- What every attempt keeps, all attempts of a start keep, and what it is when one returns, it is when
the start returns. -/
theorem retry_safe (hrun : ∀ v, K v → Safe world A K Q (run cfg) v)
    (hfailed : ∀ err v, Q (.error err) v) (hw : K w) (rounds backoff : ℕ) :
    Safe world A K (fun r v => ∀ r', r = some r' → Q r' v)
      (runBootstrapWithRetry cfg rounds backoff) w := by
  have hreturn : ∀ (r : Except ApiError Result) (v : World), K v → Q r v →
      Safe world A K (fun r v => ∀ r', r = some r' → Q r' v)
        (.done (some r) : Prog starting (Option (Except ApiError Result))) v := by
    rintro r v hv hr
    refine ⟨hv, fun r' hr' => ?_⟩
    cases hr'
    exact hr
  induction rounds generalizing backoff w with
  | zero => exact ⟨hw, fun r' hr => nomatch hr⟩
  | succ rounds ih =>
    refine (hrun w hw).bind fun r v hv hr => ?_
    cases r with
    | ok res => exact hreturn _ v hv hr
    | error err =>
      dsimp only
      by_cases hctx : err.isContext
      · rw [if_pos hctx]
        exact hreturn _ v hv (hfailed _ _)
      · by_cases hnon : err.isNonRetryable
        · rw [if_neg hctx, if_pos hnon]
          exact hreturn _ v hv (hfailed _ _)
        · rw [if_neg hctx, if_neg hnon]
          refine safe_invoke.mpr ⟨hv, fun e _ => ?_⟩
          rcases hfail : e.fail with _ | ctxErr
          · simp only [world, exec, hfail]
            exact ih hv (nextBackoff backoff)
          · simp only [world, exec, hfail]
            exact hreturn _ v hv (hfailed _ _)

end Loop

/-! ## A store that has an identity -/

section Stored

variable {A : Choice → Prop} {w : World} {id : NodeIdentity} {cfg : Config}

/-- What an attempt returns when the store has `id`. -/
def Loaded (cfg : Config) (id : NodeIdentity) (r : Except ApiError Result) : Prop :=
  ∀ res, r = .ok res → res = { identity := id, wasFresh := false } ∧ cfg.Expects id.nodeID

theorem run_stored (h : w.identity = some id) :
    Safe world A (fun v => v = w) (fun r _ => Loaded cfg id r) (run cfg) w := by
  refine safe_invoke.mpr ⟨rfl, fun e _ => ?_⟩
  rcases hfail : e.fail with _ | err
  · simp only [world, exec, hfail, h]
    rcases hexpected : assertExpectedNodeID cfg id.nodeID with _ | err
    · refine ⟨rfl, fun res hres => ?_⟩
      cases hres
      exact ⟨rfl, assertExpectedNodeID_eq_none.mp hexpected⟩
    · exact ⟨rfl, fun res hres => nomatch hres⟩
  · simp only [world, exec, hfail]
    exact ⟨rfl, fun res hres => nomatch hres⟩

end Stored

/-! ## A store that has none -/

/-- Nothing that a later request needs is missing. -/
structure Complete (id : NodeIdentity) : Prop where
  nodeID : id.nodeID ≠ ""
  authToken : id.authToken ≠ ""
  agentInstanceID : id.agentInstanceID ≠ ""

section Fetch

variable {A : Choice → Prop} {w : World} {cfg : Config} {G : NodeIdentity → Prop}

theorem decodeInitial_ok {status : ℕ} {body : Except ApiError InitialResponseDTO}
    {dto : InitialResponseDTO} (h : decodeInitial status body = .ok dto) :
    dto.nodeID ≠ "" ∧ dto.nodeAuthToken ≠ "" ∧ dto.agentInstanceID ≠ "" := by
  unfold decodeInitial at h
  split_ifs at h
  cases body with
  | error err => cases h
  | ok dto' =>
    dsimp only at h
    split_ifs at h with hmissing
    cases h
    simpa only [not_or] using hmissing

theorem received_safe {x : Option NodeIdentity} (hw : w.identity = x) {reply : HttpReply} :
    Safe world A (fun v => v.identity = x)
      (fun r _ => ∀ resp, r = .ok resp → Complete resp.identity) (received reply) w := by
  cases reply with
  | failed err =>
    refine safe_invoke.mpr ⟨hw, fun e _ => ?_⟩
    rcases hfail : e.fail with _ | ctxErr
    · simp only [world, exec, hfail]
      exact ⟨hw, fun resp hresp => nomatch hresp⟩
    · simp only [world, exec, hfail]
      exact ⟨hw, fun resp hresp => nomatch hresp⟩
  | broken status err => exact ⟨hw, fun resp hresp => nomatch hresp⟩
  | answered status body =>
    rcases hdecode : decodeInitial status body with err | dto
    · simp only [received, hdecode]
      exact ⟨hw, fun resp hresp => nomatch hresp⟩
    · obtain ⟨hnode, htoken, hagent⟩ := decodeInitial_ok hdecode
      simp only [received, hdecode]
      refine safe_invoke.mpr ⟨hw, fun e _ => ?_⟩
      refine ⟨hw, fun resp hresp => ?_⟩
      cases hresp
      exact ⟨hnode, htoken, hagent⟩

theorem initial_safe {x : Option NodeIdentity} (hw : w.identity = x) (req : InitialRequest) :
    Safe world A (fun v => v.identity = x)
      (fun r _ => ∀ resp, r = .ok resp → Complete resp.identity) (initial req) w := by
  have hfailed : ∀ err : ApiError, Safe world A (fun v => v.identity = x)
      (fun r _ => ∀ resp, r = .ok resp → Complete resp.identity)
      (.done (.error err) : Prog starting (Except ApiError InitialResponse)) w :=
    fun err => ⟨hw, fun resp hresp => nomatch hresp⟩
  unfold initial
  split_ifs
  · exact hfailed _
  · exact hfailed _
  · exact hfailed _
  · refine safe_invoke.mpr ⟨hw, fun e _ => ?_⟩
    rcases hfail : e.fail with _ | err
    · simp only [world, exec, hfail]
      refine safe_invoke.mpr ⟨hw, fun e _ => received_safe ?_⟩
      exact hw
    · simp only [world, exec, hfail]
      exact hfailed _

/-- What an attempt leaves when it returns. -/
def Settled (cfg : Config) (r : Except ApiError Result) (v : World) : Prop :=
  ∀ res, r = .ok res → v.identity = some res.identity ∧ cfg.Expects res.identity.nodeID

/-- Every identity in the store is one of `G`. -/
def Only (G : NodeIdentity → Prop) (v : World) : Prop := ∀ id, v.identity = some id → G id

theorem persist_safe {resp : InitialResponse} (hw : Only G w)
    (hG : cfg.Expects resp.identity.nodeID → G resp.identity) :
    Safe world A (Only G) (Settled cfg) (persist cfg resp) w := by
  unfold persist
  rcases hexpected : assertExpectedNodeID cfg resp.identity.nodeID with _ | err
  · have hexpects := assertExpectedNodeID_eq_none.mp hexpected
    have hput : Only G { w with identity := some resp.identity } := by
      intro id hid
      cases hid
      exact hG hexpects
    refine safe_invoke.mpr ⟨hw, fun e _ => ?_⟩
    rcases hfail : e.fail with _ | err
    · simp only [world, exec, hfail]
      refine ⟨hput, fun res hres => ?_⟩
      cases hres
      exact ⟨rfl, hexpects⟩
    · simp only [world, exec, hfail]
      -- the write may have been made although it reports an error
      cases e.kept with
      | false => exact ⟨hw, fun res hres => nomatch hres⟩
      | true => exact ⟨hput, fun res hres => nomatch hres⟩
  · exact ⟨hw, fun res hres => nomatch hres⟩

theorem fetch_safe (hw : w.identity = none)
    (hG : ∀ id, Complete id → cfg.Expects id.nodeID → G id) :
    Safe world A (Only G) (Settled cfg) (fetch cfg) w := by
  have honly : ∀ {v : World}, v.identity = none → Only G v :=
    fun hv id hid => nomatch hv.symm.trans hid
  refine safe_invoke.mpr ⟨honly hw, fun e _ => ?_⟩
  refine ((initial_safe hw _).imp (fun v hv => honly hv) fun _ _ _ h => h).bind
    fun r v hv hr => ?_
  cases r with
  | error err => exact ⟨hv, fun res hres => nomatch hres⟩
  | ok resp => exact persist_safe hv (hG _ (hr resp rfl))

theorem run_safe (hw : Only G w) (hG : ∀ id, Complete id → cfg.Expects id.nodeID → G id) :
    Safe world A (Only G) (Settled cfg) (run cfg) w := by
  rcases hid : w.identity with _ | id
  · refine safe_invoke.mpr ⟨hw, fun e _ => ?_⟩
    rcases hfail : e.fail with _ | err
    · simp only [world, exec, hfail, hid]
      exact fetch_safe hid hG
    · simp only [world, exec, hfail]
      exact ⟨hw, fun res hres => nomatch hres⟩
  · refine (run_stored hid).imp (fun v hv => hv ▸ hw) fun r v hv hr res hres => ?_
    obtain ⟨heq, hexpects⟩ := hr res hres
    rw [hv, heq]
    exact ⟨hid, hexpects⟩

end Fetch

/-! ## Starts -/

section Starts

variable {A : Choice → Prop} {w w' : World} {bs pre post : List (Boot starting World (Config × ℕ)
  (Option (Except ApiError Result)))} {b b' : Boot starting World (Config × ℕ)
  (Option (Except ApiError Result))} {res res' : Result}

theorem start_safe {G : NodeIdentity → Prop} {input : Config × ℕ} (hw : Only G w)
    (hG : ∀ id, Complete id → input.1.Expects id.nodeID → G id) :
    Safe world A (Only G) (fun r v => ∀ r', r = some r' → Settled input.1 r' v) (start input) w :=
  retry_safe (fun _ hv => run_safe hv hG) (fun _ _ _ hres => nomatch hres) hw _ _

theorem start_stored {id : NodeIdentity} (h : w.identity = some id) (input : Config × ℕ) :
    Safe world A (fun v => v = w) (fun r _ => ∀ r', r = some r' → Loaded input.1 id r')
      (start input) w := by
  refine retry_safe (K := fun v => v = w) (Q := fun r _ => Loaded input.1 id r) (fun v hv => ?_)
    (fun err v res hres => nomatch hres) rfl _ _
  rw [hv]
  exact run_stored h

/-- However often the agent is started, and wherever a start stops: once a start has returned with an
identity, the store has it and keeps it, the control plane is not asked again, and every later start that
returns with an identity returns with this one. -/
theorem identity_is_kept (h : Boots world A (fun _ _ => False) start w (pre ++ b :: post) w')
    (hb : b.rest = .done (some (.ok res))) :
    w'.identity = some res.identity ∧ w'.requests = b.after.requests ∧
      ∀ b' ∈ post, ∀ res', b'.rest = .done (some (.ok res')) →
        res'.identity = res.identity ∧ res'.wasFresh = false := by
  obtain ⟨v, -, hrest⟩ := boots_append.mp h
  cases hrest with
  | cons hbefore hafter hsteps hlose hpost =>
    have hstored : b.after.identity = some res.identity := by
      have hdone := (start_safe (G := fun _ => True) (fun _ _ => trivial)
        fun _ _ _ => trivial).after hafter hsteps
      rw [hb] at hdone
      rw [hlose.elim id False.elim]
      exact (hdone.2 _ rfl res rfl).1
    have hkeeps : ∀ input u tr q u', u = b.after → (start input).After tr q →
        Steps world A u tr u' → u' = b.after := by
      rintro input u tr q u' rfl hq hsteps'
      exact ((start_stored hstored input).after hq hsteps').keeps
    have hend : w' = b.after :=
      hpost.keeps (K := fun u => u = b.after) (C := fun _ => True) rfl (fun _ _ => trivial)
        (fun i u tr q u' _ => hkeeps i u tr q u') fun _ _ hloss _ => hloss.elim
    refine ⟨by rw [hend]; exact hstored, by rw [hend], fun b' hb' res' hres' => ?_⟩
    obtain ⟨hbefore', hafter', u, hsteps'⟩ :=
      hpost.before (K := fun u => u = b.after) rfl hkeeps (fun _ _ hloss _ => hloss.elim) hb'
    rw [hbefore'] at hsteps'
    have hdone := (start_stored hstored b'.input).after hafter' hsteps'
    rw [hres'] at hdone
    obtain ⟨heq, -⟩ := hdone.2 _ rfl res' rfl
    rw [heq]
    exact ⟨rfl, rfl⟩

def sampleConfig : Config where
  expectedNodeID := "n"
  bootstrapToken := "t"
  nodeKey := "k"

/-- The store cannot be read, then the control plane is down, then it answers. -/
def firstStart : List Choice :=
  [{ fail := some (.other "read error") }, {}, {}, { id := "a" }, {},
    { reply := .answered 503 (.error (.other "unexpected end of JSON input")) }, {}, {}, { id := "b" }, {},
    { reply := .answered 200 (.ok ⟨"n", "secret", "b", true⟩) }, { time := 7 }, {}]

/-- This start and another one. -/
def twoStarts : List (Boot starting World (Config × ℕ) (Option (Except ApiError Result))) × World :=
  replayBoots world start [((sampleConfig, 3), firstStart), ((sampleConfig, 1), [])] {}

theorem boots_twoStarts :
    Boots world (fun _ => True) (fun _ _ => False) start {} twoStarts.1 twoStarts.2 :=
  boots_replay _ _

theorem identity_is_kept_twoStarts :
    twoStarts.2.identity = some ⟨"n", "b", "secret", 7⟩ ∧ twoStarts.2.requests.length = 2 := by
  have hkept : ∀ b b', twoStarts.1 = [] ++ [b, b'] →
      b.rest = .done (some (.ok ⟨⟨"n", "b", "secret", 7⟩, true, true⟩)) →
      b.after.requests.length = 2 →
      twoStarts.2.identity = some ⟨"n", "b", "secret", 7⟩ ∧ twoStarts.2.requests.length = 2 := by
    intro b b' hstarts hb hrequests
    have hboots := boots_twoStarts
    rw [hstarts] at hboots
    obtain ⟨hidentity, hsame, -⟩ := identity_is_kept hboots hb
    exact ⟨hidentity, hsame ▸ hrequests⟩
  exact hkept _ _ rfl rfl rfl

/-- What is stored, by starts that are configured for one node, is an identity of that node in which nothing
is missing. An identity of another node is not stored, not even by a start that is cut short. -/
theorem stored_identity_is_expected {expected : NodeID} (hw : w.identity = none)
    (hcfg : ∀ b ∈ bs, b.input.1.expectedNodeID = expected)
    (h : Boots world A (fun _ _ => False) start w bs w') {id : NodeIdentity}
    (hid : w'.identity = some id) : Complete id ∧ (expected = "" ∨ id.nodeID = expected) := by
  refine h.keeps (K := Only fun id => Complete id ∧ (expected = "" ∨ id.nodeID = expected))
    (C := fun input => input.1.expectedNodeID = expected) (fun id hid => nomatch hw.symm.trans hid) hcfg
    ?_ (fun _ _ hloss _ => hloss.elim) id hid
  rintro input v tr q v' rfl hv hafter hsteps
  exact ((start_safe hv fun id hcomplete hexpects => ⟨hcomplete, hexpects⟩).after hafter hsteps).keeps

theorem stored_identity_is_expected_twoStarts :
    Complete ⟨"n", "b", "secret", 7⟩ ∧ ("n" = "" ∨ (⟨"n", "b", "secret", 7⟩ : NodeIdentity).nodeID = "n") :=
  stored_identity_is_expected (w := {}) rfl (by decide +kernel) boots_twoStarts rfl

end Starts

/-! ## Pace -/

/-- The requests of a trace. -/
def requested (tr : List (Event starting)) : List HttpRequest :=
  tr.filterMap fun ev =>
    match ev.call with
    | .httpDo req => some req
    | _ => none

section Pace

variable {cfg : Config} {x : Pace} {tr : List (Event starting)}
  {q : Prog starting (Option (Except ApiError Result))}

/-- Neither a sleep nor a request. -/
def Quiet : Call → Prop
  | .sleep _ => False
  | .httpDo _ => False
  | _ => True

end Pace

end NodeAgent.Bootstrap
