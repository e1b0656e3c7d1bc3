import NodeAgent.Executor.Basic
import NodeAgent.Flip

/-!
# Entry actions over the embedded proxy

`internal/app/executor/entry_proxy_actions.go`. The registry does not change during a call.
-/

namespace NodeAgent

open Lib

namespace EntryProxyActions

/-- Push the registry to the proxy's pool. -/
def syncBackends (reg : Registry) : Go Err := do
  match ← port (.setBackends reg.entryBackends) with
  | some err => return some (.wrap "sync backends" err)
  | none => return none

/-- `EntryProxyActions.ValidateBackend`. -/
def validateBackend (reg : Registry) (plan : FlipPlan) : Go Err :=
  match reg.get plan.newBackend with
  | none => return some (.new ("validate: new backend " ++ plan.newBackend ++ " not in registry"))
  | some _ => return none

/-- `EntryProxyActions.SwapRoute`, which skips what the store has at this version or a later one. -/
def swapRoute (reg : Registry) (plan : FlipPlan) : Go Err :=
  if plan.desired.id = "" ∨ plan.desired.id ≠ plan.placementID then
    return some (.new ("swap: bad plan placement id " ++ quote plan.desired.id ++ "/" ++
      quote plan.placementID))
  else do
    match ← port (.getPlacement plan.placementID) with
    | .error err => return some (.wrap "swap: load current placement" err)
    | .ok found =>
      let current := found.getD {}
      if plan.opVersion ≠ 0 ∧ current.opVersion ≥ plan.opVersion then return none
      else
        let t : Time ← port .now
        let desired := plan.desired.stamp .ok t
        match ← syncBackends reg with
        | some err => return some err
        | none =>
          match ← port (.selectBackend desired.clientID desired.backendNodeID) with
          | some err => return some (.wrap "swap: select backend" err)
          | none =>
            match ← port (.putPlacement desired) with
            | some err => return some (.wrap "swap: persist placement" err)
            | none => return none

/-- `EntryProxyActions.OldBackendConnections`. -/
def oldBackendConnections (plan : FlipPlan) : Go (Except GoError ℕ) :=
  port (.backendConnections plan.oldBackend)

/-- `EntryProxyActions.OldBackendReachable`. -/
def oldBackendReachable (reg : Registry) (plan : FlipPlan) : Go Bool :=
  match reg.get plan.oldBackend with
  | none => return false
  | some b => port (.dial b.address b.port)

/-- There are no outbounds per user to drop. -/
def coolOldBackend (_plan : FlipPlan) : Go Err := return none

/-- The methods as the orchestrator's interface. -/
def actions (reg : Registry) : Flip.Actions where
  validateBackend := validateBackend reg
  swapRoute := swapRoute reg
  oldBackendConnections := oldBackendConnections
  oldBackendReachable := oldBackendReachable reg
  coolOldBackend := coolOldBackend

/-- The proxy calls of `SimpleApply` for a client that is to be served. -/
def serve (reg : Registry) (desired : Placement) : Go Err := do
  match ← syncBackends reg with
  | some err => return some err
  | none =>
    match ← port (.addUser desired.clientID (Singboxgen.flowForTransport desired.transport)) with
    | some err => return some (.wrap "simple-apply: add user" err)
    | none =>
      match reg.get desired.backendNodeID with
      | some _ =>
        match ← port (.selectBackend desired.clientID desired.backendNodeID) with
        | some err => return some (.wrap "simple-apply: select backend" err)
        | none => return none
      | none =>
        port (.storePending true)
        return none

/-- The proxy calls of `SimpleApply` for a client that is not. -/
def expel (desired : Placement) : Go Err := do
  match ← port (.removeUser desired.clientID) with
  | some err => return some (.wrap "simple-apply: remove user" err)
  | none => return none

/-- `EntryProxyActions.SimpleApply`. -/
def simpleApply (reg : Registry) (desired : Placement) : Go Err :=
  if desired.id = "" then return some (.new "simple-apply: placement ID required")
  else do
    match ← port (.getPlacement desired.id) with
    | .error err => return some (.wrap "simple-apply: load current placement" err)
    | .ok found =>
      let current := found.getD {}
      if desired.opVersion ≠ 0 ∧ current.opVersion ≥ desired.opVersion then return none
      else
        let t : Time ← port .now
        let desired := desired.stamp .ok t
        match ← (if desired.live then serve reg desired else expel desired) with
        | some err => return some err
        | none =>
          match ← port (.putPlacement desired) with
          | some err => return some (.wrap "simple-apply: persist placement" err)
          | none => return none

/-! ## Rebuild -/

/-- The loop body of the grouping: only live placements with a client count. -/
def addToGroup (m : GoMap (List Placement)) (p : Placement) : GoMap (List Placement) :=
  if p.live = false ∨ p.clientID = "" then m
  else m.insert p.clientID (m[p.clientID]?.getD [] ++ [p])

/-- The placements of each client, in the order of the list. -/
def byUser (placements : List Placement) : GoMap (List Placement) :=
  placements.foldl addToGroup ∅

/-- The registered backends of the placements, each once. -/
def eligibleBackendIDs (reg : Registry) (seen : List BackendID) : List Placement → List String
  | [] => []
  | p :: cands =>
    if p.backendNodeID ∈ seen then eligibleBackendIDs reg seen cands
    else match reg.get p.backendNodeID with
      | none => eligibleBackendIDs reg seen cands
      | some _ => p.backendNodeID :: eligibleBackendIDs reg (p.backendNodeID :: seen) cands

/-- The loop over the clients; it returns whether some route was deferred. -/
def rebuildUsers (reg : Registry) (users : GoMap (List Placement)) :
    List ClientID → Bool → Go (Except GoError Bool)
  | [], pending => return .ok pending
  | clientID :: rest, pending => do
    let cands := users[clientID]?.getD []
    let flow := Singboxgen.flowForTransport (cands.headD {}).transport
    match ← port (.addUser clientID flow) with
    | some err => return .error (.wrap ("rebuild: add user " ++ clientID) err)
    | none =>
      let ids := eligibleBackendIDs reg [] cands
      if ids = [] then rebuildUsers reg users rest true
      else
        match ← port (.setUserBackends clientID ids) with
        | some err => return .error (.wrap ("rebuild: set user backends for " ++ clientID) err)
        | none => rebuildUsers reg users rest pending

/-- `EntryProxyActions.RebuildFromStore`: users and routes are pushed to the proxy, and none is removed. -/
def rebuildFromStore (reg : Registry) : Go Err := do
  match ← syncBackends reg with
  | some err => return some err
  | none =>
    match ← port .listPlacements with
    | .error err => return some (.wrap "rebuild: list placements" err)
    | .ok placements =>
      let users := byUser placements
      let order ← port (.rangeOrder users.keys)
      match ← rebuildUsers reg users order.val false with
      | .error err => return some err
      | .ok pending =>
        port (.storePending pending)
        port (.storeUsers users.size)
        return none

/-! ## The calls of the actions -/

section Calls

variable (reg : Registry) (d : Placement)

theorem syncBackends_calls : (syncBackends reg).All (ExecutorCall d) := by
  refine Prog.all_invoke_bind.mpr ⟨trivial, fun r => ?_⟩
  cases r <;> trivial

theorem serve_calls (p : Placement) : (serve reg p).All (ExecutorCall d) := by
  refine (syncBackends_calls reg d).bind fun r => ?_
  cases r with
  | some err => trivial
  | none =>
    refine Prog.all_invoke_bind.mpr ⟨trivial, fun r => ?_⟩
    cases r with
    | some err => trivial
    | none =>
      dsimp only
      cases reg.get p.backendNodeID with
      | none => exact ⟨trivial, fun _ => trivial⟩
      | some spec =>
        refine Prog.all_invoke_bind.mpr ⟨trivial, fun r => ?_⟩
        cases r <;> trivial

theorem expel_calls (p : Placement) : (expel p).All (ExecutorCall d) := by
  refine Prog.all_invoke_bind.mpr ⟨trivial, fun r => ?_⟩
  cases r <;> trivial

theorem simpleApply_calls : (simpleApply reg d).All (ExecutorCall d) := by
  unfold simpleApply
  split_ifs
  · trivial
  · refine Prog.all_invoke_bind.mpr ⟨rfl, fun r => ?_⟩
    cases r with
    | error err => trivial
    | ok found =>
      dsimp only
      split_ifs
      · trivial
      · refine Prog.all_invoke_bind.mpr ⟨trivial, fun t => Prog.All.bind ?_ fun r => ?_⟩
        · split_ifs
          · exact serve_calls reg d _
          · exact expel_calls d _
        · cases r with
          | some err => trivial
          | none =>
            refine Prog.all_invoke_bind.mpr ⟨⟨t, rfl⟩, fun r => ?_⟩
            cases r <;> trivial

theorem swapRoute_calls (plan : FlipPlan) : (swapRoute reg plan).All (ExecutorCall plan.desired) := by
  unfold swapRoute
  split_ifs with hid
  · trivial
  · have hplan : plan.placementID = plan.desired.id := by
      rw [not_or, not_not] at hid
      exact hid.2.symm
    refine Prog.all_invoke_bind.mpr ⟨hplan, fun r => ?_⟩
    cases r with
    | error err => trivial
    | ok found =>
      dsimp only
      split_ifs
      · trivial
      · refine Prog.all_invoke_bind.mpr ⟨trivial, fun t => ?_⟩
        refine (syncBackends_calls reg plan.desired).bind fun r => ?_
        cases r with
        | some err => trivial
        | none =>
          refine Prog.all_invoke_bind.mpr ⟨trivial, fun r => ?_⟩
          cases r with
          | some err => trivial
          | none =>
            refine Prog.all_invoke_bind.mpr ⟨⟨t, rfl⟩, fun r => ?_⟩
            cases r <;> trivial

theorem actions_calls (plan : FlipPlan) :
    Flip.ActionsAll plan (ExecutorCall plan.desired) (actions reg) where
  validate plan' _ := by
    show (validateBackend reg plan').All _
    unfold validateBackend
    cases reg.get plan'.newBackend <;> trivial
  swap plan' h := by
    obtain ⟨st, t, rfl⟩ := h
    exact swapRoute_calls reg { plan with state := st, startedAt := t }
  connections plan' _ := ⟨trivial, fun _ => trivial⟩
  reachable plan' _ := by
    show (oldBackendReachable reg plan').All _
    unfold oldBackendReachable
    cases reg.get plan'.oldBackend with
    | none => trivial
    | some b => exact ⟨trivial, fun _ => trivial⟩
  cool plan' _ := trivial

end Calls

end EntryProxyActions

end NodeAgent
