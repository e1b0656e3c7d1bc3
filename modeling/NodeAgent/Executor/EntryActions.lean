import NodeAgent.Executor.FlipExecutor
import NodeAgent.Store

/-!
# Entry actions over an external sing-box

`internal/app/executor/entry_actions.go`, and `Apply` of the render coalescer, which is how the actions
render when one is attached. The registry does not change during a call. The base file, if there is
one, is the file that sing-box is configured by: what a render writes is what the next one reads.
-/

namespace NodeAgent

open Lib

/-- `EntryActions`: the configuration that its methods read. -/
structure EntryActions where
  inbound : Singboxgen.InboundSpec
  logCfg : Singboxgen.LogSpec := {}
  clashCfg : Singboxgen.ClashAPISpec := {}
  configPath : String := ""
  reg : Registry
  /-- whether a render coalescer is attached -/
  coalesced : Bool := false
  /-- how often a caller of the coalescer looks for its answer before its context expires -/
  polls : ℕ := 600
  /-- `NewEntryActions` requires it -/
  tag_ne : inbound.tag ≠ ""

/-- Wait for the answer to a request. -/
def awaitAnswer (ticket : ℕ) : ℕ → Go Err
  | 0 => return some Flip.contextExpired
  | polls + 1 => do
    match ← port (.poll ticket) with
    | some err => return err
    | none => awaitAnswer ticket polls

/-- `RenderCoalescer.Apply`. -/
def coalesce (polls : ℕ) (overlay : Option Placement) : Go Err := do
  match ← port (.submit overlay) with
  | .error err => return some err
  | .ok ticket => awaitAnswer ticket polls

/-- The caller has an answer, or its context has expired. -/
theorem awaitAnswer_after {ticket polls : ℕ} {tr : List GoEvent} {r : Err}
    (h : (awaitAnswer ticket polls).After tr (.done r)) :
    r = some Flip.contextExpired ∨ (⟨.poll ticket, some r⟩ : GoEvent) ∈ tr := by
  induction polls generalizing tr with
  | zero =>
    obtain ⟨-, heq⟩ := Prog.after_done_iff.mp h
    cases heq
    exact .inl rfl
  | succ polls ih =>
    obtain ⟨reply, tr', rfl, h'⟩ := Prog.after_invoke_done_iff.mp h
    cases reply with
    | none => exact (ih h').imp_right (List.mem_cons_of_mem _)
    | some err =>
      obtain ⟨-, heq⟩ := Prog.after_done_iff.mp h'
      cases heq
      exact .inr List.mem_cons_self

/-- The overlay replaces the placement of its id, or comes last. -/
def applyPlacementOverlay (placements : List Placement) (overlay : Placement) : List Placement :=
  if placements.any (·.id = overlay.id) then
    placements.map fun p => if p.id = overlay.id then overlay else p
  else placements ++ [overlay]

namespace EntryActions

variable (a : EntryActions)

/-- The state that is rendered. -/
def nodeState (placements : List Placement) : Singboxgen.NodeState where
  log := a.logCfg
  clashAPI := a.clashCfg
  inbound := a.inbound
  backends := a.reg.all
  placements := placements

/-- `renderFromState` after the base file has been read. -/
def renderOver [Lowering] (base : Singboxgen.BaseFile) (state : Singboxgen.NodeState) :
    Except GoError Singboxgen.Rendered :=
  if base = .empty then (Singboxgen.build state).map .built
  else (Singboxgen.mergeBase base state).mapError
    (.wrap ("merge base config " ++ quote a.configPath))

/-- `renderFromState`: a build, or a merge into the base file if one is configured. -/
def renderFromState [Lowering] (state : Singboxgen.NodeState) : Go (Except GoError Singboxgen.Rendered) :=
  if a.configPath = "" then return (Singboxgen.build state).map .built
  else do
    match ← port .readConfig with
    | .error err => return .error (.wrap ("read base config " ++ quote a.configPath) err)
    | .ok base => return a.renderOver base state

/-- `renderConfigWith`: the state of the store with an overlay. -/
def renderConfigWith [Lowering] (overlay : Option Placement) : Go (Except GoError Singboxgen.Rendered) := do
  match ← port .listPlacements with
  | .error err => return .error err
  | .ok placements =>
    match overlay with
    | some p => a.renderFromState (a.nodeState (applyPlacementOverlay placements p))
    | none => a.renderFromState (a.nodeState placements)

/-- Render, write, reload: what every action does that has no coalescer. The texts are those with
which it reports a failure. -/
def renderAndReload [Lowering] (render write reload : String) (overlay : Option Placement) : Go Err := do
  match ← a.renderConfigWith overlay with
  | .error err => return some (.wrap render err)
  | .ok data =>
    match ← port (.writeConfig data) with
    | some err => return some (.wrap write err)
    | none =>
      match ← port .reload with
      | some err => return some (.wrap reload err)
      | none => return none

/-- `EntryActions.ValidateBackend`. -/
def validateBackend (plan : FlipPlan) : Go Err :=
  match a.reg.get plan.newBackend with
  | none => return some (.new ("validate: new backend " ++ plan.newBackend ++ " not in registry"))
  | some _ => return none

/-- Change the backend of a known user through its selector; it returns whether that was done. -/
def trySelectorFlip [Lowering] (desired : Placement) : Go Bool :=
  if desired.clientID = "" ∨ desired.desired ≠ .active then return false
  else do
    match ← port .listPlacements with
    | .error _ => return false
    | .ok placements =>
      if placements.any (fun p => p.clientID = desired.clientID ∧ p.desired = .active) then
        match a.reg.get desired.backendNodeID with
        | none => return false
        | some _ =>
          match ← port (.selectOutbound (Singboxgen.perUserSelectorTagFor desired.clientID)
            (Singboxgen.perUserOutboundTagFor desired.clientID desired.backendNodeID)) with
          | some _ => return false
          | none => return true
      else return false

/-- `PutPlacement`, with the text that an error gets. -/
def persist (text : String) (desired : Placement) : Go Err := do
  match ← port (.putPlacement desired) with
  | some err => return some (.wrap text err)
  | none => return none

/-- Bring a placement into the running configuration and then into the store. -/
def rebuildWith [Lowering] (coalesceText render write reload persistText : String) (desired : Placement) :
    Go Err :=
  if a.coalesced then do
    match ← coalesce a.polls (some desired) with
    | some err => return some (.wrap coalesceText err)
    | none => return none
  else do
    match ← a.renderAndReload render write reload (some desired) with
    | some err => return some err
    | none => persist persistText desired

/-- `EntryActions.SwapRoute`: through the selector if it can be, with a rebuild otherwise. -/
def swapRoute [Lowering] (plan : FlipPlan) : Go Err :=
  if plan.desired.id = "" then return some (.new "swap: plan.Desired.ID required")
  else if plan.desired.id ≠ plan.placementID then
    return some (.new ("swap: plan.Desired.ID " ++ quote plan.desired.id ++ " != plan.PlacementID " ++
      quote plan.placementID))
  else do
    match ← port (.getPlacement plan.placementID) with
    | .error err => return some (.wrap "swap: load current placement" err)
    | .ok found =>
      let current := found.getD {}
      if plan.opVersion ≠ 0 ∧ current.opVersion ≥ plan.opVersion then return none
      else
        let t : Time ← port .now
        let desired := plan.desired.stamp .ok t
        if ← a.trySelectorFlip desired then persist "swap: persist placement" desired
        else
          a.rebuildWith "swap: coalesce" "swap: render config" "swap: write config"
            "swap: reload sing-box" "swap: persist placement" desired

/-- `EntryActions.OldBackendConnections`: how many connections leave through the old outbound. -/
def oldBackendConnections [Lowering] (plan : FlipPlan) : Go (Except GoError ℕ) := do
  match ← port .connections with
  | .error err => return .error err
  | .ok perOutbound =>
    let suffix := "-" ++ toLower plan.oldBackend
    return .ok ((perOutbound.filter fun x => "b-".toList.isPrefixOf x.1.toList ∧
      suffix.toList.isSuffixOf x.1.toList).map Prod.snd).sum

/-- `EntryActions.OldBackendReachable`: a backend that is not registered cannot be. -/
def oldBackendReachable (plan : FlipPlan) : Go Bool :=
  match a.reg.get plan.oldBackend with
  | none => return false
  | some b => port (.dial b.address b.port)

/-- Bring the running configuration up to the store. -/
def rebuild [Lowering] (coalesceText render write reload : String) : Go Err :=
  if a.coalesced then do
    match ← coalesce a.polls none with
    | some err => return some (.wrap coalesceText err)
    | none => return none
  else a.renderAndReload render write reload none

/-- `EntryActions.CoolOldBackend` renders the store once more. -/
def coolOldBackend [Lowering] (_plan : FlipPlan) : Go Err :=
  a.rebuild "cool: coalesce" "cool: render config" "cool: write config" "cool: reload sing-box"

/-- `EntryActions.RebuildFromStore`. -/
def rebuildFromStore [Lowering] : Go Err :=
  a.rebuild "rebuild: coalesce" "rebuild: render" "rebuild: write config" "rebuild: reload"

/-- `EntryActions.SimpleApply`: a placement that is not flipped. -/
def simpleApply [Lowering] (desired : Placement) : Go Err :=
  if desired.id = "" then return some (.new "simple-apply: placement ID required")
  else if desired.desired = .active ∧ a.reg.get desired.backendNodeID = none then
    return some (.new ("simple-apply: backend " ++ desired.backendNodeID ++ " not in registry"))
  else do
    match ← port (.getPlacement desired.id) with
    | .error err => return some (.wrap "simple-apply: load current placement" err)
    | .ok found =>
      let current := found.getD {}
      if desired.opVersion ≠ 0 ∧ current.opVersion ≥ desired.opVersion then return none
      else
        let t : Time ← port .now
        let desired := desired.stamp .ok t
        if ← (if found.isSome ∧ current.clientID = desired.clientID then a.trySelectorFlip desired
            else pure false) then
          persist "simple-apply: persist after selector flip" desired
        else
          a.rebuildWith "simple-apply: coalesce" "simple-apply: render" "simple-apply: write config"
            "simple-apply: reload" "simple-apply: persist" desired

/-- The methods as the orchestrator's interface. -/
def actions [Lowering] : Flip.Actions where
  validateBackend := a.validateBackend
  swapRoute := a.swapRoute
  oldBackendConnections := oldBackendConnections
  oldBackendReachable := a.oldBackendReachable
  coolOldBackend := a.coolOldBackend

/-! ## The calls of the actions -/

/-- The check of the builder accepts the placement. -/
def Renderable (p : Placement) : Prop := Singboxgen.Renderable a.reg.all p

/-- What an action calls while it applies `d`: as any executor, and it stores only what the builder
accepts. -/
def ActionCall (d : Placement) (c : Call) : Prop :=
  ExecutorCall d c ∧ ∀ p, c = .putPlacement p → a.Renderable p

section Calls

variable {a} {d : Placement}

theorem mem_applyPlacementOverlay {ps : List Placement} {o q : Placement} :
    q ∈ applyPlacementOverlay ps o ↔ q = o ∨ (q ∈ ps ∧ q.id ≠ o.id) := by
  unfold applyPlacementOverlay
  split_ifs with h
  · rw [List.mem_map]
    constructor
    · rintro ⟨p, hp, rfl⟩
      split_ifs with hid
      · exact .inl rfl
      · exact .inr ⟨hp, hid⟩
    · rintro (rfl | ⟨hq, hid⟩)
      · obtain ⟨p, hp, hid⟩ := List.any_eq_true.mp h
        exact ⟨p, hp, if_pos (of_decide_eq_true hid)⟩
      · exact ⟨q, hq, if_neg hid⟩
  · have hno : ∀ p ∈ ps, p.id ≠ o.id := fun p hp hid =>
      h (List.any_eq_true.mpr ⟨p, hp, decide_eq_true hid⟩)
    rw [List.mem_append, List.mem_singleton]
    constructor
    · rintro (hq | rfl)
      · exact .inr ⟨hq, hno q hq⟩
      · exact .inl rfl
    · rintro (rfl | ⟨hq, -⟩)
      · exact .inr rfl
      · exact .inl hq

/-- Without a base, or with an empty one, the state is built. -/
theorem mergeBase_of_renderOver [Lowering] {base : Singboxgen.BaseFile} {state : Singboxgen.NodeState}
    {r : Singboxgen.Rendered} (h : a.renderOver base state = .ok r) :
    Singboxgen.mergeBase base state = .ok r := by
  unfold renderOver at h
  split_ifs at h with hbase
  · rw [hbase]
    exact h
  · cases hm : Singboxgen.mergeBase base state with
    | error err => simp [hm, Except.mapError] at h
    | ok r' =>
      rw [hm] at h
      cases h
      rfl

theorem renderFromState_calls [Lowering] (state : Singboxgen.NodeState) :
    (a.renderFromState state).All (fun c : Call => c = .readConfig) := by
  unfold renderFromState
  split_ifs
  · trivial
  · refine Prog.all_invoke_bind.mpr ⟨rfl, fun r => ?_⟩
    cases r <;> trivial

/-- A render that succeeds has accepted every placement. -/
theorem renderFromState_ends [Lowering] (ps : List Placement) :
    (a.renderFromState (a.nodeState ps)).Ends
      fun r => ∀ data, r = .ok data → ∀ p ∈ ps, a.Renderable p := by
  unfold renderFromState
  split_ifs
  · intro data h
    have hbuild : Singboxgen.mergeBase .empty (a.nodeState ps) = .ok data := h
    exact (Singboxgen.validate_ok_iff.mp (Singboxgen.validate_of_mergeBase hbuild)).2
  · refine Prog.ends_invoke_bind.mpr fun r => ?_
    cases r with
    | error err => exact fun data h => by cases h
    | ok base =>
      intro data h
      exact (Singboxgen.validate_ok_iff.mp
        (Singboxgen.validate_of_mergeBase (mergeBase_of_renderOver h))).2

theorem renderable_stamp {s : AppliedState} {t : Time} :
    a.Renderable (d.stamp s t) ↔ a.Renderable d := Iff.rfl

section All

variable {P : Call → Prop}

theorem awaitAnswer_all (hpoll : ∀ ticket, P (.poll ticket)) (ticket polls : ℕ) :
    (awaitAnswer ticket polls).All P := by
  induction polls with
  | zero => trivial
  | succ n ih =>
    refine Prog.all_invoke_bind.mpr ⟨hpoll ticket, fun r => ?_⟩
    cases r with
    | some err => trivial
    | none => exact ih

theorem coalesce_all {overlay : Option Placement} (hsubmit : P (.submit overlay))
    (hpoll : ∀ ticket, P (.poll ticket)) (polls : ℕ) : (coalesce polls overlay).All P := by
  refine Prog.all_invoke_bind.mpr ⟨hsubmit, fun r => ?_⟩
  cases r with
  | error err => trivial
  | ok ticket => exact awaitAnswer_all hpoll ticket polls

theorem renderConfigWith_all [Lowering] (hlist : P .listPlacements) (hread : P .readConfig)
    (overlay : Option Placement) : (a.renderConfigWith overlay).All P := by
  have hrender : ∀ st, (a.renderFromState st).All P := fun st =>
    (renderFromState_calls st).mono fun c hc => by
      rw [hc]
      exact hread
  refine Prog.all_invoke_bind.mpr ⟨hlist, fun r => ?_⟩
  cases r with
  | error err => trivial
  | ok placements => cases overlay <;> exact hrender _

theorem renderAndReload_all [Lowering] (hlist : P .listPlacements) (hread : P .readConfig)
    (hwrite : ∀ data, P (.writeConfig data)) (hreload : P .reload) (render write reload : String)
    (overlay : Option Placement) : (a.renderAndReload render write reload overlay).All P := by
  refine (renderConfigWith_all hlist hread overlay).bind fun r => ?_
  cases r with
  | error err => trivial
  | ok data =>
    refine Prog.all_invoke_bind.mpr ⟨hwrite data, fun r => ?_⟩
    cases r with
    | some err => trivial
    | none =>
      refine Prog.all_invoke_bind.mpr ⟨hreload, fun r => ?_⟩
      cases r <;> trivial

theorem trySelectorFlip_all [Lowering] (hlist : P .listPlacements)
    (hselect : ∀ tag target, P (.selectOutbound tag target)) (p : Placement) :
    (a.trySelectorFlip p).All P := by
  unfold trySelectorFlip
  split_ifs
  · trivial
  · refine Prog.all_invoke_bind.mpr ⟨hlist, fun r => ?_⟩
    cases r with
    | error err => trivial
    | ok placements =>
      dsimp only
      split_ifs
      · cases a.reg.get p.backendNodeID with
        | none => trivial
        | some b =>
          refine Prog.all_invoke_bind.mpr ⟨hselect _ _, fun r => ?_⟩
          cases r <;> trivial
      · trivial

end All

theorem actionCall_of_quiet {c : Call} (h : ExecutorCall d c) (hc : ∀ p, c ≠ .putPlacement p) :
    a.ActionCall d c := ⟨h, fun p hp => absurd hp (hc p)⟩

theorem coalesce_calls {polls : ℕ} {overlay : Option Placement}
    (h : ∀ p, overlay = some p → ∃ t, p = d.stamp .ok t) :
    (coalesce polls overlay).All (a.ActionCall d) :=
  coalesce_all (actionCall_of_quiet h fun _ hp => by cases hp)
    (fun _ => actionCall_of_quiet trivial fun _ hp => by cases hp) polls

theorem renderAndReload_calls [Lowering] (render write reload : String) (overlay : Option Placement) :
    (a.renderAndReload render write reload overlay).All (a.ActionCall d) := by
  refine renderAndReload_all ?_ ?_ (fun data => ?_) ?_ render write reload overlay <;>
    exact actionCall_of_quiet trivial fun _ hp => by cases hp

/-- If it comes through, the builder has accepted the overlay. -/
theorem renderAndReload_ends [Lowering] (render write reload : String) (p : Placement) :
    (a.renderAndReload render write reload (some p)).Ends fun r => r = none → a.Renderable p := by
  have hrender : (a.renderConfigWith (some p)).Ends fun r => ∀ cfg, r = .ok cfg → a.Renderable p := by
    refine Prog.ends_invoke_bind.mpr fun r => ?_
    cases r with
    | error err => exact fun cfg h => by cases h
    | ok placements =>
      refine (renderFromState_ends _).mono fun r hr cfg h => ?_
      exact hr cfg h p (mem_applyPlacementOverlay.mpr (.inl rfl))
  refine hrender.bind fun r hr => ?_
  cases r with
  | error err => exact fun h => by cases h
  | ok data =>
    refine Prog.ends_invoke_bind.mpr fun r => ?_
    cases r with
    | some err => exact fun h => by cases h
    | none =>
      refine Prog.ends_invoke_bind.mpr fun r => ?_
      cases r with
      | some err => exact fun h => by cases h
      | none => exact fun _ => hr data rfl

theorem trySelectorFlip_calls [Lowering] (p : Placement) : (a.trySelectorFlip p).All (a.ActionCall d) := by
  refine trySelectorFlip_all ?_ (fun tag target => ?_) p <;>
    exact actionCall_of_quiet trivial fun _ hp => by cases hp

/-- The selector is only used for a placement that the builder accepts. -/
theorem trySelectorFlip_ends [Lowering] (p : Placement) :
    (a.trySelectorFlip p).Ends fun r => r = true → a.Renderable p := by
  unfold trySelectorFlip
  split_ifs with hp
  · exact fun h => by cases h
  · rw [not_or, not_not] at hp
    refine Prog.ends_invoke_bind.mpr fun r => ?_
    cases r with
    | error err => exact fun h => by cases h
    | ok placements =>
      dsimp only
      split_ifs
      · cases hreg : a.reg.get p.backendNodeID with
        | none => exact fun h => by cases h
        | some b =>
          refine Prog.ends_invoke_bind.mpr fun r => ?_
          cases r with
          | some err => exact fun h => by cases h
          | none =>
            intro _ _
            refine ⟨hp.1, (a.reg.mem_map_id_all _).mpr ?_⟩
            rw [hreg]
            rfl
      · exact fun h => by cases h

theorem persist_calls {text : String} {t : Time} (h : a.Renderable d) :
    (persist text (d.stamp .ok t)).All (a.ActionCall d) := by
  refine Prog.all_invoke_bind.mpr ⟨⟨⟨t, rfl⟩, fun p hp => ?_⟩, fun r => ?_⟩
  · cases hp
    exact h
  · cases r <;> trivial

theorem rebuildWith_calls [Lowering] (text render write reload persistText : String) (t : Time) :
    (a.rebuildWith text render write reload persistText (d.stamp .ok t)).All (a.ActionCall d) := by
  unfold rebuildWith
  split_ifs
  · refine (coalesce_calls fun p h => ?_).bind fun r => ?_
    · cases h
      exact ⟨t, rfl⟩
    · cases r <;> trivial
  · refine (renderAndReload_calls _ _ _ _).bind_ends (renderAndReload_ends _ _ _ _) fun r hr => ?_
    cases r with
    | some err => trivial
    | none => exact persist_calls (hr rfl)

theorem flip_or_rebuild_calls [Lowering] {flip : Go Bool}
    (saved text render write reload persistText : String) (t : Time) (hcalls : flip.All (a.ActionCall d))
    (hends : flip.Ends fun r => r = true → a.Renderable d) :
    (flip >>= fun r => if r = true then persist saved (d.stamp .ok t)
      else a.rebuildWith text render write reload persistText (d.stamp .ok t)).All
        (a.ActionCall d) := by
  refine hcalls.bind_ends hends fun r hr => ?_
  cases r with
  | false => exact rebuildWith_calls _ _ _ _ _ t
  | true => exact persist_calls (hr rfl)

theorem simpleApply_calls [Lowering] : (a.simpleApply d).All (a.ActionCall d) := by
  unfold simpleApply
  split_ifs
  · trivial
  · trivial
  · refine Prog.all_invoke_bind.mpr ⟨⟨rfl, fun p h => by cases h⟩, fun r => ?_⟩
    cases r with
    | error err => trivial
    | ok found =>
      dsimp only
      split_ifs with hs
      · trivial
      · refine Prog.all_invoke_bind.mpr ⟨⟨trivial, fun p h => by cases h⟩, fun t => ?_⟩
        refine flip_or_rebuild_calls _ _ _ _ _ _ t ?_ ?_
        · split_ifs
          · exact trySelectorFlip_calls (d.stamp .ok t)
          · trivial
        · split_ifs
          · exact trySelectorFlip_ends (d.stamp .ok t)
          · exact fun h => by cases h

theorem swapRoute_calls [Lowering] (plan : FlipPlan) :
    (a.swapRoute plan).All (a.ActionCall plan.desired) := by
  unfold swapRoute
  split_ifs with hid hplan
  · trivial
  · trivial
  · refine Prog.all_invoke_bind.mpr ⟨⟨(not_not.mp hplan).symm, fun p h => by cases h⟩, fun r => ?_⟩
    cases r with
    | error err => trivial
    | ok found =>
      dsimp only
      split_ifs with hs
      · trivial
      · refine Prog.all_invoke_bind.mpr ⟨⟨trivial, fun p h => by cases h⟩, fun t => ?_⟩
        exact flip_or_rebuild_calls _ _ _ _ _ _ t (trySelectorFlip_calls (plan.desired.stamp .ok t))
          (trySelectorFlip_ends (plan.desired.stamp .ok t))

theorem rebuild_calls [Lowering] (text render write reload : String) :
    (a.rebuild text render write reload).All (a.ActionCall d) := by
  unfold rebuild
  split_ifs
  · refine (coalesce_calls fun p h => by cases h).bind fun r => ?_
    cases r <;> trivial
  · exact renderAndReload_calls _ _ _ _

theorem actions_calls [Lowering] (plan : FlipPlan) :
    Flip.ActionsAll plan (a.ActionCall plan.desired) a.actions where
  validate plan' _ := by
    show (a.validateBackend plan').All _
    unfold validateBackend
    cases a.reg.get plan'.newBackend <;> trivial
  swap plan' h := by
    obtain ⟨st, t, rfl⟩ := h
    exact swapRoute_calls { plan with state := st, startedAt := t }
  connections plan' _ := by
    refine Prog.all_invoke_bind.mpr ⟨⟨trivial, fun p h => by cases h⟩, fun r => ?_⟩
    cases r <;> trivial
  reachable plan' _ := by
    show (a.oldBackendReachable plan').All _
    unfold oldBackendReachable
    cases a.reg.get plan'.oldBackend with
    | none => trivial
    | some b => exact ⟨⟨trivial, fun p h => by cases h⟩, fun _ => trivial⟩
  cool plan' _ := rebuild_calls _ _ _ _

end Calls

/-- The executor of a node with an external sing-box. -/
def flipExecutor [Lowering] (opts : FlipExecutorOptions) : FlipExecutor where
  simple := a.simpleApply
  actions := a.actions
  opts := opts
  simple_calls _ := simpleApply_calls.mono fun _ h => h.1
  actions_calls plan := (actions_calls plan).mono fun _ h => h.1

/-- A node that knows no backends yet. -/
def bare : EntryActions where
  inbound := { tag := "entry", listen := { port := 443 } }
  reg := .new
  tag_ne := by decide

end EntryActions

end NodeAgent
