import NodeAgent.Ports

/-!
# The flip orchestrator

`internal/app/flip/orchestrator.go`: the phases of a graceful backend change over an `Actions`
interface, and the drain loop. The handler's context expires after a time, so the drain loop polls
at most `polls` times before it does.
-/

namespace NodeAgent

open Lib

namespace Flip

/-- `flip.Actions`, the interface that the orchestrator works on. -/
structure Actions where
  validateBackend : FlipPlan → Go Err
  swapRoute : FlipPlan → Go Err
  oldBackendConnections : FlipPlan → Go (Except GoError ℕ)
  oldBackendReachable : FlipPlan → Go Bool
  coolOldBackend : FlipPlan → Go Err

/-- The poll intervals as `New` sets them, and the polls that fit into the handler's context. -/
structure Options where
  drainPollMin : ℕ := 50000000
  drainPollMax : ℕ := 50000000
  polls : ℕ := 600

def contextExpired : GoError := .new "context deadline exceeded"

/-- The interval before the next poll: back to the minimum on progress, doubled otherwise. -/
def Options.nextInterval (o : Options) (interval : ℕ) (last : Option ℕ) (remaining : ℕ) : ℕ :=
  if last.any (remaining < ·) then o.drainPollMin
  else if interval < o.drainPollMax then min (interval * 2) o.drainPollMax
  else interval

/-- The loop of `drain`: poll until nothing is left, the deadline has passed, or the context ends. -/
def drainLoop (a : Actions) (o : Options) (plan : FlipPlan) (deadline : Time) :
    ℕ → ℕ → Option ℕ → Go Err
  | 0, _, _ => return some contextExpired
  | polls + 1, interval, last => do
    match ← a.oldBackendConnections plan with
    | .error err => return some (.wrap "query connections" err)
    | .ok remaining =>
      if remaining = 0 then return none
      else
        let t : Time ← port .now
        if ¬ t < deadline then return some .drainTimeout
        else
          let interval := o.nextInterval interval last remaining
          match ← port (.sleep interval) with
          | some err => return some err
          | none => drainLoop a o plan deadline polls interval (some remaining)

/-- `Orchestrator.drain`; a backend that cannot be reached has nothing to drain. -/
def drain (a : Actions) (o : Options) (plan : FlipPlan) : Go Err := do
  if ← a.oldBackendReachable plan then
    let t : Time ← port .now
    drainLoop a o plan (t + plan.drainTimeout) o.polls o.drainPollMin none
  else return none

def stateName : FlipState → String
  | .unset => ""
  | .steady => "steady"
  | .announced => "announced"
  | .warming => "warming"
  | .swap => "swap"
  | .cooling => "cooling"
  | .cool => "cool"

/-- `Orchestrator.runPhase`. -/
def runPhase (a : Actions) (o : Options) (plan : FlipPlan) : FlipState → Go Err
  | .announced => return none
  | .warming => a.validateBackend plan
  | .swap => a.swapRoute plan
  | .cooling => drain a o plan
  | .cool => a.coolOldBackend plan
  | .steady => return none
  | .unset => return some (.new ("unknown target state " ++ quote ""))

/-- The number of rounds of `Execute`'s loop from a given state until it is back at steady. -/
def phasesLeft : FlipState → ℕ
  | .steady => 6
  | .announced => 5
  | .warming => 4
  | .swap => 3
  | .cooling => 2
  | .cool => 1
  | .unset => 1

theorem phasesLeft_next (plan : FlipPlan) (h : plan.next ≠ .steady) :
    phasesLeft plan.next + 1 = phasesLeft plan.state := by
  revert h
  unfold FlipPlan.next
  cases plan.state <;> simp [phasesLeft]

/-- The loop of `Execute`, which asks the context before each phase. -/
def executeLoop (a : Actions) (o : Options) : ℕ → FlipPlan → Go (FlipPlan × Err)
  | 0, plan => return (plan, none)
  | rounds + 1, plan => do
    match ← port .ctxErr with
    | some err => return (plan, some err)
    | none =>
      let next := plan.next
      match ← runPhase a o plan next with
      | some err => return (plan, some (.wrap ("flip phase " ++ stateName next) err))
      | none =>
        let plan := { plan with state := next }
        if plan.state = .steady then return (plan, none)
        else executeLoop a o rounds plan

/-- `Orchestrator.Execute`. A plan that is steady and was started before is finished. -/
def execute (a : Actions) (o : Options) (plan : FlipPlan) : Go (FlipPlan × Err) :=
  if plan.placementID = "" then return (plan, some (.new "flip: PlacementID required"))
  else if plan.oldBackend = plan.newBackend then
    return (plan, some (.new "flip: OldBackend == NewBackend, no flip needed"))
  else if plan.drainTimeout = 0 then
    return (plan, some (.new "flip: DrainTimeout must be > 0"))
  else
    let plan := if plan.state = .unset then { plan with state := .steady } else plan
    if plan.state = .steady ∧ plan.startedAt ≠ 0 then return (plan, none)
    else if plan.startedAt = 0 then do
      let t : Time ← port .now
      executeLoop a o (phasesLeft plan.state) { plan with startedAt := t }
    else executeLoop a o (phasesLeft plan.state) plan

/-! ## The calls of the drain loop -/

section Calls

variable {P : Call → Prop} {a : Actions} {o : Options} {plan : FlipPlan}

theorem drainLoop_all (hconn : (a.oldBackendConnections plan).All P) (hnow : P .now)
    (hsleep : ∀ i, P (.sleep i)) (deadline : Time) (polls interval : ℕ) (last : Option ℕ) :
    (drainLoop a o plan deadline polls interval last).All P := by
  induction polls generalizing interval last with
  | zero => trivial
  | succ polls ih =>
    refine hconn.bind fun r => ?_
    cases r with
    | error err => trivial
    | ok remaining =>
      dsimp only
      split_ifs
      · trivial
      · refine Prog.all_invoke_bind.mpr ⟨hnow, fun t => ?_⟩
        split_ifs
        · refine Prog.all_invoke_bind.mpr ⟨hsleep _, fun r => ?_⟩
          cases r with
          | some err => trivial
          | none => exact ih _ _
        · trivial

theorem drain_all (hreach : (a.oldBackendReachable plan).All P)
    (hconn : (a.oldBackendConnections plan).All P) (hnow : P .now) (hsleep : ∀ i, P (.sleep i)) :
    (drain a o plan).All P := by
  refine hreach.bind fun r => ?_
  cases r with
  | false => trivial
  | true => exact ⟨hnow, fun t => drainLoop_all hconn hnow hsleep _ _ _ _⟩

/-- The plans that `Execute` hands to the actions differ from its own in state and start only. -/
def SameFlip (plan plan' : FlipPlan) : Prop :=
  ∃ st t, plan' = { plan with state := st, startedAt := t }

variable (plan) in
/-- Every action on every variant of the plan only makes calls that satisfy `P`. -/
structure ActionsAll (P : Call → Prop) (a : Actions) : Prop where
  validate : ∀ plan', SameFlip plan plan' → (a.validateBackend plan').All P
  swap : ∀ plan', SameFlip plan plan' → (a.swapRoute plan').All P
  connections : ∀ plan', SameFlip plan plan' → (a.oldBackendConnections plan').All P
  reachable : ∀ plan', SameFlip plan plan' → (a.oldBackendReachable plan').All P
  cool : ∀ plan', SameFlip plan plan' → (a.coolOldBackend plan').All P

theorem ActionsAll.mono {P' : Call → Prop} (ha : ActionsAll plan P a) (h : ∀ c, P c → P' c) :
    ActionsAll plan P' a where
  validate plan' hp := (ha.validate plan' hp).mono h
  swap plan' hp := (ha.swap plan' hp).mono h
  connections plan' hp := (ha.connections plan' hp).mono h
  reachable plan' hp := (ha.reachable plan' hp).mono h
  cool plan' hp := (ha.cool plan' hp).mono h

theorem runPhase_all (ha : ActionsAll plan P a) (hnow : P .now) (hsleep : ∀ i, P (.sleep i))
    {plan' : FlipPlan} (h : SameFlip plan plan') (st : FlipState) :
    (runPhase a o plan' st).All P := by
  cases st with
  | unset => trivial
  | steady => trivial
  | announced => trivial
  | warming => exact ha.validate plan' h
  | swap => exact ha.swap plan' h
  | cooling => exact drain_all (ha.reachable plan' h) (ha.connections plan' h) hnow hsleep
  | cool => exact ha.cool plan' h

theorem executeLoop_all (ha : ActionsAll plan P a) (hnow : P .now) (hsleep : ∀ i, P (.sleep i))
    (hctx : P .ctxErr) (rounds : ℕ) {plan' : FlipPlan} (h : SameFlip plan plan') :
    (executeLoop a o rounds plan').All P := by
  induction rounds generalizing plan' with
  | zero => trivial
  | succ rounds ih =>
    refine Prog.all_invoke_bind.mpr ⟨hctx, fun r => ?_⟩
    cases r with
    | some err => trivial
    | none =>
      refine (runPhase_all ha hnow hsleep h _).bind fun r => ?_
      cases r with
      | some err => trivial
      | none =>
        dsimp only
        split_ifs
        · trivial
        · obtain ⟨st, t, rfl⟩ := h
          exact ih ⟨_, _, rfl⟩

/-- A flip makes no calls but those of its actions, of the clock and of the context check. -/
theorem execute_all (ha : ActionsAll plan P a) (hnow : P .now) (hsleep : ∀ i, P (.sleep i))
    (hctx : P .ctxErr) : (execute a o plan).All P := by
  have hplan : SameFlip plan (if plan.state = .unset then { plan with state := .steady } else plan) := by
    split_ifs
    · exact ⟨_, _, rfl⟩
    · exact ⟨_, _, rfl⟩
  unfold execute
  generalize (if plan.state = .unset then { plan with state := .steady } else plan) = plan' at hplan
  dsimp only
  split_ifs
  all_goals try trivial
  · refine Prog.all_invoke_bind.mpr ⟨hnow, fun t => ?_⟩
    obtain ⟨st, t', rfl⟩ := hplan
    exact executeLoop_all ha hnow hsleep hctx _ ⟨_, _, rfl⟩
  · exact executeLoop_all ha hnow hsleep hctx _ hplan

end Calls

/-- A round of the loop: the context is cancelled, or the phase fails, or it goes on. -/
theorem after_round {a : Actions} {o : Options} {plan plan' : FlipPlan} {tr : List GoEvent} {rounds : ℕ}
    {err : Err}
    (h : (executeLoop a o (rounds + 1) plan).After tr (.done (plan', err))) :
    (∃ e, tr = [⟨.ctxErr, some e⟩] ∧ plan' = plan ∧ err = some e) ∨
    ∃ r tr₁ tr₂, tr = ⟨.ctxErr, none⟩ :: (tr₁ ++ tr₂) ∧
      (runPhase a o plan plan.next).After tr₁ (.done r) ∧
      ((r ≠ none ∧ tr₂ = [] ∧ plan' = plan ∧ err ≠ none) ∨
        (r = none ∧ plan.next = .steady ∧ tr₂ = [] ∧ plan'.state = .steady ∧ err = none) ∨
        (r = none ∧ plan.next ≠ .steady ∧
          (executeLoop a o rounds { plan with state := plan.next }).After tr₂ (.done (plan', err)))) := by
  obtain ⟨r, tr', rfl, h'⟩ := Prog.after_invoke_done_iff.mp h
  cases r with
  | some e =>
    obtain ⟨rfl, heq⟩ := Prog.after_done_iff.mp h'
    cases heq
    exact .inl ⟨e, rfl, rfl, rfl⟩
  | none =>
    obtain ⟨r, tr₁, tr₂, rfl, h₁, h₂⟩ := Prog.after_bind_done_iff.mp h'
    refine .inr ⟨r, tr₁, tr₂, rfl, h₁, ?_⟩
    cases r with
    | some e =>
      obtain ⟨rfl, heq⟩ := Prog.after_done_iff.mp h₂
      cases heq
      exact .inl ⟨Option.some_ne_none _, rfl, rfl, Option.some_ne_none _⟩
    | none =>
      dsimp only at h₂
      split_ifs at h₂ with hnext
      · obtain ⟨rfl, heq⟩ := Prog.after_done_iff.mp h₂
        cases heq
        exact .inr (.inl ⟨rfl, hnext, rfl, hnext, rfl⟩)
      · exact .inr (.inr ⟨rfl, hnext, h₂⟩)

end Flip

end NodeAgent
