import NodeAgent.Executor.EntryProxyActions

/-!
# The flip executor

`internal/app/executor/executor.go`: a change of backend of an applied active placement goes through
the flip orchestrator, everything else through `SimpleApply`.
-/

namespace NodeAgent

open Lib

/-- `isBackendFlip`: an applied placement and its client stay active, and the backend changes. -/
def isBackendFlip (existing desired : Placement) : Bool :=
  if existing.applied ≠ .ok then false
  else if existing.desired ≠ .active ∨ desired.desired ≠ .active then false
  else if existing.clientID ≠ desired.clientID then false
  else existing.backendNodeID ≠ desired.backendNodeID

theorem isBackendFlip_iff {e d : Placement} :
    isBackendFlip e d = true ↔ e.applied = .ok ∧ e.desired = .active ∧ d.desired = .active ∧
      e.clientID = d.clientID ∧ e.backendNodeID ≠ d.backendNodeID := by
  unfold isBackendFlip
  split_ifs with ha hd hc
  · simp [ha]
  · simp only [false_iff]
    rintro ⟨-, he, hd', -⟩
    exact hd.elim (absurd he) (absurd hd')
  · simp [hc]
  · rw [not_or, not_not, not_not] at hd
    simp [not_not.mp ha, hd, not_not.mp hc]

theorem exists_of_isBackendFlip {stored : Option Placement} {d : Placement}
    (h : isBackendFlip (stored.getD {}) d = true) :
    ∃ e, stored = some e ∧ isBackendFlip e d = true := by
  cases stored with
  | none => exact absurd (isBackendFlip_iff.mp h).1 (by decide)
  | some e => exact ⟨e, rfl, h⟩

/-- The poll options, and the drain timeout that `NewFlipExecutor` makes positive. -/
structure FlipExecutorOptions where
  flip : Flip.Options := {}
  drainTimeout : ℕ := 30000000000
  drainTimeout_ne : drainTimeout ≠ 0 := by decide

instance : Inhabited FlipExecutorOptions := ⟨{}⟩

/-- `FlipExecutor`: what it does without a flip, the orchestrator's actions, and the options. -/
structure FlipExecutor where
  simple : Placement → Go Err
  actions : Flip.Actions
  opts : FlipExecutorOptions
  simple_calls : ∀ d, (simple d).All (ExecutorCall d)
  actions_calls : ∀ plan : FlipPlan, Flip.ActionsAll plan (ExecutorCall plan.desired) actions

namespace FlipExecutor

/-- The plan that the orchestrator is given. -/
def plan (x : FlipExecutor) (desired existing : Placement) : FlipPlan where
  placementID := desired.id
  oldBackend := existing.backendNodeID
  newBackend := desired.backendNodeID
  drainTimeout := x.opts.drainTimeout
  opVersion := desired.opVersion
  desired := desired

/-- `FlipExecutor.Apply`: a flip goes through the orchestrator, the rest through `SimpleApply`. -/
def apply (x : FlipExecutor) (desired existing : Placement) (found : Bool) : Go (Bool × Err) :=
  if found = false ∨ isBackendFlip existing desired = false then do
    match ← x.simple desired with
    | some err => return (false, some err)
    | none => return (false, none)
  else do
    match ← Flip.execute x.actions x.opts.flip (x.plan desired existing) with
    | (_, some err) => if err.isDrainTimeout then return (false, none) else return (false, some err)
    | (_, none) => return (false, none)

theorem apply_all {P : Call → Prop} (x : FlipExecutor) {d e : Placement} {found : Bool}
    (hs : (x.simple d).All P) (ha : Flip.ActionsAll (x.plan d e) P x.actions) (hnow : P .now)
    (hsleep : ∀ i, P (.sleep i)) (hctx : P .ctxErr) : (x.apply d e found).All P := by
  unfold apply
  split_ifs
  · refine hs.bind fun r => ?_
    cases r <;> trivial
  · refine (Flip.execute_all ha hnow hsleep hctx).bind fun r => ?_
    obtain ⟨plan, _ | err⟩ := r
    · trivial
    · dsimp only
      split_ifs <;> trivial

theorem apply_calls (x : FlipExecutor) (d e : Placement) (found : Bool) :
    (x.apply d e found).All (ExecutorCall d) :=
  x.apply_all (x.simple_calls d) (x.actions_calls (x.plan d e)) trivial (fun _ => trivial) trivial

/-- The executor of an entry node. -/
def executor (x : FlipExecutor) : Executor := ⟨x.apply, x.apply_calls⟩

/-- The executor of a node with the embedded entry proxy. -/
def entryProxy (reg : Registry) (opts : FlipExecutorOptions) : FlipExecutor where
  simple := EntryProxyActions.simpleApply reg
  actions := EntryProxyActions.actions reg
  opts := opts
  simple_calls := EntryProxyActions.simpleApply_calls reg
  actions_calls := EntryProxyActions.actions_calls reg

end FlipExecutor

end NodeAgent
