import NodeAgent.Executor.EntryProxySpec
import NodeAgent.Executor.FlipExecutor

/-!
# What the flip executor does over the embedded proxy

The rounds of the orchestrator, assembled into one statement about a whole flip, and the two paths
of `FlipExecutor.Apply`.
-/

namespace NodeAgent

open Lib

namespace Flip

variable {faults : Bool} {a : Actions} {o : Options} {plan : FlipPlan} {w : World}
  {Q : Err → World → Prop}

/-- One round of the loop: the context check, the phase, and what is left. -/
theorem ensures_executeLoop_succ {rounds : ℕ} (hctx : ∀ msg, faults = true → Q (some (.new msg)) w)
    (hphase : Ensures faults (runPhase a o plan plan.next) (fun _ r w' =>
      match r with
      | some err => Q (some (.wrap ("flip phase " ++ stateName plan.next) err)) w'
      | none => if plan.next = .steady then Q none w'
        else Ensures faults (executeLoop a o rounds { plan with state := plan.next })
          (fun _ r w' => Q r.2 w') w') w) :
    Ensures faults (executeLoop a o (rounds + 1) plan) (fun _ r w' => Q r.2 w') w := by
  rintro ⟨fail, _, _, _, _, _, _⟩ he
  cases fail with
  | some msg => exact hctx msg (by simpa [Env.Allowed] using he)
  | none =>
    refine hphase.bind fun _ r w' h => ?_
    cases r with
    | some err => exact h
    | none =>
      dsimp only at h ⊢
      split_ifs at h ⊢ with hs
      · exact h
      · exact h

end Flip

namespace EntryProxyActions

variable {faults : Bool} {reg : Registry} {o : Flip.Options} {w : World}

variable (faults reg) in
/-- How a flip towards `d` can end when started in the world `w`. What comes after the swap changes
neither store nor proxy, whatever it returns. -/
inductive FlipOutcome (d : Placement) (w : World) : Err → World → Prop
  | skipped (r : Err) (stale : Stale w.store d) : FlipOutcome d w r w
  | rerouted (r : Err) {w' : World} (fresh : ¬ Stale w.store d) (t : Time)
      (store : w'.store = w.store.put (d.stamp .ok t)) (proxy : Rerouted reg d w.proxy w'.proxy) :
      FlipOutcome d w r w'
  | rejected (err : GoError) (timeout : err.isDrainTimeout = false)
      (unregistered : reg.get d.backendNodeID = none) : FlipOutcome d w (some err) w
  | failed (err : GoError) {w' : World} (timeout : err.isDrainTimeout = false)
      (faulty : faults = true) : FlipOutcome d w (some err) w'

theorem drain_quiet (plan : FlipPlan) : (Flip.drain (actions reg) o plan).All Quiet := by
  refine Flip.drain_all ?_ ⟨fun _ _ => rfl, fun _ => trivial⟩ (fun _ _ => rfl) fun _ _ _ => rfl
  show (oldBackendReachable reg plan).All Quiet
  unfold oldBackendReachable
  cases reg.get plan.oldBackend with
  | none => trivial
  | some b => exact ⟨fun _ _ => rfl, fun _ => trivial⟩

/-- Draining and cooling change nothing, so what the swap has established stays. -/
theorem ensures_afterSwap {plan : FlipPlan} {Q : Err → World → Prop} (hstate : plan.state = .swap)
    (hQ : ∀ r, Q r w) :
    Ensures faults (Flip.executeLoop (actions reg) o 3 plan) (fun _ r w' => Q r.2 w') w := by
  have hnext : plan.next = .cooling := by simp [FlipPlan.next, hstate]
  refine Flip.ensures_executeLoop_succ (fun msg _ => hQ _) ?_
  rw [hnext]
  refine wp_mono (ensures_quiet (drain_quiet plan)) fun _ r w' hw => ?_
  subst hw
  cases r with
  | some err => exact hQ _
  | none =>
    refine Flip.ensures_executeLoop_succ (fun msg _ => hQ _) ?_
    refine Flip.ensures_executeLoop_succ (fun msg _ => hQ _) ?_
    exact hQ none

theorem ensures_execute (plan : FlipPlan) (hid : plan.desired.id ≠ "")
    (hplan : plan.placementID = plan.desired.id) (hop : plan.opVersion = plan.desired.opVersion)
    (hnew : plan.newBackend = plan.desired.backendNodeID)
    (hne : plan.oldBackend ≠ plan.newBackend) (hdrain : plan.drainTimeout ≠ 0)
    (hstate : plan.state = .unset) (hstart : plan.startedAt = 0) :
    Ensures faults (Flip.execute (actions reg) o plan)
      (fun _ r w' => FlipOutcome faults reg plan.desired w r.2 w') w := by
  unfold Flip.execute
  rw [if_neg (hplan ▸ hid), if_neg hne, if_neg hdrain, if_pos hstate]
  dsimp only
  rw [if_neg (by simp [hstart]), if_pos hstart]
  refine ensures_now fun t => ?_
  have hctx : ∀ msg, faults = true → FlipOutcome faults reg plan.desired w (some (.new msg)) w :=
    fun msg hf => .failed _ rfl hf
  -- announced
  refine Flip.ensures_executeLoop_succ hctx ?_
  -- warming
  refine Flip.ensures_executeLoop_succ hctx ?_
  show Ensures faults (validateBackend reg _) _ w
  unfold validateBackend
  dsimp only
  rw [hnew]
  cases hreg : reg.get plan.desired.backendNodeID with
  | none => exact .rejected _ rfl hreg
  | some spec =>
    -- swap
    refine Flip.ensures_executeLoop_succ hctx ?_
    refine wp_mono (ensures_swapRoute hid hplan hop) fun _ r w' h => ?_
    cases h with
    | skipped stale => exact ensures_afterSwap rfl fun r => .skipped r stale
    | rerouted fresh t store proxy => exact ensures_afterSwap rfl fun r => .rerouted r fresh t store proxy
    | failed err timeout why =>
      refine .failed _ timeout (why.resolve_right ?_)
      show ¬ reg.get plan.desired.backendNodeID = none
      rw [hreg]
      exact Option.some_ne_none _

end EntryProxyActions

namespace FlipExecutor

open EntryProxyActions

variable {faults : Bool} {reg : Registry} {opts : FlipExecutorOptions} {w : World}

variable (faults reg) in
/-- How `Apply` of `d` over the stored record `e` can end when started in the world `w`. -/
inductive ApplyOutcome (d e : Placement) (found : Bool) (w : World) :
    List GoEvent → Err → World → Prop
  | simple {tr : List GoEvent} {r : Err} {w' : World}
      (path : found = false ∨ isBackendFlip e d = false)
      (outcome : SimpleOutcome faults reg d w tr r w') : ApplyOutcome d e found w tr r w'
  | flip {tr : List GoEvent} {r : Err} {w' : World} (path : isBackendFlip e d = true)
      (outcome : FlipOutcome faults reg d w r w') : ApplyOutcome d e found w tr r w'

/-- No failure of this executor is marked as one to retry. -/
theorem ensures_apply {d : Placement} (e : Placement) (found : Bool) (hid : d.id ≠ "") :
    Ensures faults ((entryProxy reg opts).apply d e found)
      (fun tr r w' => r.1 = false ∧ ApplyOutcome faults reg d e found w tr r.2 w') w := by
  unfold apply
  split_ifs with hpath
  · refine (ensures_simpleApply hid).bind fun tr r w' h => ?_
    cases r with
    | some err => exact ⟨rfl, .simple hpath (by rw [List.append_nil]; exact h)⟩
    | none => exact ⟨rfl, .simple hpath (by rw [List.append_nil]; exact h)⟩
  · rw [not_or, Bool.not_eq_false, Bool.not_eq_false] at hpath
    have hne := (isBackendFlip_iff.mp hpath.2).2.2.2.2
    refine (ensures_execute ((entryProxy reg opts).plan d e) hid rfl rfl rfl hne
      opts.drainTimeout_ne rfl rfl).bind fun _ r w' h => ?_
    obtain ⟨plan, r⟩ := r
    cases r with
    | none => exact ⟨rfl, .flip hpath.2 h⟩
    | some err =>
      dsimp only at h ⊢
      split_ifs with ht
      · -- a drain timeout counts as success; only a flip that has swapped can end so
        refine ⟨rfl, .flip hpath.2 ?_⟩
        cases h with
        | skipped r stale => exact .skipped _ stale
        | rerouted r fresh t store proxy => exact .rerouted _ fresh t store proxy
        | rejected err timeout unregistered => simp [timeout] at ht
        | failed err timeout faulty => simp [timeout] at ht
      · exact ⟨rfl, .flip hpath.2 h⟩

end FlipExecutor

end NodeAgent
