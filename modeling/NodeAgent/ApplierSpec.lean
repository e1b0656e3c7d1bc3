import NodeAgent.Applier
import NodeAgent.World

/-!
# What a report of success says about the run of `Handle`

How a run of `Handle` can end, for every executor; in particular a run that publishes `applied` went
through a successful run of the executor, from the stored record, and stored the command.
-/

namespace NodeAgent

open Lib

/-- The apply report an event publishes; whether the bus took it does not matter here. -/
def reportOf (ev : GoEvent) : Option PlacementReport :=
  match ev.call with
  | .publish (.applyResult _ r) => some r
  | _ => none

/-- The apply reports published in a list of events. -/
def reports (tr : List GoEvent) : List PlacementReport := tr.filterMap reportOf

theorem reports_append (tr tr' : List GoEvent) : reports (tr ++ tr') = reports tr ++ reports tr' :=
  List.filterMap_append

/-- The event tries to store a record of failure. -/
def isErrorPut : GoEvent → Bool
  | ⟨.putPlacement p, _⟩ => p.applied == .error
  | _ => false

/-- The event stores a record of failure. -/
def isErrorSaved : GoEvent → Bool
  | ⟨.putPlacement p, none⟩ => p.applied == .error
  | _ => false

/-- The call does not publish. -/
def NotPublish (c : Call) : Prop := ∀ m, c ≠ .publish m

theorem ExecutorCall.notPublish {d : Placement} {c : Call} (h : ExecutorCall d c) : NotPublish c := by
  rintro m rfl
  exact h

theorem reports_eq_nil {α : Type} {p q : Go α} {tr : List GoEvent} (hp : p.All NotPublish)
    (h : p.After tr q) : reports tr = [] := by
  refine List.filterMap_eq_nil_iff.mpr fun ev hev => ?_
  have hcall := hp.of_mem h ev hev
  unfold reportOf
  split
  · exact absurd ‹_› (hcall _)
  · rfl

namespace Applier

variable {faults : Bool} {w : World}

theorem marshalApplyResultEvent_ok {r : PlacementReport} {eventID : String} {m : Message}
    (h : Jsonv1.marshalApplyResultEvent r eventID = .ok m) : m = .applyResult eventID r := by
  unfold Jsonv1.marshalApplyResultEvent at h
  split_ifs at h
  cases h
  rfl

/-! ## The calls of `Handle` outside the executor -/

/-- The calls made to report an outcome. -/
def ReportCall : Call → Prop
  | .now | .newID | .publish _ | .count _ _ => True
  | _ => False

theorem publishReport_reportCalls {nodeID : NodeID} {cmd : Command} (state : AppliedState)
    (status : ReportStatus) (errStr : String) :
    (publishReport nodeID cmd state status errStr).All ReportCall := by
  refine Prog.all_invoke_bind.mpr ⟨trivial, fun t => ?_⟩
  refine Prog.all_invoke_bind.mpr ⟨trivial, fun id => ?_⟩
  split
  · trivial
  · refine Prog.all_invoke_bind.mpr ⟨trivial, fun r => ?_⟩
    cases r <;> trivial

/-- The calls made to record and report an outcome. -/
def RecordCall (d : Placement) : Call → Prop
  | .putPlacement p => ∃ a t, p = d.stamp a t
  | .now | .newID | .publish _ | .count _ _ => True
  | _ => False

theorem publishReport_calls (d : Placement) (nodeID : NodeID) (cmd : Command) (state : AppliedState)
    (status : ReportStatus) (errStr : String) :
    (publishReport nodeID cmd state status errStr).All (RecordCall d) := by
  refine (publishReport_reportCalls state status errStr).mono fun c hc => ?_
  cases c <;> trivial

theorem finish_calls (nodeID : NodeID) (cmd : Command) (res : Bool × Err) :
    (finish nodeID cmd res).All (RecordCall cmd.placement) := by
  obtain ⟨retryable, _ | err⟩ := res
  · refine Prog.all_invoke_bind.mpr ⟨trivial, fun t => ?_⟩
    refine Prog.all_invoke_bind.mpr ⟨⟨_, _, rfl⟩, fun r => ?_⟩
    cases r with
    | some err => trivial
    | none => exact ⟨trivial, fun _ => publishReport_calls _ _ _ _ _ _⟩
  · cases retryable with
    | true => trivial
    | false =>
      refine Prog.all_invoke_bind.mpr ⟨trivial, fun t => ?_⟩
      refine Prog.all_invoke_bind.mpr ⟨⟨_, _, rfl⟩, fun r => ?_⟩
      exact ⟨trivial, fun _ => publishReport_calls _ _ _ _ _ _⟩

/-- `publishReport` publishes at most the one report it is given, and stores nothing. -/
theorem ensures_publishReport (nodeID : NodeID) (cmd : Command) (state : AppliedState)
    (status : ReportStatus) (errStr : String) :
    Ensures faults (publishReport nodeID cmd state status errStr) (fun tr _ w' => w' = w ∧
      (∀ rep ∈ reports tr, rep.placementID = cmd.placement.id ∧
        rep.opVersion = cmd.placement.opVersion ∧ rep.status = status) ∧
      tr.any isErrorPut = false ∧ tr.any isErrorSaved = false) w := by
  refine ensures_now fun t => ensures_newID fun id => ?_
  cases hm : Jsonv1.marshalApplyResultEvent
      { placementID := cmd.placement.id, nodeID := nodeID, opVersion := cmd.placement.opVersion,
        appliedState := state, status := status, err := errStr, appliedAt := t } id with
  | error err => exact ⟨rfl, by simp [reports, reportOf], rfl, rfl⟩
  | ok data =>
    refine ensures_publish fun r => ?_
    rw [marshalApplyResultEvent_ok hm]
    cases r with
    | some err => exact ⟨rfl, by simp [reports, reportOf], rfl, rfl⟩
    | none => exact ⟨rfl, by simp [reports, reportOf], rfl, rfl⟩

/-! ## Endings -/

variable (faults) in
/-- How `Handle` can end once the executor has returned `res` and left the world `w`. -/
inductive Ending (cmd : Command) (res : Bool × Err) (w : World) : List GoEvent → World → Prop
  | retried {tr : List GoEvent} (retryable : res.1 = true) (err : res.2 ≠ none)
      (silent : reports tr = []) (noRecord : tr.any isErrorPut = false) : Ending cmd res w tr w
  | recorded {tr : List GoEvent} (c : Counter → ℕ) (final : res.1 = false) (err : res.2 ≠ none)
      (t : Time) (reported : ∀ rep ∈ reports tr, rep.status = .error)
      (tried : tr.any isErrorPut = true) (saved : tr.any isErrorSaved = true) :
      Ending cmd res w tr
        { w with store := w.store.put (cmd.placement.stamp .error t), counters := c }
  | unrecorded {tr : List GoEvent} (c : Counter → ℕ) (faulty : faults = true)
      (final : res.1 = false) (err : res.2 ≠ none)
      (reported : ∀ rep ∈ reports tr, rep.status = .error)
      (tried : tr.any isErrorPut = true) (unsaved : tr.any isErrorSaved = false) :
      Ending cmd res w tr { w with counters := c }
  | unsaved {tr : List GoEvent} (ok : res.2 = none) (faulty : faults = true)
      (silent : reports tr = []) (noRecord : tr.any isErrorPut = false) : Ending cmd res w tr w
  | applied {tr : List GoEvent} (c : Counter → ℕ) (ok : res.2 = none) (t : Time)
      (reported : ∀ rep ∈ reports tr, rep.placementID = cmd.placement.id ∧
        rep.opVersion = cmd.placement.opVersion ∧ rep.status = .applied)
      (noRecord : tr.any isErrorPut = false) :
      Ending cmd res w tr
        { w with store := w.store.put (cmd.placement.stamp .ok t), counters := c }

theorem ensures_finish (nodeID : NodeID) (cmd : Command) (res : Bool × Err) :
    Ensures faults (finish nodeID cmd res) (fun tr _ w' => Ending faults cmd res w tr w') w := by
  obtain ⟨retryable, _ | err⟩ := res
  · refine ensures_now fun t => ensures_putPlacement (fun hf msg => ?_) ?_
    · exact .unsaved rfl hf (by simp [reports, reportOf]) (by simp [isErrorPut])
    · refine ensures_count fun c => wp_mono (ensures_publishReport _ _ _ _ _) ?_
      rintro tr r _ ⟨rfl, hrep, hput, -⟩
      exact .applied c rfl t hrep hput
  · cases retryable with
    | true => exact .retried rfl (Option.some_ne_none _) rfl rfl
    | false =>
      refine ensures_now fun t => ensures_putPlacement (fun hf msg => ?_) ?_
      · refine ensures_count fun c => wp_mono (ensures_publishReport _ _ _ _ _) ?_
        rintro tr r _ ⟨rfl, hrep, -, hsaved⟩
        exact .unrecorded c hf rfl (Option.some_ne_none _) (fun rep h => (hrep rep h).2.2) rfl hsaved
      · refine ensures_count fun c => wp_mono (ensures_publishReport _ _ _ _ _) ?_
        rintro tr r _ ⟨rfl, hrep, -, -⟩
        exact .recorded c rfl (Option.some_ne_none _) t (fun rep h => (hrep rep h).2.2) rfl rfl

/-- `Handle` passes the command on to the executor: the store has no later version, and not this
very command as applied. -/
def Due (s : Store) (d : Placement) : Prop :=
  ∀ e, s.get d.id = some e → e.opVersion ≤ d.opVersion ∧ alreadyApplied e d = false

variable (faults) in
/-- How `Handle` of a command can end when started in the world `w`. -/
inductive HandleOutcome (x : Executor) (cmd : Command) (w : World) : List GoEvent → World → Prop
  | skipped {tr : List GoEvent} (c : Counter → ℕ)
      (reported : ∀ rep ∈ reports tr, rep.status ≠ .applied ∧ rep.status ≠ .error)
      (noRecord : tr.any isErrorPut = false) : HandleOutcome x cmd w tr { w with counters := c }
  | executed {trx tr' : List GoEvent} {res : Bool × Err} {w₁ w' : World} (c : Counter → ℕ)
      (due : Due w.store cmd.placement)
      (run : Run world (Env.Allowed faults)
        (x.apply cmd.placement ((w.store.get cmd.placement.id).getD {})
          (w.store.get cmd.placement.id).isSome) { w with counters := c } trx res w₁)
      (ending : Ending faults cmd res w₁ tr' w')
      (calls : ∀ ev ∈ tr', RecordCall cmd.placement ev.call) :
      HandleOutcome x cmd w (⟨.count .receivedTotal 1, ()⟩ ::
        ⟨.getPlacement cmd.placement.id, .ok (w.store.get cmd.placement.id)⟩ :: (trx ++ tr')) w'

theorem ensures_handleOwn (nodeID : NodeID) (x : Executor) (cmd : Command) :
    Ensures faults (handleOwn nodeID x.apply cmd)
      (fun tr _ w' => HandleOutcome faults x cmd w tr w') w := by
  refine ensures_count fun c => ensures_getPlacement (fun hf msg => ?_) ?_
  · exact .skipped c (by simp [reports, reportOf]) rfl
  · dsimp only
    split_ifs with hstale hdone
    · refine wp_mono (ensures_publishReport _ _ _ _ _) ?_
      rintro tr r _ ⟨rfl, hrep, hput, -⟩
      refine .skipped c (fun rep h => ?_) hput
      rw [(hrep rep h).2.2]
      decide
    · refine wp_mono (ensures_publishReport _ _ _ _ _) ?_
      rintro tr r _ ⟨rfl, hrep, hput, -⟩
      refine .skipped c (fun rep h => ?_) hput
      rw [(hrep rep h).2.2]
      decide
    · have hdue : Due w.store cmd.placement := fun e he => by
        simp only [he, Option.getD_some, Option.isSome_some, true_and] at hstale hdone
        exact ⟨not_lt.mp hstale, by simpa using hdone⟩
      refine Ensures.bind (wp_iff_run.mpr fun _ _ _ hr => hr) fun trx res w₁ hr => ?_
      refine wp_iff_run.mpr fun tr' r w' hfin => ?_
      exact .executed c hdue hr (wp_iff_run.mp (ensures_finish nodeID cmd res) _ _ _ hfin)
        ((finish_calls nodeID cmd res).of_mem hfin.1)

theorem ensures_handle (nodeID : NodeID) (x : Executor) (cmd : Command) :
    Ensures faults (handle nodeID x (.ok cmd))
      (fun tr _ w' => HandleOutcome faults x cmd w tr w') w := by
  unfold handle handleBy
  dsimp only
  split_ifs
  · exact .skipped w.counters (by simp [reports]) rfl
  · exact ensures_handleOwn nodeID x cmd

/-- A report of success comes from a run of the executor without error, and the command is
stored. -/
theorem HandleOutcome.of_applied {x : Executor} {cmd : Command} {tr : List GoEvent} {w' : World}
    (h : HandleOutcome faults x cmd w tr w') {rep : PlacementReport} (hrep : rep ∈ reports tr)
    (hst : rep.status = .applied) :
    ∃ c c' trx retryable w₁ t, Due w.store cmd.placement ∧
      Run world (Env.Allowed faults)
        (x.apply cmd.placement ((w.store.get cmd.placement.id).getD {})
          (w.store.get cmd.placement.id).isSome) { w with counters := c } trx (retryable, none) w₁ ∧
      trx ⊆ tr ∧
      w' = { w₁ with store := w₁.store.put (cmd.placement.stamp .ok t), counters := c' } := by
  cases h with
  | skipped c reported noRecord => exact absurd hst (reported rep hrep).1
  | @executed trx tr' res w₁ _ c due run ending calls =>
    have hx := (x.calls cmd.placement ((w.store.get cmd.placement.id).getD {})
      (w.store.get cmd.placement.id).isSome).mono fun _ => ExecutorCall.notPublish
    replace hrep : rep ∈ reports tr' := by
      have hsplit : rep ∈ reports (trx ++ tr') := hrep
      rwa [reports_append, reports_eq_nil hx run.1, List.nil_append] at hsplit
    cases ending with
    | retried retryable err silent noRecord => simp [silent] at hrep
    | recorded c' final err t reported tried saved => simp [reported rep hrep] at hst
    | unrecorded c' faulty final err reported tried unsaved => simp [reported rep hrep] at hst
    | unsaved ok faulty silent noRecord => simp [silent] at hrep
    | applied c' ok t reported noRecord =>
      obtain ⟨retryable, r⟩ := res
      obtain rfl : r = none := ok
      refine ⟨c, c', trx, retryable, w₁, t, due, run, fun ev hev => ?_, rfl⟩
      simp [hev]

end Applier

end NodeAgent
