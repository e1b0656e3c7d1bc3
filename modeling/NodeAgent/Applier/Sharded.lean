import NodeAgent.Applier.Record
import NodeAgent.Nats.Subscribe

/-!
# The applier's workers

`Run` subscribes `Handle` with eight workers and the placement as shard key. Whatever their schedule, each
record and the reports about it come out as with one worker, up to the times in them.
-/

namespace NodeAgent.Applier

open Lib Nats

/-! ## The subscription -/

/-- `applierWorkers` of `internal/app/applier/applier.go`. -/
def applierWorkers : ℤ := 8

/-- The shard key of a message: the hash of its placement, or its sequence number if it names none. -/
def placementShardKey (msg : Msg) : UInt64 :=
  match Jsonv1.placementIDFromCommandEvent msg.data with
  | .error _ => msg.seq
  | .ok id => if id = "" then msg.seq else fnv64a id.toUTF8.toList

section Subscription

variable (parse : String → Except GoError Time) (nodeID : NodeID) (apply : Apply)

/-- `Handle` on a message of the bus. -/
def handleMsg (msg : Msg) : Go Err := handleBy nodeID apply (Jsonv1.commandFromData parse msg.data)

/-- The goroutines that handle the commands once `Run` has subscribed. -/
def run (msgs : List Msg) : List (Go (List Settled)) :=
  subscribe (handleMsg parse nodeID apply) (withConcurrency applierWorkers placementShardKey) msgs

/-- The message is a command for the placement. -/
def isFor (id : PlacementID) (msg : Msg) : Bool :=
  match Jsonv1.commandFromData parse msg.data with
  | .ok cmd => cmd.placement.id = id
  | .error _ => false

variable {parse nodeID apply}

theorem isFor_iff {id : PlacementID} {msg : Msg} : isFor parse id msg = true ↔
    ∃ cmd, Jsonv1.commandFromData parse msg.data = .ok cmd ∧ cmd.placement.id = id := by
  unfold isFor
  cases Jsonv1.commandFromData parse msg.data with
  | error err => simp
  | ok cmd => simp

/-- The shard of a placement. -/
def shardOf (id : PlacementID) : ℕ := (fnv64a id.toUTF8.toList % 8).toNat

theorem shardOf_lt (id : PlacementID) : shardOf id < 8 := by
  rw [shardOf, UInt64.toNat_mod]
  exact Nat.mod_lt _ (by decide)

theorem run_eq (msgs : List Msg) : run parse nodeID apply msgs =
    shards 8 (fun m => shardIndex m (some placementShardKey) 8)
      (invokeHandler (handleMsg parse nodeID apply)) msgs := rfl

theorem shardIndex_of_isFor {id : PlacementID} {msg : Msg} (h : isFor parse id msg = true) :
    shardIndex msg (some placementShardKey) 8 = shardOf id := by
  obtain ⟨cmd, hcmd, rfl⟩ := isFor_iff.mp h
  have hkey : placementShardKey msg = fnv64a cmd.placement.id.toUTF8.toList := by
    rw [placementShardKey, Jsonv1.commandFromData_id parse hcmd]
    exact if_neg cmd.id_ne
  rw [shardIndex, if_neg (by decide), hkey]
  rfl

end Subscription

/-! ## Without the times -/

/-- The record without the time at which it was stored. -/
def timeless (p : Placement) : Placement := { p with lastAppliedAt := 0 }

/-- The report without its time. -/
def timelessReport (rep : PlacementReport) : PlacementReport := { rep with appliedAt := 0 }

/-- Two records that only differ in the time. -/
def Alike (x x' : Option Placement) : Prop := x.map timeless = x'.map timeless

theorem reportFor_timeless (nodeID : NodeID) (cmd : Command) (state : AppliedState)
    (status : ReportStatus) (errStr : String) (t t' : Time) :
    (reportFor nodeID cmd state status errStr t).map timelessReport =
      (reportFor nodeID cmd state status errStr t').map timelessReport := by
  unfold reportFor
  split_ifs <;> rfl

theorem Alike.some_left {e : Placement} {x' : Option Placement} (h : Alike (some e) x') :
    ∃ e', x' = some e' ∧ timeless e = timeless e' := by
  cases x' with
  | none => cases h
  | some e' => exact ⟨e', rfl, Option.some.inj h⟩

theorem Alike.isSome {x x' : Option Placement} (h : Alike x x') : x.isSome = x'.isSome := by
  rw [← Option.isSome_map (f := timeless), show x.map timeless = x'.map timeless from h, Option.isSome_map]

theorem Alike.getD {x x' : Option Placement} (h : Alike x x') :
    timeless (x.getD {}) = timeless (x'.getD {}) := by
  rw [← Option.getD_map timeless, show x.map timeless = x'.map timeless from h, Option.getD_map]

theorem applied_of_timeless {e e' : Placement} (h : timeless e = timeless e') : e.applied = e'.applied := by
  show (timeless e).applied = (timeless e').applied
  rw [h]

theorem opVersion_of_timeless {e e' : Placement} (h : timeless e = timeless e') :
    e.opVersion = e'.opVersion := by
  show (timeless e).opVersion = (timeless e').opVersion
  rw [h]

theorem alreadyApplied_of_timeless {e e' : Placement} (h : timeless e = timeless e') (d : Placement) :
    alreadyApplied e d = alreadyApplied e' d := by
  show alreadyApplied (timeless e) d = alreadyApplied (timeless e') d
  rw [h]

/-- The result of the executor, and what it makes of the record, depend only on its arguments (which it
does not ask for the time of the record); it writes no other record. -/
structure Determined (apply : Apply) : Prop where
  calls : ∀ d e found, (apply d e found).All (OwnCall d)
  agree : ∀ {d e e' : Placement} {found : Bool} {tr tr' : List GoEvent} {res res' : Bool × Err},
    timeless e = timeless e' → (apply d e found).After tr (.done res) →
    (apply d e' found).After tr' (.done res') → (∀ ev ∈ tr, Reliable ev) → (∀ ev ∈ tr', Reliable ev) →
    res = res' ∧ (written d.id tr).map (Option.map timeless) = (written d.id tr').map (Option.map timeless)

section Agree

variable {A : Env → Prop} {nodeID : NodeID} {apply : Apply} {cmd : Command}
  {x x' y y' : Option Placement} {reps reps' : List PlacementReport}

theorem Finished.agree {res : Bool × Err} (hxx : Alike x x') (h : Finished nodeID cmd x res reps y)
    (h' : Finished nodeID cmd x' res reps' y') :
    Alike y y' ∧ reps.map timelessReport = reps'.map timelessReport := by
  cases h with
  | retried err =>
    cases h'
    exact ⟨hxx, rfl⟩
  | failed err t t' =>
    cases h'
    exact ⟨rfl, reportFor_timeless ..⟩
  | applied retryable t t' =>
    cases h'
    exact ⟨rfl, reportFor_timeless ..⟩

theorem Executed.not_stale {d e : Placement} {trx : List GoEvent} {res : Bool × Err}
    (h : Executed apply d (some e) trx res) : ¬ d.opVersion < e.opVersion :=
  not_lt.mpr (h.due e rfl).1

theorem Executed.not_same {d e : Placement} {trx : List GoEvent} {res : Bool × Err}
    (h : Executed apply d (some e) trx res) : ¬ alreadyApplied e d = true := by
  rw [(h.due e rfl).2]
  exact Bool.false_ne_true

theorem Executed.agree {d : Placement} {trx trx' : List GoEvent} {res res' : Bool × Err}
    (hx : Determined apply) (hxx : Alike x x') (h : Executed apply d x trx res)
    (h' : Executed apply d x' trx' res') :
    res = res' ∧ Alike ((written d.id trx).getD x) ((written d.id trx').getD x') := by
  have hrun' := h'.run
  rw [← hxx.isSome] at hrun'
  obtain ⟨hres, hwritten⟩ := hx.agree hxx.getD h.run hrun' h.reliable h'.reliable
  refine ⟨hres, ?_⟩
  unfold Alike
  rw [← Option.getD_map (Option.map timeless), hwritten, show x.map timeless = x'.map timeless from hxx,
    Option.getD_map]

/-- One command, on records that only differ in the time. -/
theorem Handled.agree (hx : Determined apply) (hxx : Alike x x') (h : Handled nodeID apply cmd x reps y)
    (h' : Handled nodeID apply cmd x' reps' y') :
    Alike y y' ∧ reps.map timelessReport = reps'.map timelessReport := by
  cases h with
  | other node =>
    cases h' with
    | other => exact ⟨hxx, rfl⟩
    | stale node' | same node' | executed node' => exact absurd node' node
  | stale node e found newer t =>
    subst found
    obtain ⟨e', rfl, hee⟩ := hxx.some_left
    have newer' := newer
    rw [opVersion_of_timeless hee] at newer'
    cases h' with
    | other node' => exact absurd node node'
    | stale node' e'' found' _ t' =>
      cases found'
      rw [applied_of_timeless hee]
      exact ⟨hxx, reportFor_timeless ..⟩
    | same node' e'' found' done' t' =>
      cases found'
      exact absurd (of_decide_eq_true done').1 newer'.ne'
    | executed node' run' fin' => exact absurd newer' run'.not_stale
  | same node e found done t =>
    subst found
    obtain ⟨e', rfl, hee⟩ := hxx.some_left
    have done' := done
    rw [alreadyApplied_of_timeless hee] at done'
    cases h' with
    | other node' => exact absurd node node'
    | stale node' e'' found' newer' t' =>
      cases found'
      exact absurd (of_decide_eq_true done').1 newer'.ne'
    | same node' e'' found' _ t' =>
      cases found'
      rw [applied_of_timeless hee]
      exact ⟨hxx, reportFor_timeless ..⟩
    | executed node' run' fin' => exact absurd done' run'.not_same
  | executed node run fin =>
    cases h' with
    | other node' => exact absurd node node'
    | stale node' e' found' newer' t' =>
      subst found'
      obtain ⟨e, rfl, hee⟩ := Alike.some_left hxx.symm
      rw [opVersion_of_timeless hee] at newer'
      exact absurd newer' run.not_stale
    | same node' e' found' done' t' =>
      subst found'
      obtain ⟨e, rfl, hee⟩ := Alike.some_left hxx.symm
      rw [alreadyApplied_of_timeless hee] at done'
      exact absurd done' run.not_same
    | executed node' run' fin' =>
      obtain ⟨rfl, halike⟩ := run.agree hx hxx run'
      exact fin.agree halike fin'

end Agree

/-! ## Eight workers or one -/

/-- The call leaves the record alone and does not report the placement. -/
def Passes (id : PlacementID) (c : Call) : Prop :=
  Keeps id c ∧ ∀ eventID rep, c = .publish (.applyResult eventID rep) → rep.placementID ≠ id

theorem About.passes {id id' : PlacementID} {c : Call} (h : About id c) (hne : id ≠ id') :
    Passes id' c := by
  refine ⟨h.keeps hne, ?_⟩
  rintro eventID rep rfl
  obtain ⟨_, _, hm, hid⟩ := h
  cases hm
  exact hid.trans_ne hne

/-- The report that an event publishes about the placement, without its time. -/
def reportAbout (id : PlacementID) (ev : GoEvent) : Option PlacementReport :=
  ((reportOf ev).filter fun rep => rep.placementID = id).map timelessReport

theorem reportAbout_of_passes {id : PlacementID} {ev : GoEvent} (h : Passes id ev.call) :
    reportAbout id ev = none := by
  obtain ⟨c, r⟩ := ev
  unfold reportAbout reportOf
  dsimp only
  split
  · rename_i rep
    rw [Option.filter_some, if_neg (by simpa using h.2 _ _ rfl)]
    rfl
  · rfl

theorem filterMap_reportAbout (id : PlacementID) (tr : List GoEvent) :
    tr.filterMap (reportAbout id) =
      ((reports tr).filter fun rep => rep.placementID = id).map timelessReport := by
  rw [reports, List.filter_filterMap, List.map_filterMap]
  rfl

theorem handleMsg_determines {A : Env → Prop} {parse : String → Except GoError Time} {nodeID : NodeID}
    {apply : Apply} (hx : Determined apply) {id : PlacementID} {msg : Msg}
    (h : isFor parse id msg = true) :
    Determines world A (record id) Alike Reliable (reportAbout id)
      (invokeHandler (handleMsg parse nodeID apply) msg) := by
  obtain ⟨cmd, hcmd, rfl⟩ := isFor_iff.mp h
  intro x x' y y' tr tr' a a' hxx hrun hrun' hrel hrel' hs hs'
  obtain ⟨r, hrun⟩ := after_invokeHandler hrun
  obtain ⟨r', hrun'⟩ := after_invokeHandler hrun'
  unfold handleMsg at hrun hrun'
  rw [hcmd] at hrun hrun'
  obtain ⟨hyy, hreps⟩ := (handle_record (hx.calls _) hrun hrel hs).agree hx hxx
    (handle_record (hx.calls _) hrun' hrel' hs')
  refine ⟨hyy, ?_⟩
  have hcomm : ∀ reps : List PlacementReport,
      (reps.filter fun rep => rep.placementID = cmd.placement.id).map timelessReport =
        (reps.map timelessReport).filter fun rep => rep.placementID = cmd.placement.id := by
    intro reps
    rw [List.filter_map]
    rfl
  rw [filterMap_reportAbout, filterMap_reportAbout, hcomm, hcomm, hreps]

theorem handleMsg_passes {parse : String → Except GoError Time} {nodeID : NodeID} {apply : Apply}
    (hx : Determined apply) {id : PlacementID} {msg : Msg} (h : isFor parse id msg = false) :
    (invokeHandler (handleMsg parse nodeID apply) msg).All (Passes id) := by
  refine invokeHandler_all ?_
  unfold handleMsg
  cases hcmd : Jsonv1.commandFromData parse msg.data with
  | error err => trivial
  | ok cmd =>
    refine (handle_about (hx.calls _)).mono fun c hc => hc.passes fun hid => ?_
    rw [isFor_iff.mpr ⟨cmd, hcmd, hid⟩] at h
    cases h

/-- The eight workers leave every record, and report every placement, as one worker does. -/
theorem sharded_refines_serial {A : Env → Prop} {parse : String → Except GoError Time}
    {nodeID : NodeID} {apply : Apply} {msgs : List Msg} {w w₁ w₂ : World}
    {ts : List (Go (List Settled))} {tr : List (Tagged ports)} {tr' : List GoEvent} {r : List Settled}
    (hx : Determined apply) (h : Pool world A (run parse nodeID apply msgs) w tr ts w₁)
    (hdone : AllDone ts) (hrel : ∀ x ∈ tr, Reliable x.2)
    (h' : Run world A (serve (handleMsg parse nodeID apply) msgs) w tr' r w₂)
    (hrel' : ∀ ev ∈ tr', Reliable ev) (id : PlacementID) :
    (w₁.store.get id).map timeless = (w₂.store.get id).map timeless ∧
      ((reports (tr.map Prod.snd)).filter fun rep => rep.placementID = id).map timelessReport =
        ((reports tr').filter fun rep => rep.placementID = id).map timelessReport := by
  rw [← filterMap_reportAbout, ← filterMap_reportAbout]
  rw [run_eq] at h
  exact shards_agree (f := record id) (R := Alike) (q := isFor parse id)
    (fun c e w hc => record_exec c e w hc.1) (fun ev hev => reportAbout_of_passes hev) rfl
    (shardOf_lt id) (fun msg _ hfor => shardIndex_of_isFor hfor)
    (fun msg _ hfor => handleMsg_passes hx hfor) (fun msg _ hfor => handleMsg_determines hx hfor)
    h hdone hrel h' hrel'

/-- A command message for an active placement. -/
def activate (id : PlacementID) (opVersion : ℕ) : Msg where
  data :=
    { placementID := .ok id
      dto := .ok { nodeID := "n", emittedAt := "t", eventID := "e", placementID := id,
                   opVersion := opVersion, desiredState := "active" }
      sameID := fun _ h => by cases h; rfl }
  seq := 0

/-- Two placements, one of them twice, in the wrong order. -/
def mixedMsgs : List Msg := [activate "p" 2, activate "q" 1, activate "p" 1]

/-- Their workers take turns. -/
def mixedRun : List (Tagged ports) × List (Go (List Settled)) × World :=
  schedule world (run (fun _ => .ok 0) "n" noopExecutor mixedMsgs)
    ((List.range 16).flatMap fun _ => [(shardOf "p", default), (shardOf "q", default)]) {}

/-- One worker. -/
def mixedSerial : List GoEvent × List Settled × World :=
  replay world (serve (handleMsg (fun _ => .ok 0) "n" noopExecutor) mixedMsgs) [] {}

theorem sharded_refines_serial_mixed :
    shardOf "p" ≠ shardOf "q" ∧
      (mixedRun.2.2.store.get "p").map timeless = (mixedSerial.2.2.store.get "p").map timeless ∧
      (reports (mixedRun.1.map Prod.snd)).length = 3 := by
  have hdet : Determined noopExecutor :=
    { calls := fun _ _ _ => trivial
      agree := fun _ h h' _ _ => by
        obtain ⟨rfl, hres⟩ := Prog.after_done_iff.mp h
        obtain ⟨rfl, hres'⟩ := Prog.after_done_iff.mp h'
        cases hres
        cases hres'
        exact ⟨rfl, rfl⟩ }
  have hpool : Pool world (Env.Allowed true) (run (fun _ => .ok 0) "n" noopExecutor mixedMsgs) {}
      mixedRun.1 mixedRun.2.1 mixedRun.2.2 :=
    pool_schedule _ (fun _ _ => Env.allowed_true _) _
  have hserial : Run world (Env.Allowed true) (serve (handleMsg (fun _ => .ok 0) "n" noopExecutor) mixedMsgs)
      {} mixedSerial.1 mixedSerial.2.1 mixedSerial.2.2 :=
    run_replay (Env.allowed_default _) [] (by simp) _
  refine ⟨by decide +kernel, ?_, by decide +kernel⟩
  exact (sharded_refines_serial hdet hpool (allDone_of_value? (by decide +kernel)) (by decide +kernel) hserial
    (by decide +kernel) "p").1

end NodeAgent.Applier
