import NodeAgent.ApplierEvents
import NodeAgent.Records

/-!
# What `Handle` makes of a record

A command seen from its own placement: the record before and after, and the reports. The calls of the store
and of the bus succeed; the executor is any one that writes no other record and reports nothing itself.
-/

namespace NodeAgent.Applier

open Lib

/-! ## Calls -/

/-- The calls of an executor that writes at most the record of `d`. -/
def OwnCall (d : Placement) : Call → Prop
  | .putPlacement p => p.id = d.id
  | .deletePlacement id => id = d.id
  | .publish _ => False
  | _ => True

/-- A call of the store or of the bus succeeds, and a new id is not empty. -/
def Reliable : GoEvent → Prop
  | ⟨.getPlacement _, r⟩ => ∃ found, r = .ok found
  | ⟨.listPlacements, r⟩ => ∃ all, r = .ok all
  | ⟨.putPlacement _, r⟩ => r = none
  | ⟨.deletePlacement _, r⟩ => r = none
  | ⟨.publish _, r⟩ => r = none
  | ⟨.newID, r⟩ => r ≠ ""
  | _ => True

/-- Whether a call has returned a value. -/
instance {α : Type} (r : Except GoError α) : Decidable (∃ a, r = .ok a) :=
  match r with
  | .ok a => isTrue ⟨a, rfl⟩
  | .error _ => isFalse nofun

instance (ev : GoEvent) : Decidable (Reliable ev) := by
  unfold Reliable
  split <;> infer_instance

/-! ## Reports -/

/-- The report of an outcome; the encoder rejects the unset state. -/
def reportFor (nodeID : NodeID) (cmd : Command) (state : AppliedState) (status : ReportStatus)
    (errStr : String) (t : Time) : List PlacementReport :=
  if state.valid then
    [{ placementID := cmd.placement.id, nodeID := nodeID, opVersion := cmd.placement.opVersion,
       appliedState := state, status := status, err := errStr, appliedAt := t }]
  else []

section Report

variable {nodeID : NodeID} {cmd : Command} {state : AppliedState} {status : ReportStatus}
  {errStr : String} {tr : List GoEvent} {r : Err}

theorem ReportCall.keeps {c : Call} (h : ReportCall c) (id : PlacementID) : Keeps id c := by
  cases c <;> trivial

theorem publishReport_written (id : PlacementID)
    (h : (publishReport nodeID cmd state status errStr).After tr (.done r)) : written id tr = none :=
  written_eq_none fun ev hev =>
    ((publishReport_reportCalls state status errStr).of_mem h ev hev).keeps id

theorem publishReport_reports (hnode : cmd.val.nodeID = nodeID) (hrel : ∀ ev ∈ tr, Reliable ev)
    (h : (publishReport nodeID cmd state status errStr).After tr (.done r)) :
    ∃ t, reports tr = reportFor nodeID cmd state status errStr t := by
  obtain ⟨t, tr₁, rfl, h₁⟩ := Prog.after_invoke_done_iff.mp h
  obtain ⟨id, tr₂, rfl, h₂⟩ := Prog.after_invoke_done_iff.mp h₁
  have hid : id ≠ "" := hrel ⟨.newID, id⟩ (by simp)
  have hne : nodeID ≠ "" := hnode ▸ cmd.property.2.2.1
  have hop : cmd.placement.opVersion ≠ 0 := Nat.one_le_iff_ne_zero.mp cmd.one_le_opVersion
  refine ⟨t, ?_⟩
  unfold reportFor
  unfold Jsonv1.marshalApplyResultEvent at h₂
  rw [if_neg hid, if_neg (not_or.mpr ⟨cmd.id_ne, hne⟩), if_neg hop] at h₂
  cases hvalid : state.valid with
  | false =>
    rw [if_pos hvalid] at h₂
    obtain ⟨rfl, -⟩ := Prog.after_done_iff.mp h₂
    rfl
  | true =>
    rw [if_neg (by simp [hvalid])] at h₂
    obtain ⟨res, tr₃, rfl, h₃⟩ := Prog.after_invoke_done_iff.mp h₂
    obtain rfl : tr₃ = [] := by
      cases res <;> exact (Prog.after_done_iff.mp h₃).1
    rfl

end Report

/-! ## One command -/

/-- The executor has run to its end, every call of the store and of the bus succeeding. -/
structure Executed (apply : Apply) (d : Placement) (x : Option Placement) (trx : List GoEvent)
    (res : Bool × Err) : Prop where
  due : ∀ e, x = some e → e.opVersion ≤ d.opVersion ∧ alreadyApplied e d = false
  run : (apply d (x.getD {}) x.isSome).After trx (.done res)
  reliable : ∀ ev ∈ trx, Reliable ev

/-- What `Handle` makes of the executor's result, where the executor has left the record `x`. -/
inductive Finished (nodeID : NodeID) (cmd : Command) (x : Option Placement) :
    Bool × Err → List PlacementReport → Option Placement → Prop
  | retried (err : GoError) : Finished nodeID cmd x (true, some err) [] x
  | failed (err : GoError) (t t' : Time) : Finished nodeID cmd x (false, some err)
      (reportFor nodeID cmd .error .error err.message t') (some (cmd.placement.stamp .error t))
  | applied (retryable : Bool) (t t' : Time) : Finished nodeID cmd x (retryable, none)
      (reportFor nodeID cmd .ok .applied "" t') (some (cmd.placement.stamp .ok t))

/-- What `Handle` can do with a command whose record is `x`: its reports, and the record it leaves. -/
inductive Handled (nodeID : NodeID) (apply : Apply) (cmd : Command) (x : Option Placement) :
    List PlacementReport → Option Placement → Prop
  | other (node : cmd.val.nodeID ≠ nodeID) : Handled nodeID apply cmd x [] x
  | stale (node : cmd.val.nodeID = nodeID) (e : Placement) (found : x = some e)
      (newer : cmd.placement.opVersion < e.opVersion) (t : Time) :
      Handled nodeID apply cmd x (reportFor nodeID cmd e.applied .skippedStale "" t) x
  | same (node : cmd.val.nodeID = nodeID) (e : Placement) (found : x = some e)
      (done : alreadyApplied e cmd.placement = true) (t : Time) :
      Handled nodeID apply cmd x (reportFor nodeID cmd e.applied .skippedIdempotent "" t) x
  | executed (node : cmd.val.nodeID = nodeID) {trx : List GoEvent} {res : Bool × Err}
      {reps : List PlacementReport} {x' : Option Placement}
      (run : Executed apply cmd.placement x trx res)
      (fin : Finished nodeID cmd ((written cmd.placement.id trx).getD x) res reps x') :
      Handled nodeID apply cmd x reps x'

section Handle

variable {A : Env → Prop} {nodeID : NodeID} {apply : Apply} {cmd : Command}
  {x x' : Option Placement} {tr : List GoEvent} {r : Err}

theorem record_written {tr : List GoEvent} {a : AppliedState} {t : Time} {c : Counter} {n : ℕ}
    (h : written cmd.placement.id tr = none) :
    written cmd.placement.id (⟨.now, t⟩ :: ⟨.putPlacement (cmd.placement.stamp a t), none⟩ ::
      ⟨.count c n, ()⟩ :: tr) = some (some (cmd.placement.stamp a t)) := by
  rw [written_cons_of_none rfl]
  refine written_cons_of_some (if_pos rfl) ?_
  rw [written_cons_of_none rfl, h]

/-- Both ends of a command put the record and, if that succeeds, report it. -/
theorem record_done {a : AppliedState} {status : ReportStatus} {errStr : String} {c : Counter}
    {n : ℕ} {k : Time → Err → Go Err} (hnode : cmd.val.nodeID = nodeID) (hrel : ∀ ev ∈ tr, Reliable ev)
    (h : (port .now >>= fun t => port (.putPlacement (cmd.placement.stamp a t)) >>= k t).After tr
      (.done r))
    (hk : ∀ t, k t none =
      (port (.count c n) >>= fun _ => publishReport nodeID cmd a status errStr)) :
    ∃ t t', reports tr = reportFor nodeID cmd a status errStr t' ∧
      written cmd.placement.id tr = some (some (cmd.placement.stamp a t)) := by
  obtain ⟨t, tr₁, rfl, h₁⟩ := Prog.after_invoke_done_iff.mp h
  obtain ⟨saved, tr₂, rfl, h₂⟩ := Prog.after_invoke_done_iff.mp h₁
  obtain rfl : saved = none := hrel ⟨.putPlacement _, saved⟩ (by simp)
  rw [hk] at h₂
  obtain ⟨_, tr₃, rfl, h₃⟩ := Prog.after_invoke_done_iff.mp h₂
  obtain ⟨t', hrep⟩ := publishReport_reports hnode (fun ev hev => hrel ev (by simp [hev])) h₃
  exact ⟨t, t', hrep, record_written (publishReport_written _ h₃)⟩

/-- The end of a command after its executor has returned. -/
theorem finish_record {res : Bool × Err} (hnode : cmd.val.nodeID = nodeID)
    (hrel : ∀ ev ∈ tr, Reliable ev) (h : (finish nodeID cmd res).After tr (.done r)) :
    Finished nodeID cmd x res (reports tr) ((written cmd.placement.id tr).getD x) := by
  obtain ⟨retryable, _ | err⟩ := res
  · change (recordSuccess nodeID cmd).After tr (.done r) at h
    unfold recordSuccess at h
    obtain ⟨t, t', hrep, hput⟩ := record_done hnode hrel h fun _ => rfl
    rw [hrep, hput]
    exact .applied retryable t t'
  · cases retryable with
    | true =>
      obtain ⟨rfl, -⟩ := Prog.after_done_iff.mp h
      exact .retried err
    | false =>
      change (recordFailure nodeID cmd err).After tr (.done r) at h
      unfold recordFailure at h
      obtain ⟨t, t', hrep, hput⟩ := record_done hnode hrel h fun _ => rfl
      rw [hrep, hput]
      exact .failed err t t'

/-- A call that writes no other record and reports no other placement. -/
def About (id : PlacementID) : Call → Prop
  | .putPlacement p => p.id = id
  | .deletePlacement x => x = id
  | .publish m => ∃ eventID rep, m = .applyResult eventID rep ∧ rep.placementID = id
  | _ => True

theorem OwnCall.about {d : Placement} {c : Call} (h : OwnCall d c) : About d.id c := by
  cases c with
  | putPlacement p => exact h
  | deletePlacement id => exact h
  | publish m => exact h.elim
  | _ => trivial

theorem About.keeps {id id' : PlacementID} {c : Call} (h : About id c) (hne : id ≠ id') :
    Keeps id' c := by
  cases c with
  | putPlacement p => exact h.trans_ne hne
  | deletePlacement x => exact h.trans_ne hne
  | _ => trivial

theorem publishReport_about (state : AppliedState) (status : ReportStatus) (errStr : String) :
    (publishReport nodeID cmd state status errStr).All (About cmd.placement.id) := by
  refine Prog.all_invoke_bind.mpr ⟨trivial, fun t => ?_⟩
  refine Prog.all_invoke_bind.mpr ⟨trivial, fun id => ?_⟩
  split
  · trivial
  · rename_i data hm
    refine Prog.all_invoke_bind.mpr ⟨⟨_, _, marshalApplyResultEvent_ok hm, rfl⟩, fun r => ?_⟩
    cases r <;> trivial

theorem finish_about (res : Bool × Err) : (finish nodeID cmd res).All (About cmd.placement.id) := by
  obtain ⟨retryable, _ | err⟩ := res
  · refine Prog.all_invoke_bind.mpr ⟨trivial, fun t => ?_⟩
    refine Prog.all_invoke_bind.mpr ⟨rfl, fun saved => ?_⟩
    cases saved with
    | some err => trivial
    | none => exact Prog.all_invoke_bind.mpr ⟨trivial, fun _ => publishReport_about _ _ _⟩
  · cases retryable with
    | true => trivial
    | false =>
      refine Prog.all_invoke_bind.mpr ⟨trivial, fun t => ?_⟩
      refine Prog.all_invoke_bind.mpr ⟨rfl, fun _ => ?_⟩
      exact Prog.all_invoke_bind.mpr ⟨trivial, fun _ => publishReport_about _ _ _⟩

theorem handle_about (hcalls : ∀ e found, (apply cmd.placement e found).All (OwnCall cmd.placement)) :
    (handleBy nodeID apply (.ok cmd)).All (About cmd.placement.id) := by
  unfold handleBy
  dsimp only
  split_ifs
  · trivial
  refine Prog.all_invoke_bind.mpr ⟨trivial, fun _ => ?_⟩
  refine Prog.all_invoke_bind.mpr ⟨trivial, fun stored => ?_⟩
  cases stored with
  | error err => trivial
  | ok found =>
    dsimp only
    split_ifs
    · exact publishReport_about _ _ _
    · exact publishReport_about _ _ _
    · exact ((hcalls _ _).mono fun _ hc => hc.about).bind finish_about

/-- A finished `Handle`, seen from its record. -/
theorem handle_record (hcalls : ∀ e found, (apply cmd.placement e found).All (OwnCall cmd.placement))
    (h : (handleBy nodeID apply (.ok cmd)).After tr (.done r)) (hrel : ∀ ev ∈ tr, Reliable ev)
    (hs : Sees world A (record cmd.placement.id) x tr x') :
    Handled nodeID apply cmd x (reports tr) x' := by
  unfold handleBy at h
  dsimp only at h
  split_ifs at h with hnode
  · obtain ⟨rfl, -⟩ := Prog.after_done_iff.mp h
    rw [show x' = x from hs]
    exact .other hnode
  rw [ne_eq, not_not] at hnode
  have hx' := sees_written hs
  obtain ⟨_, tr₁, rfl, h₁⟩ := Prog.after_invoke_done_iff.mp h
  obtain ⟨stored, tr₂, rfl, h₂⟩ := Prog.after_invoke_done_iff.mp h₁
  have hrel₂ : ∀ ev ∈ tr₂, Reliable ev := fun ev hev => hrel ev (by simp [hev])
  -- it has read the record
  obtain ⟨found, rfl⟩ : ∃ found, stored = .ok found := hrel ⟨.getPlacement _, stored⟩ (by simp)
  obtain ⟨e₁, w₁, -, rfl, -, e₂, w₂, -, hw₂, hr₂, -⟩ := hs
  have hfound : found = record cmd.placement.id w₁ := (exec_getPlacement hr₂).trans hw₂
  rw [written_cons_of_none rfl, written_cons_of_none rfl] at hx'
  rw [show reports (_ :: _ :: tr₂) = reports tr₂ from rfl]
  generalize record cmd.placement.id w₁ = x at hfound hx'
  subst hfound
  dsimp only at h₂
  split_ifs at h₂ with hstale hsame
  · obtain ⟨e, rfl⟩ := Option.isSome_iff_exists.mp hstale.1
    obtain ⟨t, hrep⟩ := publishReport_reports hnode hrel₂ h₂
    rw [publishReport_written _ h₂] at hx'
    rw [hx', hrep]
    exact .stale hnode e rfl hstale.2 t
  · obtain ⟨e, rfl⟩ := Option.isSome_iff_exists.mp hsame.1
    obtain ⟨t, hrep⟩ := publishReport_reports hnode hrel₂ h₂
    rw [publishReport_written _ h₂] at hx'
    rw [hx', hrep]
    exact .same hnode e rfl hsame.2 t
  · obtain ⟨res, trx, trf, rfl, hx, hf⟩ := Prog.after_bind_done_iff.mp h₂
    have hdue : ∀ e, found = some e →
        e.opVersion ≤ cmd.placement.opVersion ∧ alreadyApplied e cmd.placement = false := by
      rintro e rfl
      refine ⟨not_lt.mp fun hlt => hstale ⟨rfl, hlt⟩, ?_⟩
      rw [← Bool.not_eq_true]
      exact fun hsame' => hsame ⟨rfl, hsame'⟩
    have hquiet : reports trx = [] := by
      refine reports_eq_nil ((hcalls _ _).mono fun c hc m hm => ?_) hx
      rw [hm] at hc
      exact hc
    rw [hx', written_append, Option.getD_or, reports_append, hquiet, List.nil_append]
    exact .executed hnode ⟨hdue, hx, fun ev hev => hrel₂ ev (List.mem_append_left _ hev)⟩
      (finish_record hnode (fun ev hev => hrel₂ ev (List.mem_append_right _ hev)) hf)

end Handle

end NodeAgent.Applier
