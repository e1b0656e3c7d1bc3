import NodeAgent.Applier.Record

/-!
# Commands for one placement

`Handle` called for one command after the other, in any order and with repeats, over an executor that
succeeds and writes nothing: the record becomes the newest command.
-/

namespace NodeAgent.Applier

open Lib

/-- The call writes no record and publishes nothing. -/
def Idle (c : Call) : Prop := c.writesStore = false ∧ NotPublish c

theorem Idle.ownCall {c : Call} (h : Idle c) (d : Placement) : OwnCall d c := by
  cases c with
  | putPlacement p => cases h.1
  | deletePlacement id => cases h.1
  | publish m => exact absurd rfl (h.2 m)
  | _ => trivial

/-- How a command is reported that comes after the given ones. -/
def statusAfter (before : List Command) (cmd : Command) : ReportStatus :=
  if ∀ c ∈ before, c.placement.opVersion < cmd.placement.opVersion then .applied
  else if ∀ c ∈ before, c.placement.opVersion ≤ cmd.placement.opVersion then .skippedIdempotent
  else .skippedStale

/-- The record is that of the newest of the commands. -/
def Newest (cmds : List Command) (x : Option Placement) : Prop :=
  (cmds = [] ∧ x = none) ∨ ∃ c ∈ cmds, (∀ c' ∈ cmds, c'.placement.opVersion ≤ c.placement.opVersion) ∧
    ∃ t, x = some (c.placement.stamp .ok t)

/-- A version stands for one placement. -/
def OnePayload (cmds : List Command) : Prop :=
  ∀ c ∈ cmds, ∀ c' ∈ cmds, c.placement.opVersion = c'.placement.opVersion → c.placement = c'.placement

instance (cmds : List Command) : Decidable (OnePayload cmds) :=
  inferInstanceAs (Decidable (∀ c ∈ cmds, ∀ c' ∈ cmds, _ → _))

section Step

variable {nodeID : NodeID} {apply : Apply} {cmd : Command} {before : List Command}
  {x x' : Option Placement} {reps : List PlacementReport}

theorem Newest.append {c : Command} {t : Time} (hc : c ∈ before)
    (hmax : ∀ c' ∈ before, c'.placement.opVersion ≤ c.placement.opVersion)
    (hle : cmd.placement.opVersion ≤ c.placement.opVersion) :
    Newest (before ++ [cmd]) (some (c.placement.stamp .ok t)) := by
  refine .inr ⟨c, List.mem_append_left _ hc, ?_, t, rfl⟩
  exact List.forall_mem_append.mpr ⟨hmax, List.forall_mem_singleton.mpr hle⟩

theorem alreadyApplied_stamp {d e : Placement} (t : Time) (h : e = d) :
    alreadyApplied (e.stamp .ok t) d = true := by
  subst h
  simp [alreadyApplied]

/-- One more command. -/
theorem Newest.step (hok : ∀ d e found, (apply d e found).Ends fun r => r.2 = none)
    (hnode : cmd.val.nodeID = nodeID) (hone : OnePayload (before ++ [cmd])) (hx : Newest before x)
    (h : Handled nodeID apply cmd x reps x') :
    Newest (before ++ [cmd]) x' ∧
      ∃ t, reps = reportFor nodeID cmd .ok (statusAfter before cmd) "" t := by
  cases h with
  | other node => exact absurd hnode node
  | stale node e found newer t =>
    rcases hx with ⟨-, rfl⟩ | ⟨c, hc, hmax, t₀, rfl⟩
    · cases found
    · cases found
      have hlt : cmd.placement.opVersion < c.placement.opVersion := newer
      have hstatus : statusAfter before cmd = .skippedStale := by
        rw [statusAfter, if_neg fun hall => hlt.not_gt (hall c hc),
          if_neg fun hall => hlt.not_ge (hall c hc)]
      exact ⟨.append hc hmax hlt.le, t, by rw [hstatus]; rfl⟩
  | same node e found done t =>
    rcases hx with ⟨-, rfl⟩ | ⟨c, hc, hmax, t₀, rfl⟩
    · cases found
    · cases found
      have heq : c.placement.opVersion = cmd.placement.opVersion := (of_decide_eq_true done).1
      have hstatus : statusAfter before cmd = .skippedIdempotent := by
        rw [statusAfter, if_neg fun hall => (hall c hc).ne heq, if_pos]
        exact fun c' hc' => heq ▸ hmax c' hc'
      exact ⟨.append hc hmax heq.ge, t, by rw [hstatus]; rfl⟩
  | executed node run fin =>
    have hres := (hok _ _ _).of_after run.run
    cases fin with
    | retried err => cases hres
    | failed err t t' => cases hres
    | applied retryable t t' =>
      have hlt : ∀ c ∈ before, c.placement.opVersion < cmd.placement.opVersion := by
        rcases hx with ⟨rfl, -⟩ | ⟨c, hc, hmax, t₀, rfl⟩
        · simp
        · obtain ⟨hle, hnot⟩ := run.due _ rfl
          have hne : c.placement.opVersion ≠ cmd.placement.opVersion := by
            intro heq
            have hsame := hone c (List.mem_append_left _ hc) cmd (by simp) heq
            rw [alreadyApplied_stamp t₀ hsame] at hnot
            cases hnot
          exact fun c' hc' => (hmax c' hc').trans_lt (lt_of_le_of_ne hle hne)
      refine ⟨.inr ⟨cmd, by simp, ?_, t, rfl⟩, t', by rw [statusAfter, if_pos hlt]⟩
      exact List.forall_mem_append.mpr ⟨fun c hc => (hlt c hc).le, by simp⟩

end Step

section Session

variable {A : Env → Prop} {nodeID : NodeID} {apply : Apply} {p : PlacementID} {w w' : World}
  {ts : List (Turn ports World Command Err)}

/-- The commands of a session. -/
def commands (ts : List (Turn ports World Command Err)) : List Command := ts.map Turn.input

theorem newest_session (hidle : ∀ d e found, (apply d e found).All Idle)
    (hok : ∀ d e found, (apply d e found).Ends fun r => r.2 = none) {before : List Command}
    (h : Session world A (fun cmd => handleBy nodeID apply (.ok cmd)) w ts w')
    (hrel : ∀ t ∈ ts, ∀ ev ∈ t.trace, Reliable ev)
    (hcmds : ∀ t ∈ ts, t.input.val.nodeID = nodeID ∧ t.input.placement.id = p)
    (hone : OnePayload (before ++ commands ts)) (hw : Newest before (record p w)) :
    Newest (before ++ commands ts) (record p w') ∧
      (∀ id, id ≠ p → record id w' = record id w) ∧
      ∀ pre t post, ts = pre ++ t :: post → ∃ time, reports t.trace =
        reportFor nodeID t.input .ok (statusAfter (before ++ commands pre) t.input) "" time := by
  induction h generalizing before with
  | nil w =>
    refine ⟨by simpa [commands] using hw, fun _ _ => rfl, fun pre t post hsplit => ?_⟩
    simp at hsplit
  | @cons w w' t ts hb hrun hts ih =>
    obtain ⟨hnode, rfl⟩ := hcmds t List.mem_cons_self
    have hcalls : ∀ e found, (apply t.input.placement e found).All (OwnCall t.input.placement) :=
      fun e found => (hidle _ e found).mono fun c hc => hc.ownCall _
    have hstep := handle_record hcalls hrun.1 (hrel t List.mem_cons_self) hrun.2.sees
    have hcons : before ++ commands (t :: ts) = before ++ [t.input] ++ commands ts := by
      simp [commands]
    rw [hcons] at hone ⊢
    obtain ⟨hnew, time, hrep⟩ := hw.step hok hnode
      (fun c hc c' hc' => hone c (List.mem_append_left _ hc) c' (List.mem_append_left _ hc')) hstep
    obtain ⟨hfinal, hothers, hreps⟩ := ih (fun t' ht' => hrel t' (List.mem_cons_of_mem _ ht'))
      (fun t' ht' => hcmds t' (List.mem_cons_of_mem _ ht')) hone hnew
    refine ⟨hfinal, fun id hid => ?_, fun pre u post hsplit => ?_⟩
    · rw [hothers id hid]
      exact steps_record hrun.2 fun ev hev =>
        ((handle_about hcalls).of_mem hrun.1 ev hev).keeps (Ne.symm hid)
    · cases pre with
      | nil =>
        obtain ⟨rfl, -⟩ := List.cons_eq_cons.mp hsplit
        exact ⟨time, by rw [hrep]; simp [commands]⟩
      | cons v pre =>
        obtain ⟨rfl, hrest⟩ := List.cons_eq_cons.mp hsplit
        obtain ⟨time', hrep'⟩ := hreps pre u post hrest
        exact ⟨time', by rw [hrep']; simp [commands]⟩

/-- Commands for one placement, each version with one payload, leave the newest of them; each is reported
once, and no other record changes. -/
theorem handle_converges (hidle : ∀ d e found, (apply d e found).All Idle)
    (hok : ∀ d e found, (apply d e found).Ends fun r => r.2 = none)
    (h : Session world A (fun cmd => handleBy nodeID apply (.ok cmd)) w ts w') (hne : ts ≠ [])
    (hrel : ∀ t ∈ ts, ∀ ev ∈ t.trace, Reliable ev)
    (hcmds : ∀ t ∈ ts, t.input.val.nodeID = nodeID ∧ t.input.placement.id = p)
    (hone : OnePayload (commands ts)) (hw : w.store.get p = none) :
    (∃ c ∈ commands ts, (∀ c' ∈ commands ts, c'.placement.opVersion ≤ c.placement.opVersion) ∧
        ∃ time, w'.store.get p = some (c.placement.stamp .ok time)) ∧
      (∀ id, id ≠ p → w'.store.get id = w.store.get id) ∧
      ∀ pre t post, ts = pre ++ t :: post → ∃ time, reports t.trace =
        [{ placementID := p
           nodeID := nodeID
           opVersion := t.input.placement.opVersion
           appliedState := .ok
           status := statusAfter (commands pre) t.input
           err := ""
           appliedAt := time }] := by
  obtain ⟨hnew, hothers, hreps⟩ := newest_session hidle hok h hrel hcmds hone (.inl ⟨rfl, hw⟩)
  refine ⟨?_, hothers, fun pre t post hsplit => ?_⟩
  · rcases hnew with ⟨hnil, -⟩ | hnew
    · exact absurd (List.map_eq_nil_iff.mp hnil) hne
    · exact hnew
  · obtain ⟨time, hrep⟩ := hreps pre t post hsplit
    obtain ⟨-, rfl⟩ := hcmds t (by simp [hsplit])
    exact ⟨time, hrep⟩

end Session

/-- Serve the client through `b1`. -/
def older : Command := .carrying
  { id := "p", nodeID := "n", clientID := "k", backendNodeID := "b1", desired := .active, opVersion := 1 }

/-- And then through `b2`. -/
def newer : Command := .carrying
  { id := "p", nodeID := "n", clientID := "k", backendNodeID := "b2", desired := .active, opVersion := 2 }

/-- The newer of two commands comes first, and comes again. -/
def outOfOrder : List (Turn ports World Command Err) × World :=
  replaySession world (fun cmd => handleBy "n" noopExecutor (.ok cmd))
    [(newer, []), (older, []), (newer, [])] {}

theorem handle_converges_out_of_order :
    (∃ c ∈ commands outOfOrder.1, (∀ c' ∈ commands outOfOrder.1,
        c'.placement.opVersion ≤ c.placement.opVersion) ∧
        ∃ time, outOfOrder.2.store.get "p" = some (c.placement.stamp .ok time)) ∧
      (outOfOrder.1.flatMap fun t => (reports t.trace).map PlacementReport.status) =
        [.applied, .skippedStale, .skippedIdempotent] := by
  have hrun : Session world (Env.Allowed true) (fun cmd => handleBy "n" noopExecutor (.ok cmd)) {}
      outOfOrder.1 outOfOrder.2 :=
    session_replay (Env.allowed_default _) _ (by simp) _
  have hidle : ∀ d e found, (noopExecutor d e found).All Idle := fun _ _ _ => trivial
  have hok : ∀ d e found, (noopExecutor d e found).Ends fun r => r.2 = none := fun _ _ _ => rfl
  exact ⟨(handle_converges hidle hok hrun (by decide) (by decide) (by decide) (by decide) rfl).1,
    by decide⟩

end NodeAgent.Applier
