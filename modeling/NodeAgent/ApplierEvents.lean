import NodeAgent.ApplierSpec

/-!
# The calls of `Handle`, whoever runs next to it

Facts about single branches of `Handle`, for any executor: they hold whatever the other goroutines do
to the store between its calls.
-/

namespace NodeAgent.Applier

open Lib

variable {nodeID : NodeID} {x : Executor} {cmd : Command} {tr : List GoEvent}

/-- `publishReport` publishes no other status than the one it is given. -/
theorem publishReport_status {state : AppliedState} {status : ReportStatus} {errStr : String}
    {q : Go Err} (h : (publishReport nodeID cmd state status errStr).After tr q) :
    ∀ rep ∈ reports tr, rep.status = status := by
  have hall : (publishReport nodeID cmd state status errStr).All fun c : Call =>
      ∀ id rep, c = .publish (.applyResult id rep) → rep.status = status := by
    refine Prog.all_invoke_bind.mpr ⟨fun _ _ h => (by cases h), fun t => ?_⟩
    refine Prog.all_invoke_bind.mpr ⟨fun _ _ h => (by cases h), fun id => ?_⟩
    split
    · trivial
    · rename_i data hm
      refine Prog.all_invoke_bind.mpr ⟨fun id' rep hc => ?_, fun r => by cases r <;> trivial⟩
      rw [marshalApplyResultEvent_ok hm] at hc
      cases hc
      rfl
  intro rep hrep
  obtain ⟨ev, hev, hsome⟩ := List.mem_filterMap.mp hrep
  unfold reportOf at hsome
  split at hsome
  · rename_i id rep' hc
    cases hsome
    exact hall.of_mem h ev hev id rep hc
  · cases hsome

/-- A branch of `Handle` on a command: it ends before the executor, or goes through it. -/
theorem handle_cases {q : Go Err} (h : (handle nodeID x (.ok cmd)).After tr q) :
    ((∀ ev ∈ tr, ev.call = .getPlacement cmd.placement.id ∨ ReportCall ev.call) ∧
        ∀ rep ∈ reports tr, rep.status ≠ .error ∧ rep.status ≠ .applied) ∨
      ∃ found tr', tr = ⟨.count .receivedTotal 1, ()⟩ ::
          ⟨.getPlacement cmd.placement.id, .ok found⟩ :: tr' ∧
        (∀ e, found = some e → e.opVersion ≤ cmd.placement.opVersion) ∧
        (x.apply cmd.placement (found.getD {}) found.isSome >>= finish nodeID cmd).After tr' q := by
  unfold handle handleBy handleOwn at h
  dsimp only at h
  split_ifs at h with hnode
  · obtain ⟨rfl, -⟩ := Prog.after_done_iff.mp h
    exact .inl ⟨by simp, by simp [reports]⟩
  rcases Prog.after_invoke_iff.mp h with ⟨rfl, -⟩ | ⟨⟨⟩, tr₁, rfl, h₁⟩
  · exact .inl ⟨by simp, by simp [reports]⟩
  rcases Prog.after_invoke_iff.mp h₁ with ⟨rfl, -⟩ | ⟨r, tr₂, rfl, h₂⟩
  · exact .inl ⟨by simp [ReportCall], by simp [reports, reportOf]⟩
  -- a branch that only reports a skip
  have hskip : ∀ {state : AppliedState} {status : ReportStatus},
      (publishReport nodeID cmd state status "").After tr₂ q →
      status ≠ .error ∧ status ≠ .applied → ((∀ ev ∈ ⟨.count .receivedTotal 1, ()⟩ ::
        (⟨.getPlacement cmd.placement.id, r⟩ : GoEvent) :: tr₂,
          ev.call = .getPlacement cmd.placement.id ∨ ReportCall ev.call) ∧
        ∀ rep ∈ reports (⟨.count .receivedTotal 1, ()⟩ ::
          ⟨.getPlacement cmd.placement.id, r⟩ :: tr₂), rep.status ≠ .error ∧ rep.status ≠ .applied) := by
    intro state status hpub hne
    constructor
    · intro ev hev
      rcases List.mem_cons.mp hev with rfl | hev
      · exact .inr trivial
      · rcases List.mem_cons.mp hev with rfl | hev
        · exact .inl rfl
        · exact .inr ((publishReport_reportCalls state status "").of_mem hpub ev hev)
    · intro rep hrep
      have hmem : rep ∈ reports tr₂ := by simpa [reports, reportOf] using hrep
      rw [publishReport_status hpub rep hmem]
      exact hne
  cases r with
  | error err =>
    obtain ⟨rfl, -⟩ := Prog.after_done_iff.mp h₂
    exact .inl ⟨by simp [ReportCall], by simp [reports, reportOf]⟩
  | ok found =>
    dsimp only at h₂
    split_ifs at h₂ with hstale hsame
    · exact .inl (hskip h₂ ⟨by decide, by decide⟩)
    · exact .inl (hskip h₂ ⟨by decide, by decide⟩)
    · refine .inr ⟨found, tr₂, rfl, fun e he => ?_, h₂⟩
      subst he
      exact not_lt.mp fun hlt => hstale ⟨rfl, hlt⟩

theorem reports_executor {e : Placement} {found : Bool} {q : Go (Bool × Err)} {d : Placement}
    (h : (x.apply d e found).After tr q) : reports tr = [] :=
  reports_eq_nil ((x.calls d e found).mono fun _ hc => hc.notPublish) h

/-- What is recorded once the executor has failed for good, and nothing else reports an error. -/
theorem finish_failed {r : Err} {res : Bool × Err} {rep : PlacementReport}
    (h : (finish nodeID cmd res).After tr (.done r)) (hrep : rep ∈ reports tr)
    (hst : rep.status = .error) :
    ∃ t saved tr₂, tr = ⟨.now, t⟩ :: ⟨.putPlacement (cmd.placement.stamp .error t), saved⟩ :: tr₂ ∧
      ∀ ev ∈ tr₂, ReportCall ev.call := by
  obtain ⟨retryable, _ | err⟩ := res
  · -- success is reported as such
    obtain ⟨t, tr₁, rfl, h₁⟩ := Prog.after_invoke_done_iff.mp h
    obtain ⟨saved, tr₂, rfl, h₂⟩ := Prog.after_invoke_done_iff.mp h₁
    cases saved with
    | some err =>
      obtain ⟨rfl, -⟩ := Prog.after_done_iff.mp h₂
      simp [reports, reportOf] at hrep
    | none =>
      obtain ⟨u, tr₃, rfl, h₃⟩ := Prog.after_invoke_done_iff.mp h₂
      have hmem : rep ∈ reports tr₃ := by simpa [reports, reportOf] using hrep
      rw [publishReport_status h₃ rep hmem] at hst
      cases hst
  · cases retryable with
    | true =>
      obtain ⟨rfl, -⟩ := Prog.after_done_iff.mp h
      simp [reports] at hrep
    | false =>
      obtain ⟨t, tr₁, rfl, h₁⟩ := Prog.after_invoke_done_iff.mp h
      obtain ⟨saved, tr₂, rfl, h₂⟩ := Prog.after_invoke_done_iff.mp h₁
      obtain ⟨u, tr₃, rfl, h₃⟩ := Prog.after_invoke_done_iff.mp h₂
      refine ⟨t, saved, _, rfl, fun ev hev => ?_⟩
      rcases List.mem_cons.mp hev with rfl | hev
      · trivial
      · exact (publishReport_reportCalls _ _ _).of_mem h₃ ev hev

/-- A `Handle` that reports an error has tried to store the error record, after the calls of its
executor; after that it only reports. -/
theorem handle_failed {r : Err} {P : Call → Prop} {rep : PlacementReport}
    (h : (handle nodeID x (.ok cmd)).After tr (.done r)) (hrep : rep ∈ reports tr)
    (hst : rep.status = .error) (hx : ∀ e found, (x.apply cmd.placement e found).All P)
    (hcount : P (.count .receivedTotal 1)) (hget : P (.getPlacement cmd.placement.id))
    (hnow : P .now) :
    ∃ tr₁ t saved tr₂,
      tr = tr₁ ++ ⟨.putPlacement (cmd.placement.stamp .error t), saved⟩ :: tr₂ ∧
      (∀ ev ∈ tr₁, P ev.call) ∧ ∀ ev ∈ tr₂, ReportCall ev.call := by
  rcases handle_cases h with ⟨-, hno⟩ | ⟨found, tr', rfl, -, hexec⟩
  · exact absurd hst (hno rep hrep).1
  · obtain ⟨res, trx, trf, rfl, hx', hf⟩ := Prog.after_bind_done_iff.mp hexec
    have hmem : rep ∈ reports trf := by
      have hrep' : rep ∈ reports (trx ++ trf) := hrep
      rw [reports_append, reports_executor hx'] at hrep'
      exact hrep'
    obtain ⟨t, saved, tr₂, rfl, hreport⟩ := finish_failed hf hmem hst
    refine ⟨⟨.count .receivedTotal 1, ()⟩ :: ⟨.getPlacement cmd.placement.id, .ok found⟩ ::
      (trx ++ [⟨.now, t⟩]), t, saved, tr₂, by simp, fun ev hev => ?_, hreport⟩
    rcases List.mem_cons.mp hev with rfl | hev
    · exact hcount
    · rcases List.mem_cons.mp hev with rfl | hev
      · exact hget
      · rcases List.mem_append.mp hev with hev | hev
        · exact (hx _ _).of_mem hx' ev hev
        · rw [List.mem_singleton.mp hev]
          exact hnow

/-- A `Handle` that reports a success has stored the record. -/
theorem handle_applied {q : Go Err} {rep : PlacementReport}
    (h : (handle nodeID x (.ok cmd)).After tr q) (hrep : rep ∈ reports tr)
    (hst : rep.status = .applied) :
    ∃ t, (⟨.putPlacement (cmd.placement.stamp .ok t), none⟩ : GoEvent) ∈ tr := by
  rcases handle_cases h with ⟨-, hno⟩ | ⟨found, tr', rfl, -, hexec⟩
  · exact absurd hst (hno rep hrep).2
  have hrep' : rep ∈ reports tr' := hrep
  rcases Prog.after_bind_iff.mp hexec with ⟨q', hx, -⟩ | ⟨⟨retryable, res⟩, trx, trf, rfl, hx, hf⟩
  · rw [reports_executor hx] at hrep'
    cases hrep'
  rw [reports_append, reports_executor hx, List.nil_append] at hrep'
  cases res with
  | some err =>
    -- a failure is not reported as a success
    cases retryable with
    | true =>
      obtain ⟨rfl, -⟩ := Prog.after_done_iff.mp hf
      cases hrep'
    | false =>
      rcases Prog.after_invoke_iff.mp hf with ⟨rfl, -⟩ | ⟨t, tr₁, rfl, h₁⟩
      · cases hrep'
      rcases Prog.after_invoke_iff.mp h₁ with ⟨rfl, -⟩ | ⟨saved, tr₂, rfl, h₂⟩
      · cases hrep'
      rcases Prog.after_invoke_iff.mp h₂ with ⟨rfl, -⟩ | ⟨u, tr₃, rfl, h₃⟩
      · cases hrep'
      have hmem : rep ∈ reports tr₃ := hrep'
      rw [publishReport_status h₃ rep hmem] at hst
      cases hst
  | none =>
    rcases Prog.after_invoke_iff.mp hf with ⟨rfl, -⟩ | ⟨t, tr₁, rfl, h₁⟩
    · cases hrep'
    rcases Prog.after_invoke_iff.mp h₁ with ⟨rfl, -⟩ | ⟨saved, tr₂, rfl, h₂⟩
    · cases hrep'
    cases saved with
    | some err =>
      obtain ⟨rfl, -⟩ := Prog.after_done_iff.mp h₂
      cases hrep'
    | none => exact ⟨t, by simp⟩

/-! ## What it writes -/

/-- The call stores the placement, or hands it to the coalescer to store. -/
def Writes (p : Placement) (c : Call) : Prop := c = .putPlacement p ∨ c = .submit (some p)

theorem executed_writes (e : Placement) (found : Bool) :
    (x.apply cmd.placement e found >>= finish nodeID cmd).All fun c : Call =>
      ∀ p, Writes p c → ∃ s t, p = cmd.placement.stamp s t := by
  refine ((x.calls cmd.placement e found).mono fun c hc p hp => ?_).bind fun res =>
    (finish_calls nodeID cmd res).mono fun c hc p hp => ?_
  · rcases hp with rfl | rfl
    · exact ⟨.ok, hc⟩
    · exact ⟨.ok, hc p rfl⟩
  · rcases hp with rfl | rfl
    · exact hc
    · exact absurd hc id

/-- It writes no other placement than that of the command. -/
theorem handle_writes_own {q : Go Err} {ev : GoEvent} {p : Placement}
    (h : (handle nodeID x (.ok cmd)).After tr q) (hev : ev ∈ tr) (hp : Writes p ev.call) :
    ∃ s t, p = cmd.placement.stamp s t := by
  rcases handle_cases h with ⟨hcalls, -⟩ | ⟨found, tr', rfl, -, hexec⟩
  · have hcall := hcalls ev hev
    rcases hp with hc | hc <;> rw [hc] at hcall <;> rcases hcall with hcall | hcall
    · cases hcall
    · exact absurd hcall id
    · cases hcall
    · exact absurd hcall id
  · rcases List.mem_cons.mp hev with rfl | hev
    · rcases hp with hc | hc <;> cases hc
    · rcases List.mem_cons.mp hev with rfl | hev
      · rcases hp with hc | hc <;> cases hc
      · exact (executed_writes _ _).of_mem hexec ev hev p hp

/-- Before it writes, `Handle` has read the placement and found no later version. -/
theorem handle_writes {msg : Except GoError Command} {q : Go Err} {ev : GoEvent} {p : Placement}
    (h : (handle nodeID x msg).After (tr ++ [ev]) q) (hp : Writes p ev.call) :
    ∃ found, (⟨.getPlacement p.id, .ok found⟩ : GoEvent) ∈ tr ∧
      ∀ e, found = some e → e.opVersion ≤ p.opVersion := by
  cases msg with
  | error err =>
    obtain ⟨hnil, -⟩ := Prog.after_done_iff.mp h
    simp at hnil
  | ok cmd =>
    rcases handle_cases h with ⟨hcalls, -⟩ | ⟨found, tr', heq, hver, hexec⟩
    · have hev := hcalls ev (by simp)
      rcases hp with hc | hc <;> rw [hc] at hev <;> rcases hev with hev | hev
      · cases hev
      · exact absurd hev id
      · cases hev
      · exact absurd hev id
    · -- the write is neither of the first two events
      have hmem : ev ∈ (⟨.count .receivedTotal 1, ()⟩ ::
          ⟨.getPlacement cmd.placement.id, .ok found⟩ :: tr' : List GoEvent) := by
        rw [← heq]
        simp
      have hne : ∀ r, ev ≠ ⟨.getPlacement cmd.placement.id, r⟩ := by
        rintro r rfl
        rcases hp with hc | hc <;> cases hc
      have hev : ev ∈ tr' := by
        rcases List.mem_cons.mp hmem with rfl | hmem
        · rcases hp with hc | hc <;> cases hc
        · exact (List.mem_cons.mp hmem).resolve_left (hne _)
      obtain ⟨state, t, rfl⟩ := (executed_writes _ _).of_mem hexec ev hev p hp
      have hget : (⟨.getPlacement cmd.placement.id, .ok found⟩ : GoEvent) ∈ tr ++ [ev] := by
        rw [heq]
        simp
      refine ⟨found, ?_, hver⟩
      rcases List.mem_append.mp hget with hget | hget
      · exact hget
      · exact absurd (List.mem_singleton.mp hget).symm (hne _)

end NodeAgent.Applier
