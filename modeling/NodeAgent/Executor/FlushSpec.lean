import NodeAgent.Executor.Coalescer
import NodeAgent.Records

/-!
# What a flush does

The branches of `flushBatch`: it fails before it touches sing-box, it fails there, or it goes on to store the
overlays, after a reload or without one.
-/

namespace NodeAgent.RenderCoalescer

open Lib Singboxgen

variable {a : EntryActions} {overlays : Store} {last : Option Digest} {tr : List GoEvent}

/-! ## The overlays are stored -/

/-- The last part of a flush. -/
def persistAll (overlays : Store) : Go Err := do
  let order ← port (.rangeOrder overlays.recs.keys)
  persistOverlays overlays order.val

theorem mem_of_perm_keys {order : List PlacementID} {id : PlacementID} {p : Placement}
    (h : order.Perm overlays.recs.keys) (hp : overlays.get id = some p) : id ∈ order := by
  rw [h.mem_iff, Std.ExtTreeMap.mem_keys, Std.ExtTreeMap.mem_iff_isSome_getElem?]
  exact Option.isSome_of_mem hp

theorem persistOverlays_written {ids : List PlacementID} (id : PlacementID)
    (h : (persistOverlays overlays ids).After tr (.done none)) :
    written id tr = if id ∈ ids then (overlays.get id).map some else none := by
  induction ids generalizing tr with
  | nil =>
    obtain ⟨rfl, -⟩ := Prog.after_done_iff.mp h
    rfl
  | cons x ids ih =>
    unfold persistOverlays at h
    cases hget : overlays.get x with
    | none =>
      rw [hget] at h
      rw [ih h]
      by_cases hx : id = x
      · subst hx
        simp [hget]
      · simp [hx]
    | some p =>
      rw [hget] at h
      obtain ⟨r, tr', rfl, h'⟩ := Prog.after_invoke_done_iff.mp h
      cases r with
      | some err => cases (Prog.after_done_iff.mp h').2
      | none =>
        have hp : p.id = x := Store.id_of_get hget
        rw [written_cons, ih h']
        by_cases hx : x = id
        · subst hx
          rw [show wrote x ⟨.putPlacement p, none⟩ = some (some p) from if_pos hp, hget,
            if_pos List.mem_cons_self]
          by_cases hmem : x ∈ ids <;> simp [hmem]
        · rw [show wrote id ⟨.putPlacement p, none⟩ = none from if_neg (hp.trans_ne hx)]
          simp [Ne.symm hx]

theorem persistAll_written (id : PlacementID) (h : (persistAll overlays).After tr (.done none)) :
    written id tr = (overlays.get id).map some := by
  obtain ⟨order, tr', rfl, h'⟩ := Prog.after_invoke_done_iff.mp h
  rw [written_cons_of_none rfl, persistOverlays_written id h']
  cases hget : overlays.get id with
  | none => simp
  | some p => rw [if_pos (mem_of_perm_keys order.property hget)]

/-! ## The branches -/

/-- The bytes that a flush renders, from the replies to its first calls. -/
def rendered [Lowering] (a : EntryActions) (overlays : Store) : List GoEvent → Option Rendered
  | ⟨.listPlacements, .ok placements⟩ :: ⟨.rangeOrder _, order⟩ :: tr =>
    let state := a.nodeState (withOverlays overlays placements order.val)
    if a.configPath = "" then ((build state).map Rendered.built).toOption
    else match tr with
      | ⟨.readConfig, .ok base⟩ :: _ => (a.renderOver base state).toOption
      | _ => none
  | _ => none

/-- The calls of a flush before it touches sing-box. -/
def ReadCall : Call → Prop
  | .listPlacements | .rangeOrder _ | .readConfig => True
  | _ => False

/-- A finished flush: its events, its outcome and the hash it leaves. -/
inductive Flushed [Lowering] [Sum256] (a : EntryActions) (overlays : Store) (last : Option Digest) :
    List GoEvent → Err × Option Digest → Prop
  | unrendered {tr : List GoEvent} (reads : ∀ ev ∈ tr, ReadCall ev.call) (err : GoError) :
      Flushed a overlays last tr (some err, last)
  | skipped (pre : List GoEvent) {tail : List GoEvent} {data : Rendered} {err : Err}
      (reads : ∀ ev ∈ pre, ReadCall ev.call) (made : rendered a overlays (pre ++ tail) = some data)
      (same : last = some (sum256 data)) (stores : (persistAll overlays).After tail (.done err)) :
      Flushed a overlays last (pre ++ tail) (err, last)
  | unwritten (pre : List GoEvent) {data : Rendered} (reads : ∀ ev ∈ pre, ReadCall ev.call)
      (fail err : GoError) :
      Flushed a overlays last (pre ++ [⟨.writeConfig data, some fail⟩]) (some err, last)
  | unloaded (pre : List GoEvent) {data : Rendered} (reads : ∀ ev ∈ pre, ReadCall ev.call)
      (other : last ≠ some (sum256 data)) (fail err : GoError) :
      Flushed a overlays last (pre ++ [⟨.writeConfig data, none⟩, ⟨.reload, some fail⟩])
        (some err, last)
  | loaded (pre : List GoEvent) {tail : List GoEvent} {data : Rendered} {err : Err}
      (reads : ∀ ev ∈ pre, ReadCall ev.call)
      (made : rendered a overlays (pre ++ ⟨.writeConfig data, none⟩ :: ⟨.reload, none⟩ :: tail) =
        some data)
      (other : last ≠ some (sum256 data)) (stores : (persistAll overlays).After tail (.done err)) :
      Flushed a overlays last (pre ++ ⟨.writeConfig data, none⟩ :: ⟨.reload, none⟩ :: tail)
        (err, some (sum256 data))

/-- A render that has ended, and where its result stands in the trace of the flush. -/
theorem renderFromState_reads [Lowering] {ps : List Placement}
    {order : Reply (.rangeOrder overlays.recs.keys)} {r : Except GoError Rendered} (tail : List GoEvent)
    (h : (a.renderFromState (a.nodeState (withOverlays overlays ps order.val))).After tr (.done r)) :
    (∀ ev ∈ tr, ReadCall ev.call) ∧ rendered a overlays (⟨.listPlacements, .ok ps⟩ ::
      ⟨.rangeOrder overlays.recs.keys, order⟩ :: (tr ++ tail)) = r.toOption := by
  unfold EntryActions.renderFromState at h
  unfold rendered
  by_cases hpath : a.configPath = ""
  · rw [if_pos hpath] at h
    obtain ⟨rfl, heq⟩ := Prog.after_done_iff.mp h
    cases heq
    exact ⟨by simp, if_pos hpath⟩
  · rw [if_neg hpath] at h
    dsimp only
    rw [if_neg hpath]
    obtain ⟨base, tr', rfl, h'⟩ := Prog.after_invoke_done_iff.mp h
    cases base with
    | error err =>
      obtain ⟨rfl, heq⟩ := Prog.after_done_iff.mp h'
      cases heq
      exact ⟨by simp [ReadCall], rfl⟩
    | ok base =>
      obtain ⟨rfl, heq⟩ := Prog.after_done_iff.mp h'
      cases heq
      exact ⟨by simp [ReadCall], rfl⟩

theorem after_flush [Lowering] [Sum256] {out : Err × Option Digest}
    (h : (flushBatch a overlays last).After tr (.done out)) : Flushed a overlays last tr out := by
  obtain ⟨listed, tr₁, rfl, h₁⟩ := Prog.after_invoke_done_iff.mp h
  cases listed with
  | error err =>
    obtain ⟨rfl, heq⟩ := Prog.after_done_iff.mp h₁
    cases heq
    exact .unrendered (by simp [ReadCall]) _
  | ok ps =>
    obtain ⟨order, tr₂, rfl, h₂⟩ := Prog.after_invoke_done_iff.mp h₁
    obtain ⟨r, tr₃, tr₄, rfl, h₃, h₄⟩ := Prog.after_bind_done_iff.mp h₂
    obtain ⟨hreads, hmade⟩ := renderFromState_reads tr₄ h₃
    have hpre : ∀ ev ∈ (⟨.listPlacements, .ok ps⟩ : GoEvent) ::
        ⟨.rangeOrder overlays.recs.keys, order⟩ :: tr₃, ReadCall ev.call := by
      simpa [ReadCall] using hreads
    -- the last part, with the hash it returns
    have hpersist : ∀ {l : Option Digest} {tail : List GoEvent}, (do
        let order ← port (.rangeOrder overlays.recs.keys)
        return (← persistOverlays overlays order.val, l) : Go (Err × Option Digest)).After tail
        (.done out) → (persistAll overlays).After tail (.done out.1) ∧ out.2 = l := by
      intro l tail hp
      obtain ⟨order, tail', rfl, hp'⟩ := Prog.after_invoke_done_iff.mp hp
      obtain ⟨err, t₁, t₂, rfl, ht, hd⟩ := Prog.after_bind_done_iff.mp hp'
      obtain ⟨rfl, heq⟩ := Prog.after_done_iff.mp hd
      cases heq
      rw [List.append_nil]
      exact ⟨.cons order ht, rfl⟩
    cases r with
    | error err =>
      obtain ⟨rfl, heq⟩ := Prog.after_done_iff.mp h₄
      cases heq
      rw [List.append_nil]
      exact .unrendered hpre _
    | ok data =>
      obtain ⟨err, hash⟩ := out
      dsimp only at h₄
      split_ifs at h₄ with hsame
      · obtain ⟨hstores, rfl⟩ := hpersist h₄
        exact .skipped (_ :: _ :: tr₃) hpre hmade hsame hstores
      · obtain ⟨wrote, tr₅, rfl, h₅⟩ := Prog.after_invoke_done_iff.mp h₄
        cases wrote with
        | some fail =>
          obtain ⟨rfl, heq⟩ := Prog.after_done_iff.mp h₅
          cases heq
          exact .unwritten (_ :: _ :: tr₃) hpre fail _
        | none =>
          obtain ⟨reloaded, tr₆, rfl, h₆⟩ := Prog.after_invoke_done_iff.mp h₅
          cases reloaded with
          | some fail =>
            obtain ⟨rfl, heq⟩ := Prog.after_done_iff.mp h₆
            cases heq
            exact .unloaded (_ :: _ :: tr₃) hpre hsame fail _
          | none =>
            obtain ⟨hstores, rfl⟩ := hpersist h₆
            exact .loaded (_ :: _ :: tr₃) hpre hmade hsame hstores

theorem ReadCall.keeps {c : Call} (h : ReadCall c) (id : PlacementID) : Keeps id c := by
  cases c <;> trivial

/-- A flush that has returned nil has stored its overlays, and nothing else. -/
theorem Flushed.written_of_nil [Lowering] [Sum256] {out : Err × Option Digest}
    (hf : Flushed a overlays last tr out)
    (hnil : out.1 = none) (id : PlacementID) : written id tr = (overlays.get id).map some := by
  -- what comes before the overlays writes no record
  have hpre : ∀ {pre tail : List GoEvent}, (∀ ev ∈ pre, Keeps id ev.call) →
      (persistAll overlays).After tail (.done none) →
      written id (pre ++ tail) = (overlays.get id).map some := by
    intro pre tail hkeeps hp
    rw [written_append, persistAll_written id hp, written_eq_none hkeeps, Option.or_none]
  cases hf with
  | unrendered reads err => cases hnil
  | skipped pre reads made same stores =>
    cases hnil
    exact hpre (fun ev hev => (reads ev hev).keeps id) stores
  | unwritten pre reads fail err => cases hnil
  | unloaded pre reads other fail err => cases hnil
  | @loaded pre tail data err reads made other stores =>
    cases hnil
    have hcut : pre ++ ⟨.writeConfig data, none⟩ :: ⟨.reload, none⟩ :: tail =
        pre ++ [⟨.writeConfig data, none⟩, ⟨.reload, none⟩] ++ tail := by simp
    rw [hcut]
    refine hpre (List.forall_mem_append.mpr ⟨fun ev hev => (reads ev hev).keeps id, ?_⟩) stores
    simp [Keeps]

end NodeAgent.RenderCoalescer
