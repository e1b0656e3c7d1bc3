import NodeAgent.External.Loop
import NodeAgent.Singboxgen.Absorb

/-!
# Renders whose calls succeed

With a valid base file and calls that do not fail, whether a render succeeds depends on the check of the
builder alone; and what a render has written is a valid base file again.
-/

namespace NodeAgent

open Lib Singboxgen

/-! ## Base files -/

/-- The base is empty, or it has an inbound with the node's tag. -/
def EntryActions.BaseOk (a : EntryActions) (base : BaseFile) : Prop :=
  base = .empty ∨ ∃ members inbounds, base = .json (.obj members) ∧
    members.lookup "inbounds" = some (.arr inbounds) ∧
    ∃ inb ∈ inbounds, inb.get? "tag" = some (.str a.inbound.tag)

namespace EntryActions

variable {a : EntryActions} {base : BaseFile} {ps : List Placement} {data : Rendered}

/-- Over a valid base a render succeeds exactly when the state passes the check. -/
theorem renderOver_ok_iff [Lowering] (hbase : a.BaseOk base) :
    (∃ data, a.renderOver base (a.nodeState ps) = .ok data) ↔ validate (a.nodeState ps) = .ok () := by
  constructor
  · rintro ⟨data, h⟩
    exact validate_of_mergeBase (mergeBase_of_renderOver h)
  · intro hv
    unfold renderOver
    rcases hbase with rfl | ⟨members, inbounds, rfl, hin, hown⟩
    · rw [if_pos rfl]
      obtain ⟨cfg, hcfg⟩ := build_ok_iff.mpr (validate_ok_iff.mp hv)
      rw [hcfg]
      exact ⟨_, rfl⟩
    · obtain ⟨inb, hinb, htag⟩ := hown
      have hany : inbounds.any (isOwnInbound (a.nodeState ps)) = true :=
        List.any_eq_true.mpr ⟨inb, hinb, decide_eq_true htag⟩
      rw [if_neg (by simp), mergeBase_json_iff.mpr ⟨hv, members, inbounds, rfl, hin, hany, rfl⟩]
      exact ⟨_, rfl⟩

/-- What has been rendered is a valid base. -/
theorem baseOk_of_renderOver [Lowering] (h : a.renderOver base (a.nodeState ps) = .ok data) :
    a.BaseOk (.json data.toJson) := by
  have hmerge := mergeBase_of_renderOver h
  cases base with
  | empty =>
    obtain ⟨cfg, hcfg, rfl⟩ := mergeBase_empty hmerge
    have hin := (build_eq hcfg).2.2
    obtain ⟨log, inbounds, outbounds, route, experimental⟩ := cfg
    cases hin
    refine .inr ⟨_, [(buildInbound a.inbound ps).toJson], rfl, ?_, _, List.mem_cons_self, rfl⟩
    cases log <;> rfl
  | malformed err =>
    simp only [mergeBase, bind, Except.bind] at hmerge
    split at hmerge <;> cases hmerge
  | json root =>
    obtain ⟨-, members, inbounds, rfl, -, hany, rfl⟩ := mergeBase_json_iff.mp hmerge
    obtain ⟨inb, hinb, hown⟩ := List.any_eq_true.mp hany
    refine .inr ⟨_, _, rfl, by rw [lookup_mergedMembers]; rfl, _, List.mem_map_of_mem hinb, ?_⟩
    rw [← isOwnInbound_mergeInbound (a.nodeState ps) _ (mergedUsers (a.nodeState ps))] at hown
    exact of_decide_eq_true hown

theorem renderFromState_baseOk [Lowering] (ps : List Placement) :
    (a.renderFromState (a.nodeState ps)).Ends
      fun r => ∀ data, r = .ok data → a.BaseOk (.json data.toJson) := by
  unfold renderFromState
  split_ifs
  · intro data h
    have hempty : a.renderOver .empty (a.nodeState ps) = .ok data := by
      unfold renderOver
      rw [if_pos rfl]
      exact h
    exact baseOk_of_renderOver hempty
  · refine Prog.ends_invoke_bind.mpr fun r => ?_
    cases r with
    | error err => exact fun data h => by cases h
    | ok base => exact fun data h => baseOk_of_renderOver h

/-- The check of a registry: it wants addresses and ports. -/
theorem frameOk_iff (a : EntryActions) : FrameOk a.inbound a.reg.all ↔
    a.inbound.listen.port ≠ 0 ∧ ∀ b ∈ a.reg.all, b.address ≠ "" ∧ b.port ≠ 0 := by
  have hids : ∀ b ∈ a.reg.all, b.id ≠ "" := by
    intro b hb
    refine a.reg.id_ne _ ?_
    rw [← a.reg.map_id_all]
    exact List.mem_map_of_mem hb
  have hnodup : (a.reg.all.map BackendSpec.id).Nodup := by
    rw [a.reg.map_id_all]
    exact a.reg.nodup
  unfold FrameOk
  rw [and_iff_right a.tag_ne, validateBackends_ok_iff]
  refine and_congr_right fun _ => ⟨fun h b hb => (h.1 b hb).2,
    fun h => ⟨fun b hb => ⟨hids b hb, h b hb⟩, hnodup, ?_⟩⟩
  exact fun _ _ => List.not_mem_nil

end EntryActions

/-! ## Calls that succeed -/

/-- The call has not failed. -/
def Healthy : GoEvent → Prop
  | ⟨.getPlacement _, .error _⟩ => False
  | ⟨.listPlacements, .error _⟩ => False
  | ⟨.putPlacement _, some _⟩ => False
  | ⟨.readConfig, .error _⟩ => False
  | ⟨.writeConfig _, some _⟩ => False
  | ⟨.reload, some _⟩ => False
  | ⟨.submit _, .error _⟩ => False
  | ⟨.receive _, .cancelled _⟩ => False
  | _ => True

theorem steps_healthy {w w' : World} {tr : List GoEvent} (h : Steps world (Env.Allowed false) w tr w') :
    ∀ ev ∈ tr, Healthy ev := by
  intro ev hev
  obtain ⟨tr₁, tr₂, w₁, e, -, -, he, hr, -⟩ := h.split_mem hev
  obtain ⟨fail, _, _, _, _, _, _⟩ := e
  obtain rfl : fail = none := he rfl
  obtain ⟨c, r⟩ := ev
  cases c with
  | receive timer =>
    have hne : ∀ err, r ≠ .cancelled err := by
      rintro err rfl
      simp only [world, World.exec] at hr
      split_ifs at hr
      split at hr <;> cases hr
    cases r with
    | cancelled err => exact absurd rfl (hne err)
    | _ => trivial
  | _ => first | trivial | (cases hr; trivial)

section Outcome

variable {a : EntryActions} {tr : List GoEvent}

/-- The base that a render has read. -/
def BaseRead (a : EntryActions) (tr : List GoEvent) (base : BaseFile) : Prop :=
  (a.configPath = "" ∧ base = .empty) ∨
    (a.configPath ≠ "" ∧ (⟨.readConfig, .ok base⟩ : GoEvent) ∈ tr)

theorem renderFromState_after [Lowering] {state : NodeState} {r : Except GoError Rendered}
    (h : (a.renderFromState state).After tr (.done r)) (hok : ∀ ev ∈ tr, Healthy ev) :
    ∃ base, BaseRead a tr base ∧ r = a.renderOver base state := by
  unfold EntryActions.renderFromState at h
  split_ifs at h with hpath
  · obtain ⟨rfl, hr⟩ := Prog.after_done_iff.mp h
    cases hr
    refine ⟨.empty, .inl ⟨hpath, rfl⟩, ?_⟩
    unfold EntryActions.renderOver
    rw [if_pos rfl]
  · obtain ⟨reply, tr', rfl, h'⟩ := Prog.after_invoke_done_iff.mp h
    cases reply with
    | error err => exact absurd (hok _ List.mem_cons_self) id
    | ok base =>
      obtain ⟨rfl, hr⟩ := Prog.after_done_iff.mp h'
      cases hr
      exact ⟨base, .inr ⟨hpath, List.mem_cons_self⟩, rfl⟩

/-- The call writes nothing but valid bases. -/
def WritesBase (a : EntryActions) (c : Call) : Prop :=
  ∀ data, c = .writeConfig data → a.BaseOk (.json data.toJson)

namespace EntryActions

theorem renderAndReload_writes [Lowering] (render write reload : String) (overlay : Option Placement) :
    (a.renderAndReload render write reload overlay).All (WritesBase a) := by
  have hends : (a.renderConfigWith overlay).Ends
      fun r => ∀ data, r = .ok data → a.BaseOk (.json data.toJson) := by
    refine Prog.ends_invoke_bind.mpr fun r => ?_
    cases r with
    | error err => exact fun data h => by cases h
    | ok ps => cases overlay <;> exact renderFromState_baseOk _
  refine (renderConfigWith_all (fun _ h => by cases h) (fun _ h => by cases h) overlay).bind_ends hends
    fun r hr => ?_
  cases r with
  | error err => trivial
  | ok data =>
    refine Prog.all_invoke_bind.mpr ⟨fun data' h => ?_, fun r => ?_⟩
    · cases h
      exact hr data rfl
    · cases r with
      | some err => trivial
      | none =>
        refine Prog.all_invoke_bind.mpr ⟨(fun _ h => by cases h), fun r => ?_⟩
        cases r <;> trivial

end EntryActions

/-- A render of a listing with one placement laid over it, and whether it came through. -/
def Decided [Lowering] (a : EntryActions) (o : Placement) (tr : List GoEvent) (r : Err) : Prop :=
  ∃ ps base l, (⟨.listPlacements, .ok ps⟩ : GoEvent) ∈ tr ∧ BaseRead a tr base ∧
    (∀ q, q ∈ l ↔ q = o ∨ (q ∈ ps ∧ q.id ≠ o.id)) ∧
    (r = none ↔ ∃ data, a.renderOver base (a.nodeState l) = .ok data)

theorem BaseRead.mono {tr' : List GoEvent} {base : BaseFile} (h : BaseRead a tr base)
    (hsub : tr ⊆ tr') : BaseRead a tr' base :=
  h.imp_right fun hmem => ⟨hmem.1, hsub hmem.2⟩

theorem Decided.mono [Lowering] {o : Placement} {tr' : List GoEvent} {r : Err} (h : Decided a o tr r)
    (hsub : tr ⊆ tr') : Decided a o tr' r := by
  obtain ⟨ps, base, l, hlist, hbase, hmem, hiff⟩ := h
  exact ⟨ps, base, l, hsub hlist, hbase.mono hsub, hmem, hiff⟩

namespace RenderCoalescer

theorem persistOverlays_ok {overlays : Store} {ids : List PlacementID} {err : Err}
    (h : (persistOverlays overlays ids).After tr (.done err)) (hok : ∀ ev ∈ tr, Healthy ev) :
    err = none := by
  induction ids generalizing tr with
  | nil =>
    obtain ⟨-, heq⟩ := Prog.after_done_iff.mp h
    cases heq
    rfl
  | cons id ids ih =>
    unfold persistOverlays at h
    cases hget : overlays.get id with
    | none =>
      rw [hget] at h
      exact ih h hok
    | some p =>
      rw [hget] at h
      obtain ⟨reply, tr', rfl, h'⟩ := Prog.after_invoke_done_iff.mp h
      cases reply with
      | some err => exact (hok _ List.mem_cons_self).elim
      | none => exact ih h' fun ev hev => hok ev (List.mem_cons_of_mem _ hev)

theorem persistAll_ok {overlays : Store} {last : Option Digest} {out : Err × Option Digest}
    (h : (do
      let order ← port (.rangeOrder overlays.recs.keys)
      return (← persistOverlays overlays order.val, last) : Go (Err × Option Digest)).After tr
      (.done out)) (hok : ∀ ev ∈ tr, Healthy ev) : out.1 = none := by
  obtain ⟨order, tr₁, rfl, h₁⟩ := Prog.after_invoke_done_iff.mp h
  obtain ⟨err, tr₂, tr₃, rfl, h₂, h₃⟩ := Prog.after_bind_done_iff.mp h₁
  obtain ⟨-, heq⟩ := Prog.after_done_iff.mp h₃
  cases heq
  exact persistOverlays_ok h₂ fun ev hev => hok ev (by simp [hev])

/-- A flush whose calls succeed fails only in the render. -/
theorem flushBatch_outcome [Lowering] [Sum256] {overlays : Store} {last : Option Digest}
    {out : Err × Option Digest}
    (h : (flushBatch a overlays last).After tr (.done out)) (hok : ∀ ev ∈ tr, Healthy ev) :
    ∃ ps order base, (⟨.listPlacements, .ok ps⟩ : GoEvent) ∈ tr ∧ order.Perm overlays.recs.keys ∧
      BaseRead a tr base ∧ (out.1 = none ↔
        ∃ data, a.renderOver base (a.nodeState (withOverlays overlays ps order)) = .ok data) := by
  obtain ⟨r, tr₁, rfl, h₁⟩ := Prog.after_invoke_done_iff.mp h
  cases r with
  | error err => exact absurd (hok _ List.mem_cons_self) id
  | ok ps =>
    obtain ⟨order, tr₂, rfl, h₂⟩ := Prog.after_invoke_done_iff.mp h₁
    obtain ⟨rendered, tr₃, tr₄, rfl, h₃, h₄⟩ := Prog.after_bind_done_iff.mp h₂
    have hok₃ : ∀ ev ∈ tr₃, Healthy ev := fun ev hev => hok ev (by simp [hev])
    have hok₄ : ∀ ev ∈ tr₄, Healthy ev := fun ev hev => hok ev (by simp [hev])
    obtain ⟨base, hbase, hr⟩ := renderFromState_after h₃ hok₃
    have hread : BaseRead a (⟨.listPlacements, .ok ps⟩ ::
        ⟨.rangeOrder overlays.recs.keys, order⟩ :: (tr₃ ++ tr₄)) base :=
      hbase.imp_right fun hmem => ⟨hmem.1, by simp [hmem.2]⟩
    refine ⟨ps, order.val, base, List.mem_cons_self, order.property, hread, ?_⟩
    rw [← hr]
    cases rendered with
    | error err =>
      obtain ⟨-, heq⟩ := Prog.after_done_iff.mp h₄
      cases heq
      simp
    | ok data =>
      refine iff_of_true ?_ ⟨data, rfl⟩
      dsimp only at h₄
      split_ifs at h₄
      · exact persistAll_ok h₄ hok₄
      · obtain ⟨r, tr₅, rfl, h₅⟩ := Prog.after_invoke_done_iff.mp h₄
        cases r with
        | some err => exact absurd (hok₄ _ List.mem_cons_self) id
        | none =>
          obtain ⟨r, tr₆, rfl, h₆⟩ := Prog.after_invoke_done_iff.mp h₅
          cases r with
          | some err => exact (hok₄ _ (List.mem_cons_of_mem _ List.mem_cons_self)).elim
          | none => exact persistAll_ok h₆ fun ev hev => hok₄ ev (by simp [hev])

/-- What a flush calls: what it writes is a valid base, and it stores overlays. -/
theorem flushBatch_all [Lowering] [Sum256] {P : Call → Prop} {overlays : Store} {last : Option Digest}
    (hlist : P .listPlacements) (hrange : ∀ ids, P (.rangeOrder ids)) (hread : P .readConfig)
    (hwrite : ∀ data : Rendered, a.BaseOk (.json data.toJson) → P (.writeConfig data))
    (hreload : P .reload) (hput : ∀ id p, overlays.get id = some p → P (.putPlacement p)) :
    (flushBatch a overlays last).All P := by
  have hpersist : ∀ {last : Option Digest}, (do
      let order ← port (.rangeOrder overlays.recs.keys)
      return (← persistOverlays overlays order.val, last) : Go (Err × Option Digest)).All P := by
    intro last
    refine Prog.all_invoke_bind.mpr ⟨hrange _, fun order => ?_⟩
    exact (persistOverlays_all hput).bind fun _ => trivial
  refine Prog.all_invoke_bind.mpr ⟨hlist, fun r => ?_⟩
  cases r with
  | error err => trivial
  | ok ps =>
    refine Prog.all_invoke_bind.mpr ⟨hrange _, fun order => ?_⟩
    refine ((EntryActions.renderFromState_calls _).mono fun c hc => by
      rw [hc]
      exact hread).bind_ends (EntryActions.renderFromState_baseOk _) fun r hr => ?_
    cases r with
    | error err => trivial
    | ok data =>
      dsimp only
      split_ifs
      · exact hpersist
      · refine Prog.all_invoke_bind.mpr ⟨hwrite data (hr data rfl), fun r => ?_⟩
        cases r with
        | some err => trivial
        | none =>
          refine Prog.all_invoke_bind.mpr ⟨hreload, fun r => ?_⟩
          cases r with
          | some err => trivial
          | none => exact hpersist

theorem flushBatch_writes [Lowering] [Sum256] (overlays : Store) (last : Option Digest) :
    (flushBatch a overlays last).All (WritesBase a) := by
  refine flushBatch_all (fun _ h => by cases h) (fun _ _ h => by cases h) (fun _ h => by cases h)
    (fun data hdata data' h => ?_) (fun _ h => by cases h) fun _ _ _ _ h => by cases h
  cases h
  exact hdata

theorem flushBatch_answers_nothing [Lowering] [Sum256] (overlays : Store) (last : Option Digest) :
    (flushBatch a overlays last).All fun c : Call => ∀ ticket err, c ≠ .answer ticket err :=
  flushBatch_all (fun _ _ h => by cases h) (fun _ _ _ h => by cases h) (fun _ _ h => by cases h)
    (fun _ _ _ _ h => by cases h) (fun _ _ h => by cases h) fun _ _ _ _ _ h => by cases h

end RenderCoalescer

end Outcome

end NodeAgent
