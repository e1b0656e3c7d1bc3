import NodeAgent.External.Node
import NodeAgent.External.Render

/-!
# Taking a placement back

`SimpleApply` of an inactive command renders the whole store. The check looks at every active placement
and at the registry, which changes on its own; so whether one user can be taken off depends on the
placements of all others.
-/

namespace NodeAgent.External

open Lib Singboxgen RenderCoalescer

/-! ## The calls of SimpleApply -/

section Apply

variable [Lowering] {a : EntryActions} {d : Placement} {tr : List GoEvent} {r : Err}

/-- Without the coalescer, a render whose calls succeed decides alone. -/
theorem rebuildWith_direct (hco : a.coalesced = false) {text render write reload persist : String}
    (h : (a.rebuildWith text render write reload persist d).After tr (.done r))
    (hok : ∀ ev ∈ tr, Healthy ev) : Decided a d tr r := by
  unfold EntryActions.rebuildWith at h
  rw [if_neg (by simp [hco])] at h
  obtain ⟨err, tr₁, tr₂, rfl, h₁, h₂⟩ := Prog.after_bind_done_iff.mp h
  have hok₁ : ∀ ev ∈ tr₁, Healthy ev := fun ev hev => hok ev (List.mem_append_left _ hev)
  obtain ⟨rendered, tr₃, tr₄, rfl, h₃, h₄⟩ := Prog.after_bind_done_iff.mp h₁
  obtain ⟨reply, tr₅, rfl, h₅⟩ := Prog.after_invoke_done_iff.mp h₃
  cases reply with
  | error err => exact (hok₁ _ (List.mem_append_left _ List.mem_cons_self)).elim
  | ok ps =>
    obtain ⟨base, hbase, rfl⟩ := renderFromState_after h₅ fun ev hev => hok₁ ev (by simp [hev])
    refine ⟨ps, base, _, by simp, hbase.mono fun ev hev => by simp [hev],
      fun q => EntryActions.mem_applyPlacementOverlay, ?_⟩
    have hok₄ : ∀ ev ∈ tr₄, Healthy ev := fun ev hev => hok₁ ev (by simp [hev])
    cases hr : a.renderOver base (a.nodeState (applyPlacementOverlay ps d)) with
    | error err' =>
      rw [hr] at h₄
      obtain ⟨-, heq⟩ := Prog.after_done_iff.mp h₄
      cases heq
      obtain ⟨-, heq⟩ := Prog.after_done_iff.mp h₂
      cases heq
      simp
    | ok data =>
      rw [hr] at h₄
      refine iff_of_true ?_ ⟨data, rfl⟩
      obtain ⟨reply, tr₆, rfl, h₆⟩ := Prog.after_invoke_done_iff.mp h₄
      cases reply with
      | some err => exact (hok₄ _ List.mem_cons_self).elim
      | none =>
        obtain ⟨reply, tr₇, rfl, h₇⟩ := Prog.after_invoke_done_iff.mp h₆
        cases reply with
        | some err => exact (hok₄ _ (List.mem_cons_of_mem _ List.mem_cons_self)).elim
        | none =>
          obtain ⟨-, heq⟩ := Prog.after_done_iff.mp h₇
          cases heq
          obtain ⟨reply, tr₈, rfl, h₈⟩ := Prog.after_invoke_done_iff.mp h₂
          cases reply with
          | some err => exact (hok _ (List.mem_append_right _ List.mem_cons_self)).elim
          | none =>
            obtain ⟨-, heq⟩ := Prog.after_done_iff.mp h₈
            cases heq
            rfl

/-- With the coalescer, the caller has an answer, or its context has expired. -/
theorem rebuildWith_coalesced (hco : a.coalesced = true) {text render write reload persist : String}
    (h : (a.rebuildWith text render write reload persist d).After tr (.done r))
    (hok : ∀ ev ∈ tr, Healthy ev) :
    r = some (.wrap text Flip.contextExpired) ∨ ∃ ticket err,
      (⟨.submit (some d), .ok ticket⟩ : GoEvent) ∈ tr ∧ (⟨.poll ticket, some err⟩ : GoEvent) ∈ tr ∧
      (r = none ↔ err = none) := by
  unfold EntryActions.rebuildWith at h
  rw [if_pos hco] at h
  obtain ⟨err, tr₁, tr₂, rfl, h₁, h₂⟩ := Prog.after_bind_done_iff.mp h
  obtain ⟨reply, tr₃, rfl, h₃⟩ := Prog.after_invoke_done_iff.mp h₁
  cases reply with
  | error err => exact (hok _ (List.mem_append_left _ List.mem_cons_self)).elim
  | ok ticket =>
    have hr : r = err.map (GoError.wrap text) := by
      cases err with
      | none =>
        obtain ⟨-, heq⟩ := Prog.after_done_iff.mp h₂
        cases heq
        rfl
      | some err =>
        obtain ⟨-, heq⟩ := Prog.after_done_iff.mp h₂
        cases heq
        rfl
    rcases awaitAnswer_after h₃ with rfl | hpoll
    · exact .inl hr
    · refine .inr ⟨ticket, err, by simp, by simp [hpoll], ?_⟩
      rw [hr, Option.map_eq_none_iff]

/-- Only the overlay is submitted. -/
theorem rebuildWith_submits (text render write reload persist : String) :
    (a.rebuildWith text render write reload persist d).All
      fun c : Call => ∀ overlay, c = .submit overlay → overlay = some d := by
  unfold EntryActions.rebuildWith
  split_ifs
  · refine Prog.All.bind
      (EntryActions.coalesce_all (fun overlay h => ?_) (fun _ _ h => by cases h) a.polls) fun r => ?_
    · cases h
      rfl
    · cases r <;> trivial
  · refine Prog.All.bind (EntryActions.renderAndReload_all (fun _ h => by cases h)
      (fun _ h => by cases h) (fun _ _ h => by cases h) (fun _ h => by cases h) _ _ _ _)
      fun r => ?_
    cases r with
    | some err => trivial
    | none =>
      refine Prog.all_invoke_bind.mpr ⟨(fun _ h => by cases h), fun r => ?_⟩
      cases r <;> trivial

theorem rebuildWith_writes (text render write reload persist : String) :
    (a.rebuildWith text render write reload persist d).All (WritesBase a) := by
  unfold EntryActions.rebuildWith
  split_ifs
  · refine Prog.All.bind
      (EntryActions.coalesce_all (fun _ h => by cases h) (fun _ _ h => by cases h) a.polls) fun r => ?_
    cases r <;> trivial
  · refine (EntryActions.renderAndReload_writes render write reload (some d)).bind fun r => ?_
    cases r with
    | some err => trivial
    | none =>
      refine Prog.all_invoke_bind.mpr ⟨(fun _ h => by cases h), fun r => ?_⟩
      cases r <;> trivial

/-- The end of `SimpleApply`. -/
def applyRest (a : EntryActions) (d : Placement) : Go Err :=
  a.rebuildWith "simple-apply: coalesce" "simple-apply: render" "simple-apply: write config"
    "simple-apply: reload" "simple-apply: persist" d

/-- `SimpleApply` of an inactive placement: it is stale, or the configuration is rendered. -/
theorem simpleApply_inactive (hid : d.id ≠ "") (hd : d.desired ≠ .active)
    (h : (a.simpleApply d).After tr (.done r)) (hok : ∀ ev ∈ tr, Healthy ev) :
    ∃ found rest, tr = ⟨.getPlacement d.id, .ok found⟩ :: rest ∧
      ((d.opVersion ≠ 0 ∧ (found.getD {}).opVersion ≥ d.opVersion) ∨
        ∃ t rest', rest = ⟨.now, t⟩ :: rest' ∧
          (applyRest a (d.stamp .ok t)).After rest' (.done r)) := by
  have hflip : ∀ t, a.trySelectorFlip (d.stamp .ok t) = .done false := by
    intro t
    unfold EntryActions.trySelectorFlip
    rw [if_pos (.inr hd)]
    rfl
  unfold EntryActions.simpleApply at h
  rw [if_neg hid, if_neg fun h => hd h.1] at h
  obtain ⟨reply, rest, rfl, h₁⟩ := Prog.after_invoke_done_iff.mp h
  cases reply with
  | error err => exact (hok _ List.mem_cons_self).elim
  | ok found =>
    refine ⟨found, rest, rfl, ?_⟩
    dsimp only at h₁
    split_ifs at h₁ with hstale
    · exact .inl hstale
    · obtain ⟨t, rest', rfl, h₂⟩ := Prog.after_invoke_done_iff.mp h₁
      refine .inr ⟨t, rest', rfl, ?_⟩
      split_ifs at h₂
      · rw [hflip] at h₂
        exact h₂
      · exact h₂

end Apply

/-! ## A batch with one placement -/

/-- The batch has the placement in some outcome and nothing else. -/
def Holding (d : Placement) (b : Batch) : Prop :=
  (∀ id p, b.overlays.get id = some p → ∃ t, p = d.stamp .ok t) ∧
    (b.pending ≠ [] → ∃ p, b.overlays.get d.id = some p)

theorem holding_reset (d : Placement) (last : Option Digest) : Holding d { lastHash := last } :=
  ⟨fun id p h => by simp at h, fun h => absurd rfl h⟩

theorem Holding.add {d : Placement} {b : Batch} (h : Holding d b) {req : RenderReq} {t : Time}
    (hreq : req.overlay = some (d.stamp .ok t)) : Holding d (b.add req) := by
  unfold Batch.add
  rw [hreq]
  constructor
  · intro id p hp
    simp only [Store.get_put] at hp
    split_ifs at hp
    · cases hp
      exact ⟨t, rfl⟩
    · exact h.1 id p hp
  · intro _
    refine ⟨d.stamp .ok t, ?_⟩
    show (b.overlays.put (d.stamp .ok t)).get (d.stamp .ok t).id = _
    exact Store.get_put_self _ _

theorem mem_foldl_overlay_single {o q : Placement} {os ps : List Placement} (hos : ∀ x ∈ os, x = o)
    (hne : os ≠ []) : q ∈ os.foldl applyPlacementOverlay ps ↔ q = o ∨ (q ∈ ps ∧ q.id ≠ o.id) := by
  induction os generalizing ps with
  | nil => exact absurd rfl hne
  | cons x os ih =>
    obtain ⟨rfl, hos⟩ := List.forall_mem_cons.mp hos
    rw [List.foldl_cons]
    by_cases hnil : os = []
    · rw [hnil]
      exact EntryActions.mem_applyPlacementOverlay
    · rw [ih hos hnil, EntryActions.mem_applyPlacementOverlay]
      constructor
      · rintro (h | ⟨h | h, hid⟩)
        · exact .inl h
        · exact .inl h
        · exact .inr h
      · rintro (h | h)
        · exact .inl h
        · exact .inr ⟨.inr h, h.2⟩

/-- A flush of such a batch renders the listing with the placement laid over it. -/
theorem decided_of_flush [Lowering] [Sum256] {a : EntryActions} {d : Placement} {b : Batch}
    {tr : List GoEvent} {out : Err × Option Digest} (hb : Holding d b) (hpending : b.pending ≠ [])
    (h : (flushBatch a b.overlays b.lastHash).After tr (.done out)) (hok : ∀ ev ∈ tr, Healthy ev) :
    ∃ t, Decided a (d.stamp .ok t) tr out.1 := by
  obtain ⟨ps, order, base, hlist, horder, hbase, hiff⟩ := flushBatch_outcome h hok
  obtain ⟨p, hp⟩ := hb.2 hpending
  obtain ⟨t, rfl⟩ := hb.1 _ _ hp
  refine ⟨t, ps, base, _, hlist, hbase, fun q => mem_foldl_overlay_single (fun x hx => ?_) ?_, hiff⟩
  · obtain ⟨id, -, hx⟩ := List.mem_filterMap.mp hx
    obtain ⟨t', rfl⟩ := hb.1 _ _ hx
    have hid : (d.stamp .ok t').id = id := Store.id_of_get hx
    change d.id = id at hid
    rw [← hid, hp] at hx
    exact (Option.some.inj hx).symm
  · refine List.ne_nil_of_mem (List.mem_filterMap.mpr ⟨d.id, ?_, hp⟩)
    rw [horder.mem_iff, Std.ExtTreeMap.mem_keys, Std.ExtTreeMap.mem_iff_isSome_getElem?]
    exact Option.isSome_of_mem hp

/-! ## SimpleApply next to the loop -/

section Pool

variable [Lowering] [Sum256] {A : Env → Prop} {a : EntryActions} {d : Placement} {maxBatch rounds : ℕ}
  {last : Option Digest} {r : Err} {w w' : World} {trs : List (Tagged ports)} {ts' : List (Go Err)}

/-- What both of them store is the placement in some outcome. -/
theorem stored_eq_stamp
    (h : Pool world A (nextToLoop a (a.simpleApply d) maxBatch rounds last) w trs ts' w')
    (hqueue : w.queue = []) {ev : GoEvent} (hev : ev ∈ trs.map Prod.snd) :
    (∀ p, ev.call = .putPlacement p → ∃ t, p = d.stamp .ok t) ∧ ∀ id, ev.call ≠ .deletePlacement id := by
  obtain ⟨q, -, hafter⟩ := h.1.after (i := 0) rfl
  have hcalls := EntryActions.simpleApply_calls.of_mem hafter
  rcases thread_cases h.1 hev with hev | ⟨hev, hcall⟩
  · have hcall := (hcalls ev hev).1
    refine ⟨fun p hc => ?_, fun x hc => ?_⟩
    · rw [hc] at hcall
      exact hcall
    · rw [hc] at hcall
      exact hcall
  · refine ⟨fun p hc => ?_, fun x hc => ?_⟩
    · obtain ⟨ev', hev', hsub⟩ := stored_by_caller h hqueue hev hc
      have hcall' := (hcalls ev' hev').1
      rw [hsub] at hcall'
      exact hcall' p rfl
    · rw [hc] at hcall
      exact hcall

/-- So a listing has the other placements as they were. -/
theorem listing_others
    (h : Pool world A (nextToLoop a (a.simpleApply d) maxBatch rounds last) w trs ts' w')
    (hqueue : w.queue = []) {ps : List Placement}
    (hmem : (⟨.listPlacements, .ok ps⟩ : GoEvent) ∈ trs.map Prod.snd) {p : Placement} (hid : p.id ≠ d.id) :
    p ∈ ps ↔ p ∈ w.store.list := by
  obtain ⟨tr₁, tr₂, w₁, e, heq, h₁, -, hr, -⟩ := h.2.split_mem hmem
  have hin : ∀ ev ∈ tr₁, ev ∈ trs.map Prod.snd := fun ev hev => heq ▸ List.mem_append_left _ hev
  have hstore : w₁.store.get p.id = w.store.get p.id := by
    refine steps_store_invariant (I := fun s => s.get p.id = w.store.get p.id) h₁ ?_ ?_ rfl
    · intro q hq s hs
      obtain ⟨t, rfl⟩ := (stored_eq_stamp h hqueue (hin _ hq)).1 q rfl
      exact (Store.get_put_of_ne s (d.stamp .ok t) hid).trans hs
    · intro x hx s _
      exact absurd rfl ((stored_eq_stamp h hqueue (hin _ hx)).2 x)
  rw [exec_listPlacements hr, Store.mem_list, Store.mem_list, hstore]

/-- The caller reads the record as it was. -/
theorem read_first
    (h : Pool world A (nextToLoop a (a.simpleApply d) maxBatch rounds last) w trs ts' w')
    (hqueue : w.queue = []) {found : Option Placement} {rest : List GoEvent}
    (heq : eventsOf 0 trs = ⟨.getPlacement d.id, .ok found⟩ :: rest) : found = w.store.get d.id := by
  rw [← List.nil_append (_ :: rest)] at heq
  obtain ⟨x, y, rfl, hx, -⟩ := exists_of_eventsOf_eq heq
  obtain ⟨us, w₁, hpool₁, hpool₂⟩ := pool_append.mp h
  have hstore : w₁.store = w.store := by
    refine steps_store hpool₁.2 fun ev hev => ?_
    rcases thread_cases hpool₁.1 hev with hev | ⟨hev, hcall⟩
    · rw [hx] at hev
      cases hev
    · cases hc : ev.call with
      | putPlacement p =>
        obtain ⟨ev', hev', -⟩ := stored_by_caller hpool₁ hqueue hev hc
        rw [hx] at hev'
        cases hev'
      | deletePlacement y =>
        rw [hc] at hcall
        exact absurd hcall id
      | _ => rfl
  obtain ⟨e, -, hr, -⟩ := steps_cons.mp hpool₂.2
  rw [← hstore]
  exact exec_getPlacement hr

/-- Nothing but the placement stands in the way of a render: the inbound has a port, the registry's
backends have addresses and ports, and every other active placement has a client and a known backend. -/
def Clear (a : EntryActions) (s : Store) (id : PlacementID) : Prop :=
  a.inbound.listen.port ≠ 0 ∧ (∀ b ∈ a.reg.all, b.address ≠ "" ∧ b.port ≠ 0) ∧
    ∀ p ∈ s.list, p.id ≠ id → p.desired = .active →
      p.clientID ≠ "" ∧ (a.reg.get p.backendNodeID).isSome

/-- A render that has the placement inactive comes through exactly when nothing else is in the way. -/
theorem decided_iff
    (h : Pool world (Env.Allowed false) (nextToLoop a (a.simpleApply d) maxBatch rounds last) w trs ts' w')
    (hqueue : w.queue = []) (hd : d.desired ≠ .active)
    (hwrite : ∀ ev ∈ trs.map Prod.snd, WritesBase a ev.call)
    (hbase : a.configPath ≠ "" → a.BaseOk w.singbox.file) {t : Time}
    (hdec : Decided a (d.stamp .ok t) (trs.map Prod.snd) r) : r = none ↔ Clear a w.store d.id := by
  obtain ⟨ps, base, l, hlist, hread, hmem, hiff⟩ := hdec
  have hbase' : a.BaseOk base := by
    rcases hread with ⟨-, rfl⟩ | ⟨hpath, hread⟩
    · exact .inl rfl
    · exact steps_file_read h.2 hwrite (hbase hpath) hread
  rw [hiff, EntryActions.renderOver_ok_iff hbase', validate_ok_iff]
  unfold Clear
  rw [← and_assoc, ← EntryActions.frameOk_iff]
  refine and_congr_right fun _ => ?_
  constructor
  · intro hall p hp hid hactive
    have hp' := (listing_others h hqueue hlist hid).mpr hp
    have hok := hall p ((hmem p).mpr (.inr ⟨hp', hid⟩)) hactive
    exact ⟨hok.1, (a.reg.mem_map_id_all _).mp hok.2⟩
  · intro hall p hp hactive
    rcases (hmem p).mp hp with rfl | ⟨hp, hid⟩
    · exact absurd hactive hd
    · have hok := hall p ((listing_others h hqueue hlist hid).mp hp) hid hactive
      exact ⟨hok.1, (a.reg.mem_map_id_all _).mpr hok.2⟩

/-- Neither of them writes anything but a valid base. -/
theorem writes_base
    (h : Pool world (Env.Allowed false) (nextToLoop a (a.simpleApply d) maxBatch rounds last) w trs ts' w')
    {found : Option Placement} {t : Time} {rest : List GoEvent}
    (heq : eventsOf 0 trs = ⟨.getPlacement d.id, .ok found⟩ :: ⟨.now, t⟩ :: rest)
    (hrest : (applyRest a (d.stamp .ok t)).After rest (.done r)) :
    ∀ ev ∈ trs.map Prod.snd, WritesBase a ev.call := by
  intro ev hev
  rcases thread_cases h.1 hev with hev | ⟨hev, -⟩
  · rw [heq] at hev
    rcases List.mem_cons.mp hev with rfl | hev
    · exact fun _ hc => by cases hc
    · rcases List.mem_cons.mp hev with rfl | hev
      · exact fun _ hc => by cases hc
      · exact (rebuildWith_writes _ _ _ _ _).of_mem hrest ev hev
  · obtain ⟨q, hq⟩ := loop_thread h.1
    have hloop := run_events (J := fun _ => True) trivial (fun _ => trivial) (fun _ _ => trivial)
      (fun _ _ _ _ _ => trivial) hq ev hev
    cases hloop with
    | receive timer hc =>
      intro _ hc'
      rw [hc] at hc'
      cases hc'
    | flush b part q inv pending sub mem hpart =>
      exact (flushBatch_writes b.overlays b.lastHash).of_mem hpart ev mem
    | answer b part out ticket inv pending sub hpart hc =>
      intro _ hc'
      rw [hc] at hc'
      cases hc'
    | cancelled timer err ticket mem hc =>
      intro _ hc'
      rw [hc] at hc'
      cases hc'

/-- An answer is the outcome of a flush with the placement, or tells that the context has ended. -/
theorem answered_by_flush
    (h : Pool world A (nextToLoop a (a.simpleApply d) maxBatch rounds last) w trs ts' w')
    (hqueue : w.queue = [])
    (hsub : ∀ ev ∈ eventsOf 0 trs, ∀ overlay, ev.call = .submit overlay →
      ∃ t, overlay = some (d.stamp .ok t)) {ev : GoEvent} (hev : ev ∈ trs.map Prod.snd) {ticket : ℕ}
    (hc : ev.call = .answer ticket r) :
    (∃ b part out, Holding d b ∧ b.pending ≠ [] ∧ part ⊆ eventsOf 1 trs ∧
      (flushBatch a b.overlays b.lastHash).After part (.done out) ∧ r = out.1) ∨
    ∃ timer err, (⟨.receive timer, .cancelled err⟩ : GoEvent) ∈ eventsOf 1 trs ∧ r = some err := by
  obtain ⟨q, -, hafter⟩ := h.1.after (i := 0) rfl
  rcases thread_cases h.1 hev with hev | ⟨hev, -⟩
  · have hcall := (EntryActions.simpleApply_calls.of_mem hafter ev hev).1
    rw [hc] at hcall
    exact absurd hcall id
  · obtain ⟨q, hq⟩ := loop_thread h.1
    have hloop := run_events (J := Holding d) (holding_reset d last) (holding_reset d)
      (fun b hb => hb) (fun b timer req hmem hb => by
        obtain ⟨ev', hev', hc'⟩ := submitted_by_caller h hqueue hmem
        obtain ⟨t, ht⟩ := hsub ev' hev' _ hc'
        exact hb.add ht) hq ev hev
    cases hloop with
    | receive timer hc' =>
      rw [hc] at hc'
      cases hc'
    | flush b part q inv pending sub mem hpart =>
      exact absurd hc ((flushBatch_answers_nothing _ _).of_mem hpart ev mem ticket r)
    | answer b part out ticket' inv pending sub hpart hc' =>
      rw [hc] at hc'
      cases hc'
      exact .inl ⟨b, part, out, inv, pending, sub, hpart, rfl⟩
    | cancelled timer err ticket' mem hc' =>
      rw [hc] at hc'
      cases hc'
      exact .inr ⟨timer, err, mem, rfl⟩

/-- What the loop answers is decided by the other placements. -/
theorem answered_decided
    (h : Pool world (Env.Allowed false) (nextToLoop a (a.simpleApply d) maxBatch rounds last) w trs ts' w')
    (hqueue : w.queue = []) {t : Time}
    (hsub : ∀ ev ∈ eventsOf 0 trs, ∀ overlay, ev.call = .submit overlay →
      overlay = some (d.stamp .ok t)) {ev : GoEvent} (hev : ev ∈ trs.map Prod.snd) {ticket : ℕ}
    (hc : ev.call = .answer ticket r) : ∃ t, Decided a (d.stamp .ok t) (trs.map Prod.snd) r := by
  have hok := steps_healthy h.2
  have hin : eventsOf 1 trs ⊆ trs.map Prod.snd := fun ev hev =>
    List.mem_map.mpr ⟨_, mem_eventsOf.mp hev, rfl⟩
  have hsub' : ∀ ev ∈ eventsOf 0 trs, ∀ overlay, ev.call = .submit overlay →
      ∃ t, overlay = some (d.stamp .ok t) := fun ev hev overlay hc => ⟨t, hsub ev hev overlay hc⟩
  obtain ⟨b, part, out, inv, pending, sub, hpart, rfl⟩ | ⟨timer, err, mem, -⟩ :=
    answered_by_flush h hqueue hsub' hev hc
  · have hpart' : part ⊆ trs.map Prod.snd := List.Subset.trans sub hin
    obtain ⟨t, hdec⟩ := decided_of_flush inv pending hpart fun ev hev => hok ev (hpart' hev)
    exact ⟨t, hdec.mono hpart'⟩
  · exact (hok _ (hin mem)).elim

/-- What `SimpleApply` returns when its context expires before the loop has answered. -/
def expired : GoError := .wrap "simple-apply: coalesce" Flip.contextExpired

/-- `SimpleApply` of an inactive placement comes through exactly when nothing else is in the way. -/
theorem simpleApply_inactive_iff (hid : d.id ≠ "") (hd : d.desired ≠ .active) (hqueue : w.queue = [])
    (hold : ∀ x ∈ w.answers, x.1 < w.nextTicket)
    (hbase : a.configPath ≠ "" → a.BaseOk w.singbox.file) {e : Placement}
    (hstored : w.store.get d.id = some e) (hver : e.opVersion < d.opVersion)
    (h : Pool world (Env.Allowed false) (nextToLoop a (a.simpleApply d) maxBatch rounds last) w trs ts' w')
    (hdone : ts'[0]? = some (.done r)) (hexp : a.coalesced = true → r ≠ some expired) :
    r = none ↔ Clear a w.store d.id := by
  obtain ⟨q, hq, hafter⟩ := h.1.after (i := 0) rfl
  rw [hdone] at hq
  cases hq
  have hok := steps_healthy h.2
  have hin : ∀ ev ∈ eventsOf 0 trs, ev ∈ trs.map Prod.snd := fun ev hev =>
    List.mem_map.mpr ⟨_, mem_eventsOf.mp hev, rfl⟩
  obtain ⟨found, rest, heq, hcase⟩ := simpleApply_inactive hid hd hafter fun ev hev => hok ev (hin ev hev)
  obtain rfl : found = some e := (read_first h hqueue heq).trans hstored
  rcases hcase with ⟨-, hstale⟩ | ⟨t, rest', rfl, hrest⟩
  · exact absurd hver hstale.not_gt
  · have hin' : ∀ ev ∈ rest', ev ∈ trs.map Prod.snd := fun ev hev => hin ev (by rw [heq]; simp [hev])
    have hwrite := writes_base h heq hrest
    cases hco : a.coalesced with
    | false =>
      have hdec := rebuildWith_direct hco hrest fun ev hev => hok ev (hin' ev hev)
      exact decided_iff h hqueue hd hwrite hbase (hdec.mono hin')
    | true =>
      rcases rebuildWith_coalesced hco hrest fun ev hev => hok ev (hin' ev hev) with
        hr | ⟨ticket, err, hsub, hpoll, hiff⟩
      · exact absurd hr (hexp hco)
      · obtain ⟨ev, hev, hc⟩ := answered_of_polled h.2 hold (hin' _ hsub) (hin' _ hpoll)
        have honly : ∀ ev ∈ eventsOf 0 trs, ∀ overlay, ev.call = .submit overlay →
            overlay = some (d.stamp .ok t) := by
          intro ev hev overlay hc
          rw [heq] at hev
          rcases List.mem_cons.mp hev with rfl | hev
          · cases hc
          · rcases List.mem_cons.mp hev with rfl | hev
            · cases hc
            · exact (rebuildWith_submits _ _ _ _ _).of_mem hrest ev hev overlay hc
        obtain ⟨t', hdec⟩ := answered_decided h hqueue honly hev hc
        rw [hiff]
        exact decided_iff h hqueue hd hwrite hbase hdec

end Pool

/-! ## SimpleApply gets its answer -/

section Progress

variable [Lowering] {a : EntryActions} {d : Placement} {w : World}

/-- A flush says what has failed. -/
theorem flushBatch_wraps [Sum256] (overlays : Store) (last : Option Digest) :
    (flushBatch a overlays last).Ends fun out => out.1 ≠ some Flip.contextExpired := by
  have hpersist : ∀ ids, (persistOverlays overlays ids).Ends fun err => err ≠ some Flip.contextExpired := by
    intro ids
    induction ids with
    | nil => exact fun h => by cases h
    | cons x ids ih =>
      unfold persistOverlays
      cases overlays.get x with
      | none => exact ih
      | some p =>
        refine Prog.ends_invoke_bind.mpr fun r => ?_
        cases r with
        | some err => exact fun h => by cases h
        | none => exact ih
  have hlast : ∀ {last : Option Digest}, (do
      let order ← port (.rangeOrder overlays.recs.keys)
      return (← persistOverlays overlays order.val, last) : Go (Err × Option Digest)).Ends
      fun out => out.1 ≠ some Flip.contextExpired := by
    intro last
    refine Prog.ends_invoke_bind.mpr fun order => ?_
    exact Prog.Ends.bind (hpersist order.val) fun err herr => herr
  refine Prog.ends_invoke_bind.mpr fun r => ?_
  cases r with
  | error err => exact fun h => by cases h
  | ok ps =>
    refine Prog.ends_invoke_bind.mpr fun order => ?_
    refine Prog.Ends.bind (Prog.ends_true _) fun r _ => ?_
    cases r with
    | error err => exact fun h => by cases h
    | ok data =>
      dsimp only
      split_ifs
      · exact hlast
      · refine Prog.ends_invoke_bind.mpr fun r => ?_
        cases r with
        | some err => exact fun h => by cases h
        | none =>
          refine Prog.ends_invoke_bind.mpr fun r => ?_
          cases r with
          | some err => exact fun h => by cases h
          | none => exact hlast

/-- A flush of one request answers it. -/
theorem doFlush_answers [Sum256] {b : Batch} {req : RenderReq} (hb : b.pending = [req]) (w : World) :
    ∃ tr b' w' err, (doFlush a b).After tr (.done b') ∧ Steps world (Env.Allowed false) w tr w' ∧
      w'.answers.lookup req.ticket = some err ∧ err ≠ some Flip.contextExpired := by
  have hrun := run_replay (H := world) (Env.allowed_default false)
    (p := flushBatch a b.overlays b.lastHash) [] (by simp) w
  generalize replay world (flushBatch a b.overlays b.lastHash) [] w = flush at hrun
  obtain ⟨tr, out, w₁⟩ := flush
  obtain ⟨hafter, hsteps⟩ := hrun
  refine ⟨tr ++ [⟨.answer req.ticket out.1, ()⟩], { lastHash := out.2 }, _, out.1, ?_,
    steps_append.mpr ⟨w₁, hsteps, default, Env.allowed_default _, rfl, rfl⟩, ?_,
    (flushBatch_wraps b.overlays b.lastHash).of_after hafter⟩
  · unfold doFlush
    rw [if_neg (by simp [hb]), hb]
    refine Prog.after_bind_done_iff.mpr ⟨out, tr, _, rfl, hafter, ?_⟩
    exact Prog.after_invoke_done_iff.mpr ⟨(), [], rfl, .nil _⟩
  · exact List.lookup_cons_self

/-- The loop answers the only request in its channel in two rounds. -/
theorem run_answers [Sum256] (a : EntryActions) (maxBatch : ℕ) {rounds : ℕ} (hrounds : 2 ≤ rounds)
    (last : Option Digest) {req : RenderReq} (hqueue : w.queue = [req]) :
    ∃ tr q w' err, (run a maxBatch rounds { lastHash := last }).After tr q ∧
      Steps world (Env.Allowed false) w tr w' ∧ w'.answers.lookup req.ticket = some err ∧
      err ≠ some Flip.contextExpired := by
  obtain ⟨n, rfl⟩ := Nat.exists_eq_add_of_le' hrounds
  let b : Batch := Batch.add { lastHash := last } req
  have hreceive : world.exec (.receive false) default w = (.request req, { w with queue := [] }) := by
    show World.exec (.receive false) default w = _
    simp only [World.exec, hqueue]
    rfl
  have hfirst : (world.exec (.receive false) default w).1 = .request req := by rw [hreceive]
  by_cases hfull : (Batch.add { lastHash := last } req).pending.length ≥ maxBatch
  · obtain ⟨tr, b', w', err, hflush, hsteps, hanswer, herr⟩ :=
      doFlush_answers (a := a) (b := b) rfl { w with queue := [] }
    refine ⟨⟨.receive false, .request req⟩ :: tr, run a maxBatch (n + 1) b', w', err,
      Prog.after_invoke_iff.mpr (.inr ⟨_, _, rfl, ?_⟩),
      ⟨default, Env.allowed_default _, hfirst, hreceive ▸ hsteps⟩, hanswer, herr⟩
    dsimp only
    rw [if_pos hfull]
    exact Prog.after_bind_iff.mpr (.inr ⟨b', tr, [], (List.append_nil tr).symm, hflush, .nil _⟩)
  · obtain ⟨tr, b', w', err, hflush, hsteps, hanswer, herr⟩ :=
      doFlush_answers (a := a) (b := { b with timer := true }) rfl { w with queue := [] }
    refine ⟨⟨.receive false, .request req⟩ :: ⟨.receive true, .flushTimer⟩ :: tr,
      run a maxBatch n b', w', err, Prog.after_invoke_iff.mpr (.inr ⟨_, _, rfl, ?_⟩),
      ⟨default, Env.allowed_default _, hfirst, { flag := true }, fun _ => rfl, rfl, hreceive ▸ hsteps⟩,
      hanswer, herr⟩
    dsimp only
    rw [if_neg hfull]
    refine Prog.after_invoke_iff.mpr (.inr ⟨_, _, rfl, ?_⟩)
    exact Prog.after_bind_iff.mpr (.inr ⟨b', tr, [], (List.append_nil tr).symm, hflush, .nil _⟩)

/-- `SimpleApply` asks the coalescer, and returns what it is told. -/
theorem simpleApply_asks (hid : d.id ≠ "") (hd : d.desired ≠ .active) (hco : a.coalesced = true)
    (hpolls : a.polls ≠ 0) {e : Placement} (hver : e.opVersion < d.opVersion) (ticket : ℕ) (t : Time) :
    ∃ q, (a.simpleApply d).After [⟨.getPlacement d.id, .ok (some e)⟩, ⟨.now, t⟩,
        ⟨.submit (some (d.stamp .ok t)), .ok ticket⟩] q ∧
      ∀ err : Err, q.After [⟨.poll ticket, some err⟩]
        (.done (err.map (GoError.wrap "simple-apply: coalesce"))) := by
  have hflip : a.trySelectorFlip (d.stamp .ok t) = .done false := by
    unfold EntryActions.trySelectorFlip
    rw [if_pos (.inr hd)]
    rfl
  obtain ⟨polls, hpolls⟩ := Nat.exists_eq_succ_of_ne_zero hpolls
  have hrest : ∃ q, (applyRest a (d.stamp .ok t)).After
      [⟨.submit (some (d.stamp .ok t)), .ok ticket⟩] q ∧ ∀ err : Err, q.After [⟨.poll ticket, some err⟩]
        (.done (err.map (GoError.wrap "simple-apply: coalesce"))) := by
    unfold applyRest EntryActions.rebuildWith
    rw [if_pos hco]
    refine ⟨_, Prog.after_bind_iff.mpr (.inl ⟨awaitAnswer ticket a.polls, ?_, rfl⟩), fun err => ?_⟩
    · exact Prog.after_invoke_iff.mpr (.inr ⟨_, _, rfl, .nil _⟩)
    · rw [hpolls]
      refine Prog.after_invoke_done_iff.mpr ⟨some err, [], rfl, ?_⟩
      cases err <;> exact .nil _
  obtain ⟨q, hq, hpoll⟩ := hrest
  refine ⟨q, ?_, hpoll⟩
  unfold EntryActions.simpleApply
  rw [if_neg hid, if_neg fun h => hd h.1]
  refine Prog.after_invoke_iff.mpr (.inr ⟨_, _, rfl, ?_⟩)
  dsimp only
  rw [if_neg fun h => hver.not_ge h.2]
  refine Prog.after_invoke_iff.mpr (.inr ⟨_, _, rfl, ?_⟩)
  split_ifs
  · rw [hflip]
    exact hq
  · exact hq

/-- There is a run in which `SimpleApply` returns in time. -/
theorem simpleApply_returns [Sum256] (hid : d.id ≠ "") (hd : d.desired ≠ .active) (hqueue : w.queue = [])
    {e : Placement} (hstored : w.store.get d.id = some e) (hver : e.opVersion < d.opVersion)
    (hpolls : a.polls ≠ 0) {maxBatch rounds : ℕ} (hrounds : 2 ≤ rounds) (last : Option Digest) :
    ∃ trs ts' w' r,
      Pool world (Env.Allowed false) (nextToLoop a (a.simpleApply d) maxBatch rounds last) w trs ts' w' ∧
      ts'[0]? = some (.done r) ∧ (a.coalesced = true → r ≠ some expired) := by
  cases hco : a.coalesced with
  | false =>
    have hrun := run_replay (H := world) (Env.allowed_default false) (p := a.simpleApply d) [] (by simp) w
    exact ⟨_, _, _, _, pool_of_after (i := 0) rfl hrun.1 hrun.2, rfl, fun h => by cases h⟩
  | true =>
    obtain ⟨q, hasks, hpoll⟩ := simpleApply_asks hid hd hco hpolls hver w.nextTicket 0
    let w₁ : World := { w with
      queue := w.queue ++ [⟨w.nextTicket, some (d.stamp .ok 0)⟩], nextTicket := w.nextTicket + 1 }
    have hqueue₁ : w₁.queue = [⟨w.nextTicket, some (d.stamp .ok 0)⟩] := by simp [w₁, hqueue]
    have hsteps₁ : Steps world (Env.Allowed false) w [⟨.getPlacement d.id, .ok (some e)⟩, ⟨.now, (0 : Time)⟩,
        ⟨.submit (some (d.stamp .ok 0)), .ok w.nextTicket⟩] w₁ := by
      refine ⟨default, Env.allowed_default _, ?_, default, Env.allowed_default _, rfl, default,
        Env.allowed_default _, rfl, rfl⟩
      rw [← hstored]
      rfl
    obtain ⟨tr₂, q₂, w₂, err, hloop, hsteps₂, hanswer, herr⟩ :=
      run_answers a maxBatch hrounds last hqueue₁
    have hsteps₃ : Steps world (Env.Allowed false) w₂ [⟨.poll w.nextTicket, some err⟩] w₂ :=
      ⟨default, Env.allowed_default _, hanswer, rfl⟩
    have hpool₁ : Pool world (Env.Allowed false) (nextToLoop a (a.simpleApply d) maxBatch rounds last) w
        _ _ w₁ := pool_of_after (i := 0) rfl hasks hsteps₁
    have hpool₂ : Pool world (Env.Allowed false) [q, run a maxBatch rounds { lastHash := last }] w₁
        _ _ w₂ := pool_of_after (i := 1) rfl hloop hsteps₂
    have hpool₃ : Pool world (Env.Allowed false) [q, q₂] w₂ _ _ w₂ :=
      pool_of_after (i := 0) rfl (hpoll err) hsteps₃
    refine ⟨_, _, w₂, _, pool_append.mpr ⟨_, w₁, hpool₁, pool_append.mpr ⟨_, w₂, hpool₂, hpool₃⟩⟩, rfl,
      fun _ h => herr ?_⟩
    cases err with
    | none => cases h
    | some err =>
      cases h
      rfl

end Progress

/-! ## Taking a placement back -/

/-- `SimpleApply` next to the loop can end with `r`. -/
def Returns [Lowering] [Sum256] (a : EntryActions) (d : Placement) (maxBatch rounds : ℕ)
    (last : Option Digest) (w : World) (r : Err) : Prop :=
  ∃ trs ts' w',
    Pool world (Env.Allowed false) (nextToLoop a (a.simpleApply d) maxBatch rounds last) w trs ts' w' ∧
    ts'[0]? = some (.done r)

/-- An inactive command for a stored placement can be applied, and is unless the context expires first,
exactly when nothing else stands in the way. -/
theorem deactivates_iff [Lowering] [Sum256] {a : EntryActions} {cmd : Command} {w : World} {e : Placement}
    {maxBatch rounds : ℕ} {last : Option Digest} (hd : cmd.placement.desired = .inactive)
    (hstored : w.store.get cmd.placement.id = some e) (hver : e.opVersion < cmd.placement.opVersion)
    (hbase : a.configPath ≠ "" → a.BaseOk w.singbox.file) (hqueue : w.queue = [])
    (hold : ∀ x ∈ w.answers, x.1 < w.nextTicket) (hpolls : a.polls ≠ 0) (hrounds : 2 ≤ rounds) :
    (Returns a cmd.placement maxBatch rounds last w none ∧
      ∀ r, Returns a cmd.placement maxBatch rounds last w r → r = none ∨ r = some expired) ↔
    Clear a w.store cmd.placement.id := by
  have hd' : cmd.placement.desired ≠ .active := by
    rw [hd]
    decide
  have houtcome : ∀ {trs ts' w' r}, Pool world (Env.Allowed false)
      (nextToLoop a (a.simpleApply cmd.placement) maxBatch rounds last) w trs ts' w' →
      ts'[0]? = some (.done r) → (a.coalesced = true → r ≠ some expired) →
      (r = none ↔ Clear a w.store cmd.placement.id) :=
    simpleApply_inactive_iff cmd.id_ne hd' hqueue hold hbase hstored hver
  constructor
  · rintro ⟨⟨trs, ts', w', hpool, hdone⟩, -⟩
    exact (houtcome hpool hdone fun _ h => by cases h).mp rfl
  · intro hclear
    constructor
    · obtain ⟨trs, ts', w', r, hpool, hdone, hexp⟩ :=
        simpleApply_returns cmd.id_ne hd' hqueue hstored hver hpolls hrounds last
      obtain rfl := (houtcome hpool hdone hexp).mpr hclear
      exact ⟨trs, ts', w', hpool, hdone⟩
    · rintro r ⟨trs, ts', w', hpool, hdone⟩
      by_cases hr : r = some expired
      · exact .inr hr
      · exact .inl ((houtcome hpool hdone fun _ => hr).mpr hclear)

section Fixed

open Eval

/-! ## Two users, and a backend that is removed -/

/-- The node, with the coalescer attached. -/
def entryNode : EntryActions := { EntryActions.bare with coalesced := true }

def listener : Listener where
  nodeID := "e"
  port := 443
  port_ne := by decide

/-- A backend appears. -/
def appears (id : BackendID) : Jsonv1.UpstreamChange where
  eventID := "x"
  nodeID := "e"
  backendID := id
  backendName := id
  publicDomain := "b.example"
  realityIP := ""
  internalWgIP := ""
  agentPort := 0
  removed := false

/-- It goes away. -/
def disappears (id : BackendID) : Jsonv1.UpstreamChange := { appears id with removed := true }

def bothKnown : Registry :=
  (listener.handle (.ok (appears "n2")) (listener.handle (.ok (appears "n1")) .new).2).2

def oneGone : Registry := (listener.handle (.ok (disappears "n2")) bothKnown).2

/-- The node with the given registry. -/
abbrev knowing (reg : Registry) : EntryActions := { entryNode with reg := reg }

/-- A user and its home. -/
def homeOf (id : PlacementID) (client : ClientID) (backend : BackendID) : Placement where
  id := id
  nodeID := "e"
  clientID := client
  backendNodeID := backend
  desired := .active
  opVersion := 1

def firstHome : Command := .carrying (homeOf "p1" "c1" "n1")

def secondHome : Command := .carrying (homeOf "p2" "c2" "n2")

/-- The first user is taken back. -/
def takeBack : Command :=
  .carrying { homeOf "p1" "c1" "n1" with desired := .inactive, opVersion := 2 }

/-- The caller up to its request, the loop, and the rest of the caller. -/
def turns : List (ℕ × Env) :=
  List.replicate 5 (0, default) ++ List.replicate 10 (1, default) ++ List.replicate 10 (0, default)

theorem allowed_turns : ∀ x ∈ turns, Env.Allowed false x.2 := by
  intro x hx
  unfold turns at hx
  simp only [List.mem_append, List.mem_replicate] at hx
  rcases hx with (⟨-, rfl⟩ | ⟨-, rfl⟩) | ⟨-, rfl⟩ <;> exact Env.allowed_default _

/-- The node handles a command. -/
def handles (cmd : Command) (w : World) : List (Tagged ports) × List (Go Err) × World :=
  schedule world (nextToLoop (knowing bothKnown) (Applier.handle "e"
    ((knowing bothKnown).flipExecutor default).executor (.ok cmd)) 1 1 none) turns w

def bothHome : World := (handles secondHome (handles firstHome {}).2.2).2.2

theorem reachable_bothHome : Reachable entryNode listener default bothKnown bothHome := by
  have hstart : Reachable entryNode listener default bothKnown {} :=
    .upstream (.ok (appears "n2")) (.upstream (.ok (appears "n1")) (.start {} rfl rfl) rfl) rfl
  have hfirst : Reachable entryNode listener default bothKnown (handles firstHome {}).2.2 :=
    .command 1 1 none (.ok firstHome) _ _ hstart (pool_schedule turns allowed_turns _)
      (getElem?_eq_done (by decide +kernel)) (by decide +kernel) (by decide +kernel)
  exact .command 1 1 none (.ok secondHome) _ _ hfirst (pool_schedule turns allowed_turns _)
    (getElem?_eq_done (by decide +kernel)) (by decide +kernel) (by decide +kernel)

theorem stored_firstHome :
    bothHome.store.get takeBack.placement.id = some (firstHome.placement.stamp .ok 0) := by
  decide +kernel

/-- With both backends known, the first user can be taken back. -/
theorem deactivates_both_known :
    Reachable entryNode listener default bothKnown bothHome ∧
    Returns (knowing bothKnown) takeBack.placement 1 2 none bothHome none ∧
    ∀ r, Returns (knowing bothKnown) takeBack.placement 1 2 none bothHome r →
      r = none ∨ r = some expired := by
  have hclear : Clear (knowing bothKnown) bothHome.store takeBack.placement.id :=
    ⟨by decide, by decide +kernel, by decide +kernel⟩
  exact ⟨reachable_bothHome, (deactivates_iff rfl stored_firstHome (by decide) (fun h => absurd rfl h)
    (by decide +kernel) (by decide +kernel) (by decide) (by decide)).mpr hclear⟩

/-- When the second user's backend has gone, the first user cannot be taken back. -/
theorem deactivation_blocked : ∃ e,
    Reachable entryNode listener default oneGone bothHome ∧
    takeBack.placement.desired = .inactive ∧
    bothHome.store.get takeBack.placement.id = some e ∧
    e.opVersion < takeBack.placement.opVersion ∧
    Returns (knowing oneGone) takeBack.placement 1 2 none bothHome
      (some (.wrap "simple-apply: coalesce" (.wrap "coalescer: render"
        (.new "singboxgen: placement p2 references unknown backend \"n2\"")))) :=
  ⟨_, .upstream (.ok (disappears "n2")) reachable_bothHome rfl, rfl, stored_firstHome, by decide,
    _, _, _, pool_schedule turns allowed_turns _, getElem?_eq_done (by decide +kernel)⟩

end Fixed

end NodeAgent.External
