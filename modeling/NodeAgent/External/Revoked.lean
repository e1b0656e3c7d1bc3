import NodeAgent.Executor.FlushSpec
import NodeAgent.External.Closure
import NodeAgent.External.Deactivation
import NodeAgent.Singboxgen.Frame

/-!
# A revoked key

`SimpleApply` stores whatever it accepts, and neither it nor the renderers look at the revocation: a
client is in the configuration when it has an active placement, revoked or not, or when the base has it
in a place that a merge does not write.
-/

namespace NodeAgent.External

open Lib Singboxgen RenderCoalescer

/-! ## The clients of a configuration -/

/-- The client is a user of the inbound. -/
def HasUser (c : ClientID) (inb : Json) : Prop := ∃ u ∈ usersOf inb, u.getStr? "uuid" = some c

/-- The client is a user of an inbound, or a rule is for it. -/
def Knows (c : ClientID) (j : Json) : Prop :=
  (∃ inb ∈ inboundsOf j, HasUser c inb) ∨ ∃ rule ∈ rulesOf j, c ∈ rule.getStrs "auth_user"

/-- The base has the client where a merge does not write: at an inbound that is not the node's own, at
any inbound if there are no users to write, or in a static rule. -/
def BaseKeeps (a : EntryActions) (c : ClientID) (served : Prop) : BaseFile → Prop
  | .json root =>
    (∃ inb ∈ inboundsOf root, HasUser c inb ∧ (isOwnInbound (a.nodeState []) inb = true → ¬ served)) ∨
      ∃ rule ∈ staticRules root, c ∈ rule.getStrs "auth_user"
  | _ => False

section Clients

variable {a : EntryActions} {s : NodeState} {c : ClientID}

/-- The placement has the client in use. -/
def Uses (c : ClientID) (p : Placement) : Prop := p.clientID = c ∧ p.desired = .active

theorem mem_collectActiveUsers_iff (hv : validate s = .ok ()) :
    c ∈ (collectActiveUsers s.placements).map VlessUser.uuid ↔ ∃ p ∈ s.placements, Uses c p := by
  rw [mem_collectActiveUsers]
  constructor
  · rintro ⟨-, p, hp, hd, hc⟩
    exact ⟨p, hp, hc, hd⟩
  · rintro ⟨p, hp, hc, hd⟩
    refine ⟨?_, p, hp, hd, hc⟩
    rw [← hc]
    exact ((validate_ok_iff.mp hv).2 p hp hd).1

theorem hasUser_mergedUsers (hv : validate s = .ok ()) {inb : Json} (h : usersOf inb = mergedUsers s) :
    HasUser c inb ↔ ∃ p ∈ s.placements, Uses c p := by
  rw [← mem_collectActiveUsers_iff hv, HasUser, h, mergedUsers, List.mem_map]
  simp only [List.mem_map]
  constructor
  · rintro ⟨_, ⟨u, hu, rfl⟩, hc⟩
    exact ⟨u, hu, Option.some.inj hc⟩
  · rintro ⟨u, hu, rfl⟩
    exact ⟨_, ⟨u, hu, rfl⟩, rfl⟩

theorem usersOf_toJson (i : Inbound) : usersOf i.toJson = i.users.map VlessUser.toJson := by
  unfold usersOf Json.getArr? Inbound.toJson
  rw [Json.get?_obj]
  simp [List.lookup_append, lookup_strMember, lookup_flagMember_of_ne, Json.lookup_cons, Json.arr?]

theorem inboundsOf_toJson (cfg : SingBoxConfig) :
    inboundsOf cfg.toJson = cfg.inbounds.map Inbound.toJson := by
  obtain ⟨log, inbounds, outbounds, route, experimental⟩ := cfg
  cases log <;> rfl

/-- A built configuration has the clients of the active placements. -/
theorem knows_build [Lowering] {cfg : SingBoxConfig} (h : build s = .ok cfg) :
    Knows c cfg.toJson ↔ ∃ p ∈ s.placements, Uses c p := by
  have hmerge : mergeBase .empty s = .ok (.built cfg) := by
    rw [mergeBase, h]
    rfl
  have hv := validate_of_mergeBase hmerge
  obtain ⟨-, hroute, hin⟩ := build_eq h
  constructor
  · rintro (⟨inb, hinb, u, hu, hc⟩ | ⟨rule, hrule, hc⟩)
    · rw [inboundsOf_toJson, hin, List.map_singleton, List.mem_singleton] at hinb
      rw [hinb, usersOf_toJson] at hu
      obtain ⟨v, hv', rfl⟩ := List.mem_map.mp hu
      rw [← mem_collectActiveUsers_iff hv]
      exact List.mem_map.mpr ⟨v, hv', Option.some.inj hc⟩
    · rw [rulesOf_toJson, hroute] at hrule
      obtain ⟨r, hr, rfl⟩ := List.mem_map.mp hrule
      obtain ⟨u, hu, rfl⟩ := mem_rules_buildRoute.mp hr
      rw [getStrs_authUser_rule, List.mem_singleton] at hc
      obtain ⟨p, hp, hrouted, rfl⟩ := mem_routedUsers.mp hu
      exact ⟨p, hp, hc.symm, (routed_iff.mp hrouted).1⟩
  · intro hp
    obtain ⟨v, hv', rfl⟩ := List.mem_map.mp ((mem_collectActiveUsers_iff hv).mpr hp)
    refine .inl ⟨(buildInbound s.inbound s.placements).toJson, ?_, v.toJson, ?_, rfl⟩
    · rw [inboundsOf_toJson, hin]
      exact List.mem_singleton_self _
    · rw [usersOf_toJson]
      exact List.mem_map_of_mem hv'

/-- A merge keeps the users of an inbound that it does not write. -/
theorem hasUser_mergeInbound (hv : validate s = .ok ()) (inb : Json) :
    HasUser c (mergeInbound s (mergedUsers s) inb) ↔
      (isOwnInbound s inb = true ∧ ∃ p ∈ s.placements, Uses c p) ∨
      (HasUser c inb ∧ (isOwnInbound s inb = true → ¬ ∃ p ∈ s.placements, p.desired = .active)) := by
  by_cases hact : ∃ p ∈ s.placements, p.desired = .active
  · by_cases hown : isOwnInbound s inb = true
    · rcases mergeInbound_own (mergedUsers s) hown with ⟨-, hnil⟩ | husers
      · exact absurd hnil (mergedUsers_ne_nil hv hact)
      · simp [hasUser_mergedUsers hv husers, hown, hact]
    · rw [(inboundKept_mergeInbound (s := s) (mergedUsers s) inb).1 (by simpa using hown)]
      simp [hown]
  · have hno : ¬ ∃ p ∈ s.placements, Uses c p := fun ⟨p, hp, _, hd⟩ => hact ⟨p, hp, hd⟩
    rw [mergedUsers_eq_nil hact, mergeInbound_nil]
    simp [hno, hact]

/-- What a render has of a client: its active placements, and what the base keeps. -/
theorem knows_renderOver [Lowering] {base : BaseFile} {ps : List Placement} {data : Rendered}
    (h : a.renderOver base (a.nodeState ps) = .ok data) :
    Knows c data.toJson ↔
      (∃ p ∈ ps, Uses c p) ∨ BaseKeeps a c (∃ p ∈ ps, p.desired = .active) base := by
  have hmerge := EntryActions.mergeBase_of_renderOver h
  have hv := validate_of_mergeBase hmerge
  cases base with
  | empty =>
    obtain ⟨cfg, hcfg, rfl⟩ := mergeBase_empty hmerge
    exact (knows_build hcfg).trans (or_iff_left id).symm
  | malformed err =>
    rw [mergeBase, hv] at hmerge
    cases hmerge
  | json root =>
    obtain ⟨-, hrules⟩ := mergeBase_json hmerge
    obtain ⟨-, m, inbounds, rfl, hin, hany, rfl⟩ := mergeBase_json_iff.mp hmerge
    have hroot : inboundsOf (.obj m) = inbounds := by
      unfold inboundsOf Json.getArr?
      rw [Json.get?_obj, hin]
      rfl
    have hown : ∀ inb, isOwnInbound (a.nodeState []) inb = isOwnInbound (a.nodeState ps) inb :=
      isOwnInbound_congr rfl
    constructor
    · rintro (⟨inb', hinb, huser⟩ | ⟨rule, hrule, hc⟩)
      · rw [inboundsOf_merged] at hinb
        obtain ⟨inb, hmem, rfl⟩ := List.mem_map.mp hinb
        rcases (hasUser_mergeInbound hv inb).mp huser with ⟨-, hp⟩ | ⟨huser, hno⟩
        · exact .inl hp
        · refine .inr (.inl ⟨inb, hroot ▸ hmem, huser, ?_⟩)
          rw [hown]
          exact hno
      · rw [hrules, List.mem_append] at hrule
        rcases hrule with hrule | hrule
        · obtain ⟨x, hx, rfl⟩ := List.mem_map.mp hrule
          obtain ⟨p, hp, hrouted, rfl⟩ := mem_routedPairs.mp hx
          exact .inl ⟨p, hp, (List.mem_singleton.mp hc).symm, (routed_iff.mp hrouted).1⟩
        · exact .inr (.inr ⟨rule, hrule, hc⟩)
    · rintro (hp | ⟨inb, hinb, huser, hno⟩ | ⟨rule, hrule, hc⟩)
      · obtain ⟨inb, hinb, hmine⟩ := List.any_eq_true.mp hany
        refine .inl ⟨mergeInbound _ _ inb, ?_, (hasUser_mergeInbound hv inb).mpr (.inl ⟨hmine, hp⟩)⟩
        rw [inboundsOf_merged]
        exact List.mem_map_of_mem hinb
      · rw [hown] at hno
        refine .inl ⟨mergeInbound _ _ inb, ?_, (hasUser_mergeInbound hv inb).mpr (.inr ⟨huser, hno⟩)⟩
        rw [inboundsOf_merged]
        exact List.mem_map_of_mem (hroot ▸ hinb)
      · refine .inr ⟨rule, ?_, hc⟩
        rw [hrules]
        exact List.mem_append_right _ hrule

end Clients

/-! ## What is accepted is stored -/

section Accepted

variable {a : EntryActions} {d : Placement} {tr : List GoEvent}

theorem persist_nil {text : String} (h : (EntryActions.persist text d).After tr (.done none)) :
    (⟨.putPlacement d, none⟩ : GoEvent) ∈ tr := by
  obtain ⟨reply, tr', rfl, h'⟩ := Prog.after_invoke_done_iff.mp h
  cases reply with
  | some err =>
    obtain ⟨-, heq⟩ := Prog.after_done_iff.mp h'
    cases heq
  | none => exact List.mem_cons_self

/-- A rebuild that comes through has stored the placement, or has had an answer from the coalescer. -/
theorem rebuildWith_nil [Lowering] {text render write reload persist : String}
    (h : (a.rebuildWith text render write reload persist d).After tr (.done none)) :
    (⟨.putPlacement d, none⟩ : GoEvent) ∈ tr ∨ ∃ ticket,
      (⟨.submit (some d), .ok ticket⟩ : GoEvent) ∈ tr ∧
      (⟨.poll ticket, some none⟩ : GoEvent) ∈ tr := by
  unfold EntryActions.rebuildWith at h
  split_ifs at h
  · obtain ⟨err, tr₁, tr₂, rfl, h₁, h₂⟩ := Prog.after_bind_done_iff.mp h
    cases err with
    | some err =>
      obtain ⟨-, heq⟩ := Prog.after_done_iff.mp h₂
      cases heq
    | none =>
      obtain ⟨reply, tr₃, rfl, h₃⟩ := Prog.after_invoke_done_iff.mp h₁
      cases reply with
      | error err =>
        obtain ⟨-, heq⟩ := Prog.after_done_iff.mp h₃
        cases heq
      | ok ticket =>
        rcases awaitAnswer_after h₃ with hexp | hpoll
        · cases hexp
        · exact .inr ⟨ticket, by simp, by simp [hpoll]⟩
  · obtain ⟨err, tr₁, tr₂, rfl, -, h₂⟩ := Prog.after_bind_done_iff.mp h
    cases err with
    | some err =>
      obtain ⟨-, heq⟩ := Prog.after_done_iff.mp h₂
      cases heq
    | none => exact .inl (List.mem_append_right _ (persist_nil h₂))

/-- A command that is accepted was stale, or is stored, or has had an answer from the coalescer. -/
theorem simpleApply_nil [Lowering] (h : (a.simpleApply d).After tr (.done none)) :
    ∃ found rest, tr = ⟨.getPlacement d.id, .ok found⟩ :: rest ∧
      ((found.getD {}).opVersion ≥ d.opVersion ∨ ∃ t,
        (⟨.putPlacement (d.stamp .ok t), none⟩ : GoEvent) ∈ tr ∨ ∃ ticket,
          (⟨.submit (some (d.stamp .ok t)), .ok ticket⟩ : GoEvent) ∈ tr ∧
          (⟨.poll ticket, some none⟩ : GoEvent) ∈ tr) := by
  unfold EntryActions.simpleApply at h
  split_ifs at h
  · obtain ⟨-, heq⟩ := Prog.after_done_iff.mp h
    cases heq
  · obtain ⟨-, heq⟩ := Prog.after_done_iff.mp h
    cases heq
  · obtain ⟨reply, rest, rfl, h₁⟩ := Prog.after_invoke_done_iff.mp h
    cases reply with
    | error err =>
      obtain ⟨-, heq⟩ := Prog.after_done_iff.mp h₁
      cases heq
    | ok found =>
      refine ⟨found, rest, rfl, ?_⟩
      dsimp only at h₁
      split_ifs at h₁ with hstale
      · exact .inl hstale.2
      · obtain ⟨t, tr₂, rfl, h₂⟩ := Prog.after_invoke_done_iff.mp h₁
        obtain ⟨flipped, tr₃, tr₄, rfl, -, h₄⟩ := Prog.after_bind_done_iff.mp h₂
        refine .inr ⟨t, ?_⟩
        cases flipped with
        | true => exact .inl (by simp [persist_nil h₄])
        | false =>
          refine (rebuildWith_nil h₄).imp (fun hput => by simp [hput]) ?_
          rintro ⟨ticket, hsub, hpoll⟩
          exact ⟨ticket, by simp [hsub], by simp [hpoll]⟩

/-- What is submitted is the placement. -/
theorem simpleApply_submits [Lowering] : (a.simpleApply d).All
    fun c : Call => ∀ overlay, c = .submit overlay → ∃ t, overlay = some (d.stamp .ok t) := by
  unfold EntryActions.simpleApply
  split_ifs
  · trivial
  · trivial
  · refine Prog.all_invoke_bind.mpr ⟨(fun _ h => by cases h), fun r => ?_⟩
    cases r with
    | error err => trivial
    | ok found =>
      dsimp only
      split_ifs
      · trivial
      · refine Prog.all_invoke_bind.mpr ⟨(fun _ h => by cases h), fun t => ?_⟩
        refine Prog.All.bind ?_ fun flipped => ?_
        · split_ifs
          · exact EntryActions.trySelectorFlip_all (fun _ h => by cases h) (fun _ _ _ h => by cases h) _
          · trivial
        cases flipped with
        | true =>
          refine Prog.all_invoke_bind.mpr ⟨(fun _ h => by cases h), fun r => ?_⟩
          cases r <;> trivial
        | false =>
          exact (rebuildWith_submits _ _ _ _ _).mono fun c hc overlay h => ⟨t, hc overlay h⟩

end Accepted

section Pool

variable [Lowering] [Sum256] {A : Env → Prop} {a : EntryActions} {d : Placement} {maxBatch rounds : ℕ}
  {last : Option Digest} {w w' : World} {trs : List (Tagged ports)} {ts' : List (Go Err)}

/-- When the loop answers that all is well, it has stored the placement. -/
theorem stored_of_answer
    (h : Pool world A (nextToLoop a (a.simpleApply d) maxBatch rounds last) w trs ts' w')
    (hqueue : w.queue = []) {ev : GoEvent} (hev : ev ∈ trs.map Prod.snd) {ticket : ℕ}
    (hc : ev.call = .answer ticket none) :
    ∃ t, (⟨.putPlacement (d.stamp .ok t), none⟩ : GoEvent) ∈ trs.map Prod.snd := by
  obtain ⟨q, -, hafter⟩ := h.1.after (i := 0) rfl
  obtain ⟨b, part, out, inv, pending, sub, hpart, hnil⟩ | ⟨timer, err, -, herr⟩ :=
    answered_by_flush h hqueue (simpleApply_submits.of_mem hafter) hev hc
  · obtain ⟨p, hp⟩ := inv.2 pending
    obtain ⟨t, rfl⟩ := inv.1 _ _ hp
    have hwritten := (after_flush hpart).written_of_nil hnil.symm d.id
    rw [hp] at hwritten
    exact ⟨t, List.mem_map.mpr ⟨_, mem_eventsOf.mp (sub (mem_of_written hwritten)), rfl⟩⟩
  · cases herr

/-- A newer command that is accepted is stored, and nothing else is. -/
theorem simpleApply_stored (hqueue : w.queue = []) (hold : ∀ x ∈ w.answers, x.1 < w.nextTicket)
    (hver : ((w.store.get d.id).getD {}).opVersion < d.opVersion)
    (h : Pool world A (nextToLoop a (a.simpleApply d) maxBatch rounds last) w trs ts' w')
    (hdone : ts'[0]? = some (.done none)) : ∃ t, w'.store = w.store.put (d.stamp .ok t) := by
  obtain ⟨q, hq, hafter⟩ := h.1.after (i := 0) rfl
  rw [hdone] at hq
  cases hq
  have hin : ∀ ev ∈ eventsOf 0 trs, ev ∈ trs.map Prod.snd := fun ev hev =>
    List.mem_map.mpr ⟨_, mem_eventsOf.mp hev, rfl⟩
  obtain ⟨t, hput⟩ : ∃ t, (⟨.putPlacement (d.stamp .ok t), none⟩ : GoEvent) ∈ trs.map Prod.snd := by
    obtain ⟨found, rest, heq, hcase⟩ := simpleApply_nil hafter
    obtain rfl := read_first h hqueue heq
    rcases hcase with hstale | ⟨t, hput | ⟨ticket, hsub, hpoll⟩⟩
    · exact absurd hver hstale.not_gt
    · exact ⟨t, hin _ hput⟩
    · obtain ⟨ev, hev, hc⟩ := answered_of_polled h.2 hold (hin _ hsub) (hin _ hpoll)
      exact stored_of_answer h hqueue hev hc
  have hputs : ∀ p, (⟨.putPlacement p, none⟩ : GoEvent) ∈ trs.map Prod.snd → ∃ t, p = d.stamp .ok t :=
    fun p hp => (stored_eq_stamp h hqueue hp).1 p rfl
  have hdels : ∀ x, (⟨.deletePlacement x, none⟩ : GoEvent) ∉ trs.map Prod.snd :=
    fun x hx => (stored_eq_stamp h hqueue hx).2 x rfl
  have hothers : ∀ id, id ≠ d.id → w'.store.get id = w.store.get id := by
    intro id hid
    refine steps_store_invariant (I := fun s => s.get id = w.store.get id) h.2 ?_ ?_ rfl
    · intro p hp s hs
      obtain ⟨t, rfl⟩ := hputs p hp
      exact (Store.get_put_of_ne s (d.stamp .ok t) hid).trans hs
    · exact fun x hx => absurd hx (hdels x)
  -- from the put on, the record is the placement in some outcome
  obtain ⟨t', hown⟩ : ∃ t, w'.store.get d.id = some (d.stamp .ok t) := by
    obtain ⟨tr₁, tr₂, w₁, e, heq, -, -, hr, h₂⟩ := h.2.split_mem hput
    have hin₂ : ∀ ev ∈ tr₂, ev ∈ trs.map Prod.snd := fun ev hev => by
      rw [heq]
      simp [hev]
    refine steps_store_invariant (I := fun s => ∃ t, s.get d.id = some (d.stamp .ok t)) h₂ ?_ ?_ ⟨t, ?_⟩
    · intro p hp s _
      obtain ⟨t, rfl⟩ := hputs p (hin₂ _ hp)
      exact ⟨t, Store.get_put_self s (d.stamp .ok t)⟩
    · exact fun x hx => absurd (hin₂ _ hx) (hdels x)
    · show (World.exec (.putPlacement (d.stamp .ok t)) e w₁).2.store.get d.id = _
      rw [exec_putPlacement hr]
      exact Store.get_put_self w₁.store (d.stamp .ok t)
  refine ⟨t', Store.ext_get fun id => ?_⟩
  by_cases hid : id = d.id
  · rw [hid, hown]
    exact (Store.get_put_self w.store (d.stamp .ok t')).symm
  · rw [hothers id hid]
    exact (Store.get_put_of_ne w.store (d.stamp .ok t') hid).symm

/-- The client of a revoked command that is accepted is not rendered just if none of its revoked
placements is active and the base does not keep it. The other active placements of the client, if there
are any, are revoked. -/
theorem revoked_absent_iff (hrevoked : d.isRevoked = true)
    (hver : ((w.store.get d.id).getD {}).opVersion < d.opVersion) (hqueue : w.queue = [])
    (hold : ∀ x ∈ w.answers, x.1 < w.nextTicket)
    (h : Pool world A (nextToLoop a (a.simpleApply d) maxBatch rounds last) w trs ts' w')
    (hdone : ts'[0]? = some (.done none))
    (hothers : ∀ p ∈ w'.store.list, p.id ≠ d.id → Uses d.clientID p → p.isRevoked = true)
    {base : BaseFile} {data : Rendered}
    (hrender : a.renderOver base (a.nodeState w'.store.list) = .ok data) :
    ¬ Knows d.clientID data.toJson ↔
      (¬ ∃ p ∈ (w.store.put d).list, p.isRevoked = true ∧ Uses d.clientID p) ∧
        ¬ BaseKeeps a d.clientID (∃ p ∈ (w.store.put d).list, p.desired = .active) base := by
  obtain ⟨t, hstore⟩ := simpleApply_stored hqueue hold hver h hdone
  -- the outcome and the time make no difference
  have hstamp : ∀ P : Placement → Prop, (P (d.stamp .ok t) ↔ P d) →
      ((∃ p ∈ w'.store.list, P p) ↔ ∃ p ∈ (w.store.put d).list, P p) := by
    intro P hP
    rw [hstore, Store.exists_mem_list_put, Store.exists_mem_list_put, hP]
    rfl
  have huses : (∃ p ∈ w'.store.list, Uses d.clientID p) ↔
      ∃ p ∈ w'.store.list, p.isRevoked = true ∧ Uses d.clientID p := by
    refine ⟨fun ⟨p, hp, hu⟩ => ⟨p, hp, ?_, hu⟩, fun ⟨p, hp, _, hu⟩ => ⟨p, hp, hu⟩⟩
    by_cases hid : p.id = d.id
    · have hget := Store.get_of_mem_list hp hid
      rw [hstore] at hget
      cases (Store.get_put_self w.store (d.stamp .ok t)).symm.trans hget
      exact hrevoked
    · exact hothers p hp hid hu
  rw [knows_renderOver hrender, not_or, huses, hstamp _ Iff.rfl, hstamp _ Iff.rfl]

end Pool

section Fixed

open Eval

/-! ## A client that is revoked -/

/-- The first user's key is revoked. -/
def revokeFirst (desired : DesiredState) : Placement :=
  { homeOf "p1" "c1" "n1" with desired := desired, isRevoked := true, opVersion := 2 }

/-- The node applies a placement next to the loop. -/
def applies (d : Placement) (w : World) : List (Tagged ports) × List (Go Err) × World :=
  schedule world (nextToLoop (knowing bothKnown) ((knowing bothKnown).simpleApply d) 1 2 none) turns w

/-- If it is inactive, it is taken out. -/
theorem revoked_absent_inactive :
    (applies (revokeFirst .inactive) bothHome).2.1[0]? = some (.done none) ∧
    ∃ data, (knowing bothKnown).renderOver .empty
        ((knowing bothKnown).nodeState (applies (revokeFirst .inactive) bothHome).2.2.store.list) =
          .ok data ∧
      ¬ Knows "c1" data.toJson := by
  have hdone : (applies (revokeFirst .inactive) bothHome).2.1[0]? = some (.done none) :=
    getElem?_eq_done (by decide +kernel)
  have hpool : Pool world (Env.Allowed false) (nextToLoop (knowing bothKnown)
      ((knowing bothKnown).simpleApply (revokeFirst .inactive)) 1 2 none) bothHome _ _ _ :=
    pool_schedule turns allowed_turns bothHome
  have hothers : ∀ p ∈ (applies (revokeFirst .inactive) bothHome).2.2.store.list,
      p.id ≠ "p1" → p.clientID = "c1" ∧ p.desired = .active → p.isRevoked = true := by
    decide +kernel
  obtain ⟨data, hdata⟩ : ∃ data, (knowing bothKnown).renderOver .empty
      ((knowing bothKnown).nodeState (applies (revokeFirst .inactive) bothHome).2.2.store.list) =
        .ok data :=
    (EntryActions.renderOver_ok_iff (.inl rfl)).mpr (by decide +kernel)
  refine ⟨hdone, data, hdata, (revoked_absent_iff (d := revokeFirst .inactive) rfl (by decide +kernel)
    (by decide +kernel) (by decide +kernel) hpool hdone hothers hdata).mpr ⟨?_, id⟩⟩
  show ¬ ∃ p ∈ (bothHome.store.put (revokeFirst .inactive)).list,
    p.isRevoked = true ∧ p.clientID = "c1" ∧ p.desired = .active
  decide +kernel

/-- If it is active, it is accepted and stays in the configuration. -/
theorem revoked_rendered : ∃ trs ts' w' data,
    Reachable entryNode listener default bothKnown bothHome ∧
    (revokeFirst .active).isRevoked = true ∧
    ((bothHome.store.get "p1").getD {}).opVersion < (revokeFirst .active).opVersion ∧
    Pool world (Env.Allowed false) (nextToLoop (knowing bothKnown)
      ((knowing bothKnown).simpleApply (revokeFirst .active)) 1 2 none) bothHome trs ts' w' ∧
    ts'[0]? = some (.done none) ∧
    (∀ p ∈ w'.store.list, p.id ≠ "p1" → Uses "c1" p → p.isRevoked = true) ∧
    (knowing bothKnown).renderOver .empty ((knowing bothKnown).nodeState w'.store.list) = .ok data ∧
    Knows "c1" data.toJson := by
  have hdone : (applies (revokeFirst .active) bothHome).2.1[0]? = some (.done none) :=
    getElem?_eq_done (by decide +kernel)
  have hothers : ∀ p ∈ (applies (revokeFirst .active) bothHome).2.2.store.list,
      p.id ≠ "p1" → p.clientID = "c1" ∧ p.desired = .active → p.isRevoked = true := by
    decide +kernel
  have huses : ∃ p ∈ (applies (revokeFirst .active) bothHome).2.2.store.list,
      p.clientID = "c1" ∧ p.desired = .active := by
    decide +kernel
  obtain ⟨data, hdata⟩ : ∃ data, (knowing bothKnown).renderOver .empty
      ((knowing bothKnown).nodeState (applies (revokeFirst .active) bothHome).2.2.store.list) =
        .ok data :=
    (EntryActions.renderOver_ok_iff (.inl rfl)).mpr (by decide +kernel)
  exact ⟨_, _, _, data, reachable_bothHome, rfl, by decide +kernel,
    pool_schedule turns allowed_turns bothHome, hdone, hothers, hdata,
    (knows_renderOver hdata).mpr (.inl huses)⟩

end Fixed

end NodeAgent.External
