import NodeAgent.External.Flush
import NodeAgent.External.Selector

/-!
# Reloads after a selector flip

A flip that goes through the selector stores the placement, drains and then has the coalescer bring the
configuration up to the store. The two run next to each other; the coalescer compares what it renders
with the file it wrote last, and that is the only thing that keeps it from a reload.
-/

namespace NodeAgent.External

open Lib Singboxgen RenderCoalescer

/-! ## The calls of a flip -/

/-- What a flip calls before it stores the placement. -/
def Early : Call → Prop
  | .getPlacement _ => True
  | .listPlacements => True
  | .now => True
  | .ctxErr => True
  | .selectOutbound _ _ => True
  | _ => False

/-- What a flip calls after it has stored the placement. -/
def Late : Call → Prop
  | .now => True
  | .sleep _ => True
  | .ctxErr => True
  | .connections => True
  | .dial _ _ => True
  | .submit overlay => overlay = none
  | .poll _ => True
  | _ => False

/-- The selector has been set. -/
def Selects (tr : List GoEvent) : Prop :=
  ∃ tag target, (⟨.selectOutbound tag target, none⟩ : GoEvent) ∈ tr

/-- A request without an overlay was submitted and answered with success. -/
def Served (tr : List GoEvent) : Prop :=
  ∃ ticket, (⟨.submit none, .ok ticket⟩ : GoEvent) ∈ tr ∧ (⟨.poll ticket, some none⟩ : GoEvent) ∈ tr

theorem Early.calm {c : Call} (h : Early c) :
    c.writesStore = false ∧ c ≠ .reload ∧ ∀ overlay, c ≠ .submit overlay := by
  cases c <;> first | exact absurd h id | exact ⟨rfl, by simp, by simp⟩

theorem Late.calm {c : Call} (h : Late c) :
    c.writesStore = false ∧ c ≠ .reload ∧ ∀ overlay, c = .submit overlay → overlay = none := by
  cases c with
  | submit overlay =>
    refine ⟨rfl, (fun h => by cases h), fun o ho => ?_⟩
    cases ho
    exact h
  | _ => first | exact absurd h id | exact ⟨rfl, by simp, by simp⟩

theorem not_selects_of_late {tr : List GoEvent} (h : ∀ ev ∈ tr, Late ev.call) : ¬ Selects tr :=
  fun ⟨_, _, hmem⟩ => h _ hmem

theorem selects_append {tr tr' : List GoEvent} : Selects (tr ++ tr') ↔ Selects tr ∨ Selects tr' := by
  unfold Selects
  simp only [List.mem_append, exists_or]

section Actions

variable {a : EntryActions} {plan : FlipPlan} {d : Placement} {tr : List GoEvent}

theorem coalesce_none_calls (polls : ℕ) : (coalesce polls none).All Late :=
  EntryActions.coalesce_all (P := Late) rfl (fun _ => trivial) polls

theorem coalesce_none_done {polls : ℕ} (h : (coalesce polls none).After tr (.done none)) :
    Served tr := by
  obtain ⟨r, tr', rfl, h'⟩ := Prog.after_invoke_done_iff.mp h
  cases r with
  | error err => simp at h'
  | ok ticket =>
    rcases awaitAnswer_after h' with hexp | hpoll
    · cases hexp
    · exact ⟨ticket, List.mem_cons_self, List.mem_cons_of_mem _ hpoll⟩

theorem coolOldBackend_calls [Lowering] (hco : a.coalesced = true) (plan : FlipPlan) :
    (a.coolOldBackend plan).All Late := by
  unfold EntryActions.coolOldBackend EntryActions.rebuild
  rw [if_pos hco]
  refine (coalesce_none_calls a.polls).bind fun r => ?_
  cases r <;> trivial

theorem coolOldBackend_done [Lowering] (hco : a.coalesced = true) (plan : FlipPlan)
    (h : (a.coolOldBackend plan).After tr (.done none)) : Served tr := by
  unfold EntryActions.coolOldBackend EntryActions.rebuild at h
  rw [if_pos hco] at h
  obtain ⟨r, tr₁, tr₂, rfl, h₁, h₂⟩ := Prog.after_bind_done_iff.mp h
  cases r with
  | some err => simp at h₂
  | none =>
    obtain ⟨rfl, -⟩ := Prog.after_done_iff.mp h₂
    rw [List.append_nil]
    exact coalesce_none_done h₁

theorem trySelectorFlip_calls [Lowering] : (a.trySelectorFlip d).All Early :=
  EntryActions.trySelectorFlip_all trivial (fun _ _ => trivial) d

/-- A flip that is given up has not set the selector. -/
theorem trySelectorFlip_false [Lowering] (h : (a.trySelectorFlip d).After tr (.done false)) :
    ¬ Selects tr := by
  unfold EntryActions.trySelectorFlip at h
  split_ifs at h
  · obtain ⟨rfl, -⟩ := Prog.after_done_iff.mp h
    simp [Selects]
  · obtain ⟨r, tr₁, rfl, h₁⟩ := Prog.after_invoke_done_iff.mp h
    cases r with
    | error err =>
      obtain ⟨rfl, -⟩ := Prog.after_done_iff.mp h₁
      simp [Selects]
    | ok ps =>
      dsimp only at h₁
      split_ifs at h₁
      · cases hreg : a.reg.get d.backendNodeID with
        | none =>
          rw [hreg] at h₁
          obtain ⟨rfl, -⟩ := Prog.after_done_iff.mp h₁
          simp [Selects]
        | some spec =>
          rw [hreg] at h₁
          obtain ⟨r, tr₂, rfl, h₂⟩ := Prog.after_invoke_done_iff.mp h₁
          cases r with
          | none => simp at h₂
          | some err =>
            obtain ⟨rfl, -⟩ := Prog.after_done_iff.mp h₂
            simp [Selects]
      · obtain ⟨rfl, -⟩ := Prog.after_done_iff.mp h₁
        simp [Selects]

theorem rebuildWith_calls [Lowering] (hco : a.coalesced = true) (text render write reload persist : String)
    (d : Placement) : (a.rebuildWith text render write reload persist d).All
      fun c : Call => ∀ tag target, c ≠ .selectOutbound tag target := by
  unfold EntryActions.rebuildWith
  rw [if_pos hco]
  refine Prog.All.bind (EntryActions.coalesce_all (fun _ _ h => by cases h)
    (fun _ _ _ h => by cases h) a.polls) fun r => ?_
  cases r <;> trivial

/-- A swap through the selector ends with the put of the placement. -/
theorem swapRoute_selects [Lowering] (hco : a.coalesced = true) (h : (a.swapRoute plan).After tr (.done none))
    (hsel : Selects tr) :
    ∃ t pre, tr = pre ++ [⟨.putPlacement (plan.desired.stamp .ok t), none⟩] ∧
      ∀ ev ∈ pre, Early ev.call := by
  unfold EntryActions.swapRoute at h
  split_ifs at h
  · simp at h
  · simp at h
  obtain ⟨r, tr₁, rfl, h₁⟩ := Prog.after_invoke_done_iff.mp h
  cases r with
  | error err => simp at h₁
  | ok found =>
    dsimp only at h₁
    split_ifs at h₁
    · obtain ⟨rfl, -⟩ := Prog.after_done_iff.mp h₁
      simp [Selects] at hsel
    · obtain ⟨t, tr₂, rfl, h₂⟩ := Prog.after_invoke_done_iff.mp h₁
      obtain ⟨done, tr₃, tr₄, rfl, h₃, h₄⟩ := Prog.after_bind_done_iff.mp h₂
      cases done with
      | true =>
        obtain ⟨r, tr₅, rfl, h₅⟩ := Prog.after_invoke_done_iff.mp h₄
        cases r with
        | some err => simp at h₅
        | none =>
          obtain ⟨rfl, -⟩ := Prog.after_done_iff.mp h₅
          refine ⟨t, _ :: _ :: tr₃, rfl, ?_⟩
          refine List.forall_mem_cons.mpr ⟨trivial, List.forall_mem_cons.mpr ⟨trivial, ?_⟩⟩
          exact trySelectorFlip_calls.of_mem h₃
      | false =>
        -- neither the flip that is given up nor the request to the coalescer selects
        obtain ⟨tag, target, hmem⟩ := hsel
        have hmem' : (⟨.selectOutbound tag target, none⟩ : GoEvent) ∈ tr₃ ++ tr₄ := by simpa using hmem
        rcases List.mem_append.mp hmem' with hmem' | hmem'
        · exact absurd ⟨tag, target, hmem'⟩ (trySelectorFlip_false h₃)
        · exact absurd rfl ((rebuildWith_calls hco _ _ _ _ _ _).of_mem h₄ _ hmem' tag target)

theorem drain_calls [Lowering] (o : Flip.Options) : (Flip.drain a.actions o plan).All Late := by
  refine Flip.drain_all ?_ ?_ trivial fun _ => trivial
  · show (a.oldBackendReachable plan).All Late
    unfold EntryActions.oldBackendReachable
    cases a.reg.get plan.oldBackend with
    | none => trivial
    | some b => exact ⟨trivial, fun _ => trivial⟩
  · refine Prog.all_invoke_bind.mpr ⟨trivial, fun r => ?_⟩
    cases r <;> trivial

end Actions

/-! ## The phases of a flip -/

section Phases

variable {a : EntryActions} {o : Flip.Options} {plan plan' : FlipPlan} {tr : List GoEvent} {rounds : ℕ}

/-- A round of a flip that succeeds: the context check, the phase, and the rounds after it. -/
theorem after_executeLoop_succ {b : Flip.Actions}
    (h : (Flip.executeLoop b o (rounds + 1) plan).After tr (.done (plan', none))) :
    ∃ tr₁ tr₂, tr = ⟨.ctxErr, none⟩ :: (tr₁ ++ tr₂) ∧
      (Flip.runPhase b o plan plan.next).After tr₁ (.done none) ∧
      (if plan.next = .steady then tr₂ = []
        else (Flip.executeLoop b o rounds { plan with state := plan.next }).After tr₂
          (.done (plan', none))) := by
  rcases Flip.after_round h with ⟨e, -, -, herr⟩ | ⟨r, tr₁, tr₂, rfl, h₁, hrest⟩
  · cases herr
  · rcases hrest with ⟨-, -, -, herr⟩ | ⟨rfl, hnext, htr₂, -⟩ | ⟨rfl, hnext, h₂⟩
    · exact absurd rfl herr
    · exact ⟨tr₁, tr₂, rfl, h₁, by rw [if_pos hnext]; exact htr₂⟩
    · exact ⟨tr₁, tr₂, rfl, h₁, by rw [if_neg hnext]; exact h₂⟩

/-- From the swap on, a flip is late. -/
theorem executeLoop_calls [Lowering] (hco : a.coalesced = true)
    (hstate : plan.state = .swap ∨ plan.state = .cooling ∨ plan.state = .cool) :
    (Flip.executeLoop a.actions o rounds plan).All Late := by
  induction rounds generalizing plan with
  | zero => trivial
  | succ n ih =>
    refine Prog.all_invoke_bind.mpr ⟨trivial, fun r => ?_⟩
    cases r with
    | some err => trivial
    | none =>
      have hphase : (Flip.runPhase a.actions o plan plan.next).All Late := by
        unfold FlipPlan.next
        rcases hstate with hs | hs | hs
        · rw [hs]
          exact drain_calls o
        · rw [hs]
          exact coolOldBackend_calls hco plan
        · rw [hs]
          trivial
      refine hphase.bind fun r => ?_
      cases r with
      | some err => trivial
      | none =>
        dsimp only
        split_ifs with hnext
        · trivial
        · refine ih ?_
          unfold FlipPlan.next at hnext ⊢
          rcases hstate with hs | hs | hs
          · rw [hs]
            exact .inr (.inl rfl)
          · rw [hs]
            exact .inr (.inr rfl)
          · rw [hs] at hnext
            exact absurd rfl hnext

theorem validateBackend_silent (h : (a.validateBackend plan).After tr (.done none)) : tr = [] := by
  unfold EntryActions.validateBackend at h
  cases hreg : a.reg.get plan.newBackend with
  | none =>
    rw [hreg] at h
    exact (Prog.after_done_iff.mp h).1
  | some spec =>
    rw [hreg] at h
    exact (Prog.after_done_iff.mp h).1

/-- What is left of a flip after the swap is late, and cools the old backend. -/
theorem executeLoop_swapped [Lowering] (hco : a.coalesced = true) (hstate : plan.state = .swap)
    (h : (Flip.executeLoop a.actions o 3 plan).After tr (.done (plan', none))) :
    (∀ ev ∈ tr, Late ev.call) ∧ Served tr := by
  refine ⟨(executeLoop_calls hco (.inl hstate)).of_mem h, ?_⟩
  have hnext : plan.next = .cooling := by simp [FlipPlan.next, hstate]
  obtain ⟨tr₁, tr₂, rfl, -, h₂⟩ := after_executeLoop_succ h
  rw [hnext, if_neg (by decide)] at h₂
  obtain ⟨tr₃, tr₄, rfl, h₃, -⟩ := after_executeLoop_succ h₂
  obtain ⟨ticket, hsub, hpoll⟩ := coolOldBackend_done hco plan h₃
  have hin : ∀ ev ∈ tr₃,
      ev ∈ (⟨.ctxErr, none⟩ :: (tr₁ ++ ⟨.ctxErr, none⟩ :: (tr₃ ++ tr₄)) : List GoEvent) := by
    intro ev hev
    simp [hev]
  exact ⟨ticket, hin _ hsub, hin _ hpoll⟩

/-- The events of a flip that goes through the selector and succeeds. -/
structure Flipped (d : Placement) (tr : List GoEvent) : Prop where
  split : ∃ t pre post, tr = pre ++ ⟨.putPlacement (d.stamp .ok t), none⟩ :: post ∧
    (∀ ev ∈ pre, Early ev.call) ∧ (∀ ev ∈ post, Late ev.call) ∧ Served post

theorem Flipped.cons {d : Placement} {ev : GoEvent} (h : Flipped d tr) (hev : Early ev.call) :
    Flipped d (ev :: tr) := by
  obtain ⟨t, pre, post, rfl, hpre, hpost⟩ := h.split
  exact ⟨t, ev :: pre, post, rfl, List.forall_mem_cons.mpr ⟨hev, hpre⟩, hpost⟩

theorem Flipped.cases {d : Placement} {ev : GoEvent} (h : Flipped d tr) (hev : ev ∈ tr) :
    Early ev.call ∨ (∃ t, ev.call = .putPlacement (d.stamp .ok t)) ∨ Late ev.call := by
  obtain ⟨t, pre, post, rfl, hpre, hpost, -⟩ := h.split
  rcases List.mem_append.mp hev with hev | hev
  · exact .inl (hpre ev hev)
  · rcases List.mem_cons.mp hev with rfl | hev
    · exact .inr (.inl ⟨t, rfl⟩)
    · exact .inr (.inr (hpost ev hev))

/-- A round whose phase makes no calls leaves the flip to the rounds after it. -/
theorem flipped_of_silent [Lowering] {next : FlipState}
    (h : (Flip.executeLoop a.actions o (rounds + 1) plan).After tr (.done (plan', none)))
    (hnext : plan.next = next) (hne : next ≠ .steady)
    (hsilent : ∀ {tr₁}, (Flip.runPhase a.actions o plan next).After tr₁ (.done none) → tr₁ = [])
    (hrest : ∀ {tr₂}, (Flip.executeLoop a.actions o rounds { plan with state := next }).After tr₂
      (.done (plan', none)) → Selects tr₂ → Flipped plan.desired tr₂)
    (hsel : Selects tr) : Flipped plan.desired tr := by
  subst hnext
  obtain ⟨tr₁, tr₂, rfl, h₁, h₂⟩ := after_executeLoop_succ h
  rw [if_neg hne] at h₂
  obtain rfl := hsilent h₁
  obtain ⟨tag, target, hmem⟩ := hsel
  exact Flipped.cons (hrest h₂ ⟨tag, target, by simpa using hmem⟩) trivial

theorem executeLoop_flipped [Lowering] (hco : a.coalesced = true)
    (hrounds : rounds = Flip.phasesLeft plan.state)
    (h : (Flip.executeLoop a.actions o rounds plan).After tr (.done (plan', none)))
    (hsel : Selects tr) : Flipped plan.desired tr := by
  induction rounds generalizing plan tr with
  | zero =>
    obtain ⟨rfl, -⟩ := Prog.after_done_iff.mp h
    simp [Selects] at hsel
  | succ n ih =>
    have hleft : plan.next ≠ .steady → n = Flip.phasesLeft plan.next := fun hne => by
      have := Flip.phasesLeft_next plan hne
      omega
    have hlate : (∀ ev ∈ tr, Late ev.call) → Flipped plan.desired tr :=
      fun hall => absurd hsel (not_selects_of_late hall)
    cases hs : plan.state with
    | swap => exact hlate ((executeLoop_calls hco (.inl hs)).of_mem h)
    | cooling => exact hlate ((executeLoop_calls hco (.inr (.inl hs))).of_mem h)
    | cool => exact hlate ((executeLoop_calls hco (.inr (.inr hs))).of_mem h)
    | unset =>
      obtain ⟨tr₁, tr₂, rfl, h₁, h₂⟩ := after_executeLoop_succ h
      have hnext : plan.next = .steady := by simp [FlipPlan.next, hs]
      rw [if_pos hnext] at h₂
      rw [hnext] at h₁
      obtain ⟨rfl, -⟩ := Prog.after_done_iff.mp h₁
      subst h₂
      simp [Selects] at hsel
    | steady =>
      have hnext : plan.next = .announced := by simp [FlipPlan.next, hs]
      have hn : n = Flip.phasesLeft .announced := hnext ▸ hleft (by rw [hnext]; decide)
      exact flipped_of_silent h hnext (by decide) (fun h₁ => (Prog.after_done_iff.mp h₁).1)
        (fun h₂ => @ih { plan with state := .announced } _ hn h₂) hsel
    | announced =>
      have hnext : plan.next = .warming := by simp [FlipPlan.next, hs]
      have hn : n = Flip.phasesLeft .warming := hnext ▸ hleft (by rw [hnext]; decide)
      exact flipped_of_silent h hnext (by decide) validateBackend_silent
        (fun h₂ => @ih { plan with state := .warming } _ hn h₂) hsel
    | warming =>
      obtain ⟨tr₁, tr₂, rfl, h₁, h₂⟩ := after_executeLoop_succ h
      have hnext : plan.next = .swap := by simp [FlipPlan.next, hs]
      rw [if_neg (by rw [hnext]; decide)] at h₂
      rw [hnext] at h₁ h₂
      obtain rfl : n = 3 := by simpa [hs, Flip.phasesLeft] using hrounds
      obtain ⟨hlate₂, hserved⟩ := executeLoop_swapped hco rfl h₂
      have hsel₁ : Selects tr₁ := by
        rw [← List.cons_append, selects_append] at hsel
        rcases hsel with ⟨tag, target, hmem⟩ | hsel
        · exact ⟨tag, target, by simpa using hmem⟩
        · exact absurd hsel (not_selects_of_late hlate₂)
      obtain ⟨t, pre, rfl, hpre⟩ := swapRoute_selects hco h₁ hsel₁
      exact ⟨t, ⟨.ctxErr, none⟩ :: pre, tr₂, by simp, List.forall_mem_cons.mpr ⟨trivial, hpre⟩,
        hlate₂, hserved⟩

/-- A flip that succeeds and has set the selector. -/
theorem execute_flipped [Lowering] (hco : a.coalesced = true)
    (h : (Flip.execute a.actions o plan).After tr (.done (plan', none))) (hsel : Selects tr) :
    Flipped plan.desired tr := by
  have hloop : ∀ {p : FlipPlan} {tr : List GoEvent}, p.desired = plan.desired →
      (Flip.executeLoop a.actions o (Flip.phasesLeft p.state) p).After tr (.done (plan', none)) →
      Selects tr → Flipped plan.desired tr := by
    intro p tr hp h hsel
    rw [← hp]
    exact executeLoop_flipped hco rfl h hsel
  have hdesired : (if plan.state = .unset then { plan with state := .steady } else plan).desired =
      plan.desired := by split_ifs <;> rfl
  unfold Flip.execute at h
  generalize (if plan.state = .unset then { plan with state := .steady } else plan) = p at h hdesired
  dsimp only at h
  split_ifs at h
  · simp at h
  · simp at h
  · simp at h
  · obtain ⟨rfl, -⟩ := Prog.after_done_iff.mp h
    simp [Selects] at hsel
  · obtain ⟨t, tr', rfl, h'⟩ := Prog.after_invoke_done_iff.mp h
    refine (hloop (p := { p with startedAt := t }) hdesired h' ?_).cons trivial
    obtain ⟨tag, target, hmem⟩ := hsel
    exact ⟨tag, target, by simpa using hmem⟩
  · exact hloop hdesired h hsel

end Phases

/-! ## What a build looks at -/

/-- A placement without its outcome. -/
def bare (p : Placement) : Placement := { p with applied := .unset, lastAppliedAt := 0 }

theorem validatePlacements_bare (seen : List BackendID) (ps : List Placement) :
    validatePlacements seen (ps.map bare) = validatePlacements seen ps := by
  induction ps with
  | nil => rfl
  | cons p ps ih =>
    rw [List.map_cons, validatePlacements, validatePlacements, ih]
    rfl

theorem activeUsers_bare (seen : List ClientID) (ps : List Placement) :
    activeUsers seen (ps.map bare) = activeUsers seen ps := by
  induction ps generalizing seen with
  | nil => rfl
  | cons p ps ih =>
    rw [List.map_cons, activeUsers, activeUsers, ih, ih]
    rfl

theorem filter_routed_bare (bs : List BackendSpec) (ps : List Placement) :
    (ps.map bare).filter (routed bs) = (ps.filter (routed bs)).map bare := by
  rw [List.filter_map]
  rfl

/-- A build does not look at the outcomes. -/
theorem build_bare [Lowering] (a : EntryActions) (ps : List Placement) :
    build (a.nodeState (ps.map bare)) = build (a.nodeState ps) := by
  have husers : routedUsers (ps.map bare) a.reg.all = routedUsers ps a.reg.all := by
    unfold routedUsers
    rw [filter_routed_bare, List.map_map]
    rfl
  have hdesired : desiredBackendByUser (ps.map bare) a.reg.all = desiredBackendByUser ps a.reg.all := by
    funext u
    unfold desiredBackendByUser
    rw [filter_routed_bare, List.filter_map, List.map_map]
    rfl
  have hvalidate : validate (a.nodeState (ps.map bare)) = validate (a.nodeState ps) := by
    unfold validate EntryActions.nodeState
    simp only [validatePlacements_bare]
  have hinbound : buildInbound a.inbound (ps.map bare) = buildInbound a.inbound ps := by
    unfold buildInbound collectActiveUsers
    rw [activeUsers_bare]
  have hout : buildOutbounds (ps.map bare) a.reg.all = buildOutbounds ps a.reg.all := by
    unfold buildOutbounds
    rw [husers, hdesired]
  have hroute : buildRoute (ps.map bare) a.reg.all = buildRoute ps a.reg.all := by
    unfold buildRoute
    rw [husers]
  unfold build
  rw [hvalidate]
  cases validate (a.nodeState ps) with
  | error err => rfl
  | ok u =>
    show Except.ok _ = Except.ok _
    simp only [EntryActions.nodeState, hinbound, hout, hroute]
    rfl

theorem list_put_bare (s : Store) {p q : Placement} (h : bare p = bare q) :
    (s.put p).list.map bare = (s.put q).list.map bare := by
  have hid : (bare p).id = (bare q).id := by rw [h]
  change p.id = q.id at hid
  have hsorted : ∀ s : Store, (s.list.map bare).Pairwise fun p q => p.id < q.id := fun s =>
    List.pairwise_map.mpr s.pairwise_list
  have hmem : ∀ x, x ∈ (s.put p).list.map bare ↔ x ∈ (s.put q).list.map bare := by
    intro x
    simp only [List.mem_map]
    rw [Store.exists_mem_list_put s p fun y => bare y = x,
      Store.exists_mem_list_put s q fun y => bare y = x, h, hid]
  have hnodup : ∀ s : Store, (s.list.map bare).Nodup := fun s =>
    (hsorted s).imp fun hlt heq => absurd (congrArg Placement.id heq) hlt.ne
  refine List.Perm.eq_of_pairwise (fun x y _ _ hxy hyx => absurd hyx hxy.asymm) (hsorted _) (hsorted _) ?_
  exact (List.perm_ext_iff_of_nodup (hnodup _) (hnodup _)).mpr hmem

theorem build_put_stamp [Lowering] (a : EntryActions) (s : Store) (d : Placement) (st : AppliedState)
    (t : Time) :
    build (a.nodeState (s.put (d.stamp st t)).list) = build (a.nodeState (s.put d).list) := by
  have hlist : (s.put (d.stamp st t)).list.map bare = (s.put d).list.map bare := list_put_bare s rfl
  rw [← build_bare a (s.put (d.stamp st t)).list, ← build_bare a (s.put d).list, hlist]

/-! ## The flip next to the coalescer -/

/-- A flip and the coalescer's loop, which has served a batch before. -/
def flipNextTo [Lowering] [Sum256] (a : EntryActions) (o : Flip.Options) (plan : FlipPlan)
    (maxBatch rounds : ℕ) (last : SingBoxConfig) : List (Go Err) :=
  nextToLoop a (do
    let r ← Flip.execute a.actions o plan
    return r.2) maxBatch rounds (some (sum256 (.built last)))

section Pool

variable {A : Env → Prop} {a : EntryActions} {o : Flip.Options} {plan : FlipPlan}
  {maxBatch rounds : ℕ} {cfg : SingBoxConfig} {w w' : World} {tr : List (Tagged ports)}
  {ts' : List (Go Err)}

theorem flip_thread [Lowering] [Sum256] (hco : a.coalesced = true)
    (h : Interleave (flipNextTo a o plan maxBatch rounds cfg) tr ts')
    (hdone : ts'[0]? = some (.done none)) (hsel : Selects (eventsOf 0 tr)) :
    Flipped plan.desired (eventsOf 0 tr) := by
  obtain ⟨q, hq, hafter⟩ := h.after (i := 0) rfl
  rw [hdone] at hq
  cases hq
  obtain ⟨⟨plan', err⟩, tr₁, tr₂, heq, h₁, h₂⟩ := Prog.after_bind_done_iff.mp hafter
  obtain ⟨rfl, herr⟩ := Prog.after_done_iff.mp h₂
  rw [List.append_nil] at heq
  cases herr
  rw [heq] at hsel ⊢
  exact execute_flipped hco h₁ hsel

theorem overlay_of_submitted {d : Placement} {evs : List GoEvent} (hflip : Flipped d evs) {ev : GoEvent}
    (hev : ev ∈ evs) {overlay : Option Placement} (hc : ev.call = .submit overlay) :
    overlay = none := by
  rcases hflip.cases hev with hearly | ⟨t, hput⟩ | hlate
  · exact absurd hc (hearly.calm.2.2 overlay)
  · rw [hput] at hc
    cases hc
  · exact hlate.calm.2.2 overlay hc

theorem plain_loop [Lowering] [Sum256]
    (h : Pool world A (flipNextTo a o plan maxBatch rounds cfg) w tr ts' w')
    (hqueue : w.queue = []) (hflip : Flipped plan.desired (eventsOf 0 tr)) : Plain (eventsOf 1 tr) := by
  intro timer req hmem
  obtain ⟨ev, hev, hc⟩ := submitted_by_caller h hqueue hmem
  exact overlay_of_submitted hflip hev hc

/-- And so the loop stores nothing. -/
theorem loop_writes_nothing [Lowering] [Sum256]
    (h : Pool world A (flipNextTo a o plan maxBatch rounds cfg) w tr ts' w')
    (hqueue : w.queue = []) (hflip : Flipped plan.desired (eventsOf 0 tr)) :
    ∀ ev ∈ eventsOf 1 tr, ev.call.writesStore = false := by
  intro ev hev
  obtain ⟨q, hq⟩ := loop_thread h.1
  have hcall := (run_calls maxBatch rounds _).of_mem hq ev hev
  cases hc : ev.call with
  | putPlacement p =>
    obtain ⟨ev', hev', hsub⟩ := stored_by_caller h hqueue hev hc
    cases overlay_of_submitted hflip hev' hsub
  | deletePlacement x =>
    rw [hc] at hcall
    exact absurd hcall id
  | _ => rfl

/-- As long as the flip submits nothing, the loop lists nothing. -/
theorem no_listing_before_submit [Lowering] [Sum256]
    (h : Pool world A (flipNextTo a o plan maxBatch rounds cfg) w tr ts' w') (hqueue : w.queue = [])
    (hpre : ∀ ev ∈ eventsOf 0 tr, ∀ overlay, ev.call ≠ .submit overlay) :
    ∀ ev ∈ eventsOf 1 tr, ev.call ≠ .listPlacements := by
  intro ev hev hc
  obtain ⟨q, hq⟩ := loop_thread h.1
  obtain ⟨xs, ys, heq⟩ := List.append_of_mem hev
  rw [heq, ← List.singleton_append, ← List.append_assoc] at hq
  obtain ⟨q', hq', -⟩ := Prog.after_append_iff.mp hq
  obtain ⟨timer, req, hreq⟩ := run_listing_received hq' rfl hc
  have hin : (⟨.receive timer, .request req⟩ : GoEvent) ∈ eventsOf 1 tr := by
    rw [heq]
    exact List.mem_append_left _ hreq
  obtain ⟨ev', hev', hsub⟩ := submitted_by_caller h hqueue hin
  exact hpre ev' hev' _ hsub

/-- Where the flip writes nothing, nobody does. -/
theorem part_writes_nothing [Lowering] [Sum256]
    (h : Interleave (flipNextTo a o plan maxBatch rounds cfg) tr ts')
    (hone : ∀ ev ∈ eventsOf 1 tr, ev.call.writesStore = false) {part : List (Tagged ports)}
    (hsub : part ⊆ tr) (hzero : ∀ ev ∈ eventsOf 0 part, ev.call.writesStore = false) :
    ∀ ev ∈ part.map Prod.snd, ev.call.writesStore = false := by
  intro ev hev
  obtain ⟨⟨i, ev'⟩, hmem, rfl⟩ := List.mem_map.mp hev
  have hi := h.lt_of_mem (hsub hmem)
  rcases i with _ | _ | i
  · exact hzero ev' (mem_eventsOf.mpr hmem)
  · exact hone ev' (mem_eventsOf.mpr (hsub hmem))
  · simp [flipNextTo, nextToLoop] at hi

/-- The loop lists the store as it is after the put: it lists for a request only, and the flip submits
its request after the put. -/
theorem listing_after_put [Lowering] [Sum256]
    (h : Pool world A (flipNextTo a o plan maxBatch rounds cfg) w tr ts' w')
    (hqueue : w.queue = []) (hflip : Flipped plan.desired (eventsOf 0 tr)) :
    ∃ t, ∀ ps, (⟨.listPlacements, .ok ps⟩ : GoEvent) ∈ eventsOf 1 tr →
      ps = (w.store.put (plan.desired.stamp .ok t)).list := by
  have hone := loop_writes_nothing h hqueue hflip
  obtain ⟨t, pre, post, heq, hpre, hpost, -⟩ := hflip.split
  obtain ⟨x, y, rfl, hx, hy⟩ := exists_of_eventsOf_eq heq
  obtain ⟨us, w₁, hpool₁, hpool₂⟩ := pool_append.mp h
  refine ⟨t, fun ps hmem => ?_⟩
  rw [eventsOf_append, eventsOf_cons_of_ne Nat.zero_ne_one, List.mem_append] at hmem
  rcases hmem with hmem | hmem
  · refine absurd rfl (no_listing_before_submit hpool₁ hqueue (fun ev hev => ?_) _ hmem)
    rw [hx] at hev
    exact (hpre ev hev).calm.2.2
  · have hstore : w₁.store = w.store := by
      refine steps_store hpool₁.2 (part_writes_nothing h.1 hone (List.subset_append_left _ _)
        fun ev hev => ?_)
      rw [hx] at hev
      exact (hpre ev hev).calm.1
    have hy' : ∀ ev ∈ y.map Prod.snd, ev.call.writesStore = false := by
      refine part_writes_nothing h.1 hone
        (fun z hz => List.mem_append_right _ (List.mem_cons_of_mem _ hz)) fun ev hev => ?_
      rw [hy] at hev
      exact (hpost ev hev).calm.1
    obtain ⟨e, -, hr, hsteps⟩ := steps_cons.mp hpool₂.2
    have hin : (⟨.listPlacements, .ok ps⟩ : GoEvent) ∈ y.map Prod.snd :=
      List.mem_map.mpr ⟨_, mem_eventsOf.mp hmem, rfl⟩
    rw [listing_of_steps hsteps hy' hin]
    show (World.exec _ e w₁).2.store.list = _
    rw [exec_putPlacement hr, hstore]

/-- A flip through the selector that succeeds reloads nothing exactly when the new placement leaves the
rendered configuration as it is, provided that its hash tells the two configurations apart. -/
theorem flip_reload_free_iff [Lowering] [Sum256] (hco : a.coalesced = true) (hpath : a.configPath = "")
    (hqueue : w.queue = []) (hold : ∀ x ∈ w.answers, x.1 < w.nextTicket)
    (hcfg : build (a.nodeState w.store.list) = .ok cfg)
    (hsum : ∀ cfg', build (a.nodeState (w.store.put plan.desired).list) = .ok cfg' →
      sum256 (.built cfg') = sum256 (.built cfg) → cfg' = cfg)
    (h : Pool world A (flipNextTo a o plan maxBatch rounds cfg) w tr ts' w')
    (hdone : ts'[0]? = some (.done none)) (hsel : Selects (eventsOf 0 tr)) :
    (¬ Reloads (tr.map Prod.snd)) ↔
      build (a.nodeState (w.store.put plan.desired).list) = build (a.nodeState w.store.list) := by
  have hflip := flip_thread hco h.1 hdone hsel
  have hplain := plain_loop h hqueue hflip
  obtain ⟨t, hlisting⟩ := listing_after_put h hqueue hflip
  obtain ⟨q, hloop⟩ := loop_thread h.1
  -- whatever the loop renders is the configuration after the put
  have hlisted : ∀ {c}, Listed a (eventsOf 1 tr) c →
      build (a.nodeState (w.store.put plan.desired).list) = .ok c := by
    rintro c ⟨ps, hmem, hb⟩
    rw [hlisting ps hmem, build_put_stamp] at hb
    exact hb
  have hin : eventsOf 1 tr ⊆ tr.map Prod.snd := fun ev hev =>
    List.mem_map.mpr ⟨_, mem_eventsOf.mp hev, rfl⟩
  rw [hcfg]
  constructor
  · intro hno
    obtain ⟨t', pre, post, heq, -, -, ticket, hsub, hpoll⟩ := hflip.split
    have hmem : ∀ ev ∈ post, ev ∈ tr.map Prod.snd := fun ev hev =>
      List.mem_map.mpr ⟨(0, ev), mem_eventsOf.mp (by rw [heq]; simp [hev]), rfl⟩
    obtain ⟨ev, hev, hc⟩ := answered_of_polled h.2 hold (hmem _ hsub) (hmem _ hpoll)
    have hsucceeds : Succeeds (eventsOf 1 tr) := by
      rcases thread_cases h.1 hev with hzero | ⟨hone, -⟩
      · have hcases := hflip.cases hzero
        rw [hc] at hcases
        obtain hcall | ⟨t, hput⟩ | hcall := hcases
        · exact hcall.elim
        · cases hput
        · exact hcall.elim
      · exact ⟨ev, hone, ticket, hc⟩
    obtain ⟨c, hc', hor⟩ := run_succeeds hpath hloop rfl hplain hsucceeds
    rcases hor with hsame | hr
    · have hnew := hlisted hc'
      obtain rfl := hsum c hnew (Option.some.inj hsame).symm
      exact hnew
    · exact absurd (hr.mono hin) hno
  · rintro hsame ⟨ev, hev, hc⟩
    rcases thread_cases h.1 hev with hzero | ⟨hone, -⟩
    · rcases hflip.cases hzero with hearly | ⟨t, hput⟩ | hlate
      · exact hearly.calm.2.1 hc
      · rw [hput] at hc
        cases hc
      · exact hlate.calm.2.1 hc
    · obtain ⟨c, hc', hne⟩ := run_reloads hpath hloop rfl hplain ⟨ev, hone, hc⟩
      have hok := hlisted hc'
      rw [hsame] at hok
      cases hok
      exact hne rfl

end Pool

section Fixed

open Eval

/-! ## A flip of a user with one home and with two -/

def withCoalescer : EntryActions := { twoBackends with coalesced := true }

/-- The plan that moves the first home to the second backend. -/
def moveFirst : FlipPlan where
  placementID := "p1"
  oldBackend := "n1"
  newBackend := "n2"
  drainTimeout := 1
  opVersion := 1
  desired := { homedAt "p1" "n2" with opVersion := 1 }

/-- The flip up to its request, the loop for a number of calls, and the rest of the flip. -/
def requestServed (calls : ℕ) : List (ℕ × Env) :=
  List.replicate 13 (0, default) ++ List.replicate calls (1, default) ++ List.replicate 2 (0, default)

theorem allowed_requestServed (calls : ℕ) : ∀ x ∈ requestServed calls, Env.Allowed false x.2 := by
  intro x hx
  unfold requestServed at hx
  simp only [List.mem_append, List.mem_replicate] at hx
  rcases hx with (⟨-, rfl⟩ | ⟨-, rfl⟩) | ⟨-, rfl⟩ <;> exact Env.allowed_default _

/-- The file for the placements. -/
def fileFor (ps : List Placement) : SingBoxConfig where
  log := none
  inbounds := [buildInbound withCoalescer.inbound (storing ps).store.list]
  outbounds := buildOutbounds (storing ps).store.list withCoalescer.reg.all
  route := buildRoute (storing ps).store.list withCoalescer.reg.all
  experimental := none

/-- The flip of the first home next to a loop that has written the file for the placements. -/
abbrev moving (ps : List Placement) : List (Go Err) :=
  flipNextTo withCoalescer {} moveFirst 1 1 (fileFor ps)

/-- The user keeps the backend of its other home, and so does the file. -/
theorem flip_reload_free_two_homes : ∃ tr ts' w',
    Pool world (Env.Allowed false) (moving [homedAt "p1" "n1", homedAt "p2" "n1"])
      (storing [homedAt "p1" "n1", homedAt "p2" "n1"]) tr ts' w' ∧
    ts'[0]? = some (.done none) ∧ Selects (eventsOf 0 tr) ∧ ¬ Reloads (tr.map Prod.snd) := by
  have hpool : Pool world (Env.Allowed false) (moving [homedAt "p1" "n1", homedAt "p2" "n1"]) _ _ _ _ :=
    pool_schedule (requestServed 5) (allowed_requestServed 5) (storing [homedAt "p1" "n1", homedAt "p2" "n1"])
  have hsel : Selects (eventsOf 0 (schedule world (moving [homedAt "p1" "n1", homedAt "p2" "n1"])
      (requestServed 5) (storing [homedAt "p1" "n1", homedAt "p2" "n1"])).1) :=
    ⟨"u-c", "b-c-n2", List.mem_of_getElem? (i := 7) rfl⟩
  have hcfg : build (withCoalescer.nodeState
      (storing [homedAt "p1" "n1", homedAt "p2" "n1"]).store.list) =
      .ok (fileFor [homedAt "p1" "n1", homedAt "p2" "n1"]) := rfl
  have hsame : build (withCoalescer.nodeState
      ((storing [homedAt "p1" "n1", homedAt "p2" "n1"]).store.put moveFirst.desired).list) =
      .ok (fileFor [homedAt "p1" "n1", homedAt "p2" "n1"]) := by decide +kernel
  have hdone : (schedule world (moving [homedAt "p1" "n1", homedAt "p2" "n1"]) (requestServed 5)
      (storing [homedAt "p1" "n1", homedAt "p2" "n1"])).2.1[0]? = some (.done none) :=
    getElem?_eq_done (by decide +kernel)
  have hiff := flip_reload_free_iff rfl rfl rfl (by simp [storing]) hcfg
    (fun cfg' hcfg' _ => Except.ok.inj (hcfg'.symm.trans hsame)) hpool hdone hsel
  exact ⟨_, _, _, hpool, hdone, hsel, hiff.mpr (hsame.trans hcfg.symm)⟩

/-- The new default is another one, and the file is written and loaded anew. -/
theorem flip_reloads_one_home : ∃ tr ts' w',
    build (withCoalescer.nodeState (storing [homedAt "p1" "n1"]).store.list) =
      .ok (fileFor [homedAt "p1" "n1"]) ∧
    Pool world (Env.Allowed false) (moving [homedAt "p1" "n1"]) (storing [homedAt "p1" "n1"]) tr ts' w' ∧
    ts'[0]? = some (.done none) ∧ Selects (eventsOf 0 tr) ∧ Reloads (tr.map Prod.snd) := by
  have hpool : Pool world (Env.Allowed false) (moving [homedAt "p1" "n1"]) _ _ _ _ :=
    pool_schedule (requestServed 7) (allowed_requestServed 7) (storing [homedAt "p1" "n1"])
  refine ⟨_, _, _, rfl, hpool, getElem?_eq_done (by decide +kernel), ?_, ?_⟩
  · exact ⟨"u-c", "b-c-n2", List.mem_of_getElem? (i := 7) rfl⟩
  · exact ⟨_, List.mem_of_getElem? (i := 17) rfl, rfl⟩

end Fixed

end NodeAgent.External
