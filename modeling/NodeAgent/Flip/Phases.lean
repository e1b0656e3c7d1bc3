import NodeAgent.Flip
import NodeAgent.World

/-!
# The phases of a flip

`Execute` over an `Actions` interface whose calls may return anything. A run goes through the phases
announced, warming, swap, cooling, cool in this order and stops at the first that fails, or where the
context is cancelled: `Course` collects what is true of the rounds from a given state on, and the
induction over the rounds is `executeLoop_course`.
-/

namespace NodeAgent.Flip

open Lib

/-- The actions as the orchestrator sees them: each is one call, with any result. -/
def Actions.interface : Actions where
  validateBackend plan := port (.validateBackend plan)
  swapRoute plan := port (.swapRoute plan)
  oldBackendConnections plan := port (.oldBackendConnections plan)
  oldBackendReachable plan := port (.oldBackendReachable plan)
  coolOldBackend plan := port (.coolOldBackend plan)

/-! ## Events -/

/-- The calls of `flip.Actions`. -/
inductive Action
  | validate
  | swap
  | reachable
  | connections
  | cool
  deriving DecidableEq, Repr

/-- The action that an event is a call of. -/
def actionOf (ev : GoEvent) : Option Action :=
  match ev.call with
  | .validateBackend _ => some .validate
  | .swapRoute _ => some .swap
  | .oldBackendReachable _ => some .reachable
  | .oldBackendConnections _ => some .connections
  | .coolOldBackend _ => some .cool
  | _ => none

/-- The phase that makes the call. -/
def Action.phase : Action → FlipState
  | .validate => .warming
  | .swap => .swap
  | .reachable => .cooling
  | .connections => .cooling
  | .cool => .cool

/-- The calls of the actions, in order. -/
def actionsOf (tr : List GoEvent) : List Action := tr.filterMap actionOf

/-- The call has failed. That the old backend is unreachable is no failure. -/
def failed : GoEvent → Bool
  | ⟨.validateBackend _, some _⟩ => true
  | ⟨.swapRoute _, some _⟩ => true
  | ⟨.oldBackendConnections _, .error _⟩ => true
  | ⟨.coolOldBackend _, some _⟩ => true
  | _ => false

/-- The context is found cancelled. -/
def cancelled : GoEvent → Bool
  | ⟨.ctxErr, some _⟩ => true
  | ⟨.sleep _, some _⟩ => true
  | _ => false

/-- What a query for connections has returned. -/
def queryOf : GoEvent → Option (Except GoError ℕ)
  | ⟨.oldBackendConnections _, r⟩ => some r
  | _ => none

/-- The old backend was found to be unreachable. -/
def isUnreachable : GoEvent → Bool
  | ⟨.oldBackendReachable _, false⟩ => true
  | _ => false

/-- The last query for connections returned 0. -/
def lastQueryZero (tr : List GoEvent) : Bool :=
  match (tr.filterMap queryOf).getLast? with
  | some (.ok 0) => true
  | _ => false

/-- The phase was completed in these events. Being announced takes no more than a context that is not
cancelled yet. -/
def completed : FlipState → List GoEvent → Bool
  | .announced, tr => tr.any fun | ⟨.ctxErr, none⟩ => true | _ => false
  | .warming, tr => tr.any fun | ⟨.validateBackend _, none⟩ => true | _ => false
  | .swap, tr => tr.any fun | ⟨.swapRoute _, none⟩ => true | _ => false
  | .cooling, tr => tr.any isUnreachable || lastQueryZero tr
  | .cool, tr => tr.any fun | ⟨.coolOldBackend _, none⟩ => true | _ => false
  | .steady, _ => false
  | .unset, _ => false

/-- The calls of a phase that succeeds; a drain makes any number of queries. -/
def phaseActions (n : ℕ) : FlipState → List Action
  | .warming => [.validate]
  | .swap => [.swap]
  | .cooling => .reachable :: List.replicate n .connections
  | .cool => [.cool]
  | _ => []

theorem phaseActions_eq {p : FlipState} (h : p ≠ .cooling) (n m : ℕ) :
    phaseActions n p = phaseActions m p := by
  cases p <;> first | rfl | exact absurd rfl h

/-- The phases to come, short of being steady again. -/
def upcoming : FlipState → List FlipState
  | .steady => [.announced, .warming, .swap, .cooling, .cool]
  | .announced => [.warming, .swap, .cooling, .cool]
  | .warming => [.swap, .cooling, .cool]
  | .swap => [.cooling, .cool]
  | .cooling => [.cool]
  | .cool => []
  | .unset => []

theorem upcoming_next {plan : FlipPlan} (h : plan.next ≠ .steady) :
    upcoming plan.state = plan.next :: upcoming plan.next := by
  revert h
  unfold FlipPlan.next
  cases plan.state <;> simp [upcoming]

theorem upcoming_of_next_steady {plan : FlipPlan} (h : plan.next = .steady) :
    upcoming plan.state = [] := by
  revert h
  unfold FlipPlan.next
  cases plan.state <;> simp [upcoming]

theorem not_mem_upcoming (s : FlipState) : s ∉ upcoming s := by
  cases s <;> decide

theorem announced_not_mem_upcoming (plan : FlipPlan) (h : plan.next ≠ .steady) :
    .announced ∉ upcoming plan.next := by
  revert h
  unfold FlipPlan.next
  cases plan.state <;> decide

/-! ## Where a phase is completed -/

/-- The event belongs to the phase. -/
def ofPhase (p : FlipState) (ev : GoEvent) : Bool := (actionOf ev).any (·.phase = p)

section Completed

variable {p : FlipState} {tr tr' : List GoEvent}

theorem any_filter_ofPhase {f : GoEvent → Bool} (hf : ∀ ev, f ev = true → ofPhase p ev = true) :
    (tr.filter (ofPhase p)).any f = tr.any f := by
  rw [List.any_filter]
  congr 1
  funext ev
  cases hev : f ev with
  | false => exact Bool.and_false _
  | true => rw [hf ev hev, Bool.and_true]

theorem queries_filter_ofPhase :
    (tr.filter (ofPhase .cooling)).filterMap queryOf = tr.filterMap queryOf := by
  rw [List.filterMap_filter]
  congr 1
  funext ev
  by_cases hev : ofPhase .cooling ev = true
  · rw [if_pos hev]
  · rw [if_neg hev]
    unfold queryOf
    split
    · exact absurd rfl hev
    · rfl

/-- Only the events of a phase say whether it was completed. -/
theorem completed_filter (hp : p ≠ .announced) :
    completed p (tr.filter (ofPhase p)) = completed p tr := by
  cases p with
  | announced => exact absurd rfl hp
  | warming => exact any_filter_ofPhase fun ev hev => by split at hev; exacts [rfl, by cases hev]
  | swap => exact any_filter_ofPhase fun ev hev => by split at hev; exacts [rfl, by cases hev]
  | cool => exact any_filter_ofPhase fun ev hev => by split at hev; exacts [rfl, by cases hev]
  | cooling =>
    have hany : (tr.filter (ofPhase .cooling)).any isUnreachable = tr.any isUnreachable :=
      any_filter_ofPhase fun ev hev => by
        unfold isUnreachable at hev
        split at hev
        · rfl
        · cases hev
    rw [completed, completed, hany, lastQueryZero, lastQueryZero, queries_filter_ofPhase]
  | steady => rfl
  | unset => rfl

theorem completed_append_left (hp : p ≠ .announced) (h : ∀ ev ∈ tr', ofPhase p ev = false) :
    completed p (tr ++ tr') = completed p tr := by
  have hnil : tr'.filter (ofPhase p) = [] := List.filter_eq_nil_iff.mpr fun ev hev => by simp [h ev hev]
  rw [← completed_filter hp, List.filter_append, hnil, List.append_nil, completed_filter hp]

theorem completed_append_right (hp : p ≠ .announced) (h : ∀ ev ∈ tr, ofPhase p ev = false) :
    completed p (tr ++ tr') = completed p tr' := by
  have hnil : tr.filter (ofPhase p) = [] := List.filter_eq_nil_iff.mpr fun ev hev => by simp [h ev hev]
  rw [← completed_filter hp, List.filter_append, hnil, List.nil_append, completed_filter hp]

end Completed

/-! ## One phase -/

/-- After an action that has failed no other is called. -/
def StopsAtFailure (tr : List GoEvent) : Prop :=
  ∀ pre ev post, tr = pre ++ ev :: post → failed ev = true → actionsOf post = []

/-- What is true of the events of a phase that ends with `r`. -/
structure PhaseRun (p : FlipState) (tr : List GoEvent) (r : Err) : Prop where
  own : ∀ ev ∈ tr, ∀ act, actionOf ev = some act → act.phase = p
  order : ∃ n, actionsOf tr <+: phaseActions n p ∧ (r = none → actionsOf tr = phaseActions n p)
  stops : StopsAtFailure tr
  clean : r = none → ∀ ev ∈ tr, failed ev = false
  done : p ≠ .announced → (completed p tr = true ↔ r = none)

section Phase

variable {o : Options} {plan : FlipPlan} {tr : List GoEvent} {r : Err}

theorem stopsAtFailure_nil : StopsAtFailure [] := by
  intro pre ev post h
  simp at h

theorem stopsAtFailure_singleton (ev : GoEvent) : StopsAtFailure [ev] := by
  intro pre ev' post h _
  rcases pre with _ | ⟨x, pre⟩
  · obtain ⟨-, rfl⟩ := List.cons_eq_cons.mp h
    rfl
  · simp at h

theorem StopsAtFailure.cons {ev : GoEvent} (h : StopsAtFailure tr) (hev : failed ev = false) :
    StopsAtFailure (ev :: tr) := by
  intro pre ev' post heq hf
  rcases pre with _ | ⟨x, pre⟩
  · obtain ⟨rfl, -⟩ := List.cons_eq_cons.mp heq
    rw [hev] at hf
    cases hf
  · exact h pre ev' post (List.cons_eq_cons.mp heq).2 hf

theorem StopsAtFailure.append {tr' : List GoEvent} (h : StopsAtFailure tr')
    (htr : ∀ ev ∈ tr, failed ev = false) : StopsAtFailure (tr ++ tr') := by
  induction tr with
  | nil => exact h
  | cons ev tr ih =>
    obtain ⟨hev, htr⟩ := List.forall_mem_cons.mp htr
    exact (ih htr).cons hev

/-- The queries of the drain loop. -/
structure Queries (tr : List GoEvent) (r : Err) : Prop where
  own : ∀ ev ∈ tr, ∀ act, actionOf ev = some act → act = .connections
  order : ∃ n, actionsOf tr = List.replicate n .connections
  stops : StopsAtFailure tr
  clean : r = none → ∀ ev ∈ tr, failed ev = false
  zero : lastQueryZero tr = true ↔ r = none

theorem queries_nil (err : GoError) : Queries [] (some err) where
  own := by simp
  order := ⟨0, rfl⟩
  stops := stopsAtFailure_nil
  clean h := by cases h
  zero := by simp [lastQueryZero]

/-- A call of the clock comes before. -/
theorem Queries.cons_clock {ev : GoEvent} (h : Queries tr r)
    (hev : (∃ t : Time, ev = ⟨.now, t⟩) ∨ ∃ i e, ev = ⟨.sleep i, e⟩) : Queries (ev :: tr) r := by
  have hact : actionOf ev = none := by
    rcases hev with ⟨t, rfl⟩ | ⟨i, e, rfl⟩ <;> rfl
  have hquery : queryOf ev = none := by
    rcases hev with ⟨t, rfl⟩ | ⟨i, e, rfl⟩ <;> rfl
  have hfail : failed ev = false := by
    rcases hev with ⟨t, rfl⟩ | ⟨i, e, rfl⟩ <;> rfl
  have hacts : actionsOf (ev :: tr) = actionsOf tr := List.filterMap_cons_none hact
  refine ⟨?_, ?_, h.stops.cons hfail, fun hr => ?_, ?_⟩
  · refine List.forall_mem_cons.mpr ⟨fun act h => ?_, h.own⟩
    rw [hact] at h
    cases h
  · rw [hacts]
    exact h.order
  · exact List.forall_mem_cons.mpr ⟨hfail, h.clean hr⟩
  · rw [lastQueryZero, List.filterMap_cons_none hquery]
    exact h.zero

/-- A query that does not end the drain comes before. -/
theorem Queries.cons_query {remaining : ℕ} (h : Queries tr r) (hne : remaining ≠ 0) :
    Queries (⟨.oldBackendConnections plan, .ok remaining⟩ :: tr) r := by
  obtain ⟨n, hn⟩ := h.order
  refine ⟨?_, ⟨n + 1, ?_⟩, h.stops.cons rfl, fun hr => ?_, ?_⟩
  · refine List.forall_mem_cons.mpr ⟨fun act h => ?_, h.own⟩
    cases h
    rfl
  · show Action.connections :: actionsOf tr = _
    rw [hn, List.replicate_succ]
  · exact List.forall_mem_cons.mpr ⟨rfl, h.clean hr⟩
  · rw [← h.zero]
    show (match (Except.ok remaining :: tr.filterMap queryOf).getLast? with
      | some (.ok 0) => true | _ => false) = true ↔ _
    unfold lastQueryZero
    cases tr.filterMap queryOf with
    | nil => simp [hne]
    | cons x xs => rw [List.getLast?_cons_cons]

theorem drainLoop_queries {deadline : Time} {polls interval : ℕ} {last : Option ℕ}
    (h : (drainLoop .interface o plan deadline polls interval last).After tr (.done r)) :
    Queries tr r := by
  induction polls generalizing interval last tr with
  | zero =>
    obtain ⟨rfl, heq⟩ := Prog.after_done_iff.mp h
    cases heq
    exact queries_nil _
  | succ polls ih =>
    obtain ⟨q, tr₁, rfl, h₁⟩ := Prog.after_invoke_done_iff.mp h
    cases q with
    | error err =>
      obtain ⟨rfl, heq⟩ := Prog.after_done_iff.mp h₁
      cases heq
      exact ⟨by simp [actionOf], ⟨1, rfl⟩, stopsAtFailure_singleton _, (fun h => by cases h),
        by simp [lastQueryZero, queryOf]⟩
    | ok remaining =>
      dsimp only at h₁
      split_ifs at h₁ with hzero
      · obtain ⟨rfl, heq⟩ := Prog.after_done_iff.mp h₁
        cases heq
        subst hzero
        exact ⟨by simp [actionOf], ⟨1, rfl⟩, stopsAtFailure_singleton _, by simp [failed],
          by simp [lastQueryZero, queryOf]⟩
      · refine Queries.cons_query ?_ hzero
        obtain ⟨t, tr₂, rfl, h₂⟩ := Prog.after_invoke_done_iff.mp h₁
        refine Queries.cons_clock ?_ (.inl ⟨t, rfl⟩)
        split_ifs at h₂ with htime
        · obtain ⟨e, tr₃, rfl, h₃⟩ := Prog.after_invoke_done_iff.mp h₂
          refine Queries.cons_clock ?_ (.inr ⟨_, e, rfl⟩)
          cases e with
          | some err =>
            obtain ⟨rfl, heq⟩ := Prog.after_done_iff.mp h₃
            cases heq
            exact queries_nil err
          | none => exact ih h₃
        · obtain ⟨rfl, heq⟩ := Prog.after_done_iff.mp h₂
          cases heq
          exact queries_nil _

theorem drain_phase (h : (drain .interface o plan).After tr (.done r)) : PhaseRun .cooling tr r := by
  obtain ⟨reachable, tr₁, rfl, h₁⟩ := Prog.after_invoke_done_iff.mp h
  cases reachable with
  | false =>
    obtain ⟨rfl, heq⟩ := Prog.after_done_iff.mp h₁
    cases heq
    exact ⟨by simp [actionOf, Action.phase], ⟨0, List.prefix_refl _, fun _ => rfl⟩,
      stopsAtFailure_singleton _, by simp [failed], by simp [completed, isUnreachable]⟩
  | true =>
    obtain ⟨t, tr₂, rfl, h₂⟩ := Prog.after_invoke_done_iff.mp h₁
    have hq := (drainLoop_queries h₂).cons_clock (.inl ⟨t, rfl⟩)
    obtain ⟨n, hn⟩ := hq.order
    have hacts : actionsOf (⟨.oldBackendReachable plan, true⟩ :: ⟨.now, t⟩ :: tr₂) =
        phaseActions n .cooling := by
      show Action.reachable :: actionsOf (⟨.now, t⟩ :: tr₂) = _
      rw [hn]
      rfl
    have hreach : (⟨.now, t⟩ :: tr₂ : List GoEvent).any isUnreachable = false := by
      rw [List.any_eq_false]
      intro ev hev hun
      unfold isUnreachable at hun
      split at hun
      · cases hq.own _ hev _ rfl
      · cases hun
    refine ⟨?_, ⟨n, ?_, fun _ => hacts⟩, hq.stops.cons rfl, fun hr => ?_, fun _ => ?_⟩
    · refine List.forall_mem_cons.mpr ⟨fun act h => ?_, fun ev hev act h => ?_⟩
      · cases h
        rfl
      · rw [hq.own ev hev act h]
        rfl
    · rw [hacts]
    · exact List.forall_mem_cons.mpr ⟨rfl, hq.clean hr⟩
    · rw [← hq.zero, completed, List.any_cons, hreach]
      exact Iff.rfl

/-- A phase that is one call. -/
theorem call_phase {p : FlipState} {ev : GoEvent} {act : Action} (hact : actionOf ev = some act)
    (hp : act.phase = p) (hacts : ∀ n, phaseActions n p = [act]) (hfail : failed ev = r.isSome)
    (hdone : completed p [ev] = r.isNone) : PhaseRun p [ev] r where
  own := by
    rw [List.forall_mem_singleton]
    intro act' h
    rw [hact] at h
    cases h
    exact hp
  order := by
    have heq : actionsOf [ev] = [act] := List.filterMap_cons_some hact
    exact ⟨0, by rw [heq, hacts], fun _ => by rw [heq, hacts]⟩
  stops := stopsAtFailure_singleton ev
  clean hr := by
    rw [List.forall_mem_singleton, hfail, hr]
    rfl
  done _ := by rw [hdone, Option.isNone_iff_eq_none]

theorem runPhase_run {p : FlipState} (hsteady : p ≠ .steady) (hunset : p ≠ .unset)
    (h : (runPhase .interface o plan p).After tr (.done r)) : PhaseRun p tr r := by
  cases p with
  | steady => exact absurd rfl hsteady
  | unset => exact absurd rfl hunset
  | announced =>
    obtain ⟨rfl, heq⟩ := Prog.after_done_iff.mp h
    cases heq
    exact ⟨by simp, ⟨0, List.prefix_refl _, fun _ => rfl⟩, stopsAtFailure_nil, by simp,
      fun h => absurd rfl h⟩
  | cooling => exact drain_phase h
  | warming =>
    obtain ⟨r', tr', rfl, h'⟩ := Prog.after_call_done_iff.mp h
    obtain ⟨rfl, heq⟩ := Prog.after_done_iff.mp h'
    cases heq
    exact call_phase rfl rfl (fun _ => rfl) (by cases r <;> rfl) (by cases r <;> rfl)
  | swap =>
    obtain ⟨r', tr', rfl, h'⟩ := Prog.after_call_done_iff.mp h
    obtain ⟨rfl, heq⟩ := Prog.after_done_iff.mp h'
    cases heq
    exact call_phase rfl rfl (fun _ => rfl) (by cases r <;> rfl) (by cases r <;> rfl)
  | cool =>
    obtain ⟨r', tr', rfl, h'⟩ := Prog.after_call_done_iff.mp h
    obtain ⟨rfl, heq⟩ := Prog.after_done_iff.mp h'
    cases heq
    exact call_phase rfl rfl (fun _ => rfl) (by cases r <;> rfl) (by cases r <;> rfl)

end Phase

/-! ## The rounds -/

/-- What is true of the rounds from state `s` on, which leave state `s'` and return `err`. -/
structure Course (s : FlipState) (tr : List GoEvent) (s' : FlipState) (err : Err) : Prop where
  own : ∀ ev ∈ tr, ∀ act, actionOf ev = some act → act.phase ∈ upcoming s
  order : ∃ n, actionsOf tr <+: (upcoming s).flatMap (phaseActions n)
  stops : StopsAtFailure tr
  drained : .cool ∈ actionsOf tr → .cooling ∈ upcoming s → completed .cooling tr = true
  success : err = none → s' = .steady ∧ ∀ p ∈ upcoming s, completed p tr = true
  finishes : (∀ p ∈ upcoming s, p ≠ .announced → completed p tr = true) →
    (∀ ev ∈ tr, cancelled ev = false) → err = none
  state : err ≠ none → s' = ((upcoming s).filter (completed · tr)).getLastD s

section Course

variable {o : Options} {plan plan' : FlipPlan} {tr : List GoEvent} {rounds : ℕ} {err : Err}

/-- Nothing is completed by a check of the context, from the second round on. -/
theorem course_cancelled (s : FlipState) (e : GoError) :
    Course s [⟨.ctxErr, some e⟩] s (some e) where
  own := by simp [actionOf]
  order := ⟨0, List.nil_prefix⟩
  stops := stopsAtFailure_singleton _
  drained h := by simp [actionsOf, actionOf] at h
  success h := by cases h
  finishes _ h := by simp [cancelled] at h
  state _ := by
    have hnone : (upcoming s).filter (completed · [⟨.ctxErr, some e⟩]) = [] := by
      refine List.filter_eq_nil_iff.mpr fun p _ => ?_
      cases p <;> simp [completed, isUnreachable, lastQueryZero, queryOf]
    rw [hnone]
    rfl

theorem ofPhase_eq_false {p : FlipState} {l : List FlipState} (h : ∀ ev ∈ tr, ∀ act,
    actionOf ev = some act → act.phase ∈ l) (hp : p ∉ l) : ∀ ev ∈ tr, ofPhase p ev = false := by
  intro ev hev
  unfold ofPhase
  cases hact : actionOf ev with
  | none => rfl
  | some act =>
    refine decide_eq_false ?_
    rintro rfl
    exact hp (h ev hev act hact)

theorem completed_nil (p : FlipState) : completed p [] = false := by
  cases p <;> rfl

theorem course_finished {s : FlipState} (hs : upcoming s = []) :
    Course s [⟨.ctxErr, none⟩] .steady none where
  own := by simp [actionOf]
  order := ⟨0, List.nil_prefix⟩
  stops := stopsAtFailure_singleton _
  drained h := by simp [actionsOf, actionOf] at h
  success _ := ⟨rfl, by simp [hs]⟩
  finishes _ _ := rfl
  state h := absurd rfl h

section Step

variable {s p s' : FlipState} {tr₁ tr₂ : List GoEvent} {r : Err}

/-- The events of a round, before those of the rounds after it, complete none of the later phases. -/
theorem completed_later (hrun : PhaseRun p tr₁ r) (hann : .announced ∉ upcoming p) {q : FlipState}
    (hq : q ∈ upcoming p) : completed q (⟨.ctxErr, none⟩ :: (tr₁ ++ tr₂)) = completed q tr₂ := by
  have hne : q ≠ .announced := by
    rintro rfl
    exact hann hq
  have hqp : q ∉ [p] := by
    rw [List.mem_singleton]
    rintro rfl
    exact not_mem_upcoming q hq
  have hown : ∀ ev ∈ (⟨.ctxErr, none⟩ :: tr₁ : List GoEvent), ∀ act, actionOf ev = some act →
      act.phase ∈ [p] := by
    refine List.forall_mem_cons.mpr ⟨(fun act h => by cases h), fun ev hev act h => ?_⟩
    exact List.mem_singleton.mpr (hrun.own ev hev act h)
  exact completed_append_right hne (ofPhase_eq_false hown hqp)

theorem completed_own (hrun : PhaseRun p tr₁ r) (hp : p ≠ .announced)
    (hown : ∀ ev ∈ tr₂, ∀ act, actionOf ev = some act → act.phase ∈ upcoming p) :
    completed p (⟨.ctxErr, none⟩ :: (tr₁ ++ tr₂)) = true ↔ r = none := by
  have hctx : ∀ ev ∈ ([⟨.ctxErr, none⟩] : List GoEvent), ofPhase p ev = false := by
    rw [List.forall_mem_singleton]
    rfl
  have hfirst : completed p ([⟨.ctxErr, none⟩] ++ (tr₁ ++ tr₂)) = completed p (tr₁ ++ tr₂) :=
    completed_append_right hp hctx
  rw [← List.singleton_append, hfirst,
    completed_append_left hp (ofPhase_eq_false hown (not_mem_upcoming p))]
  exact hrun.done hp

theorem own_round (hs : upcoming s = p :: upcoming p) (hrun : PhaseRun p tr₁ r)
    (hown : ∀ ev ∈ tr₂, ∀ act, actionOf ev = some act → act.phase ∈ upcoming p) :
    ∀ ev ∈ (⟨.ctxErr, none⟩ :: (tr₁ ++ tr₂) : List GoEvent), ∀ act, actionOf ev = some act →
      act.phase ∈ upcoming s := by
  rw [hs]
  refine List.forall_mem_cons.mpr ⟨(fun act h => by cases h), fun ev hev act h => ?_⟩
  rcases List.mem_append.mp hev with hev | hev
  · rw [hrun.own ev hev act h]
    exact List.mem_cons_self
  · exact List.mem_cons_of_mem _ (hown ev hev act h)

theorem actionsOf_round : actionsOf (⟨.ctxErr, none⟩ :: (tr₁ ++ tr₂)) = actionsOf tr₁ ++ actionsOf tr₂ :=
  List.filterMap_append

/-- The phase of the first round fails. -/
theorem course_failed (hs : upcoming s = p :: upcoming p) (hrun : PhaseRun p tr₁ r) (hr : r ≠ none)
    (hp : p ≠ .announced) (hann : .announced ∉ upcoming p) (herr : err ≠ none) :
    Course s (⟨.ctxErr, none⟩ :: (tr₁ ++ [])) s err := by
  have hnone : ∀ q ∈ upcoming s, completed q (⟨.ctxErr, none⟩ :: (tr₁ ++ [])) = false := by
    intro q hq
    rw [hs] at hq
    rcases List.mem_cons.mp hq with rfl | hq
    · rw [Bool.eq_false_iff, ne_eq, completed_own hrun hp (by simp)]
      exact hr
    · rw [completed_later hrun hann hq, completed_nil]
  have hfirst : p ∈ upcoming s := by
    rw [hs]
    exact List.mem_cons_self
  obtain ⟨n, horder, -⟩ := hrun.order
  have hacts : actionsOf (⟨.ctxErr, none⟩ :: (tr₁ ++ [])) = actionsOf tr₁ := by
    rw [actionsOf_round]
    exact List.append_nil _
  refine ⟨own_round hs hrun (by simp), ⟨n, ?_⟩, ?_, ?_, fun h => absurd h herr, fun h => ?_, fun _ => ?_⟩
  · rw [hacts, hs, List.flatMap_cons]
    exact horder.trans (List.prefix_append _ _)
  · rw [List.append_nil]
    exact hrun.stops.cons rfl
  · intro hcool hcooling
    -- a round that calls `cool` is the last one, after the drain
    rw [hacts] at hcool
    obtain ⟨ev, hev, hact⟩ := List.mem_filterMap.mp hcool
    have hpc : Action.cool.phase = p := hrun.own ev hev _ hact
    subst hpc
    rw [hs] at hcooling
    simp [Action.phase, upcoming] at hcooling
  · have hdone := h p hfirst hp
    rw [hnone p hfirst] at hdone
    cases hdone
  · rw [List.filter_eq_nil_iff.mpr fun q hq => by rw [hnone q hq]; exact Bool.false_ne_true]
    rfl

/-- The phase of the first round succeeds, and the rounds after it have their course. -/
theorem course_step (hs : upcoming s = p :: upcoming p) (hrun : PhaseRun p tr₁ none)
    (hann : .announced ∉ upcoming p) (hrest : Course p tr₂ s' err) :
    Course s (⟨.ctxErr, none⟩ :: (tr₁ ++ tr₂)) s' err := by
  have hdone : completed p (⟨.ctxErr, none⟩ :: (tr₁ ++ tr₂)) = true := by
    by_cases hp : p = .announced
    · subst hp
      rfl
    · exact (completed_own hrun hp hrest.own).mpr rfl
  have hlater : ∀ q ∈ upcoming p, completed q (⟨.ctxErr, none⟩ :: (tr₁ ++ tr₂)) = completed q tr₂ :=
    fun q hq => completed_later hrun hann hq
  have hclean : ∀ ev ∈ (⟨.ctxErr, none⟩ :: tr₁ : List GoEvent), failed ev = false :=
    List.forall_mem_cons.mpr ⟨rfl, hrun.clean rfl⟩
  refine ⟨own_round hs hrun hrest.own, ?_, hrest.stops.append hclean, ?_, ?_, ?_, ?_⟩
  · obtain ⟨n, -, hn⟩ := hrun.order
    obtain ⟨m, hm⟩ := hrest.order
    -- the drain is in this round, or after it, and says how many queries there are
    by_cases hp : p = .cooling
    · subst hp
      refine ⟨n, ?_⟩
      rw [actionsOf_round, hn rfl, hs, List.flatMap_cons]
      exact (List.prefix_append_right_inj _).mpr hm
    · refine ⟨m, ?_⟩
      rw [actionsOf_round, hn rfl, hs, List.flatMap_cons, phaseActions_eq hp n m]
      exact (List.prefix_append_right_inj _).mpr hm
  · intro hcool hcooling
    rw [hs] at hcooling
    rcases List.mem_cons.mp hcooling with rfl | hcooling
    · exact hdone
    · rw [hlater _ hcooling]
      refine hrest.drained ?_ hcooling
      rw [actionsOf_round] at hcool
      refine (List.mem_append.mp hcool).resolve_left fun hmem => ?_
      obtain ⟨ev, hev, hact⟩ := List.mem_filterMap.mp hmem
      have hpc : Action.cool.phase = p := hrun.own ev hev _ hact
      subst hpc
      simp [Action.phase, upcoming] at hcooling
  · intro herr
    obtain ⟨hs', hall⟩ := hrest.success herr
    refine ⟨hs', fun q hq => ?_⟩
    rw [hs] at hq
    rcases List.mem_cons.mp hq with rfl | hq
    · exact hdone
    · rw [hlater q hq]
      exact hall q hq
  · intro hall hctx
    refine hrest.finishes (fun q hq hq' => ?_) fun ev hev => ?_
    · rw [← hlater q hq]
      refine hall q ?_ hq'
      rw [hs]
      exact List.mem_cons_of_mem _ hq
    · exact hctx ev (List.mem_cons_of_mem _ (List.mem_append_right _ hev))
  · intro herr
    have hfilter : (upcoming s).filter (completed · (⟨.ctxErr, none⟩ :: (tr₁ ++ tr₂))) =
        p :: (upcoming p).filter (completed · tr₂) := by
      rw [hs, List.filter_cons, if_pos hdone]
      congr 1
      exact List.filter_congr hlater
    rw [hfilter, List.getLastD_cons]
    exact hrest.state herr

end Step

theorem next_ne_unset (plan : FlipPlan) : plan.next ≠ .unset := by
  unfold FlipPlan.next
  cases plan.state <;> decide

theorem executeLoop_course (hrounds : rounds = phasesLeft plan.state)
    (h : (executeLoop .interface o rounds plan).After tr (.done (plan', err))) :
    Course plan.state tr plan'.state err := by
  induction rounds generalizing plan tr with
  | zero =>
    revert hrounds
    cases plan.state <;> simp [phasesLeft]
  | succ n ih =>
    rcases after_round h with ⟨e, rfl, hplan, rfl⟩ | ⟨r, tr₁, tr₂, rfl, h₁, hrest⟩
    · rw [hplan]
      exact course_cancelled _ e
    · rcases hrest with ⟨hr, rfl, hplan, herr⟩ | ⟨rfl, hnext, rfl, hstate, rfl⟩ | ⟨rfl, hnext, h₂⟩
      · by_cases hnext : plan.next = .steady ∨ plan.next = .announced
        · -- these phases do not fail
          rcases hnext with hnext | hnext <;> rw [hnext] at h₁ <;>
            exact absurd (Prog.done.inj (Prog.after_done_iff.mp h₁).2) hr
        · rw [not_or] at hnext
          rw [hplan]
          exact course_failed (upcoming_next hnext.1) (runPhase_run hnext.1 (next_ne_unset _) h₁) hr
            hnext.2 (announced_not_mem_upcoming _ hnext.1) herr
      · rw [hnext] at h₁
        obtain ⟨rfl, -⟩ := Prog.after_done_iff.mp h₁
        rw [hstate]
        exact course_finished (upcoming_of_next_steady hnext)
      · have hleft : n = phasesLeft plan.next := by
          have := phasesLeft_next plan hnext
          omega
        exact course_step (upcoming_next hnext) (runPhase_run hnext (next_ne_unset _) h₁)
          (announced_not_mem_upcoming _ hnext) (ih hleft h₂)

/-- The clock is read before. -/
theorem Course.after_clock {s s' : FlipState} (h : Course s tr s' err) (t : Time) :
    Course s (⟨.now, t⟩ :: tr) s' err := by
  have hdone : ∀ p, completed p (⟨.now, t⟩ :: tr) = completed p tr := by
    intro p
    cases p <;> rfl
  have hacts : actionsOf (⟨.now, t⟩ :: tr) = actionsOf tr := rfl
  refine ⟨?_, h.order, h.stops.cons rfl, ?_, ?_, ?_, ?_⟩
  · exact List.forall_mem_cons.mpr ⟨(fun act h => by cases h), h.own⟩
  · rw [hacts, hdone]
    exact h.drained
  · simp only [hdone]
    exact h.success
  · simp only [hdone]
    exact fun hall hctx => h.finishes hall (List.forall_mem_cons.mp hctx).2
  · simp only [hdone]
    exact h.state

end Course

/-- The phases of a flip run in order and stop at the first failure: for every plan that is accepted and
starts afresh, every result of the actions and wherever the context is cancelled. -/
theorem execute_phases {o : Options} {plan plan' : FlipPlan} {tr : List GoEvent} {err : Err}
    (hid : plan.placementID ≠ "") (hnew : plan.oldBackend ≠ plan.newBackend)
    (hdrain : plan.drainTimeout ≠ 0) (hstate : plan.state = .unset) (hstart : plan.startedAt = 0)
    (h : (execute .interface o plan).After tr (.done (plan', err))) :
    (∃ n, actionsOf tr <+: [.validate, .swap, .reachable] ++ List.replicate n .connections ++ [.cool]) ∧
    (.cool ∈ actionsOf tr → tr.any isUnreachable = true ∨ lastQueryZero tr = true) ∧
    (∀ pre ev post, tr = pre ++ ev :: post → failed ev = true → actionsOf post = []) ∧
    (err = none → plan'.state = .steady ∧
      ∀ p ∈ [FlipState.warming, .swap, .cooling, .cool], completed p tr = true) ∧
    ((∀ p ∈ [FlipState.warming, .swap, .cooling, .cool], completed p tr = true) →
      (∀ ev ∈ tr, cancelled ev = false) → err = none ∧ plan'.state = .steady) ∧
    (err ≠ none → plan'.state = ([FlipState.announced, .warming, .swap, .cooling, .cool].filter
      (completed · tr)).getLastD .steady) := by
  unfold execute at h
  rw [if_neg hid, if_neg hnew, if_neg hdrain] at h
  dsimp only at h
  rw [if_pos hstate, if_neg (by simp [hstart]), if_pos hstart] at h
  obtain ⟨t, tr', rfl, h'⟩ := Prog.after_invoke_done_iff.mp h
  have hloop : (executeLoop .interface o 6 { plan with state := .steady, startedAt := t }).After tr'
      (.done (plan', err)) := h'
  have hrounds := executeLoop_course (by rfl) hloop
  have hcourse : Course .steady (⟨.now, t⟩ :: tr') plan'.state err := hrounds.after_clock t
  have hall : (∀ p ∈ [FlipState.warming, .swap, .cooling, .cool],
      completed p (⟨.now, t⟩ :: tr') = true) → (∀ ev ∈ (⟨.now, t⟩ :: tr' : List GoEvent),
        cancelled ev = false) → err = none := by
    intro hdone
    refine hcourse.finishes fun p hp hne => hdone p ?_
    exact (List.mem_cons.mp hp).resolve_left hne
  refine ⟨?_, fun hcool => ?_, hcourse.stops, fun herr => ?_, fun hdone hctx => ?_, hcourse.state⟩
  · obtain ⟨n, hn⟩ := hcourse.order
    exact ⟨n, by simpa [upcoming, phaseActions] using hn⟩
  · exact Bool.or_eq_true_iff.mp (hcourse.drained hcool (by decide))
  · obtain ⟨hsteady, hdone⟩ := hcourse.success herr
    exact ⟨hsteady, fun p hp => hdone p (List.mem_cons_of_mem _ hp)⟩
  · have herr := hall hdone hctx
    exact ⟨herr, (hcourse.success herr).1⟩

/-- A flip away from a backend with two connections, which end one after the other. -/
def freshFlip : FlipPlan where
  placementID := "p"
  oldBackend := "b1"
  newBackend := "b2"
  drainTimeout := 1
  opVersion := 1
  desired := {}

/-- The answers to the calls: the eighth asks whether the old backend is reachable, and the polls follow,
each but the last with a look at the clock and a pause after it. -/
def draining : List Env :=
  List.replicate 7 default ++
    [{ flag := true }, default, { count := 2 }, default, default, { count := 1 }, default, default,
      { count := 0 }]

def freshRun : List GoEvent × (FlipPlan × Err) × World :=
  replay world (execute .interface {} freshFlip) draining {}

theorem execute_phases_drained :
    (execute .interface {} freshFlip).After freshRun.1 (.done freshRun.2.1) ∧
    actionsOf freshRun.1 =
      [.validate, .swap, .reachable, .connections, .connections, .connections, .cool] ∧
    lastQueryZero freshRun.1 = true ∧ freshRun.2.1.1.state = .steady ∧ freshRun.2.1.2 = none := by
  have hrun : Run world (Env.Allowed true) (execute .interface {} freshFlip) {} freshRun.1 freshRun.2.1
      freshRun.2.2 := run_replay (Env.allowed_default _) draining (fun e _ => Env.allowed_true e) _
  obtain ⟨-, hcool, -, -, hfin, -⟩ := execute_phases (by decide) (by decide) (by decide) rfl rfl hrun.1
  have hreachable : freshRun.1.any isUnreachable ≠ true := by decide
  obtain ⟨herr, hstate⟩ := hfin (by decide) (by decide)
  exact ⟨hrun.1, by decide, (hcool (by decide)).resolve_left hreachable, hstate, herr⟩

end NodeAgent.Flip
