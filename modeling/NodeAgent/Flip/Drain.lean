import NodeAgent.Flip.Phases

/-!
# How the drain ends

The drain loop has no counter. It ends because every further query costs at least the minimal interval and
the deadline is fixed: `drainLoop_polls` follows the loop with the number of intervals that are left, and
says once what a run can look like (`Polls`). What is reported is read off from there.
-/

namespace NodeAgent.Flip

open Lib

/-! ## Options -/

/-- The poll options as `New` makes them of configured durations. -/
def Options.new (drainPollInterval drainPollMax : ℤ) (polls : ℕ) : Options :=
  let minInt : ℤ := if drainPollInterval ≤ 0 then 50000000 else drainPollInterval
  let maxInt : ℤ := if drainPollMax < minInt then minInt else drainPollMax
  { drainPollMin := minInt.toNat, drainPollMax := maxInt.toNat, polls := polls }

/-- Polls are some time apart, and the interval has room to grow. -/
structure Options.Ordered (o : Options) : Prop where
  pos : 0 < o.drainPollMin
  le : o.drainPollMin ≤ o.drainPollMax

theorem Options.ordered_new (drainPollInterval drainPollMax : ℤ) (polls : ℕ) :
    (Options.new drainPollInterval drainPollMax polls).Ordered := by
  unfold Options.new
  constructor
  · show 0 < Int.toNat _
    split_ifs <;> omega
  · show Int.toNat _ ≤ Int.toNat _
    split_ifs <;> omega

/-! ## The clock -/

/-- No reading is before the last one or before the end of a wait; `t` is a lower bound at the start. -/
def Advances : ℤ → List GoEvent → Prop
  | _, [] => True
  | t, ⟨.now, t'⟩ :: tr => t ≤ t' ∧ Advances t' tr
  | t, ⟨.sleep d, none⟩ :: tr => Advances (t + d) tr
  | t, _ :: tr => Advances t tr

/-! ## What a run looks like -/

section Polls

variable {o : Options} {plan : FlipPlan} {deadline : ℤ} {interval : ℕ} {last : Option ℕ} {tr : List GoEvent}
  {err : Err}

/-- The runs of the drain loop from a poll on: the interval and the count of the poll before are given. -/
inductive Polls (o : Options) (plan : FlipPlan) (deadline : ℤ) :
    ℕ → Option ℕ → List GoEvent → Err → Prop
  | failed (interval : ℕ) (last : Option ℕ) (e : GoError) :
    Polls o plan deadline interval last [⟨.oldBackendConnections plan, .error e⟩]
      (some (.wrap "query connections" e))
  | drained (interval : ℕ) (last : Option ℕ) :
    Polls o plan deadline interval last [⟨.oldBackendConnections plan, .ok 0⟩] none
  | timedOut (interval : ℕ) (last : Option ℕ) {q : ℕ} {t : ℤ} (hq : q ≠ 0) (ht : deadline ≤ t) :
    Polls o plan deadline interval last [⟨.oldBackendConnections plan, .ok q⟩, ⟨.now, t⟩]
      (some .drainTimeout)
  | cancelled (interval : ℕ) (last : Option ℕ) {q : ℕ} (t : ℤ) (e : GoError) (hq : q ≠ 0) :
    Polls o plan deadline interval last [⟨.oldBackendConnections plan, .ok q⟩, ⟨.now, t⟩,
      ⟨.sleep (o.nextInterval interval last q), some e⟩] (some e)
  | again {interval : ℕ} {last : Option ℕ} {q : ℕ} (t : ℤ) {tr : List GoEvent} {err : Err} (hq : q ≠ 0)
    (h : Polls o plan deadline (o.nextInterval interval last q) (some q) tr err) :
    Polls o plan deadline interval last (⟨.oldBackendConnections plan, .ok q⟩ :: ⟨.now, t⟩ ::
      ⟨.sleep (o.nextInterval interval last q), none⟩ :: tr) err

theorem nextInterval_eq (hle : interval ≤ o.drainPollMax) (q : ℕ) :
    o.nextInterval interval last q =
      if last.any (q < ·) then o.drainPollMin else min o.drainPollMax (2 * interval) := by
  unfold Options.nextInterval
  split_ifs <;> omega

theorem Options.Ordered.nextInterval_mem (h : o.Ordered) (hlo : o.drainPollMin ≤ interval)
    (hhi : interval ≤ o.drainPollMax) (q : ℕ) :
    o.drainPollMin ≤ o.nextInterval interval last q ∧ o.nextInterval interval last q ≤ o.drainPollMax := by
  have hle := h.le
  rw [nextInterval_eq hhi]
  split_ifs <;> omega

/-- The queries for connections. -/
def queries (tr : List GoEvent) : List (Except GoError ℕ) := tr.filterMap queryOf

/-- With the deadline at most `k` intervals away there are at most `k + 1` more queries, and so many polls
are enough. -/
theorem drainLoop_polls {polls k : ℕ} {t : ℤ} (ho : o.Ordered)
    (h : (drainLoop .interface o plan deadline polls interval last).After tr (.done err))
    (hclock : Advances t tr) (hlo : o.drainPollMin ≤ interval) (hhi : interval ≤ o.drainPollMax)
    (hk : deadline ≤ t + k * o.drainPollMin) (hpolls : k + 1 ≤ polls) :
    Polls o plan deadline interval last tr err ∧ (queries tr).length ≤ k + 1 := by
  induction polls generalizing interval last tr k t with
  | zero => omega
  | succ polls ih =>
    obtain ⟨q, tr₁, rfl, h₁⟩ := Prog.after_invoke_done_iff.mp h
    cases q with
    | error e =>
      obtain ⟨rfl, heq⟩ := Prog.after_done_iff.mp h₁
      cases heq
      exact ⟨.failed interval last e, Nat.le_add_left 1 k⟩
    | ok q =>
      dsimp only at h₁
      split_ifs at h₁ with hzero
      · obtain ⟨rfl, heq⟩ := Prog.after_done_iff.mp h₁
        cases heq
        subst hzero
        exact ⟨.drained interval last, Nat.le_add_left 1 k⟩
      · obtain ⟨t', tr₂, rfl, h₂⟩ := Prog.after_invoke_done_iff.mp h₁
        obtain ⟨ht, hclock⟩ := hclock
        split_ifs at h₂ with htime
        · obtain ⟨e, tr₃, rfl, h₃⟩ := Prog.after_invoke_done_iff.mp h₂
          cases e with
          | some e =>
            obtain ⟨rfl, heq⟩ := Prog.after_done_iff.mp h₃
            cases heq
            exact ⟨.cancelled interval last t' e hzero, Nat.le_add_left 1 k⟩
          | none =>
            -- the deadline is still ahead, so there is an interval left, and this wait uses it up
            obtain ⟨hlo', hhi'⟩ : o.drainPollMin ≤ o.nextInterval interval last q ∧ _ :=
              ho.nextInterval_mem hlo hhi q
            have hleft : (t : ℤ) < deadline := lt_of_le_of_lt ht htime
            obtain ⟨k, rfl⟩ : ∃ k', k = k' + 1 := by
              cases k with
              | zero => omega
              | succ k => exact ⟨k, rfl⟩
            have hk' : deadline ≤ (t' + o.nextInterval interval last q) + k * o.drainPollMin := by
              push_cast at hk
              have hwait : (o.drainPollMin : ℤ) ≤ o.nextInterval interval last q := by exact_mod_cast hlo'
              have ht' : t ≤ t' := ht
              linarith
            obtain ⟨hrun, hcount⟩ := ih h₃ hclock hlo' hhi' hk' (Nat.le_of_succ_le_succ hpolls)
            exact ⟨.again t' hzero hrun, Nat.succ_le_succ hcount⟩
        · obtain ⟨rfl, heq⟩ := Prog.after_done_iff.mp h₂
          cases heq
          exact ⟨.timedOut interval last hzero (Int.not_lt.mp htime), Nat.le_add_left 1 k⟩

/-! ## What is reported -/

/-- The intervals before further queries: the minimum if the count has decreased, and otherwise twice the
interval before, up to the maximum. -/
def intervals (o : Options) : ℕ → Option ℕ → List ℕ → List ℕ
  | _, _, [] => []
  | interval, last, q :: qs =>
    let next := if last.any (q < ·) then o.drainPollMin else min o.drainPollMax (2 * interval)
    next :: intervals o next (some q) qs

/-- The counts that the queries returned. -/
def counts (tr : List GoEvent) : List ℕ := (queries tr).filterMap Except.toOption

/-- The events end with a wait, for the interval that the counts call for. -/
def Waited (o : Options) (interval : ℕ) (last : Option ℕ) (tr : List GoEvent) : Prop :=
  ∃ d, tr.getLast? = some ⟨.sleep d, none⟩ ∧ o.drainPollMin ≤ d ∧ d ≤ o.drainPollMax ∧
    (intervals o interval last (counts tr)).getLast? = some d

theorem not_query_of_round {pre post : List GoEvent} {ev : GoEvent} {plan' : FlipPlan}
    {q : Except GoError ℕ} (htr : ∀ ev ∈ tr, queryOf ev = none)
    (heq : ev :: tr = pre ++ ⟨.oldBackendConnections plan', q⟩ :: post) : pre = [] := by
  cases pre with
  | nil => rfl
  | cons ev' pre =>
    cases heq
    cases htr _ (List.mem_append_right pre (List.mem_cons_self ..))

/-- Before every query but the first there is a wait. -/
theorem Polls.waited (h : Polls o plan deadline interval last tr err) (ho : o.Ordered)
    (hlo : o.drainPollMin ≤ interval) (hhi : interval ≤ o.drainPollMax) {pre post : List GoEvent}
    {plan' : FlipPlan} {q : Except GoError ℕ}
    (heq : tr = pre ++ ⟨.oldBackendConnections plan', q⟩ :: post) (hne : pre ≠ []) :
    Waited o interval last pre := by
  induction h generalizing pre with
  | failed => exact absurd (not_query_of_round (by simp) heq) hne
  | drained => exact absurd (not_query_of_round (by simp) heq) hne
  | timedOut => exact absurd (not_query_of_round (by simp [queryOf]) heq) hne
  | cancelled => exact absurd (not_query_of_round (by simp [queryOf]) heq) hne
  | @again interval last n t tr err hn h ih =>
    obtain ⟨hlo', hhi'⟩ : o.drainPollMin ≤ o.nextInterval interval last n ∧ _ :=
      ho.nextInterval_mem hlo hhi n
    rcases pre with _ | ⟨ev₁, _ | ⟨ev₂, _ | ⟨ev₃, pre⟩⟩⟩
    · exact absurd rfl hne
    · cases heq
    · cases heq
    · cases heq
      have hcounts : intervals o interval last (n :: counts pre) =
          o.nextInterval interval last n ::
            intervals o (o.nextInterval interval last n) (some n) (counts pre) := by
        rw [nextInterval_eq hhi]
        rfl
      cases pre with
      | nil => exact ⟨_, rfl, hlo', hhi', congrArg List.getLast? hcounts⟩
      | cons ev pre =>
        obtain ⟨d, hlast, hd, hd', hintervals⟩ := ih hlo' hhi' rfl (List.cons_ne_nil ev pre)
        refine ⟨d, hlast, hd, hd', ?_⟩
        show (intervals o interval last (n :: counts (ev :: pre))).getLast? = some d
        rw [hcounts, List.getLast?_cons, hintervals]
        rfl

theorem Polls.ne_nil (h : Polls o plan deadline interval last tr err) : tr ≠ [] := by
  cases h <;> exact List.cons_ne_nil _ _

theorem Polls.not_waiting (h : Polls o plan deadline interval last tr err) (d : ℕ) :
    tr.getLast? ≠ some ⟨.sleep d, none⟩ := by
  induction h with
  | failed => simp
  | drained => simp
  | timedOut => simp
  | cancelled interval last t e => simp
  | @again interval last n t tr err hn h ih =>
    obtain ⟨ev, tr, rfl⟩ := List.exists_cons_of_ne_nil h.ne_nil
    rw [List.getLast?_cons_cons, List.getLast?_cons_cons, List.getLast?_cons_cons]
    exact ih

/-- After a timeout all queries were positive, and the clock was read past the deadline after them. -/
theorem Polls.timeout (h : Polls o plan deadline interval last tr (some .drainTimeout))
    (hctx : ∀ d, (⟨.sleep d, some .drainTimeout⟩ : GoEvent) ∉ tr) :
    (∀ q ∈ queries tr, ∃ n, 0 < n ∧ q = .ok n) ∧
      ∃ t : Time, tr.getLast? = some ⟨.now, t⟩ ∧ deadline ≤ t := by
  generalize herr : some GoError.drainTimeout = err at h
  induction h with
  | failed => cases herr
  | drained => cases herr
  | @timedOut interval last n t hn ht =>
    exact ⟨by simpa [queries, queryOf] using Nat.pos_of_ne_zero hn, t, rfl, ht⟩
  | cancelled interval last t e =>
    cases herr
    exact absurd (List.mem_of_getLast? rfl) (hctx _)
  | @again interval last n t tr err hn h ih =>
    obtain ⟨hpos, t', hlast, ht'⟩ := ih (fun d hd => hctx d (by simp [hd])) herr
    refine ⟨List.forall_mem_cons.mpr ⟨⟨n, Nat.pos_of_ne_zero hn, rfl⟩, hpos⟩, t', ?_, ht'⟩
    rw [List.getLast?_cons_cons, List.getLast?_cons_cons, List.getLast?_cons, hlast]
    rfl

end Polls

/-- A drain that ends in time and reports what it has seen. -/
structure DrainReport (o : Options) (plan : FlipPlan) (tr : List GoEvent) (err : Err) : Prop where
  queries_le : (queries tr).length ≤ plan.drainTimeout / o.drainPollMin + 2
  /-- it is not cut off before a further query -/
  ended : ∀ d, tr.getLast? ≠ some ⟨.sleep d, none⟩
  drained : err = none → tr.any isUnreachable = true ∨ lastQueryZero tr = true
  timeout : err = some .drainTimeout → (∀ q ∈ queries tr, ∃ n, 0 < n ∧ q = .ok n) ∧
    ∃ (t₀ t : ℤ) (polls : List GoEvent), tr = ⟨.oldBackendReachable plan, true⟩ :: ⟨.now, t₀⟩ :: polls ∧
      polls.getLast? = some ⟨.now, t⟩ ∧ t₀ + plan.drainTimeout ≤ t
  waited : ∀ pre plan' q post, tr = pre ++ ⟨.oldBackendConnections plan', q⟩ :: post → queries pre ≠ [] →
    Waited o o.drainPollMin none pre

/-- On a clock that waits advance, with options as `New` makes them and room for the polls, the drain ends
within the queries that fit into its timeout. -/
theorem drain_ends_and_reports (drainPollInterval drainPollMax : ℤ) (polls : ℕ) (plan : FlipPlan)
    {tr : List GoEvent} {err : Err} {t : ℤ}
    (h : (drain .interface (Options.new drainPollInterval drainPollMax polls) plan).After tr (.done err))
    (hclock : Advances t tr) (hctx : ∀ d, (⟨.sleep d, some .drainTimeout⟩ : GoEvent) ∉ tr)
    (hpolls : plan.drainTimeout / (Options.new drainPollInterval drainPollMax polls).drainPollMin + 2 ≤
      polls) :
    DrainReport (Options.new drainPollInterval drainPollMax polls) plan tr err := by
  have ho := Options.ordered_new drainPollInterval drainPollMax polls
  have hfuel : (Options.new drainPollInterval drainPollMax polls).polls = polls := rfl
  have hdone := (drain_phase h).done (by decide)
  have hnil : err = none → tr.any isUnreachable = true ∨ lastQueryZero tr = true :=
    fun hnone => Bool.or_eq_true_iff.mp (hdone.mpr hnone)
  revert ho hfuel h hpolls
  generalize Options.new drainPollInterval drainPollMax polls = o
  intro h hpolls ho hfuel
  obtain ⟨reachable, tr₁, rfl, h₁⟩ := Prog.after_invoke_done_iff.mp h
  cases reachable with
  | false =>
    obtain ⟨rfl, heq⟩ := Prog.after_done_iff.mp h₁
    cases heq
    refine ⟨Nat.zero_le _, by simp, hnil, (fun herr => by cases herr), fun pre plan' q post heq hne => ?_⟩
    rcases pre with _ | ⟨ev, _ | ⟨ev', pre⟩⟩ <;> cases heq
  | true =>
    obtain ⟨t₀, tr₂, rfl, h₂⟩ := Prog.after_invoke_done_iff.mp h₁
    have hk : (t₀ : ℤ) + plan.drainTimeout ≤
        t₀ + ((plan.drainTimeout / o.drainPollMin + 1 : ℕ) : ℤ) * o.drainPollMin := by
      have hdiv := Nat.lt_mul_div_succ plan.drainTimeout ho.pos
      rw [Nat.mul_comm] at hdiv
      exact Int.add_le_add_left (by exact_mod_cast hdiv.le) t₀
    obtain ⟨hrun, hcount⟩ := drainLoop_polls ho h₂ hclock.2 le_rfl ho.le hk (hfuel ▸ hpolls)
    obtain ⟨ev, tr₂, rfl⟩ := List.exists_cons_of_ne_nil hrun.ne_nil
    refine ⟨hcount, ?_, hnil, ?_, ?_⟩
    · intro d
      rw [List.getLast?_cons_cons, List.getLast?_cons_cons]
      exact hrun.not_waiting d
    · rintro rfl
      obtain ⟨hpos, t', hlast, ht'⟩ := hrun.timeout fun d hd => hctx d (by simp [hd])
      exact ⟨hpos, t₀, t', _, rfl, hlast, ht'⟩
    · intro pre plan' q post heq hne
      rcases pre with _ | ⟨ev₁, _ | ⟨ev₂, pre⟩⟩
      · cases heq
      · cases heq
      · injection heq with hev₁ heq
        injection heq with hev₂ heq
        subst hev₁ hev₂
        have hpre : pre ≠ [] := by
          rintro rfl
          exact hne rfl
        obtain ⟨d, hlast, hwaited⟩ := hrun.waited ho le_rfl ho.le heq hpre
        refine ⟨d, ?_, hwaited⟩
        obtain ⟨ev₃, pre, rfl⟩ := List.exists_cons_of_ne_nil hpre
        rw [List.getLast?_cons_cons, List.getLast?_cons_cons]
        exact hlast

def slowFlip : FlipPlan := { freshFlip with drainTimeout := 120000000 }

/-- Two connections, then one that stays. -/
def slowDrain : List GoEvent :=
  [⟨.oldBackendReachable slowFlip, true⟩, ⟨.now, (0 : ℤ)⟩,
    ⟨.oldBackendConnections slowFlip, .ok 2⟩, ⟨.now, (0 : ℤ)⟩, ⟨.sleep 100000000, none⟩,
    ⟨.oldBackendConnections slowFlip, .ok 1⟩, ⟨.now, (100000000 : ℤ)⟩, ⟨.sleep 50000000, none⟩,
    ⟨.oldBackendConnections slowFlip, .ok 1⟩, ⟨.now, (150000000 : ℤ)⟩]

theorem after_slowDrain :
    (drain .interface (Options.new 0 100000000 4) slowFlip).After slowDrain
      (.done (some .drainTimeout)) := by
  unfold slowDrain
  iterate 10 refine Prog.After.cons _ ?_
  exact .nil _

theorem drain_ends_and_reports_slow : (queries slowDrain).length = 3 ∧
    DrainReport (Options.new 0 100000000 4) slowFlip slowDrain (some .drainTimeout) := by
  refine ⟨rfl, drain_ends_and_reports 0 100000000 4 slowFlip (t := 0) after_slowDrain ?_ ?_ (by decide)⟩
  · simp [slowDrain, Advances]
  · simp [slowDrain]

end NodeAgent.Flip
