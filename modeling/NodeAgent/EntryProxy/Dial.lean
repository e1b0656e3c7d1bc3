import NodeAgent.EntryProxy.Health
import NodeAgent.Lib.Exec

/-!
# Failing over to a live backend

`dialAnyBackend` of `internal/entryproxy/proxy.go` tries the candidates in turn, each for at most two
seconds, until one answers or the deadline for all of them has passed. A backend that swallows packets costs
a whole attempt, so that few of them in front of a live one use up the time in which it would be tried.
-/

namespace NodeAgent.Dial

open Lib

/-! ## The loop over the candidates -/

/-- What a dial asks of the outside. -/
inductive Call
  | now
  | ctxErr
  /-- `DialContext` under a context with a timeout -/
  | dial (be : EntryBackend) (timeout : ℤ)
  | markBackendSuccess (id : String)
  | markBackendFailure (id : String)

abbrev Reply : Call → Type
  | .now => Time
  | .ctxErr => Option GoError
  | .dial _ _ => Option GoError
  | .markBackendSuccess _ => Unit
  | .markBackendFailure _ => Unit

/-- The programs that dial. -/
abbrev dialing : Sig where
  Call := Call
  Reply := Reply

abbrev DialEvent := Event dialing

abbrev dialPort (c : Call) : Prog dialing (Reply c) := Prog.invoke (S := dialing) c

/-- The timeouts of the proxy's configuration. -/
structure Timeouts where
  dialTimeout : ℤ
  dialAttemptTO : ℤ

/-- The timeouts as `New` makes them of the configured one. -/
def Timeouts.new (cfgDialTimeout : ℤ) : Timeouts :=
  let dialTimeout := if cfgDialTimeout ≤ 0 then 5 * 1000000000 else cfgDialTimeout
  let dialAttemptTO := 2 * 1000000000
  { dialTimeout := dialTimeout
    dialAttemptTO := if dialAttemptTO > dialTimeout then dialTimeout else dialAttemptTO }

/-- The timeout of an attempt, with so much time until the deadline. -/
def Timeouts.attemptTO (c : Timeouts) (rem : ℤ) : ℤ := if rem < c.dialAttemptTO then rem else c.dialAttemptTO

/-- One pass over the candidates; `some r` is a return from within. -/
def dialPass (c : Timeouts) (deadline : ℤ) : List EntryBackend → Prog dialing (Option (Option EntryBackend))
  | [] => return none
  | be :: cands => do
    match ← dialPort .ctxErr with
    | some _ => return some none
    | none =>
      let t : ℤ ← dialPort .now
      if t > deadline then return some none
      else
        let t' : ℤ ← dialPort .now
        match ← dialPort (.dial be (c.attemptTO (deadline - t'))) with
        | none =>
          dialPort (.markBackendSuccess be.id)
          return some (some be)
        | some _ =>
          dialPort (.markBackendFailure be.id)
          dialPass c deadline cands

/-- So many passes. -/
def dialPasses (c : Timeouts) (deadline : ℤ) (cands : List EntryBackend) :
    ℕ → Prog dialing (Option EntryBackend)
  | 0 => return none
  | passes + 1 => do
    let t : ℤ ← dialPort .now
    if t < deadline then
      match ← dialPass c deadline cands with
      | some r => return r
      | none => if cands = [] then return none else dialPasses c deadline cands passes
    else return none

/-- `dialAnyBackend`: the candidates one after the other, again and again, until the time is up. -/
def dialAnyBackend (c : Timeouts) (cands : List EntryBackend) (passes : ℕ) :
    Prog dialing (Option EntryBackend) := do
  let t : ℤ ← dialPort .now
  dialPasses c (t + c.dialTimeout) cands passes

/-! ## The network -/

/-- How a backend answers to a dial. -/
inductive Peer
  | live
  | refusing
  | blackHoled
  deriving DecidableEq, Repr

/-- The outcome of a dial, and how long it takes. A dial whose context has expired fails at once, whoever
would answer. -/
def dialed (peer : Peer) (timeout : ℤ) : Option GoError × ℤ :=
  if timeout ≤ 0 then (some (.new "i/o timeout"), 0)
  else
    match peer with
    | .live => (none, 0)
    | .refusing => (some (.new "connection refused"), 0)
    | .blackHoled => (some (.new "i/o timeout"), timeout)

/-- The time, and the proxy with what it has marked about its backends. -/
structure Net where
  now : ℤ
  proxy : Proxy

/-- Backends that answer by their kind, and a clock. A call may take longer by the delay it is given; the
context is not cancelled. -/
def net (peer : EntryBackend → Peer) : Handler dialing ℕ Net where
  exec
    | .now, delay, w => (w.now + delay, { w with now := w.now + delay })
    | .ctxErr, _, w => (none, w)
    | .dial be timeout, delay, w =>
      ((dialed (peer be) timeout).1, { w with now := w.now + (dialed (peer be) timeout).2 + delay })
    | .markBackendSuccess id, _, w => ((), { w with proxy := w.proxy.markBackendSuccess id })
    | .markBackendFailure id, _, w => ((), { w with proxy := w.proxy.markBackendFailure id w.now })

/-- On an exact clock nothing takes longer. -/
def OnTime (delay : ℕ) : Prop := delay = 0

/-- The black-holed backends before the first live one. -/
def blackHolesBefore (peer : EntryBackend → Peer) : List EntryBackend → ℕ
  | [] => 0
  | be :: cands =>
    match peer be with
    | .live => 0
    | .refusing => blackHolesBefore peer cands
    | .blackHoled => blackHolesBefore peer cands + 1

/-- The backend that was dialled. -/
def attemptOf : DialEvent → Option EntryBackend
  | ⟨.dial be _, _⟩ => some be
  | _ => none

/-- The backend that was marked as failed. -/
def failureOf : DialEvent → Option String
  | ⟨.markBackendFailure id, _⟩ => some id
  | _ => none

/-- The last backend that is tried is live, and those before are marked as failed. -/
def Reaches (peer : EntryBackend → Peer) (cands : List EntryBackend) (tr : List DialEvent)
    (r : Option EntryBackend) : Prop :=
  ∃ be before, r = some be ∧ be ∈ cands ∧ peer be = .live ∧ tr.filterMap attemptOf = before ++ [be] ∧
    tr.filterMap failureOf = before.map EntryBackend.id

section Pass

variable {peer : EntryBackend → Peer} {A : ℕ → Prop} {c : Timeouts} {deadline : ℤ} {be : EntryBackend}
  {cands : List EntryBackend} {w w' : Net} {tr : List DialEvent} {r : Option (Option EntryBackend)}

/-- What a pass does with its first candidate. The delays are those until the clock is read, until it is
read again, and of the dial. -/
theorem run_dialPass_cons (h : Run (net peer) A (dialPass c deadline (be :: cands)) w tr r w') :
    ∃ d₁, A d₁ ∧ ((deadline < w.now + d₁ ∧ r = some none) ∨ ∃ d₂ d₃ timeout, A d₂ ∧ A d₃ ∧
      timeout = c.attemptTO (deadline - (w.now + d₁ + d₂)) ∧
      (((dialed (peer be) timeout).1 = none ∧ r = some (some be) ∧ tr.filterMap attemptOf = [be] ∧
          tr.filterMap failureOf = []) ∨
        ((dialed (peer be) timeout).1 ≠ none ∧ ∃ w₁ tr₁,
          w₁.now = w.now + d₁ + d₂ + (dialed (peer be) timeout).2 + d₃ ∧
          Run (net peer) A (dialPass c deadline cands) w₁ tr₁ r w' ∧
          tr.filterMap attemptOf = be :: tr₁.filterMap attemptOf ∧
          tr.filterMap failureOf = be.id :: tr₁.filterMap failureOf))) := by
  obtain ⟨d₀, tr₁, -, rfl, h₁⟩ := run_call.mp h
  obtain ⟨d₁, tr₂, hd₁, rfl, h₂⟩ := run_call.mp h₁
  refine ⟨d₁, hd₁, ?_⟩
  change Run (net peer) A (if w.now + d₁ > deadline then _ else _) _ tr₂ r w' at h₂
  split_ifs at h₂ with hlate
  · obtain ⟨-, rfl, -⟩ := run_done.mp h₂
    exact .inl ⟨hlate, rfl⟩
  · obtain ⟨d₂, tr₃, hd₂, rfl, h₃⟩ := run_call.mp h₂
    obtain ⟨d₃, tr₄, hd₃, rfl, h₄⟩ := run_call.mp h₃
    refine .inr ⟨d₂, d₃, c.attemptTO (deadline - (w.now + d₁ + d₂)), hd₂, hd₃, rfl, ?_⟩
    change Run (net peer) A
      ((Prog.done (dialed (peer be) (c.attemptTO (deadline - (w.now + d₁ + d₂)))).1).bind _) _ tr₄ r w' at h₄
    cases hout : (dialed (peer be) (c.attemptTO (deadline - (w.now + d₁ + d₂)))).1 with
    | none =>
      rw [hout] at h₄
      obtain ⟨d₄, tr₅, -, rfl, h₅⟩ := run_call.mp h₄
      obtain ⟨rfl, rfl, -⟩ := run_done.mp h₅
      exact .inl ⟨rfl, rfl, rfl, rfl⟩
    | some err =>
      rw [hout] at h₄
      obtain ⟨d₄, tr₅, -, rfl, h₅⟩ := run_call.mp h₄
      exact .inr ⟨Option.some_ne_none err, _, tr₅, rfl, h₅, rfl, rfl⟩

theorem attemptTO_eq (c : Timeouts) (rem : ℤ) : c.attemptTO rem = min rem c.dialAttemptTO := by
  unfold Timeouts.attemptTO
  split_ifs <;> omega

theorem dialed_eq_none_iff {peer : Peer} {timeout : ℤ} :
    (dialed peer timeout).1 = none ↔ peer = .live ∧ 0 < timeout := by
  unfold dialed
  split_ifs with h
  · simp [h]
  · cases peer <;> simp [Int.not_le.mp h]

theorem dialed_time (peer : Peer) (timeout : ℤ) :
    (dialed peer timeout).2 = if peer = .blackHoled then max timeout 0 else 0 := by
  unfold dialed
  split_ifs with h hpeer hpeer
  · exact (max_eq_right h).symm
  · rfl
  · subst hpeer
    exact (max_eq_left (Int.not_le.mp h).le).symm
  · cases peer with
    | live => rfl
    | refusing => rfl
    | blackHoled => exact absurd rfl hpeer

/-- If the backends that swallow packets leave time for it, a pass reaches the first live one. -/
theorem pass_reaches (hc : 0 < c.dialAttemptTO) (hlive : ∃ be ∈ cands, peer be = .live)
    (hrem : blackHolesBefore peer cands * c.dialAttemptTO < deadline - w.now)
    (h : Run (net peer) OnTime (dialPass c deadline cands) w tr r w') :
    ∃ res, r = some res ∧ Reaches peer cands tr res := by
  induction cands generalizing w tr with
  | nil => simp at hlive
  | cons be cands ih =>
    have hpos : 0 < deadline - w.now := lt_of_le_of_lt (by positivity) hrem
    obtain ⟨_, rfl, ⟨hlate, -⟩ | ⟨_, _, timeout, rfl, rfl, htimeout, hout⟩⟩ := run_dialPass_cons h
    · exact absurd hlate (by simpa using (Int.sub_pos.mp hpos).le)
    · rw [attemptTO_eq] at htimeout
      simp only [Nat.cast_zero, add_zero] at htimeout hout
      have htime : 0 < timeout := by
        rw [htimeout]
        exact lt_min hpos hc
      rcases hout with ⟨hok, rfl, hattempts, hfailures⟩ |
        ⟨hfail, w₁, tr₁, hnow, hrest, hattempts, hfailures⟩
      · obtain ⟨hbe, -⟩ := dialed_eq_none_iff.mp hok
        exact ⟨some be, rfl, be, [], rfl, List.mem_cons_self, hbe, hattempts, hfailures⟩
      · have hdead : peer be ≠ .live := fun hbe => hfail (dialed_eq_none_iff.mpr ⟨hbe, htime⟩)
        have hlive' : ∃ be ∈ cands, peer be = .live := by
          obtain ⟨be', hmem, hbe'⟩ := hlive
          rcases List.mem_cons.mp hmem with rfl | hmem
          · exact absurd hbe' hdead
          · exact ⟨be', hmem, hbe'⟩
        have hrem' : blackHolesBefore peer cands * c.dialAttemptTO < deadline - w₁.now := by
          rw [dialed_time] at hnow
          unfold blackHolesBefore at hrem
          cases hbe : peer be with
          | live => exact absurd hbe hdead
          | refusing =>
            simp only [hbe] at hrem hnow
            simpa [hnow] using hrem
          | blackHoled =>
            -- there is time for the whole attempt
            simp only [hbe, if_true] at hrem hnow
            push_cast at hrem
            have hn : (0 : ℤ) ≤ blackHolesBefore peer cands * c.dialAttemptTO := by positivity
            rw [add_mul, one_mul] at hrem
            rw [hnow, htimeout]
            omega
        obtain ⟨res, hr, be', before, hres, hmem, hbe', hattempts', hfailures'⟩ := ih hlive' hrem' hrest
        refine ⟨res, hr, be', be :: before, hres, List.mem_cons_of_mem _ hmem, hbe', ?_, ?_⟩
        · rw [hattempts, hattempts']
          rfl
        · rw [hfailures, hfailures']
          rfl

/-- If they do not, no pass reaches a live backend, whatever delays there are. -/
theorem pass_misses (hc : 0 < c.dialAttemptTO)
    (hrem : deadline - w.now ≤ blackHolesBefore peer cands * c.dialAttemptTO)
    (h : Run (net peer) A (dialPass c deadline cands) w tr r w') :
    r = some none ∨ (r = none ∧ deadline ≤ w'.now) := by
  induction cands generalizing w tr with
  | nil =>
    obtain ⟨-, rfl, rfl⟩ := run_done.mp h
    refine .inr ⟨rfl, ?_⟩
    simpa [blackHolesBefore] using hrem
  | cons be cands ih =>
    obtain ⟨d₁, -, ⟨-, rfl⟩ | ⟨d₂, d₃, timeout, -, -, htimeout, hout⟩⟩ := run_dialPass_cons h
    · exact .inl rfl
    · have hn : (0 : ℤ) ≤ blackHolesBefore peer cands * c.dialAttemptTO := by positivity
      rw [attemptTO_eq] at htimeout
      unfold blackHolesBefore at hrem
      rcases hout with ⟨hok, -⟩ | ⟨-, w₁, tr₁, hnow, hrest, -⟩
      · obtain ⟨hbe, htime⟩ := dialed_eq_none_iff.mp hok
        simp only [hbe] at hrem
        omega
      · refine ih ?_ hrest
        rw [dialed_time] at hnow
        cases hbe : peer be with
        | live =>
          simp only [hbe] at hrem hnow
          simp at hrem hnow
          omega
        | refusing =>
          simp only [hbe] at hrem hnow
          simp at hnow
          omega
        | blackHoled =>
          simp only [hbe, if_true] at hrem hnow
          push_cast at hrem
          rw [add_mul, one_mul] at hrem
          omega

end Pass

/-! ## All passes -/

section Passes

variable {peer : EntryBackend → Peer} {A : ℕ → Prop} {c : Timeouts} {deadline : ℤ}
  {cands : List EntryBackend} {w w' : Net} {tr : List DialEvent} {r : Option EntryBackend}

theorem passes_miss {passes : ℕ} (hc : 0 < c.dialAttemptTO)
    (hrem : deadline - w.now ≤ blackHolesBefore peer cands * c.dialAttemptTO)
    (h : Run (net peer) A (dialPasses c deadline cands passes) w tr r w') : r = none := by
  induction passes generalizing w tr with
  | zero => exact (run_done.mp h).2.1
  | succ passes ih =>
    obtain ⟨d, tr₁, -, rfl, h₁⟩ := run_call.mp h
    change Run (net peer) A (if w.now + d < deadline then _ else _) { w with now := w.now + d } tr₁ r w' at h₁
    by_cases htime : w.now + d < deadline
    · rw [if_pos htime] at h₁
      obtain ⟨res, tr₂, tr₃, w₁, rfl, hpass, h₂⟩ := run_bind.mp h₁
      have hrem' : deadline - (w.now + d) ≤ blackHolesBefore peer cands * c.dialAttemptTO := by omega
      rcases pass_misses hc hrem' hpass with rfl | ⟨rfl, hnow⟩
      · exact (run_done.mp h₂).2.1
      · change Run (net peer) A (if cands = [] then _ else _) w₁ tr₃ r w' at h₂
        split_ifs at h₂ with hcands
        · exact (run_done.mp h₂).2.1
        · refine ih ?_ h₂
          have hn : (0 : ℤ) ≤ blackHolesBefore peer cands * c.dialAttemptTO := by positivity
          omega
    · rw [if_neg htime] at h₁
      exact (run_done.mp h₁).2.1

theorem passes_reach {passes : ℕ} (hc : 0 < c.dialAttemptTO) (hlive : ∃ be ∈ cands, peer be = .live)
    (hrem : blackHolesBefore peer cands * c.dialAttemptTO < deadline - w.now)
    (h : Run (net peer) OnTime (dialPasses c deadline cands (passes + 1)) w tr r w') :
    Reaches peer cands tr r := by
  have hpos : 0 < deadline - w.now := lt_of_le_of_lt (by positivity) hrem
  obtain ⟨_, tr₁, rfl, rfl, h₁⟩ := run_call.mp h
  change Run (net peer) OnTime (if w.now + ((0 : ℕ) : ℤ) < deadline then _ else _)
    { w with now := w.now + ((0 : ℕ) : ℤ) } tr₁ r w' at h₁
  rw [if_pos (by simpa using Int.sub_pos.mp hpos)] at h₁
  obtain ⟨res, tr₂, tr₃, w₁, rfl, hpass, h₂⟩ := run_bind.mp h₁
  obtain ⟨r', rfl, hreaches⟩ := pass_reaches hc hlive (by simpa using hrem) hpass
  obtain ⟨rfl, rfl, -⟩ := run_done.mp h₂
  rw [List.append_nil]
  exact hreaches

end Passes

/-- With a live backend among the candidates, the dial reaches one exactly if the black-holed backends before
the first live one leave some of the time. -/
theorem dial_reaches_live_iff {peer : EntryBackend → Peer} {cands : List EntryBackend} {dialTimeout : ℤ}
    {passes : ℕ} {w w' : Net} {tr : List DialEvent} {r : Option EntryBackend} (hD : 0 < dialTimeout)
    (hlive : ∃ be ∈ cands, peer be = .live)
    (h : Run (net peer) OnTime (dialAnyBackend (Timeouts.new dialTimeout) cands (passes + 1)) w tr r w') :
    Reaches peer cands tr r ↔
      blackHolesBefore peer cands * min (2 * 1000000000) dialTimeout < dialTimeout := by
  have hnew : Timeouts.new dialTimeout = ⟨dialTimeout, min (2 * 1000000000) dialTimeout⟩ := by
    unfold Timeouts.new
    rw [if_neg (Int.not_le.mpr hD)]
    dsimp only
    congr 1
    split_ifs <;> omega
  have hc : 0 < min (2 * 1000000000) dialTimeout := lt_min (by norm_num) hD
  obtain ⟨_, tr₁, rfl, rfl, h₁⟩ := run_call.mp h
  rw [hnew] at h₁
  change Run (net peer) OnTime (dialPasses _ (w.now + ((0 : ℕ) : ℤ) + dialTimeout) cands (passes + 1))
    { w with now := w.now + ((0 : ℕ) : ℤ) } tr₁ r w' at h₁
  have htime : w.now + ((0 : ℕ) : ℤ) + dialTimeout - (w.now + ((0 : ℕ) : ℤ)) = dialTimeout := by ring
  constructor
  · rintro ⟨be, -, rfl, -⟩
    by_contra hspent
    cases passes_miss hc (htime.trans_le (Int.not_lt.mp hspent)) h₁
  · intro hleft
    have hreaches : Reaches peer cands tr₁ r := passes_reach hc hlive (hleft.trans_eq htime.symm) h₁
    exact hreaches

def backend (id : String) : EntryBackend := { id := id, address := "10.0.0.1", port := 443 }

/-- `live` answers, `dead` refuses, and the others swallow packets. -/
def kindOf (be : EntryBackend) : Peer :=
  if be.id = "live" then .live else if be.id = "dead" then .refusing else .blackHoled

/-- A dial with the default timeout. -/
def dialRun (ids : List String) : List DialEvent × Option EntryBackend × Net :=
  replay (net kindOf) (dialAnyBackend (Timeouts.new 5000000000) (ids.map backend) 1) [] ⟨0, .new⟩

theorem run_dialRun (ids : List String) : Run (net kindOf) OnTime
    (dialAnyBackend (Timeouts.new 5000000000) (ids.map backend) 1) ⟨0, .new⟩ (dialRun ids).1
    (dialRun ids).2.1 (dialRun ids).2.2 :=
  run_replay (A := OnTime) rfl [] (by simp) _

theorem dial_reaches_live_after_two :
    Reaches kindOf (["a", "dead", "b", "live"].map backend) (dialRun ["a", "dead", "b", "live"]).1
      (dialRun ["a", "dead", "b", "live"]).2.1 :=
  (dial_reaches_live_iff (by norm_num) ⟨backend "live", by decide, by decide⟩ (run_dialRun _)).mpr (by decide)

/-- Three backends that swallow packets take two, two and one of the five seconds. The live one after them
is not reached, and not on a clock with delays either. -/
theorem black_holes_hide_live : kindOf (backend "live") = .live ∧
    ¬ Reaches kindOf (["a", "b", "c", "live"].map backend) (dialRun ["a", "b", "c", "live"]).1
      (dialRun ["a", "b", "c", "live"]).2.1 ∧
    ∀ A passes w tr r w', Run (net kindOf) A
      (dialAnyBackend (Timeouts.new 5000000000) (["a", "b", "c", "live"].map backend) passes) w tr r w' →
      r = none := by
  have hnone : ∀ A passes w tr r w', Run (net kindOf) A
      (dialAnyBackend (Timeouts.new 5000000000) (["a", "b", "c", "live"].map backend) passes) w tr r w' →
      r = none := by
    intro A passes w tr r w' h
    obtain ⟨d, tr₁, -, rfl, h₁⟩ := run_call.mp h
    refine passes_miss (by decide) ?_ h₁
    show w.now + d + 5000000000 - (w.now + d) ≤ 3 * 2000000000
    omega
  refine ⟨rfl, ?_, hnone⟩
  rintro ⟨be, before, hr, -⟩
  rw [hnone _ _ _ _ _ _ (run_dialRun _)] at hr
  cases hr

end NodeAgent.Dial
