import NodeAgent.Domain
import NodeAgent.Lib.Crash

/-!
# Requests for a snapshot

`awaitCompleteSnapshot`, `waitEntryProxyReady` and `runEntrySelfHeal` of `cmd/agent/main.go`: when the
node asks for a snapshot, at its start and later on. Each call takes some time, and time is read from
the same clock before and after. However long the calls take and whatever they reply, two requests are
at least the cooldown apart.
-/

namespace NodeAgent.Snapshot.SelfHeal

open Lib

/-! ## Calls -/

/-- What the loop asks of the outside. -/
inductive Call
  | now
  /-- `Requester.Request` -/
  | request (reason : String)
  /-- `Consumer.Stats`: whether a snapshot has been completed -/
  | completed
  /-- whether `ctx.Err()` is not nil -/
  | ctxErr
  /-- a timer or the end of the context; whether it was the latter -/
  | sleep (d : ℕ)
  /-- the ticker or the end of the context; whether it was the latter -/
  | tick
  /-- whether `Check` returns nil -/
  | check
  | users
  | hasPending
  | backends

abbrev Reply : Call → Type
  | .now => Time
  | .request _ => Option GoError
  | .completed => Bool
  | .ctxErr => Bool
  | .sleep _ => Bool
  | .tick => Bool
  | .check => Bool
  | .users => ℕ
  | .hasPending => Bool
  | .backends => ℕ

/-- The programs of the loop. -/
abbrev healing : Sig where
  Call := Call
  Reply := Reply

abbrev ask (c : Call) : Prog healing (Reply c) := Prog.invoke (S := healing) c

/-! ## The code -/

def second : ℕ := 1000000000

def reasonStartup : String := "startup"

/-- The least time between two requests, and the longest without one. -/
def cooldown : ℕ := 20 * second

def safetyRefresh : ℕ := 10 * 60 * second

/-- What the loops look at: whether the actions count users and routes that are pending, and whether
there are a registry and an embedded proxy. -/
structure EntryStack where
  countsUsers : Bool := true
  hasRegistry : Bool := true
  hasEntryProxy : Bool := true
  deriving DecidableEq, Repr

/-- An error is logged. The result is the time of the request. -/
def request (reason : String) : Prog healing Time := do
  let _ ← ask (.request reason)
  ask .now

/-- The loop of `waitEntryProxyReady`, for at most so many rounds. -/
def readyLoop (deadline : Time) : ℕ → Prog healing Unit
  | 0 => return ()
  | rounds + 1 => do
    let ready ← ask .check
    if ready then return ()
    else
      let canceled ← ask .ctxErr
      if canceled then return ()
      else
        let t ← ask .now
        if t > deadline then return ()
        else
          let canceled ← ask (.sleep (second / 2))
          if canceled then return () else readyLoop deadline rounds

/-- `waitEntryProxyReady`: poll until the proxy answers, for a minute at most. -/
def waitEntryProxyReady (rounds : ℕ) : Prog healing Unit := do
  let t ← ask .now
  readyLoop (t + (60 * second : ℕ)) rounds

/-- The end of a round: another request if the last one is old and there is still no snapshot. -/
def requestAgain (last : Time) : Prog healing Time := do
  let t ← ask .now
  if t - last ≥ cooldown then
    let completed ← ask .completed
    if completed then return last else request reasonStartup
  else return last

/-- The loop of `awaitCompleteSnapshot`. -/
def awaitLoop (finish : Time) : ℕ → Time → Prog healing Unit
  | 0, _ => return ()
  | rounds + 1, last => do
    let completed ← ask .completed
    if completed then return ()
    else
      let canceled ← ask .ctxErr
      if canceled then return ()
      else
        let t ← ask .now
        if t > finish then return ()
        else
          let canceled ← ask (.sleep (2 * second))
          if canceled then return ()
          else
            let last ← requestAgain last
            awaitLoop finish rounds last

/-- `awaitCompleteSnapshot`: poll until a snapshot is complete or the time is up. -/
def awaitCompleteSnapshot (rounds : ℕ) (deadline : ℕ) : Prog healing Unit := do
  let last ← request reasonStartup
  let t ← ask .now
  awaitLoop (t + deadline) rounds last

/-- The users are counted, and there are none. -/
def zeroUsers (stack : EntryStack) : Prog healing Bool :=
  if stack.countsUsers then do
    let users ← ask .users
    return users = 0
  else return false

/-- The users are counted, and some route was deferred. -/
def pendingRoutes (stack : EntryStack) : Prog healing Bool :=
  if stack.countsUsers then ask .hasPending else return false

/-- There is a registry, and it is empty. -/
def zeroBackends (stack : EntryStack) : Prog healing Bool :=
  if stack.hasRegistry then do
    let backends ← ask .backends
    return backends = 0
  else return false

/-- Without the text of the reason, which is logged. -/
def entryDegraded : Option EntryStack → Prog healing Bool
  | none => return false
  | some stack => do
    let zero ← zeroUsers stack
    if zero then return true
    else
      let pending ← pendingRoutes stack
      if pending then return true else zeroBackends stack

/-- A request if the last one is that old. -/
def requestAfter (age : ℕ) (last : Time) : Prog healing Time := do
  let t ← ask .now
  if t - last ≥ age then request reasonStartup else return last

/-- The loop of `runEntrySelfHeal`, for at most so many ticks. -/
def healLoop (stack : Option EntryStack) : ℕ → Time → Prog healing Unit
  | 0, _ => return ()
  | ticks + 1, lastRequest => do
    let canceled ← ask .tick
    if canceled then return ()
    else
      let degraded ← entryDegraded stack
      let lastRequest ← requestAfter (if degraded then cooldown else safetyRefresh) lastRequest
      healLoop stack ticks lastRequest

def waitForProxy (stack : Option EntryStack) (rounds : ℕ) : Prog healing Unit :=
  if stack.any EntryStack.hasEntryProxy then waitEntryProxyReady rounds else return ()

/-- `runEntrySelfHeal` of `main.go`. -/
def runEntrySelfHeal (stack : Option EntryStack) (rounds : ℕ) : Prog healing Unit := do
  waitForProxy stack rounds
  awaitCompleteSnapshot rounds (2 * 60 * second)
  let lastRequest ← ask .now
  healLoop stack rounds lastRequest

/-! ## The clock -/

/-- The time, and the times of the requests, the latest one first. -/
structure World where
  now : ℤ := 0
  requests : List ℤ := []
  deriving DecidableEq, Repr

/-- What the environment chooses: how much time goes by before the call takes effect, and the reply. -/
structure Choice where
  elapsed : ℕ := 0
  flag : Bool := false
  count : ℕ := 0
  fail : Option GoError := none

instance : Inhabited Choice := ⟨{}⟩

/-- So much later. -/
def World.pass (w : World) (d : ℕ) : World := { w with now := w.now + d }

/-- What a call does to the clock and the counters. -/
def exec : (c : Call) → Choice → World → Reply c × World
  | .now, e, w => ((w.pass e.elapsed).now, w.pass e.elapsed)
  | .request _, e, w =>
    (e.fail, { w.pass e.elapsed with requests := (w.pass e.elapsed).now :: w.requests })
  | .sleep d, e, w => (e.flag, if e.flag then w.pass e.elapsed else w.pass (d + e.elapsed))
  | .completed, e, w => (e.flag, w.pass e.elapsed)
  | .ctxErr, e, w => (e.flag, w.pass e.elapsed)
  | .tick, e, w => (e.flag, w.pass e.elapsed)
  | .check, e, w => (e.flag, w.pass e.elapsed)
  | .users, e, w => (e.count, w.pass e.elapsed)
  | .hasPending, e, w => (e.flag, w.pass e.elapsed)
  | .backends, e, w => (e.count, w.pass e.elapsed)

def world : Handler healing Choice World where
  exec := exec

/-! ## Spacing -/

/-- Each request is at least the cooldown after the one before. -/
def Spaced (w : World) : Prop :=
  w.requests.Pairwise fun later earlier => earlier + (cooldown : ℤ) ≤ later

/-- `last` is not before any request, and not later than now. -/
structure Since (last : ℤ) (w : World) : Prop where
  spaced : Spaced w
  requested : ∀ r ∈ w.requests, r ≤ last
  past : last ≤ w.now

section Rules

variable {A : Choice → Prop} {α : Type} {w : World} {last : ℤ} {Q : α → World → Prop}

theorem Since.pass (h : Since last w) (d : ℕ) : Since last (w.pass d) where
  spaced := h.spaced
  requested := h.requested
  past := h.past.trans (Int.le_add_of_nonneg_right (Int.natCast_nonneg d))

theorem Since.now (h : Since last w) : Since w.now w where
  spaced := h.spaced
  requested r hr := (h.requested r hr).trans h.past
  past := le_rfl

theorem pass_pass (w : World) (d d' : ℕ) : (w.pass d).pass d' = w.pass (d + d') := by
  simp [World.pass, Int.add_assoc]

def NotRequest : Call → Prop
  | .request _ => False
  | _ => True

theorem exec_notRequest {c : Call} (hc : NotRequest c) (e : Choice) (w : World) :
    ∃ d, (exec c e w).2 = w.pass d := by
  cases c with
  | request reason => exact hc.elim
  | sleep d =>
    rcases hflag : e.flag with _ | _
    · exact ⟨d + e.elapsed, by simp [exec, hflag]⟩
    · exact ⟨e.elapsed, by simp [exec, hflag]⟩
  | _ => exact ⟨e.elapsed, rfl⟩

theorem safe_quiet {p : Prog healing α} (hp : p.All NotRequest) (h : Spaced w) :
    Safe world A Spaced (fun _ v => ∃ d, v = w.pass d) p w := by
  induction p generalizing w with
  | done a => exact ⟨h, 0, by simp [World.pass]⟩
  | call c k ih =>
    refine ⟨h, fun e _ => ?_⟩
    obtain ⟨d, hd⟩ := exec_notRequest hp.1 e w
    rw [show (world.exec c e w).2 = w.pass d from hd]
    refine (ih _ (hp.2 _) (w := w.pass d) h).imp (fun _ hv => hv) ?_
    rintro a v - ⟨d', rfl⟩
    exact ⟨d + d', pass_pass w d d'⟩

theorem safe_ask (c : Call) (hc : NotRequest c) {f : Reply c → Prog healing α} (h : Spaced w)
    (hf : ∀ r d, Safe world A Spaced Q (f r) (w.pass d)) : Safe world A Spaced Q (ask c >>= f) w := by
  refine safe_invoke.mpr ⟨h, fun e _ => ?_⟩
  obtain ⟨d, hd⟩ := exec_notRequest hc e w
  rw [show (world.exec c e w).2 = w.pass d from hd]
  exact hf _ d

theorem safe_now {f : Time → Prog healing α} (h : Spaced w)
    (hf : ∀ d, Safe world A Spaced Q (f (w.pass d).now) (w.pass d)) :
    Safe world A Spaced Q (ask .now >>= f) w :=
  safe_invoke.mpr ⟨h, fun e _ => hf e.elapsed⟩

/-- A request that is the first one, or at least the cooldown after `last`. -/
theorem request_safe {reason : String} (h : Since last w)
    (hage : w.requests = [] ∨ last + (cooldown : ℤ) ≤ w.now) :
    Safe world A Spaced Since (request reason) w := by
  refine safe_invoke.mpr ⟨h.spaced, fun e _ => ?_⟩
  have hspaced : Spaced (exec (.request reason) e w).2 := by
    refine List.pairwise_cons.mpr ⟨fun r hr => ?_, h.spaced⟩
    rcases hage with hnil | hage
    · rw [hnil] at hr
      cases hr
    · have hrlast := h.requested r hr
      show r + (cooldown : ℤ) ≤ w.now + e.elapsed
      omega
  refine safe_invoke.mpr ⟨hspaced, fun e' _ => ⟨hspaced, hspaced, fun r hr => ?_, le_rfl⟩⟩
  have hr' : r = w.now + e.elapsed ∨ r ∈ w.requests := List.mem_cons.mp hr
  show r ≤ w.now + e.elapsed + e'.elapsed
  rcases hr' with rfl | hr
  · omega
  · have hrlast := h.requested r hr
    have hpast := h.past
    omega

/-! ## The loops -/

theorem requestAfter_safe {age : ℕ} (hage : cooldown ≤ age) (h : Since last w) :
    Safe world A Spaced Since (requestAfter age last) w := by
  refine safe_now h.spaced fun d => ?_
  by_cases hold : (w.pass d).now - last ≥ (age : ℤ)
  · rw [if_pos hold]
    refine request_safe (h.pass d) (.inr ?_)
    omega
  · rw [if_neg hold]
    exact ⟨h.spaced, h.pass d⟩

theorem requestAgain_safe (h : Since last w) :
    Safe world A Spaced Since (requestAgain last) w := by
  refine safe_now h.spaced fun d => ?_
  by_cases hold : (w.pass d).now - last ≥ (cooldown : ℤ)
  · rw [if_pos hold]
    refine safe_ask .completed trivial h.spaced fun completed d' => ?_
    have hlater : (w.pass d).now ≤ ((w.pass d).pass d').now :=
      Int.le_add_of_nonneg_right (Int.natCast_nonneg d')
    cases completed with
    | true => exact ⟨h.spaced, (h.pass d).pass d'⟩
    | false =>
      refine request_safe ((h.pass d).pass d') (.inr ?_)
      omega
  · rw [if_neg hold]
    exact ⟨h.spaced, h.pass d⟩

theorem awaitLoop_safe (finish : Time) (h : Since last w) (rounds : ℕ) :
    Safe world A Spaced (fun _ v => Since v.now v) (awaitLoop finish rounds last) w := by
  induction rounds generalizing last w with
  | zero => exact ⟨h.spaced, h.now⟩
  | succ rounds ih =>
    refine safe_ask .completed trivial h.spaced fun completed d => ?_
    cases completed with
    | true => exact ⟨h.spaced, (h.pass d).now⟩
    | false =>
      refine safe_ask .ctxErr trivial h.spaced fun canceled d₁ => ?_
      cases canceled with
      | true => exact ⟨h.spaced, ((h.pass d).pass d₁).now⟩
      | false =>
        refine safe_now h.spaced fun d₂ => ?_
        have hnow := ((h.pass d).pass d₁).pass d₂
        by_cases hfinish : (((w.pass d).pass d₁).pass d₂).now > finish
        · rw [if_pos hfinish]
          exact ⟨h.spaced, hnow.now⟩
        · rw [if_neg hfinish]
          refine safe_ask (.sleep (2 * second)) trivial h.spaced fun canceled d₃ => ?_
          cases canceled with
          | true => exact ⟨h.spaced, (hnow.pass d₃).now⟩
          | false => exact (requestAgain_safe (hnow.pass d₃)).bind fun last v _ hv => ih hv

theorem awaitCompleteSnapshot_safe (hw : w.requests = []) (rounds deadline : ℕ) :
    Safe world A Spaced (fun _ v => Since v.now v) (awaitCompleteSnapshot rounds deadline) w := by
  have h : Since w.now w := ⟨by simp [Spaced, hw], by simp [hw], le_rfl⟩
  refine (request_safe h (.inl hw)).bind fun last v hv hlast => ?_
  exact safe_now hv fun d => awaitLoop_safe _ (hlast.pass d) rounds

theorem healLoop_safe {stack : Option EntryStack} (hstack : (entryDegraded stack).All NotRequest)
    (h : Since last w) (ticks : ℕ) :
    Safe world A Spaced (fun _ _ => True) (healLoop stack ticks last) w := by
  induction ticks generalizing last w with
  | zero => exact ⟨h.spaced, trivial⟩
  | succ ticks ih =>
    refine safe_ask .tick trivial h.spaced fun canceled d => ?_
    cases canceled with
    | true => exact ⟨h.spaced, trivial⟩
    | false =>
      refine (safe_quiet hstack (h.pass d).spaced).bind ?_
      rintro degraded v - ⟨d', rfl⟩
      have hage : cooldown ≤ if degraded then cooldown else safetyRefresh := by
        cases degraded <;> decide
      exact (requestAfter_safe hage ((h.pass d).pass d')).bind fun last u _ hu => ih hu

end Rules

/-! ## Programs without requests -/

theorem readyLoop_quiet (deadline : Time) (rounds : ℕ) :
    (readyLoop deadline rounds).All NotRequest := by
  induction rounds with
  | zero => trivial
  | succ rounds ih =>
    refine Prog.all_invoke_bind.mpr ⟨trivial, fun ready => ?_⟩
    cases ready with
    | true => trivial
    | false =>
      refine Prog.all_invoke_bind.mpr ⟨trivial, fun canceled => ?_⟩
      cases canceled with
      | true => trivial
      | false =>
        refine Prog.all_invoke_bind.mpr ⟨trivial, fun t => ?_⟩
        by_cases hlate : t > deadline
        · rw [if_pos hlate]
          trivial
        · rw [if_neg hlate]
          refine Prog.all_invoke_bind.mpr ⟨trivial, fun canceled => ?_⟩
          cases canceled with
          | true => trivial
          | false => exact ih

theorem entryDegraded_quiet (stack : Option EntryStack) : (entryDegraded stack).All NotRequest := by
  cases stack with
  | none => trivial
  | some stack =>
    have husers : (zeroUsers stack).All NotRequest := by
      unfold zeroUsers
      split_ifs
      · exact ⟨trivial, fun _ => trivial⟩
      · trivial
    have hpending : (pendingRoutes stack).All NotRequest := by
      unfold pendingRoutes
      split_ifs
      · exact ⟨trivial, fun _ => trivial⟩
      · trivial
    have hbackends : (zeroBackends stack).All NotRequest := by
      unfold zeroBackends
      split_ifs
      · exact ⟨trivial, fun _ => trivial⟩
      · trivial
    refine husers.bind fun zero => ?_
    cases zero with
    | true => trivial
    | false =>
      refine hpending.bind fun pending => ?_
      cases pending with
      | true => trivial
      | false => exact hbackends

theorem waitForProxy_quiet (stack : Option EntryStack) (rounds : ℕ) :
    (waitForProxy stack rounds).All NotRequest := by
  unfold waitForProxy
  split_ifs
  · exact ⟨trivial, fun t => readyLoop_quiet _ rounds⟩
  · trivial

/-- However long its calls take and whatever they reply, a node that heals itself asks for snapshots at
times that are at least the cooldown apart, from its start on. -/
theorem requests_are_spaced {A : Choice → Prop} {w w' : World} {stack : Option EntryStack} {rounds : ℕ}
    {tr : List (Event healing)} {q : Prog healing Unit} (hw : w.requests = [])
    (h : (runEntrySelfHeal stack rounds).After tr q) (hsteps : Steps world A w tr w') :
    w'.requests.Pairwise fun later earlier => earlier + (cooldown : ℤ) ≤ later := by
  have hspaced : Spaced w := by simp [Spaced, hw]
  have hsafe : Safe world A Spaced (fun _ _ => True) (runEntrySelfHeal stack rounds) w := by
    refine (safe_quiet (waitForProxy_quiet stack rounds) hspaced).bind ?_
    rintro _ v - ⟨d, rfl⟩
    refine (awaitCompleteSnapshot_safe (w := w.pass d) hw rounds _).bind fun _ v _ hv => ?_
    exact safe_now hv.spaced fun d => healLoop_safe (entryDegraded_quiet stack) (hv.pass d).now rounds
  exact (hsafe.after h hsteps).keeps

/-- The first request is answered, and half a minute later there are no users. -/
def healed : List (Event healing) × Unit × World :=
  replay world (runEntrySelfHeal (some {}) 2)
    [{}, { flag := true }, { elapsed := 5 }, {}, {}, { flag := true }, {},
      { elapsed := 30 * second }, { count := 0 }, {}, { elapsed := 7 }, {}, { flag := true }] {}

theorem requests_are_spaced_healed : healed.2.2.requests = [30000000012, 5] ∧
    healed.2.2.requests.Pairwise fun later earlier => earlier + (cooldown : ℤ) ≤ later := by
  have hrun : Run world (fun _ => True) (runEntrySelfHeal (some {}) 2) {} healed.1 healed.2.1
      healed.2.2 := run_replay trivial _ (fun _ _ => trivial) _
  exact ⟨by decide +kernel, requests_are_spaced rfl hrun.1 hrun.2⟩

end NodeAgent.Snapshot.SelfHeal
