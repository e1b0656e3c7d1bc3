import NodeAgent.ApplierSpec
import NodeAgent.Executor.BackendExecutor

/-!
# Revocation on a backend node

Runs of the applier over the backend executor for one placement, whose client no other placement
shares, with any call failing. The executor learns from the stored record whether xray has the user;
that is right as long as record and xray agree, and a failed step keeps them in agreement only if what
it stores fits what it has done to xray.
-/

namespace NodeAgent.Backend

open Lib Applier BackendExecutor

/-- `Handle` on a backend node. -/
def deliver (nodeID : NodeID) (msg : Except GoError Command) : Go Err :=
  handle nodeID BackendExecutor.executor msg

/-- The stored record says that xray has the user. -/
def activeIn (s : Store) (p : PlacementID) : Bool :=
  (s.get p).any fun e => wasActive e true

/-- The record belongs to the client, and says of xray what is the case. -/
structure Agrees (p : PlacementID) (c : ClientID) (w : World) : Prop where
  client : ∀ e, w.store.get p = some e → e.clientID = c
  xray : c ∈ w.xray ↔ activeIn w.store p = true

/-- A step that ends in the error branch has stored its record exactly if it has removed the user,
where there was one, and has not added the user, where there was none. -/
def Clean (p : PlacementID) (w : World) (tr : List GoEvent) : Prop :=
  tr.any isErrorPut = true →
    if activeIn w.store p then tr.any isErrorSaved = tr.any isRemoved else tr.any isAdded = false

instance (p : PlacementID) (w : World) (tr : List GoEvent) : Decidable (Clean p w tr) := by
  unfold Clean
  infer_instance

theorem wasActive_stored (s : Store) (p : PlacementID) :
    wasActive ((s.get p).getD {}) (s.get p).isSome = activeIn s p := by
  unfold activeIn
  cases s.get p <;> rfl

theorem activeIn_put_ok (s : Store) (d : Placement) (t : Time) :
    activeIn (s.put (d.stamp .ok t)) d.id = d.live := by
  unfold activeIn
  rw [show d.id = (d.stamp .ok t).id from rfl, Store.get_put_self]
  simp [wasActive]

theorem activeIn_put_error (s : Store) (d : Placement) (t : Time) :
    activeIn (s.put (d.stamp .error t)) d.id = false := by
  unfold activeIn
  rw [show d.id = (d.stamp .error t).id from rfl, Store.get_put_self]
  simp [wasActive]

section Step

variable {p : PlacementID} {c : ClientID} {w w' : World} {d : Placement} {tr : List GoEvent}

theorem mem_xray_iff_live (h : Agrees p c w) (hc : d.clientID = c) {x : GoMap TransportKind}
    (hup : Updated d ((w.store.get p).getD {}) (activeIn w.store p) w.xray x tr) :
    c ∈ x ↔ d.live = true := by
  have hex : activeIn w.store p = true → ((w.store.get p).getD {}).clientID = c := by
    intro ha
    cases he : w.store.get p with
    | none => simp [activeIn, he] at ha
    | some e => exact h.client e he
  have hx := h.xray
  rw [hup.users, hc]
  cases hl : d.live <;> cases ha : activeIn w.store p <;> simp_all

theorem client_put {s : Store} (hp : d.id = p) (hc : d.clientID = c) (a : AppliedState) (t : Time)
    (e : Placement) (he : (s.put (d.stamp a t)).get p = some e) : e.clientID = c := by
  rw [Store.get_put, if_pos (show p = (d.stamp a t).id from hp.symm)] at he
  cases he
  exact hc

/-- An executor stores no records of failure. -/
theorem any_isErrorPut_executor {x : Executor} {e : Placement} {found : Bool} {q : Go (Bool × Err)}
    (h : (x.apply d e found).After tr q) :
    tr.any isErrorPut = false ∧ tr.any isErrorSaved = false := by
  have hcalls := (x.calls d e found).of_mem h
  simp only [List.any_eq_false]
  refine ⟨fun ev hev => ?_, fun ev hev => ?_⟩
  · unfold isErrorPut
    split
    · obtain ⟨t, ht⟩ := hcalls _ hev
      simp [ht]
    · simp
  · unfold isErrorSaved
    split
    · obtain ⟨t, ht⟩ := hcalls _ hev
      simp [ht]
    · simp

theorem any_xray_record (h : ∀ ev ∈ tr, RecordCall d ev.call) :
    tr.any isAdded = false ∧ tr.any isRemoved = false := by
  simp only [List.any_eq_false]
  refine ⟨fun ev hev => ?_, fun ev hev => ?_⟩
  · unfold isAdded
    split
    · exact absurd (h _ hev) id
    · simp
  · unfold isRemoved
    split
    · exact absurd (h _ hev) id
    · simp

theorem agrees_of_applied {x : GoMap TransportKind} {s : Store} {t : Time} (h : Agrees p c w)
    (hp : d.id = p) (hc : d.clientID = c)
    (hup : Updated d ((w.store.get p).getD {}) (activeIn w.store p) w.xray x tr)
    (hw : w'.store = s.put (d.stamp .ok t)) (hx : w'.xray = x) : Agrees p c w' := by
  refine ⟨fun e he => ?_, ?_⟩
  · rw [hw] at he
    exact client_put hp hc _ _ e he
  · rw [hx, mem_xray_iff_live h hc hup, hw, ← hp, activeIn_put_ok]

/-- A step that failed leaves agreement exactly if xray fits the record it left. -/
theorem agrees_of_failed {m saved removed added : Bool} (h : Agrees p c w) (hp : d.id = p)
    (hc : d.clientID = c) {t : Time} (hx : c ∈ w'.xray ↔ m = true)
    (hm : m = if activeIn w.store p then !removed else added)
    (hs : w'.store = if saved then w.store.put (d.stamp .error t) else w.store) :
    Agrees p c w' ↔ if activeIn w.store p then saved = removed else added = false := by
  have hact : activeIn w'.store p = (!saved && activeIn w.store p) := by
    cases saved with
    | true =>
      rw [hs, if_pos rfl, ← hp, activeIn_put_error]
      rfl
    | false => rw [hs, if_neg Bool.false_ne_true, Bool.not_false, Bool.true_and]
  have hcl : ∀ e, w'.store.get p = some e → e.clientID = c := fun e he => by
    rw [hs] at he
    split_ifs at he
    · exact client_put hp hc _ _ e he
    · exact h.client e he
  have hiff : Agrees p c w' ↔ (m = true ↔ (!saved && activeIn w.store p) = true) :=
    ⟨fun h' => by rw [← hx, ← hact]; exact h'.xray, fun h' => ⟨hcl, by rw [hx, hact]; exact h'⟩⟩
  rw [hiff, hm]
  cases activeIn w.store p <;> cases saved <;> cases removed <;> cases added <;> decide

/-- The failure of the executor, with what it did to xray, as the last lemma wants it. -/
theorem failed_xray {e : GoError} {found : Bool} {ex : Placement} (h : Agrees p c w)
    (hc : d.clientID = c) (hex : ex = (w.store.get p).getD {})
    (hfound : wasActive ex found = activeIn w.store p)
    (hout : Outcome true d ex found w tr (some e) w') :
    w'.store = w.store ∧ ∃ m : Bool, (c ∈ w'.xray ↔ m = true) ∧
      m = if activeIn w.store p then !tr.any isRemoved else tr.any isAdded := by
  subst hex
  cases hout with
  | refused err store xray added removed =>
    refine ⟨store, activeIn w.store p, by rw [xray]; exact h.xray, ?_⟩
    rw [added, removed]
    cases activeIn w.store p <;> rfl
  | unsaved err faulty store xray =>
    rw [hfound] at xray
    refine ⟨store, d.live, mem_xray_iff_live h hc xray, ?_⟩
    rw [xray.added, xray.removed]
    cases activeIn w.store p <;> cases d.live <;> rfl

/-- From agreement, a step keeps it exactly if it is clean. -/
theorem agrees_after_iff {cmd : Command} (h : Agrees p c w) (hp : cmd.placement.id = p)
    (hc : cmd.placement.clientID = c)
    (hout : HandleOutcome true BackendExecutor.executor cmd w tr w') :
    Agrees p c w' ↔ Clean p w tr := by
  cases hout with
  | skipped cs reported noRecord =>
    exact iff_of_true ⟨h.client, h.xray⟩ fun hput => by simp [noRecord] at hput
  | @executed trx tr' res w₁ _ cs due run ending calls =>
    obtain ⟨hxput, hxsaved⟩ := any_isErrorPut_executor run.1
    obtain ⟨hadd, hrem⟩ := any_xray_record calls
    obtain ⟨hret, hx⟩ := wp_iff_run.mp (ensures_apply _ _ _) _ _ _ run
    have hclean : Clean p w (⟨.count .receivedTotal 1, ()⟩ ::
        ⟨.getPlacement cmd.placement.id, .ok (w.store.get cmd.placement.id)⟩ :: (trx ++ tr')) ↔
        (tr'.any isErrorPut = true → if activeIn w.store p
          then tr'.any isErrorSaved = trx.any isRemoved else trx.any isAdded = false) := by
      unfold Clean
      simp [hxput, hxsaved, hadd, hrem, isErrorPut, isErrorSaved, isAdded, isRemoved]
    rw [hclean]
    rw [hp] at hx
    have hwas := wasActive_stored w.store p
    have h' : Agrees p c { w with counters := cs } := ⟨h.client, h.xray⟩
    obtain ⟨retryable, _ | e⟩ := res
    · cases hx with
      | applied t store xray =>
        rw [hwas] at xray
        cases ending with
        | retried _ err => exact absurd rfl err
        | recorded _ _ err => exact absurd rfl err
        | unrecorded _ _ _ err => exact absurd rfl err
        | unsaved ok faulty silent noRecord =>
          refine iff_of_true (agrees_of_applied h' hp hc xray store rfl) fun hput => ?_
          simp [noRecord] at hput
        | applied c' ok t' reported noRecord =>
          refine iff_of_true (agrees_of_applied h' hp hc xray rfl rfl) fun hput => ?_
          simp [noRecord] at hput
    · obtain ⟨hst, m, hm, hmval⟩ := failed_xray h' hc rfl hwas hx
      cases ending with
      | retried retryable => rw [hret] at retryable; cases retryable
      | recorded c' final err t reported tried saved =>
        rw [tried, saved, forall_prop_of_true rfl]
        refine agrees_of_failed (t := t) h hp hc hm hmval ?_
        exact congrArg (Store.put · _) hst
      | unrecorded c' faulty final err reported tried unsaved =>
        rw [tried, unsaved, forall_prop_of_true rfl]
        exact agrees_of_failed (t := 0) h hp hc hm hmval hst
      | unsaved ok => cases ok
      | applied _ ok => cases ok

end Step

/-! ## Runs -/

/-- In a run of clean steps every report of success is true: after `applied` for a live command the
client is in xray, after `applied` for any other it is not. -/
theorem applied_report_fits_xray {nodeID : NodeID} {p : PlacementID} {c : ClientID} {w w' : World}
    {ts : List (Turn ports World (Except GoError Command) Err)}
    (h : Session world (Env.Allowed true) (deliver nodeID) w ts w') (hw : Agrees p c w)
    (hown : ∀ t ∈ ts, ∀ cmd, t.input = .ok cmd →
      cmd.placement.id = p ∧ cmd.placement.clientID = c)
    (hclean : ∀ t ∈ ts, Clean p t.before t.trace) :
    ∀ t ∈ ts, ∀ cmd, t.input = .ok cmd → ∀ rep ∈ reports t.trace, rep.status = .applied →
      (c ∈ t.after.xray ↔ cmd.placement.live = true) := by
  have hinv := h.invariant (I := Agrees p c)
    (C := fun t => (∀ cmd, t.input = .ok cmd → cmd.placement.id = p ∧ cmd.placement.clientID = c) ∧
      Clean p t.before t.trace) hw (fun t ht => ⟨hown t ht, hclean t ht⟩) fun t hrun hI hC => ?_
  · intro t ht cmd hmsg rep hrep hst
    obtain ⟨hI, -, hrun⟩ := hinv.2 t ht
    obtain ⟨hp, hc⟩ := hown t ht cmd hmsg
    rw [hmsg] at hrun
    have hout := wp_iff_run.mp (ensures_handle _ _ _) _ _ _ hrun
    obtain ⟨cs, cs', trx, retryable, w₁, tm, -, hrunx, -, hafter⟩ := hout.of_applied hrep hst
    obtain ⟨-, hx⟩ := wp_iff_run.mp (ensures_apply _ _ _) _ _ _ hrunx
    rw [hafter]
    cases hx with
    | applied t' store xray =>
      rw [hp] at xray
      rw [show wasActive _ _ = activeIn t.before.store p from wasActive_stored _ p] at xray
      exact mem_xray_iff_live (w := { t.before with counters := cs }) ⟨hI.client, hI.xray⟩ hc xray
  · cases hmsg : t.input with
    | error err =>
      rw [hmsg] at hrun
      obtain ⟨-, -, heq⟩ := run_done.mp hrun
      rw [heq]
      exact hI
    | ok cmd =>
      rw [hmsg] at hrun
      obtain ⟨hp, hc⟩ := hC.1 cmd hmsg
      exact (agrees_after_iff hI hp hc (wp_iff_run.mp (ensures_handle _ _ _) _ _ _ hrun)).mpr hC.2

/-- The placement `p` of client `c` on a backend node. -/
def command (desired : DesiredState) (opVersion : OpVersion) : Placement :=
  { id := "p", nodeID := "n", clientID := "c", desired := desired, opVersion := opVersion }

/-- The client is activated, then deactivated. -/
def activateAndRevoke : List (Except GoError Command × List Env) :=
  [(.ok (.carrying (command .active 1)), []), (.ok (.carrying (command .inactive 2)), [])]

/-- The turns of that run. -/
def activateAndRevokeTurns : List (Turn ports World (Except GoError Command) Err) :=
  (replaySession world (deliver "n") activateAndRevoke {}).1

theorem revocation_report_fits_xray : ∃ t ∈ activateAndRevokeTurns,
    (∃ rep ∈ reports t.trace, rep.status = .applied) ∧ "c" ∈ t.before.xray ∧ "c" ∉ t.after.xray := by
  have hrun : Session world (Env.Allowed true) (deliver "n") {} activateAndRevokeTurns _ :=
    session_replay (Env.allowed_default _) _ (by simp [Env.Allowed]) _
  have hown : ∀ t ∈ activateAndRevokeTurns, ∀ cmd, t.input = .ok cmd →
      cmd.placement.id = "p" ∧ cmd.placement.clientID = "c" := by
    intro t ht cmd hmsg
    rcases List.mem_cons.mp ht with rfl | ht
    · cases hmsg
      exact ⟨rfl, rfl⟩
    · obtain rfl := List.mem_singleton.mp ht
      cases hmsg
      exact ⟨rfl, rfl⟩
  have hclean : ∀ t ∈ activateAndRevokeTurns, Clean "p" t.before t.trace := by decide
  have hrep : ∃ rep ∈ reports (activateAndRevokeTurns.getLast (by decide)).trace,
      rep.status = .applied := by decide
  obtain ⟨rep, hmem, hst⟩ := hrep
  refine ⟨_, List.getLast_mem _, ⟨rep, hmem, hst⟩, by decide, fun hx => ?_⟩
  have hiff := applied_report_fits_xray hrun ⟨by simp, by decide⟩ hown hclean _ (List.getLast_mem _)
    (.carrying (command .inactive 2)) rfl rep hmem hst
  exact absurd (hiff.mp hx) (by decide)

/-- The removal fails; the control plane sends the same version again. -/
def retryAfterFailedRemoval : List (Except GoError Command × List Env) :=
  [(.ok (.carrying (command .active 1)), []),
   (.ok (.carrying (command .inactive 2)), [{}, {}, { fail := some "xray down" }]),
   (.ok (.carrying (command .inactive 2)), [])]

theorem revocation_report_can_be_false : ∃ ts w',
    Session world (Env.Allowed true) (deliver "n") {} ts w' ∧
      ∃ t ∈ ts, ∃ cmd : Command, t.input = .ok cmd ∧ cmd.placement.live = false ∧
        (∃ rep ∈ reports t.trace, rep.status = .applied) ∧
        cmd.placement.clientID ∈ t.after.xray := by
  refine ⟨_, _, session_replay (Env.allowed_default _) retryAfterFailedRemoval
    (by simp [Env.Allowed]) _, _,
    List.mem_cons_of_mem _ (List.mem_cons_of_mem _ List.mem_cons_self),
    .carrying (command .inactive 2), rfl, by decide, ?_, by decide⟩
  decide

end NodeAgent.Backend
