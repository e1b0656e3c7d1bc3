import NodeAgent.ApplierSpec
import NodeAgent.Entry.Sequential

/-!
# Reports of success on an entry node

Runs of the applier over the embedded proxy: messages handled one after another, the registry as it
is at each of them, any call failing. When does a report `applied` mean that the proxy serves the
client as the command asks, or has dropped it?
-/

namespace NodeAgent.Entry

open Lib Applier EntryProxyActions FlipExecutor

/-- A message for the applier, and the registry while it is handled. -/
structure Delivery where
  reg : Registry
  msg : Except GoError Command

/-- `Handle` on a node with the embedded proxy. -/
def deliver (nodeID : NodeID) (opts : FlipExecutorOptions) (x : Delivery) : Go Err :=
  handle nodeID (entryProxy x.reg opts).executor x.msg

/-- What a report of success promises of the proxy. -/
def Serves (reg : Registry) (d : Placement) (p : Proxy) : Prop :=
  d.live = true → (reg.get d.backendNodeID).isSome →
    d.clientID ∈ p.users ∧ d.backendNodeID ∈ p.routeOf d.clientID

/-- The version of `d` is not that of the stored record, unless the record is `d`, applied; and a
flip is towards a live placement whose client the proxy serves. -/
def Clean (w : World) (d : Placement) : Prop :=
  ∀ e, w.store.get d.id = some e →
    (e.opVersion = d.opVersion → alreadyApplied e d = true) ∧
    (e.opVersion < d.opVersion → isBackendFlip e d = true →
      d.isRevoked = false ∧ d.clientID ∈ w.proxy.users)

instance (w : World) (d : Placement) : Decidable (Clean w d) :=
  decidable_of_iff (∀ e ∈ w.store.get d.id,
    (e.opVersion = d.opVersion → alreadyApplied e d = true) ∧
    (e.opVersion < d.opVersion → isBackendFlip e d = true →
      d.isRevoked = false ∧ d.clientID ∈ w.proxy.users)) Iff.rfl

theorem not_stale_of_due {w : World} {d : Placement} (hop : 1 ≤ d.opVersion) (hc : Clean w d)
    (hd : Due w.store d) : ¬ Stale w.store d := by
  rintro ⟨-, hge⟩
  unfold Store.version at hge
  cases h : w.store.get d.id with
  | none =>
    rw [h] at hge
    exact absurd hop (not_le.mpr (Nat.lt_one_iff.mpr (Nat.le_zero.mp hge)))
  | some e =>
    rw [h] at hge
    obtain ⟨hle, hnot⟩ := hd e h
    rw [(hc e h).1 (le_antisymm hle hge)] at hnot
    cases hnot

/-- A successful run of the executor from a clean state serves a live placement and expels the
client of any other. -/
theorem apply_serves {reg : Registry} {opts : FlipExecutorOptions} {d : Placement} {w w' : World}
    {tr : List GoEvent} {retryable : Bool} (hid : d.id ≠ "") (hop : 1 ≤ d.opVersion)
    (hc : Clean w d) (hd : Due w.store d)
    (hr : Run world (Env.Allowed true) ((entryProxy reg opts).apply d
      ((w.store.get d.id).getD {}) (w.store.get d.id).isSome) w tr (retryable, none) w') :
    Serves reg d w'.proxy ∧ (d.live = false → ⟨.removeUser d.clientID, none⟩ ∈ tr) := by
  have hfresh := not_stale_of_due hop hc hd
  obtain ⟨-, hout⟩ := wp_iff_run.mp (ensures_apply _ _ hid) _ _ _ hr
  cases hout with
  | simple path outcome =>
    cases outcome with
    | skipped stale => exact absurd stale hfresh
    | admitted fresh live client t store proxy =>
      refine ⟨fun _ hreg => ⟨(proxy.users _).mpr (.inl rfl), ?_⟩, fun h => ?_⟩
      · exact (proxy.route _ _).mpr (.inr ⟨rfl, rfl, hreg⟩)
      · rw [live] at h
        cases h
    | expelled fresh dead t store proxy removed =>
      refine ⟨fun h => ?_, fun _ => removed⟩
      rw [dead] at h
      cases h
  | flip path outcome =>
    cases outcome with
    | skipped r stale => exact absurd stale hfresh
    | rerouted r fresh t store proxy =>
      obtain ⟨e, he, path⟩ := exists_of_isBackendFlip path
      have hlt : e.opVersion < d.opVersion := by
        refine not_le.mp fun h => fresh ⟨Nat.one_le_iff_ne_zero.mp hop, ?_⟩
        unfold Store.version
        rw [he]
        exact h
      obtain ⟨hrev, huser⟩ := (hc e he).2 hlt path
      have hlive : d.live = true :=
        Placement.live_iff.mpr ⟨(isBackendFlip_iff.mp path).2.2.1, hrev⟩
      refine ⟨fun _ _ => ⟨?_, (proxy.route _ _).mpr (.inr ⟨rfl, rfl⟩)⟩, fun h => ?_⟩
      · rw [proxy.users]
        exact huser
      · rw [hlive] at h
        cases h

/-- In a run of clean steps every report of success is true: the proxy serves a live placement with
a known backend, and has removed the client of any other for this version. Publishing is the last
call of `Handle`, so the moment of the report is the end of its turn. -/
theorem applied_report_is_true {nodeID : NodeID} {opts : FlipExecutorOptions} {w w' : World}
    {ts : List (Turn ports World Delivery Err)}
    (h : Session world (Env.Allowed true) (deliver nodeID opts) w ts w')
    (hclean : ∀ t ∈ ts, ∀ cmd, t.input.msg = .ok cmd → Clean t.before cmd.placement)
    {pre post : List (Turn ports World Delivery Err)} {t : Turn ports World Delivery Err}
    (hts : ts = pre ++ t :: post) {cmd : Command} (hmsg : t.input.msg = .ok cmd)
    {rep : PlacementReport} (hrep : rep ∈ reports t.trace) (hst : rep.status = .applied) :
    Serves t.input.reg cmd.placement t.after.proxy ∧
      (cmd.placement.live = false → ∃ t' ∈ pre ++ [t], ∃ cmd', t'.input.msg = .ok cmd' ∧
        cmd'.placement.id = cmd.placement.id ∧
        cmd'.placement.opVersion = cmd.placement.opVersion ∧
        ⟨.removeUser cmd.placement.clientID, none⟩ ∈ t'.trace) := by
  have ht : t ∈ ts := by simp [hts]
  have hrun := h.run_of_mem ht
  unfold deliver at hrun
  rw [hmsg] at hrun
  have hout := wp_iff_run.mp (ensures_handle _ _ _) _ _ _ hrun
  obtain ⟨c, c', trx, retryable, w₁, tm, hdue, hrunx, hsub, hafter⟩ := hout.of_applied hrep hst
  obtain ⟨hserves, hremoved⟩ := apply_serves (w := { t.before with counters := c }) cmd.id_ne
    cmd.one_le_opVersion (hclean t ht cmd hmsg) hdue hrunx
  refine ⟨?_, fun hdead => ⟨t, by simp, cmd, hmsg, rfl, rfl, hsub (hremoved hdead)⟩⟩
  rw [hafter]
  exact hserves

/-- Serve client `c` through `b1`. -/
def place : Command := .carrying
  { id := "p", nodeID := "n", clientID := "c", backendNodeID := "b1", desired := .active, opVersion := 1 }

/-- And then through `b2`. -/
def flip : Command := .carrying
  { id := "p", nodeID := "n", clientID := "c", backendNodeID := "b2", desired := .active, opVersion := 2 }

/-- A placement and then its flip to the other backend. -/
def placeAndFlip : List (Delivery × List Env) :=
  [(⟨twoBackends, .ok place⟩, []), (⟨twoBackends, .ok flip⟩, [])]

/-- The turns of that run. -/
def placeAndFlipTurns : List (Turn ports World Delivery Err) :=
  (replaySession world (deliver "n" default) placeAndFlip {}).1

theorem flip_report_is_true :
    ∃ t ∈ placeAndFlipTurns, (∃ rep ∈ reports t.trace, rep.status = .applied) ∧
      Serves t.input.reg flip.placement t.after.proxy := by
  have hrun : Session world (Env.Allowed true) (deliver "n" default) {} placeAndFlipTurns _ :=
    session_replay (Env.allowed_default _) _ (by simp [Env.Allowed]) _
  have hclean : ∀ t ∈ placeAndFlipTurns, ∀ cmd, t.input.msg = .ok cmd →
      Clean t.before cmd.placement := by
    intro t ht cmd hmsg
    rcases List.mem_cons.mp ht with rfl | ht
    · cases hmsg
      decide
    · obtain rfl := List.mem_singleton.mp ht
      cases hmsg
      decide
  have hrep : ∃ rep ∈ reports (placeAndFlipTurns.getLast (by decide)).trace, rep.status = .applied := by
    decide
  obtain ⟨rep, hmem, hst⟩ := hrep
  refine ⟨_, List.getLast_mem _, ⟨rep, hmem, hst⟩, ?_⟩
  exact (applied_report_is_true hrun hclean (List.dropLast_append_getLast _).symm rfl hmem hst).1

/-! ## A report that is not true -/

/-- The proxy rejects the user; the control plane sends the same version again. -/
def retryAfterFailure : List (Delivery × List Env) :=
  [(⟨twoBackends, .ok place⟩, [{}, {}, {}, {}, {}, { fail := some "proxy down" }]),
   (⟨twoBackends, .ok place⟩, [])]

theorem applied_report_can_be_false :
    ∃ ts w', Session world (Env.Allowed true) (deliver "n" default) {} ts w' ∧
      ∃ t ∈ ts, ∃ cmd : Command, t.input.msg = .ok cmd ∧ cmd.placement.live = true ∧
        (t.input.reg.get cmd.placement.backendNodeID).isSome ∧
        (∃ rep ∈ reports t.trace, rep.status = .applied) ∧
        cmd.placement.clientID ∉ t.after.proxy.users := by
  refine ⟨_, _, session_replay (Env.allowed_default _) retryAfterFailure
    (by simp [Env.Allowed]) _, _, List.mem_cons_of_mem _ List.mem_cons_self, place, rfl,
    by decide, by decide, ?_, by decide⟩
  decide

end NodeAgent.Entry
