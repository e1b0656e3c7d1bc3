import NodeAgent.Entry.Sequential
import NodeAgent.Executor.RebuildSpec

/-!
# When a rebuild makes the proxy equal to the store

From which states of proxy and store does a successful `RebuildFromStore` leave exactly the users and
routes that the store asks for?
-/

namespace NodeAgent.Entry

open Lib EntryProxyActions

/-- The client has a live placement with this known backend. -/
def LiveRoute (reg : Registry) (s : Store) (x : ClientID) (b : BackendID) : Prop :=
  (reg.get b).isSome ∧ ∃ p ∈ s.list, p.live = true ∧ p.clientID = x ∧ p.backendNodeID = b

/-- Users and routes are exactly those of the live placements. -/
structure MatchesStore (reg : Registry) (w : World) : Prop where
  users : ∀ x, x ∈ w.proxy.users ↔ w.store.LiveClient x
  routes : ∀ x, w.store.LiveClient x → ∀ b, b ∈ w.proxy.routeOf x ↔ LiveRoute reg w.store x b
  entries : ∀ x ∈ w.proxy.route, w.store.LiveClient x

/-- There is nothing a rebuild would have to take away, and no client it would pass over. -/
structure Rebuildable (reg : Registry) (w : World) : Prop where
  /-- every user has a live placement -/
  users : ∀ x ∈ w.proxy.users, w.store.LiveClient x
  /-- so has every client with a route entry -/
  entries : ∀ x ∈ w.proxy.route, w.store.LiveClient x
  /-- a client none of whose backends is known has no routes -/
  deferred : ∀ x, w.store.LiveClient x → (∀ b, ¬ LiveRoute reg w.store x b) →
    w.proxy.routeOf x = []
  /-- every live placement names its client -/
  named : ¬ w.store.LiveClient ""

theorem groupOf_ne_nil {s : Store} {x : ClientID} :
    groupOf s.list x ≠ [] ↔ x ≠ "" ∧ s.LiveClient x := by
  unfold groupOf Store.LiveClient
  rw [ne_eq, List.filter_eq_nil_iff]
  simp only [decide_eq_true_eq, not_forall, not_not, exists_prop]
  constructor
  · rintro ⟨p, hp, hl, hne, rfl⟩
    exact ⟨hne, p, hp, hl, rfl⟩
  · rintro ⟨hne, p, hp, hl, rfl⟩
    exact ⟨p, hp, hl, hne, rfl⟩

theorem mem_eligible {reg : Registry} {s : Store} {x : ClientID} {b : BackendID} (hx : x ≠ "") :
    b ∈ eligibleBackendIDs reg [] (groupOf s.list x) ↔ LiveRoute reg s x b := by
  rw [mem_eligibleBackendIDs]
  unfold groupOf LiveRoute
  simp only [List.not_mem_nil, not_false_eq_true, true_and, List.mem_filter, decide_eq_true_eq]
  refine and_congr_right fun _ => exists_congr fun p => ?_
  constructor
  · rintro ⟨⟨hp, hl, -, hc⟩, hb⟩
    exact ⟨hp, hl, hc, hb⟩
  · rintro ⟨hp, hl, hc, hb⟩
    exact ⟨⟨hp, hl, hc ▸ hx, hc⟩, hb⟩

/-- A rebuild that returns nil leaves the proxy equal to the store exactly when it starts from such a
state. -/
theorem rebuild_matches_store_iff {reg : Registry} {w w' : World} {tr : List GoEvent}
    (hr : Run world (Env.Allowed true) (rebuildFromStore reg) w tr none w') :
    MatchesStore reg w' ↔ Rebuildable reg w := by
  obtain ⟨hst, -, cs, hcs, hpush⟩ := wp_iff_run.mp ensures_rebuildFromStore _ _ _ hr rfl
  have hcs' : ∀ x, x ∈ cs ↔ x ≠ "" ∧ w.store.LiveClient x := fun x =>
    (hcs x).trans groupOf_ne_nil
  constructor
  · intro h
    refine ⟨fun x hx => ?_, fun x hx => ?_, fun x hl hno => ?_, fun hl => ?_⟩
    · rw [← hst]
      exact (h.users x).mp ((hpush.users x).mpr (.inr hx))
    · rw [← hst]
      exact h.entries x ((hpush.entry x).mpr (.inr hx))
    · have hkept := hpush.kept x fun ⟨hx, hel⟩ => by
        obtain ⟨b, hb⟩ := List.exists_mem_of_ne_nil _ hel
        exact hno b ((mem_eligible ((hcs' x).mp hx).1).mp hb)
      refine List.eq_nil_iff_forall_not_mem.mpr fun b hb => hno b ?_
      rw [← hst]
      refine (h.routes x (hst ▸ hl) b).mp ?_
      rw [hkept]
      exact hb
    · rw [← hst] at hl
      exact w'.proxy.named ((h.users "").mpr hl)
  · intro h
    refine ⟨fun x => ?_, fun x hl b => ?_, fun x hx => ?_⟩
    · rw [hpush.users, hcs', hst]
      constructor
      · rintro (⟨-, hl⟩ | hx)
        · exact hl
        · exact h.users x hx
      · intro hl
        refine .inl ⟨?_, hl⟩
        rintro rfl
        exact h.named hl
    · rw [hst] at hl ⊢
      have hne : x ≠ "" := by
        rintro rfl
        exact h.named hl
      by_cases hel : eligibleBackendIDs reg [] (groupOf w.store.list x) = []
      · -- the deferred branch keeps what was there
        have hno : ∀ b, ¬ LiveRoute reg w.store x b := fun b hb => by
          rw [← mem_eligible hne, hel] at hb
          cases hb
        rw [hpush.kept x fun hx => hx.2 hel]
        show b ∈ w.proxy.routeOf x ↔ _
        rw [h.deferred x hl hno]
        exact iff_of_false (List.not_mem_nil) (hno b)
      · rw [hpush.routed x ((hcs' x).mpr ⟨hne, hl⟩) hel, mem_eligible hne]
    · rw [hst]
      rcases (hpush.entry x).mp hx with hx | hx
      · exact ((hcs' x).mp hx.1).2
      · exact h.entries x hx

/-- A restarted proxy, and a store with one live placement. -/
def afterRestart : World where
  store := Store.empty.put
    { id := "p", clientID := "c", backendNodeID := "b1", desired := .active, opVersion := 1 }

theorem rebuild_matches_after_restart :
    MatchesStore twoBackends (replay world (rebuildFromStore twoBackends) [] afterRestart).2.2 := by
  have hrun : Run world (Env.Allowed true) (rebuildFromStore twoBackends) afterRestart _ none _ :=
    run_replay (Env.allowed_default _) [] (by simp) _
  refine (rebuild_matches_store_iff hrun).mpr ⟨?_, ?_, fun _ _ _ => rfl, by decide⟩
  · simp [afterRestart]
  · simp [afterRestart]

/-- A proxy that serves a client whose placement is gone from the store. -/
def prunedClient : World where
  proxy := servingOne

theorem rebuild_keeps_pruned_client : ∃ tr w',
    Run world (Env.Allowed true) (rebuildFromStore twoBackends) prunedClient tr none w' ∧
      "c" ∈ w'.proxy.users ∧ ¬ w'.store.LiveClient "c" :=
  ⟨_, _, run_replay (Env.allowed_default _) [] (by simp) _, by decide, by decide⟩

end NodeAgent.Entry
