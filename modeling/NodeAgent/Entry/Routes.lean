import NodeAgent.Entry.Sequential

/-!
# The routes of the embedded entry

In a run of live commands without faults and with a fixed registry, when does the proxy's route map
stay what a rebuild would make of the store?
-/

namespace NodeAgent.Entry

open Lib EntryProxyActions

/-- The eligible backends of every client are the known backends of its active placements. -/
def RoutesAgree (reg : Registry) (w : World) : Prop :=
  ∀ x b, b ∈ w.proxy.routeOf x ↔ (reg.get b).isSome ∧
    ∃ p ∈ w.store.list, p.desired = .active ∧ p.clientID = x ∧ p.backendNodeID = b

/-- The client has an active placement with this backend under another id. -/
def RoutedElsewhere (s : Store) (id : PlacementID) (x : ClientID) (b : BackendID) : Prop :=
  ∃ p ∈ s.list, p.id ≠ id ∧ p.desired = .active ∧ p.clientID = x ∧ p.backendNodeID = b

/-- The command is not rejected: a flip has a registered backend, anything else a client. -/
def Accepts (reg : Registry) (e d : Placement) : Prop :=
  (isBackendFlip e d = true → (reg.get d.backendNodeID).isSome) ∧
    (isBackendFlip e d = false → d.clientID ≠ "")

/-- Where the command takes the placement from a known backend or from its client, the old client
has the old backend through another placement. -/
def KeepsRoutes (reg : Registry) (w : World) (d : Placement) : Prop :=
  ∀ e, w.store.get d.id = some e → e.desired = .active → (reg.get e.backendNodeID).isSome →
    e.clientID ≠ d.clientID ∨ e.backendNodeID ≠ d.backendNodeID → Accepts reg e d →
    RoutedElsewhere w.store d.id e.clientID e.backendNodeID

instance (s : Store) (id : PlacementID) (x : ClientID) (b : BackendID) :
    Decidable (RoutedElsewhere s id x b) :=
  inferInstanceAs (Decidable (∃ p ∈ s.list, p.id ≠ id ∧ p.desired = .active ∧ p.clientID = x ∧
    p.backendNodeID = b))

instance (reg : Registry) (e d : Placement) : Decidable (Accepts reg e d) := by
  unfold Accepts
  infer_instance

instance (reg : Registry) (w : World) (d : Placement) : Decidable (KeepsRoutes reg w d) :=
  inferInstanceAs (Decidable (∀ e ∈ w.store.get d.id, e.desired = .active →
    (reg.get e.backendNodeID).isSome → e.clientID ≠ d.clientID ∨ e.backendNodeID ≠ d.backendNodeID →
    Accepts reg e d → RoutedElsewhere w.store d.id e.clientID e.backendNodeID))

section Step

variable {reg : Registry} {d : Placement} {w w' : World} {t : Time}

theorem mem_routeOf_iff (h : RoutesAgree reg w) (id : PlacementID) (x : ClientID) (b : BackendID) :
    b ∈ w.proxy.routeOf x ↔ (reg.get b).isSome ∧
      ((∃ e, w.store.get id = some e ∧ e.desired = .active ∧ e.clientID = x ∧ e.backendNodeID = b) ∨
        RoutedElsewhere w.store id x b) :=
  (h x b).trans (and_congr_right' (w.store.exists_mem_list_iff id _))

theorem routesAgree_put_iff (live : d.live = true) (hst : w'.store = w.store.put (d.stamp .ok t)) :
    RoutesAgree reg w' ↔ ∀ x b, b ∈ w'.proxy.routeOf x ↔ (reg.get b).isSome ∧
      ((d.clientID = x ∧ d.backendNodeID = b) ∨ RoutedElsewhere w.store d.id x b) := by
  unfold RoutesAgree
  rw [hst]
  refine forall₂_congr fun x b => iff_congr Iff.rfl (and_congr_right' ?_)
  rw [w.store.exists_mem_list_put (d.stamp .ok t)]
  simp [(Placement.live_iff.mp live).1, RoutedElsewhere]

/-- Both ways of serving a placement add its backend to the client's set, so what a command can do
wrong is to leave the old one there. -/
theorem routesAgree_added (h : RoutesAgree reg w) (live : d.live = true)
    (store : w'.store = w.store.put (d.stamp .ok t))
    (route : ∀ x b, b ∈ w'.proxy.routeOf x ↔
      b ∈ w.proxy.routeOf x ∨ (x = d.clientID ∧ b = d.backendNodeID ∧ (reg.get b).isSome))
    (accepts : ∀ e, w.store.get d.id = some e → Accepts reg e d) :
    RoutesAgree reg w' ↔ KeepsRoutes reg w d := by
  rw [routesAgree_put_iff live store]
  constructor
  · intro hag e he hact hreg hne _
    have hin : e.backendNodeID ∈ w'.proxy.routeOf e.clientID :=
      (route _ _).mpr (.inl ((mem_routeOf_iff h d.id _ _).mpr ⟨hreg, .inl ⟨e, he, hact, rfl, rfl⟩⟩))
    refine ((hag _ _).mp hin).2.resolve_left fun hd => ?_
    exact hne.elim (fun hc => hc hd.1.symm) fun hb => hb hd.2.symm
  · intro hk x b
    rw [route, mem_routeOf_iff h d.id]
    constructor
    · rintro (⟨hreg, ⟨e, he, hact, rfl, rfl⟩ | hx⟩ | ⟨rfl, rfl, hreg⟩)
      · refine ⟨hreg, ?_⟩
        by_cases hsame : e.clientID = d.clientID ∧ e.backendNodeID = d.backendNodeID
        · exact .inl ⟨hsame.1.symm, hsame.2.symm⟩
        · exact .inr (hk e he hact hreg (not_and_or.mp hsame) (accepts e he))
      · exact ⟨hreg, .inr hx⟩
      · exact ⟨hreg, .inl ⟨rfl, rfl⟩⟩
    · rintro ⟨hreg, ⟨rfl, rfl⟩ | hx⟩
      · exact .inr ⟨rfl, rfl, hreg⟩
      · exact .inl ⟨hreg, .inr hx⟩

/-- From agreement, a live command that is not stale keeps it exactly under its condition. -/
theorem routesAgree_after_iff (h : RoutesAgree reg w) (live : d.live = true)
    (heff : Effect reg d w w') : RoutesAgree reg w' ↔ KeepsRoutes reg w d := by
  cases heff with
  | admitted path _ client t store proxy =>
    exact routesAgree_added h live store proxy.route fun e he =>
      ⟨fun hf => absurd hf (by simp [path e he]), fun _ => client⟩
  | expelled path dead t store proxy =>
    rw [live] at dead
    cases dead
  | rerouted e stored path t store proxy =>
    refine routesAgree_added h live store (fun x b => ?_) fun e' he' => ?_
    · rw [proxy.route]
      refine or_congr_right (and_congr_right fun _ => ⟨?_, And.left⟩)
      rintro rfl
      exact ⟨rfl, proxy.registered⟩
    · rw [stored] at he'
      cases he'
      exact ⟨fun _ => proxy.registered, fun hf => absurd path (by simp [hf])⟩
  | rejected why store proxy =>
    refine iff_of_true ?_ fun e he _ _ _ hacc => ?_
    · unfold RoutesAgree Proxy.routeOf
      rw [store, proxy.2]
      exact h
    · rcases why with ⟨-, client, path⟩ | ⟨e', he', path, hreg⟩
      · exact absurd client (hacc.2 (path e he))
      · rw [he] at he'
        cases he'
        exact absurd (hacc.1 path) (by simp [hreg])

end Step

/-! ## Runs -/

/-- Along a run from the empty state the routes agree after every command exactly when every command
meets its condition; and where they agree, a connection is only offered backends of active placements
of its client. -/
theorem routes_agree_iff {opts : FlipExecutorOptions} {reg : Registry} {w w' : World}
    {ts : List (Turn ports World Step Err)} (hstore : w.store = .empty) (hproxy : w.proxy = {})
    (h : Session world (Env.Allowed false) (applyStored opts) w ts w')
    (hinc : Increasing (ts.map Turn.input)) (hreg : ∀ t ∈ ts, t.input.reg = reg)
    (hlive : ∀ t ∈ ts, t.input.placement.live = true) :
    ((∀ t ∈ ts, RoutesAgree reg t.after) ↔ ∀ t ∈ ts, KeepsRoutes reg t.before t.input.placement) ∧
      ∀ t ∈ ts, RoutesAgree reg t.after → ∀ x dest now,
        ∀ be ∈ t.after.proxy.connBackends x dest now, ∃ p ∈ t.after.store.list,
          p.desired = .active ∧ p.clientID = x ∧ p.backendNodeID = be.id := by
  have hempty : RoutesAgree reg w := fun x b => by
    rw [hstore, hproxy]
    simp [Store.list, Store.empty, Proxy.routeOf]
  refine ⟨h.forall_after_iff hempty fun t ht hag => ?_, fun t _ hag x dest now be hbe => ?_⟩
  · have heff := effects_of_empty h hinc hstore t ht
    rw [hreg t ht] at heff
    exact routesAgree_after_iff hag (hlive t ht) heff
  · exact ((hag x be.id).mp (Proxy.mem_connBackends.mp hbe).1).2

/-- A placement of client `c`. -/
def routedTo (id : PlacementID) (backend : BackendID) (opVersion : OpVersion) : Placement :=
  { id := id, nodeID := "n", clientID := "c", backendNodeID := backend, desired := .active,
    opVersion := opVersion }

/-- The client has `b1` twice, and one of the two placements is flipped away from it. -/
def flipOneOfTwo : List (Step × List Env) :=
  [(⟨twoBackends, .carrying (routedTo "p" "b1" 1)⟩, []), (⟨twoBackends, .carrying (routedTo "q" "b1" 1)⟩, []),
   (⟨twoBackends, .carrying (routedTo "p" "b2" 2)⟩, [])]

/-- The turns of that run. -/
def flipOneOfTwoTurns : List (Turn ports World Step Err) :=
  (replaySession world (applyStored default) flipOneOfTwo {}).1

theorem routes_agree_flip_one_of_two :
    (∃ t ∈ flipOneOfTwoTurns, t.after.proxy.routeOf "c" = ["b1", "b2"]) ∧
      ∀ t ∈ flipOneOfTwoTurns, RoutesAgree twoBackends t.after := by
  have hrun : Session world (Env.Allowed false) (applyStored default) {} flipOneOfTwoTurns _ :=
    session_replay (Env.allowed_default _) _ (by simp [flipOneOfTwo]) _
  have hreg : ∀ t ∈ flipOneOfTwoTurns, t.input.reg = twoBackends := by
    intro t ht
    rcases List.mem_cons.mp ht with rfl | ht
    · rfl
    · rcases List.mem_cons.mp ht with rfl | ht
      · rfl
      · rw [List.mem_singleton.mp ht]
  refine ⟨⟨_, List.mem_cons_of_mem _ (List.mem_cons_of_mem _ List.mem_cons_self), by decide⟩,
    (routes_agree_iff rfl rfl hrun (by decide) hreg (by decide)).1.mpr ?_⟩
  decide

/-- The client's only placement is flipped. -/
def flipOnlyPlacement : List (Step × List Env) :=
  [(⟨twoBackends, .carrying (routedTo "p" "b1" 1)⟩, []), (⟨twoBackends, .carrying (routedTo "p" "b2" 2)⟩, [])]

theorem routes_disagree_flip_only_placement : ∃ ts w',
    Session world (Env.Allowed false) (applyStored default) {} ts w' ∧ Increasing (ts.map Turn.input) ∧
      (∀ t ∈ ts, t.input.reg = twoBackends ∧ t.input.placement.live = true) ∧
      ∃ t ∈ ts, t.after.store.list.map Placement.backendNodeID = ["b2"] ∧
        ∃ be ∈ t.after.proxy.connBackends "c" "example.org" 0, be.id = "b1" := by
  refine ⟨_, _, session_replay (Env.allowed_default _) flipOnlyPlacement
    (by simp [flipOnlyPlacement]) _, by decide, fun t ht => ?_, _,
    List.mem_cons_of_mem _ List.mem_cons_self, by decide, ⟨"b1", "10.0.0.1", 443⟩, ?_, rfl⟩
  · rcases List.mem_cons.mp ht with rfl | ht
    · exact ⟨rfl, rfl⟩
    · rw [List.mem_singleton.mp ht]
      exact ⟨rfl, rfl⟩
  · rw [Proxy.mem_connBackends]
    decide

end NodeAgent.Entry
