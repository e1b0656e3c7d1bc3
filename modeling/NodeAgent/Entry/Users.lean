import NodeAgent.Entry.Sequential

/-!
# The user set of the embedded entry

In a run without faults, when does the proxy's user set stay the set of clients with a live placement
in the store? A single command decides it by what the other placements of the clients involved are.
-/

namespace NodeAgent.Entry

open Lib EntryProxyActions

/-- The proxy's users are the clients with a live placement. -/
def UsersAgree (w : World) : Prop :=
  ∀ x, x ∈ w.proxy.users ↔ w.store.LiveClient x

/-- The client has a live placement under another id. -/
def LiveElsewhere (s : Store) (id : PlacementID) (x : ClientID) : Prop :=
  ∃ p ∈ s.list, p.id ≠ id ∧ p.live = true ∧ p.clientID = x

/-- What the command `d` must meet in the state it finds. -/
structure KeepsUsers (reg : Registry) (w : World) (d : Placement) : Prop where
  /-- A live placement changes its client only if the old client is live elsewhere. -/
  client : ∀ e, w.store.get d.id = some e → e.live = true → e.clientID ≠ d.clientID →
    (d.live = true → d.clientID ≠ "") → LiveElsewhere w.store d.id e.clientID
  /-- Outside a flip, a client that is live elsewhere is not taken off. -/
  removal : d.live = false → (∀ e, w.store.get d.id = some e → isBackendFlip e d = false) →
    ¬ LiveElsewhere w.store d.id d.clientID
  /-- A flip changes the revocation only of a client that is live elsewhere. -/
  flip : ∀ e, w.store.get d.id = some e → isBackendFlip e d = true →
    (reg.get d.backendNodeID).isSome → e.isRevoked ≠ d.isRevoked →
    LiveElsewhere w.store d.id d.clientID

instance (s : Store) (id : PlacementID) (x : ClientID) : Decidable (LiveElsewhere s id x) :=
  inferInstanceAs (Decidable (∃ p ∈ s.list, p.id ≠ id ∧ p.live = true ∧ p.clientID = x))

instance (reg : Registry) (w : World) (d : Placement) : Decidable (KeepsUsers reg w d) :=
  decidable_of_iff
    ((∀ e ∈ w.store.get d.id, e.live = true → e.clientID ≠ d.clientID →
        (d.live = true → d.clientID ≠ "") → LiveElsewhere w.store d.id e.clientID) ∧
      (d.live = false → (∀ e ∈ w.store.get d.id, isBackendFlip e d = false) →
        ¬ LiveElsewhere w.store d.id d.clientID) ∧
      (∀ e ∈ w.store.get d.id, isBackendFlip e d = true → (reg.get d.backendNodeID).isSome →
        e.isRevoked ≠ d.isRevoked → LiveElsewhere w.store d.id d.clientID))
    ⟨fun h => ⟨h.1, h.2.1, h.2.2⟩, fun h => ⟨h.client, h.removal, h.flip⟩⟩

theorem mem_users_iff {w : World} (h : UsersAgree w) (id : PlacementID) (x : ClientID) :
    x ∈ w.proxy.users ↔ (∃ e, w.store.get id = some e ∧ e.live = true ∧ e.clientID = x) ∨
      LiveElsewhere w.store id x :=
  (h x).trans (w.store.exists_mem_list_iff id _)

theorem usersAgree_put_iff {w w' : World} {d : Placement} {t : Time}
    (hst : w'.store = w.store.put (d.stamp .ok t)) :
    UsersAgree w' ↔ ∀ x, x ∈ w'.proxy.users ↔
      (d.live = true ∧ d.clientID = x) ∨ LiveElsewhere w.store d.id x := by
  unfold UsersAgree
  rw [hst]
  exact forall_congr' fun x => iff_congr Iff.rfl (w.store.exists_mem_list_put (d.stamp .ok t) _)

/-! ## One command -/

section Step

variable {reg : Registry} {d : Placement} {w w' : World} {t : Time}

theorem usersAgree_admitted (h : UsersAgree w)
    (path : ∀ e, w.store.get d.id = some e → isBackendFlip e d = false) (live : d.live = true)
    (client : d.clientID ≠ "") (store : w'.store = w.store.put (d.stamp .ok t))
    (proxy : Admitted reg d w.proxy w'.proxy) : UsersAgree w' ↔ KeepsUsers reg w d := by
  rw [usersAgree_put_iff store]
  constructor
  · intro hag
    refine ⟨fun e he hl hne _ => ?_, fun hd => ?_, fun e he hf => ?_⟩
    · have hx : e.clientID ∈ w'.proxy.users :=
        (proxy.users _).mpr (.inr ((mem_users_iff h d.id _).mpr (.inl ⟨e, he, hl, rfl⟩)))
      exact ((hag _).mp hx).resolve_left fun hd => hne hd.2.symm
    · rw [live] at hd
      cases hd
    · rw [path e he] at hf
      cases hf
  · intro hk x
    rw [proxy.users, mem_users_iff h d.id]
    constructor
    · rintro (rfl | ⟨e, he, hl, rfl⟩ | hx)
      · exact .inl ⟨live, rfl⟩
      · by_cases hne : e.clientID = d.clientID
        · exact .inl ⟨live, hne.symm⟩
        · exact .inr (hk.client e he hl hne fun _ => client)
      · exact .inr hx
    · rintro (⟨-, rfl⟩ | hx)
      · exact .inl rfl
      · exact .inr (.inr hx)

theorem usersAgree_expelled (h : UsersAgree w)
    (path : ∀ e, w.store.get d.id = some e → isBackendFlip e d = false) (dead : d.live = false)
    (store : w'.store = w.store.put (d.stamp .ok t)) (proxy : Expelled d w.proxy w'.proxy) :
    UsersAgree w' ↔ KeepsUsers reg w d := by
  rw [usersAgree_put_iff store]
  have hdead : ¬ d.live = true := by simp [dead]
  constructor
  · intro hag
    refine ⟨fun e he hl hne _ => ?_, fun _ _ hx => ?_, fun e he hf => ?_⟩
    · have hx : e.clientID ∈ w'.proxy.users :=
        (proxy.users _).mpr ⟨hne, (mem_users_iff h d.id _).mpr (.inl ⟨e, he, hl, rfl⟩)⟩
      exact ((hag _).mp hx).resolve_left fun hd => hdead hd.1
    · exact ((proxy.users _).mp ((hag _).mpr (.inr hx))).1 rfl
    · rw [path e he] at hf
      cases hf
  · intro hk x
    rw [proxy.users, mem_users_iff h d.id]
    constructor
    · rintro ⟨hne, ⟨e, he, hl, rfl⟩ | hx⟩
      · exact .inr (hk.client e he hl hne fun hd => absurd hd hdead)
      · exact .inr hx
    · rintro (hd | hx)
      · exact absurd hd.1 hdead
      · refine ⟨?_, .inr hx⟩
        rintro rfl
        exact hk.removal dead path hx

theorem usersAgree_rerouted {e : Placement} (h : UsersAgree w) (he : w.store.get d.id = some e)
    (path : isBackendFlip e d = true) (store : w'.store = w.store.put (d.stamp .ok t))
    (proxy : Rerouted reg d w.proxy w'.proxy) : UsersAgree w' ↔ KeepsUsers reg w d := by
  obtain ⟨-, hea, hda, hcl, -⟩ := isBackendFlip_iff.mp path
  rw [usersAgree_put_iff store]
  have huser : ∀ x, x ∈ w'.proxy.users ↔
      (e.live = true ∧ e.clientID = x) ∨ LiveElsewhere w.store d.id x := fun x => by
    rw [proxy.users, mem_users_iff h d.id, he]
    simp
  have hlive : e.live = d.live ↔ e.isRevoked = d.isRevoked := by
    simp [Placement.live, hea, hda]
  constructor
  · intro hag
    refine ⟨fun e' he' _ hne => ?_, fun _ hno => ?_, fun e' he' _ _ hrev => ?_⟩
    · rw [he] at he'
      cases he'
      exact absurd hcl hne
    · rw [hno e he] at path
      cases path
    · rw [he] at he'
      cases he'
      -- the flip changes whether this placement is live, so the client must be live elsewhere
      by_contra hx
      refine hrev (hlive.mp (Bool.eq_iff_iff.mpr ?_))
      have := (huser d.clientID).symm.trans (hag d.clientID)
      simpa [hcl, hx] using this
  · intro hk x
    rw [huser]
    by_cases hrev : e.isRevoked = d.isRevoked
    · rw [hlive.mpr hrev, hcl]
    · have hx := hk.flip e he path proxy.registered hrev
      rw [hcl]
      constructor
      · rintro (⟨-, rfl⟩ | hx')
        · exact .inr hx
        · exact .inr hx'
      · rintro (⟨-, rfl⟩ | hx')
        · exact .inr hx
        · exact .inr hx'

theorem usersAgree_rejected (h : UsersAgree w)
    (why : (d.live = true ∧ d.clientID = "" ∧
        ∀ e, w.store.get d.id = some e → isBackendFlip e d = false) ∨
      ∃ e, w.store.get d.id = some e ∧ isBackendFlip e d = true ∧ reg.get d.backendNodeID = none)
    (store : w'.store = w.store) (proxy : SameClients w.proxy w'.proxy) :
    UsersAgree w' ↔ KeepsUsers reg w d := by
  refine iff_of_true ?_ ?_
  · unfold UsersAgree
    rw [store, proxy.1]
    exact h
  · rcases why with ⟨live, client, path⟩ | ⟨e, he, path, hreg⟩
    · refine ⟨fun e _ _ _ hc => absurd client (hc live), fun hd => ?_, fun e he hf => ?_⟩
      · rw [live] at hd
        cases hd
      · rw [path e he] at hf
        cases hf
    · refine ⟨fun e' he' _ hne => ?_, fun _ hno => ?_, fun _ _ _ hsome => ?_⟩
      · rw [he] at he'
        cases he'
        exact absurd (isBackendFlip_iff.mp path).2.2.2.1 hne
      · rw [hno e he] at path
        cases path
      · rw [hreg] at hsome
        cases hsome

theorem usersAgree_after_iff (h : UsersAgree w) (heff : Effect reg d w w') :
    UsersAgree w' ↔ KeepsUsers reg w d := by
  cases heff with
  | admitted path live client t store proxy =>
    exact usersAgree_admitted h path live client store proxy
  | expelled path dead t store proxy => exact usersAgree_expelled h path dead store proxy
  | rerouted e stored path t store proxy => exact usersAgree_rerouted h stored path store proxy
  | rejected why store proxy => exact usersAgree_rejected h why store proxy

end Step

/-! ## Runs -/

/-- Along a run from the empty state, agreement holds after every command exactly when every command
meets its condition in the state it finds. -/
theorem users_agree_iff {opts : FlipExecutorOptions} {w w' : World}
    {ts : List (Turn ports World Step Err)} (hstore : w.store = .empty) (hproxy : w.proxy = {})
    (h : Session world (Env.Allowed false) (applyStored opts) w ts w')
    (hinc : Increasing (ts.map Turn.input)) :
    (∀ t ∈ ts, UsersAgree t.after) ↔ ∀ t ∈ ts, KeepsUsers t.input.reg t.before t.input.placement := by
  have hempty : UsersAgree w := fun x => by
    rw [hstore, hproxy]
    simp [Store.LiveClient, Store.list, Store.empty]
  exact h.forall_after_iff hempty fun t ht hag =>
    usersAgree_after_iff hag (effects_of_empty h hinc hstore t ht)

/-- A placement of client `c`. -/
def ofClient (id : PlacementID) (desired : DesiredState) (opVersion : OpVersion) : Placement :=
  { id := id, nodeID := "n", clientID := "c", backendNodeID := "b1", desired := desired,
    opVersion := opVersion }

/-- The client's only placement is placed and taken back. -/
def placeAndDrop : List (Step × List Env) :=
  [(⟨.new, .carrying (ofClient "p" .active 1)⟩, []), (⟨.new, .carrying (ofClient "p" .inactive 2)⟩, [])]

/-- The turns of that run. -/
def placeAndDropTurns : List (Turn ports World Step Err) :=
  (replaySession world (applyStored default) placeAndDrop {}).1

theorem users_agree_place_and_drop : (∃ t ∈ placeAndDropTurns, "c" ∈ t.after.proxy.users) ∧
    ∀ t ∈ placeAndDropTurns, UsersAgree t.after := by
  have hrun : Session world (Env.Allowed false) (applyStored default) {} placeAndDropTurns _ :=
    session_replay (Env.allowed_default _) _ (by simp [placeAndDrop]) _
  refine ⟨⟨_, List.mem_cons_self, by decide⟩, (users_agree_iff rfl rfl hrun (by decide)).mpr ?_⟩
  decide

/-- The client has two placements, and one is taken back. -/
def dropOneOfTwo : List (Step × List Env) :=
  [(⟨.new, .carrying (ofClient "p" .active 1)⟩, []), (⟨.new, .carrying (ofClient "q" .active 1)⟩, []),
   (⟨.new, .carrying (ofClient "p" .inactive 2)⟩, [])]

theorem users_disagree_drop_one_of_two : ∃ ts w',
    Session world (Env.Allowed false) (applyStored default) {} ts w' ∧ Increasing (ts.map Turn.input) ∧
      ∃ t ∈ ts, "c" ∉ t.after.proxy.users ∧ t.after.store.LiveClient "c" := by
  refine ⟨_, _, session_replay (Env.allowed_default _) dropOneOfTwo (by simp [dropOneOfTwo]) _,
    by decide, _, List.mem_cons_of_mem _ (List.mem_cons_of_mem _ List.mem_cons_self), by decide,
    by decide⟩

end NodeAgent.Entry
