import NodeAgent.Executor.EntryProxyActions
import NodeAgent.World

/-!
# What the entry actions do to store and proxy

One statement per action, with or without faults: which branch was taken, and how the proxy's maps
and the store afterwards relate to those before.
-/

namespace NodeAgent

open Lib

/-- The version stored for a placement; zero if there is none. -/
def Store.version (s : Store) (id : PlacementID) : OpVersion := ((s.get id).getD {}).opVersion

/-- The client has a live placement. -/
def Store.LiveClient (s : Store) (x : ClientID) : Prop :=
  ∃ p ∈ s.list, p.live = true ∧ p.clientID = x

instance (s : Store) (x : ClientID) : Decidable (s.LiveClient x) :=
  inferInstanceAs (Decidable (∃ p ∈ s.list, p.live = true ∧ p.clientID = x))

/-- The executor's own version check: the store already has this version or a later one. -/
def Stale (s : Store) (d : Placement) : Prop := d.opVersion ≠ 0 ∧ s.version d.id ≥ d.opVersion

/-- The proxy serves the client of `d`, and routes it to the backend of `d` if that is known. -/
structure Admitted (reg : Registry) (d : Placement) (p p' : Proxy) : Prop where
  users : ∀ x, x ∈ p'.users ↔ x = d.clientID ∨ x ∈ p.users
  backends : ∀ b, b ∈ p'.backends ↔ (reg.get b).isSome
  route : ∀ x b, b ∈ p'.routeOf x ↔
    b ∈ p.routeOf x ∨ (x = d.clientID ∧ b = d.backendNodeID ∧ (reg.get b).isSome)

/-- The proxy has dropped the client of `d`. -/
structure Expelled (d : Placement) (p p' : Proxy) : Prop where
  users : ∀ x, x ∈ p'.users ↔ x ≠ d.clientID ∧ x ∈ p.users
  backends : p'.backends = p.backends
  route : ∀ x, p'.routeOf x = if x = d.clientID then [] else p.routeOf x

/-- The proxy has one more backend for the client of `d`. -/
structure Rerouted (reg : Registry) (d : Placement) (p p' : Proxy) : Prop where
  registered : (reg.get d.backendNodeID).isSome
  users : p'.users = p.users
  backends : ∀ b, b ∈ p'.backends ↔ (reg.get b).isSome
  route : ∀ x b, b ∈ p'.routeOf x ↔ b ∈ p.routeOf x ∨ (x = d.clientID ∧ b = d.backendNodeID)

/-- The maps of users and routes are as before. -/
def SameClients (p p' : Proxy) : Prop := p'.users = p.users ∧ p'.route = p.route

namespace EntryProxyActions

variable {faults : Bool} {reg : Registry} {w : World}

theorem ensures_syncBackends :
    Ensures faults (syncBackends reg) (fun _ r w' =>
      (r = none ∧ w' = { w with proxy := w.proxy.setBackends reg.entryBackends }) ∨
      (faults = true ∧ w' = w ∧ ∃ err, r = some err ∧ err.isDrainTimeout = false)) w := by
  refine ensures_setBackends (fun hf msg => ?_) ?_
  · exact .inr ⟨hf, rfl, _, rfl, rfl⟩
  · exact .inl ⟨rfl, rfl⟩

theorem mem_backends_sync {p : Proxy} {b : BackendID} :
    b ∈ (p.setBackends reg.entryBackends).backends ↔ (reg.get b).isSome := by
  rw [Proxy.mem_backends_setBackends, Registry.mem_map_id_entryBackends]

/-- Without faults only the empty client id is rejected, after the sync. -/
theorem ensures_serve (d : Placement) :
    Ensures faults (serve reg d) (fun _ r w' => w'.store = w.store ∧
      ((r = none ∧ d.clientID ≠ "" ∧ Admitted reg d w.proxy w'.proxy) ∨
        ∃ err, r = some err ∧ err.isDrainTimeout = false ∧
          (faults = true ∨ (d.clientID = "" ∧ SameClients w.proxy w'.proxy)))) w := by
  refine ensures_syncBackends.bind fun _ r w₁ h => ?_
  obtain ⟨rfl, rfl⟩ | ⟨hf, rfl, err, rfl, herr⟩ := h
  · refine ensures_addUser (fun h msg => ⟨rfl, .inr ⟨_, rfl, rfl, ?_⟩⟩) fun p₁ hp₁ => ?_
    · exact h.imp id fun hc => ⟨hc, rfl, rfl⟩
    · obtain ⟨hc, hu, hb, hr⟩ := Proxy.addUser_ok hp₁
      have hroute : ∀ x, p₁.routeOf x = w.proxy.routeOf x := fun x => by
        unfold Proxy.routeOf
        rw [hr]
        rfl
      cases hreg : reg.get d.backendNodeID with
      | some spec =>
        have hb' : d.backendNodeID ∈ p₁.backends := by
          rw [hb]
          exact mem_backends_sync.mpr (by rw [hreg]; rfl)
        refine ensures_selectBackend (fun h msg => ⟨rfl, .inr ⟨_, rfl, rfl, .inl ?_⟩⟩) fun p₂ hp₂ => ?_
        · exact h.resolve_right (not_not.mpr hb')
        · obtain ⟨-, hu₂, hb₂, hr₂⟩ := Proxy.selectBackend_ok hp₂
          refine ⟨rfl, .inl ⟨rfl, hc, ⟨fun x => ?_, fun b => ?_, fun x b => ?_⟩⟩⟩
          · show x ∈ p₂.users ↔ _
            rw [hu₂, hu]
            rfl
          · show b ∈ p₂.backends ↔ _
            rw [hb₂, hb]
            exact mem_backends_sync
          · rw [hr₂, hroute]
            refine or_congr_right (and_congr_right fun _ => ⟨?_, And.left⟩)
            rintro rfl
            exact ⟨rfl, by rw [hreg]; rfl⟩
      | none =>
        intro e _
        refine ⟨rfl, .inl ⟨rfl, hc, ⟨hu, fun b => ?_, fun x b => ?_⟩⟩⟩
        · show b ∈ p₁.backends ↔ _
          rw [hb]
          exact mem_backends_sync
        · show b ∈ p₁.routeOf x ↔ _
          rw [hroute]
          refine ⟨.inl, ?_⟩
          rintro (h | ⟨-, rfl, h⟩)
          · exact h
          · rw [hreg] at h
            cases h
  · exact ⟨rfl, .inr ⟨err, rfl, herr, .inl hf⟩⟩

theorem ensures_expel (d : Placement) :
    Ensures faults (expel d) (fun tr r w' => w'.store = w.store ∧
      ((r = none ∧ Expelled d w.proxy w'.proxy ∧ ⟨.removeUser d.clientID, none⟩ ∈ tr) ∨
        ∃ err, r = some err ∧ err.isDrainTimeout = false ∧ faults = true)) w := by
  refine ensures_removeUser (fun hf msg => ⟨rfl, .inr ⟨_, rfl, rfl, hf⟩⟩) ?_
  refine ⟨rfl, .inl ⟨rfl, ⟨fun x => Proxy.mem_users_removeUser, rfl, fun x => ?_⟩, by simp⟩⟩
  exact Proxy.routeOf_removeUser

/-! ## The version-checked actions -/

variable (faults reg) in
/-- How `SimpleApply` of `d` can end when started in the world `w`. -/
inductive SimpleOutcome (d : Placement) (w : World) : List GoEvent → Err → World → Prop
  | skipped {tr : List GoEvent} (stale : Stale w.store d) : SimpleOutcome d w tr none w
  | admitted {tr : List GoEvent} {w' : World} (fresh : ¬ Stale w.store d) (live : d.live = true)
      (client : d.clientID ≠ "") (t : Time) (store : w'.store = w.store.put (d.stamp .ok t))
      (proxy : Admitted reg d w.proxy w'.proxy) : SimpleOutcome d w tr none w'
  | expelled {tr : List GoEvent} {w' : World} (fresh : ¬ Stale w.store d) (dead : d.live = false)
      (t : Time) (store : w'.store = w.store.put (d.stamp .ok t))
      (proxy : Expelled d w.proxy w'.proxy) (removed : ⟨.removeUser d.clientID, none⟩ ∈ tr) :
      SimpleOutcome d w tr none w'
  | rejected {tr : List GoEvent} {w' : World} (err : GoError) (live : d.live = true)
      (client : d.clientID = "") (store : w'.store = w.store)
      (proxy : SameClients w.proxy w'.proxy) : SimpleOutcome d w tr (some err) w'
  | failed {tr : List GoEvent} {w' : World} (err : GoError) (faulty : faults = true) :
      SimpleOutcome d w tr (some err) w'

theorem ensures_simpleApply {d : Placement} (hid : d.id ≠ "") :
    Ensures faults (simpleApply reg d) (SimpleOutcome faults reg d w) w := by
  unfold simpleApply
  rw [if_neg hid]
  refine ensures_getPlacement (fun hf msg => .failed _ hf) ?_
  dsimp only
  split_ifs with hs
  · exact .skipped hs
  · refine ensures_now fun t => ?_
    by_cases hl : d.live = true
    · rw [if_pos (show (d.stamp .ok t).live = true from hl)]
      refine (ensures_serve (d.stamp .ok t)).bind fun _ r w₁ h => ?_
      obtain ⟨hst, ⟨rfl, hc, hp⟩ | ⟨err, rfl, -, h⟩⟩ := h
      · refine ensures_putPlacement (fun hf msg => .failed _ hf) ?_
        refine .admitted hs hl hc t ?_ ⟨hp.users, hp.backends, hp.route⟩
        exact congrArg (Store.put · _) hst
      · obtain hf | ⟨hc, hp⟩ := h
        · exact .failed _ hf
        · exact .rejected _ hl hc hst hp
    · rw [if_neg (show ¬ (d.stamp .ok t).live = true from hl)]
      refine (ensures_expel (d.stamp .ok t)).bind fun tr r w₁ h => ?_
      obtain ⟨hst, ⟨rfl, hp, hev⟩ | ⟨err, rfl, -, hf⟩⟩ := h
      · refine ensures_putPlacement (fun hf msg => .failed _ hf) ?_
        refine .expelled hs (by simpa using hl) t ?_ ⟨hp.users, hp.backends, hp.route⟩ ?_
        · exact congrArg (Store.put · _) hst
        · simp [show ⟨.removeUser d.clientID, none⟩ ∈ tr from hev]
      · exact .failed _ hf

/-- The events of a `SimpleApply` that returns nil: it is stale, or it serves the client or takes it off, and
stores the placement. -/
theorem simpleApply_done {d : Placement} {tr : List GoEvent} (h : (simpleApply reg d).After tr (.done none)) :
    ∃ found, (tr = [⟨.getPlacement d.id, .ok found⟩] ∧
        d.opVersion ≠ 0 ∧ (found.getD {}).opVersion ≥ d.opVersion) ∨
      ∃ t mid, tr = ⟨.getPlacement d.id, .ok found⟩ :: ⟨.now, t⟩ ::
          (mid ++ [⟨.putPlacement (d.stamp .ok t), none⟩]) ∧
        ¬ (d.opVersion ≠ 0 ∧ (found.getD {}).opVersion ≥ d.opVersion) ∧
        (if d.live then serve reg (d.stamp .ok t) else expel (d.stamp .ok t)).After mid (.done none) := by
  unfold simpleApply at h
  split_ifs at h with hid
  · simp at h
  obtain ⟨r, tr₁, rfl, h₁⟩ := Prog.after_invoke_done_iff.mp h
  cases r with
  | error err => simp at h₁
  | ok found =>
    refine ⟨found, ?_⟩
    dsimp only at h₁
    by_cases hs : d.opVersion ≠ 0 ∧ (found.getD {}).opVersion ≥ d.opVersion
    · rw [if_pos hs] at h₁
      obtain ⟨rfl, -⟩ := Prog.after_done_iff.mp h₁
      exact .inl ⟨rfl, hs⟩
    · rw [if_neg hs] at h₁
      obtain ⟨t, tr₂, rfl, h₂⟩ := Prog.after_invoke_done_iff.mp h₁
      obtain ⟨r, mid, tr₄, rfl, hmid, h₄⟩ := Prog.after_bind_done_iff.mp h₂
      cases r with
      | some err => simp at h₄
      | none =>
        obtain ⟨r, tr₅, rfl, h₅⟩ := Prog.after_invoke_done_iff.mp h₄
        cases r with
        | some err => simp at h₅
        | none =>
          obtain ⟨rfl, -⟩ := Prog.after_done_iff.mp h₅
          exact .inr ⟨t, mid, rfl, hs, hmid⟩

variable (faults reg) in
/-- How `SwapRoute` towards `d` can end when started in the world `w`. -/
inductive SwapOutcome (d : Placement) (w : World) : Err → World → Prop
  | skipped (stale : Stale w.store d) : SwapOutcome d w none w
  | rerouted {w' : World} (fresh : ¬ Stale w.store d) (t : Time)
      (store : w'.store = w.store.put (d.stamp .ok t)) (proxy : Rerouted reg d w.proxy w'.proxy) :
      SwapOutcome d w none w'
  | failed {w' : World} (err : GoError) (timeout : err.isDrainTimeout = false)
      (why : faults = true ∨ reg.get d.backendNodeID = none) : SwapOutcome d w (some err) w'

theorem ensures_swapRoute {plan : FlipPlan} (hid : plan.desired.id ≠ "")
    (hplan : plan.placementID = plan.desired.id) (hop : plan.opVersion = plan.desired.opVersion) :
    Ensures faults (swapRoute reg plan)
      (fun _ r w' => SwapOutcome faults reg plan.desired w r w') w := by
  unfold swapRoute
  rw [if_neg (by simp [hid, hplan]), hplan, hop]
  refine ensures_getPlacement (fun hf msg => .failed _ rfl (.inl hf)) ?_
  dsimp only
  split_ifs with hs
  · exact .skipped hs
  · refine ensures_now fun t => ensures_syncBackends.bind fun _ r w₁ h => ?_
    obtain ⟨rfl, rfl⟩ | ⟨hf, rfl, err, rfl, herr⟩ := h
    · refine ensures_selectBackend (fun h msg => .failed _ rfl (h.imp id fun hb => ?_))
        fun p₁ hp₁ => ?_
      · exact Option.not_isSome_iff_eq_none.mp fun h => hb (mem_backends_sync.mpr h)
      · obtain ⟨hb, hu, hb', hr⟩ := Proxy.selectBackend_ok hp₁
        refine ensures_putPlacement (fun hf msg => .failed _ rfl (.inl hf)) ?_
        refine .rerouted hs t rfl ⟨mem_backends_sync.mp hb, hu, fun b => ?_, hr⟩
        show b ∈ p₁.backends ↔ _
        rw [hb']
        exact mem_backends_sync
    · exact .failed _ herr (.inl hf)

end EntryProxyActions

end NodeAgent
