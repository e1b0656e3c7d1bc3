import NodeAgent.Executor.FlipSpec

/-!
# Sequential runs without faults

Commands applied one after another through `FlipExecutor.Apply` over the embedded proxy, no call
failing, the versions of each placement strictly increasing. Then the executor's version check never
fires, and each command has one of four effects.
-/

namespace NodeAgent.Entry

open Lib EntryProxyActions FlipExecutor

/-- A command, and the registry while it is applied. -/
structure Step where
  reg : Registry
  cmd : Command

def Step.placement (s : Step) : Placement := s.cmd.placement

/-- Load the stored record and apply the command, as `Handle` does. -/
def applyStored (opts : FlipExecutorOptions) (s : Step) : Go Err := do
  match ← port (.getPlacement s.placement.id) with
  | .error err => return some err
  | .ok stored =>
    let r ← (entryProxy s.reg opts).apply s.placement (stored.getD {}) stored.isSome
    return r.2

/-- The versions of each placement increase along the run. -/
def Increasing (steps : List Step) : Prop :=
  steps.Pairwise fun a b =>
    a.placement.id = b.placement.id → a.placement.opVersion < b.placement.opVersion

instance (steps : List Step) : Decidable (Increasing steps) :=
  inferInstanceAs (Decidable (steps.Pairwise fun a b =>
    a.placement.id = b.placement.id → a.placement.opVersion < b.placement.opVersion))

/-- What a command that is not stale does when nothing fails. -/
inductive Effect (reg : Registry) (d : Placement) (w w' : World) : Prop
  /-- The client is served, through the command's backend if that is registered. -/
  | admitted (path : ∀ e, w.store.get d.id = some e → isBackendFlip e d = false)
      (live : d.live = true) (client : d.clientID ≠ "") (t : Time)
      (store : w'.store = w.store.put (d.stamp .ok t)) (proxy : Admitted reg d w.proxy w'.proxy)
  /-- The client is dropped. -/
  | expelled (path : ∀ e, w.store.get d.id = some e → isBackendFlip e d = false)
      (dead : d.live = false) (t : Time) (store : w'.store = w.store.put (d.stamp .ok t))
      (proxy : Expelled d w.proxy w'.proxy)
  /-- The client gets one more backend. -/
  | rerouted (e : Placement) (stored : w.store.get d.id = some e) (path : isBackendFlip e d = true)
      (t : Time) (store : w'.store = w.store.put (d.stamp .ok t))
      (proxy : Rerouted reg d w.proxy w'.proxy)
  /-- Nothing: no client to add, or a flip to a backend that is not registered. -/
  | rejected
      (why : (d.live = true ∧ d.clientID = "" ∧
          ∀ e, w.store.get d.id = some e → isBackendFlip e d = false) ∨
        ∃ e, w.store.get d.id = some e ∧ isBackendFlip e d = true ∧
          reg.get d.backendNodeID = none)
      (store : w'.store = w.store) (proxy : SameClients w.proxy w'.proxy)

theorem ensures_applyStored {opts : FlipExecutorOptions} {s : Step} {w : World}
    (hfresh : ¬ Stale w.store s.placement) :
    Ensures false (applyStored opts s) (fun _ _ w' => Effect s.reg s.placement w w') w := by
  refine ensures_getPlacement (fun hf => by cases hf) ?_
  refine (ensures_apply _ _ s.cmd.id_ne).bind fun tr r w' h => ?_
  obtain ⟨-, hout⟩ := h
  cases hout with
  | simple path outcome =>
    have hpath : ∀ e, w.store.get s.placement.id = some e → isBackendFlip e s.placement = false := by
      intro e he
      rw [he] at path
      exact path.resolve_left (by simp)
    cases hr : r.2 with
    | none =>
      rw [hr] at outcome
      cases outcome with
      | skipped stale => exact absurd stale hfresh
      | admitted fresh live client t store proxy => exact .admitted hpath live client t store proxy
      | expelled fresh dead t store proxy _ => exact .expelled hpath dead t store proxy
    | some err =>
      rw [hr] at outcome
      cases outcome with
      | rejected err live client store proxy => exact .rejected (.inl ⟨live, client, hpath⟩) store proxy
      | failed err faulty => cases faulty
  | flip path outcome =>
    obtain ⟨e, he, path⟩ := exists_of_isBackendFlip path
    generalize r.2 = res at outcome
    cases outcome with
    | skipped r stale => exact absurd stale hfresh
    | rerouted r fresh t store proxy => exact .rerouted e he path t store proxy
    | rejected err timeout unregistered =>
      exact .rejected (.inr ⟨e, he, path, unregistered⟩) rfl ⟨rfl, rfl⟩
    | failed err timeout faulty => cases faulty

theorem Effect.store_cases {reg : Registry} {d : Placement} {w w' : World} (h : Effect reg d w w') :
    w'.store = w.store ∨ ∃ t, w'.store = w.store.put (d.stamp .ok t) := by
  cases h with
  | admitted path live client t store proxy => exact .inr ⟨t, store⟩
  | expelled path dead t store proxy => exact .inr ⟨t, store⟩
  | rerouted e stored path t store proxy => exact .inr ⟨t, store⟩
  | rejected why store proxy => exact .inl store

theorem version_put (s : Store) (p : Placement) (id : PlacementID) :
    (s.put p).version id = if id = p.id then p.opVersion else s.version id := by
  unfold Store.version
  rw [Store.get_put]
  split_ifs <;> rfl

/-- Along an increasing run no command is stale, so each has its effect. -/
theorem effects_of_session {opts : FlipExecutorOptions} {w w' : World}
    {ts : List (Turn ports World Step Err)}
    (h : Session world (Env.Allowed false) (applyStored opts) w ts w')
    (hinc : Increasing (ts.map Turn.input))
    (hnew : ∀ t ∈ ts, w.store.version t.input.placement.id < t.input.placement.opVersion) :
    ∀ t ∈ ts, Effect t.input.reg t.input.placement t.before t.after := by
  induction h with
  | nil w => simp
  | @cons w w' t ts hb hrun _ ih =>
    subst hb
    obtain ⟨hlater, hinc⟩ := List.pairwise_cons.mp hinc
    have hfresh : ¬ Stale t.before.store t.input.placement := fun hs =>
      absurd hs.2 (not_le.mpr (hnew t List.mem_cons_self))
    have heff := wp_iff_run.mp (ensures_applyStored hfresh) _ _ _ hrun
    have hnext : ∀ t' ∈ ts,
        t.after.store.version t'.input.placement.id < t'.input.placement.opVersion := by
      intro t' ht'
      have hold := hnew t' (List.mem_cons_of_mem _ ht')
      rcases heff.store_cases with hst | ⟨tm, hst⟩
      · rw [hst]
        exact hold
      · rw [hst, version_put]
        split_ifs with hid
        · exact hlater _ (List.mem_map_of_mem ht') hid.symm
        · exact hold
    intro t' ht'
    rcases List.mem_cons.mp ht' with rfl | ht'
    · exact heff
    · exact ih hinc hnext t' ht'

theorem effects_of_empty {opts : FlipExecutorOptions} {w w' : World}
    {ts : List (Turn ports World Step Err)}
    (h : Session world (Env.Allowed false) (applyStored opts) w ts w')
    (hinc : Increasing (ts.map Turn.input)) (hw : w.store = .empty) :
    ∀ t ∈ ts, Effect t.input.reg t.input.placement t.before t.after := by
  refine effects_of_session h hinc fun t _ => ?_
  rw [hw, Store.version, Store.get_empty]
  exact t.input.cmd.one_le_opVersion

/-- A registry with two backends. -/
def twoBackends : Registry := .ofSpecs
  [{ id := "b1", address := "10.0.0.1", port := 443 }, { id := "b2", address := "10.0.0.2", port := 443 }]

/-- A proxy that serves one client. -/
def servingOne : Proxy := { Proxy.new with
  users := (∅ : GoMap String).insert "c" ""
  named := by decide }

end NodeAgent.Entry
