import NodeAgent.Executor.EntryActions
import NodeAgent.Singboxgen.Routing
import NodeAgent.World

/-!
# The selector fast path and the build

A selector flip looks at the command only. A build from the store takes the last active placement of the
client, in the order of the ids, for the default of its selector. The two agree as long as no other
placement outranks the one that is flipped.
-/

namespace NodeAgent.External

open Lib Singboxgen

/-! ## What a flip does -/

section Flip

variable {faults : Bool} {a : EntryActions} {d : Placement} {w : World}

/-- A flip that is done has set the selector of the client, and nothing else. -/
theorem ensures_trySelectorFlip [Lowering] : Ensures faults (a.trySelectorFlip d) (fun _ done w' =>
    w'.store = w.store ∧ (done = true → d.clientID ≠ "" ∧ d.desired = .active ∧
      w'.singbox.selected = w.singbox.selected.insert (perUserSelectorTagFor d.clientID)
        (perUserOutboundTagFor d.clientID d.backendNodeID))) w := by
  unfold EntryActions.trySelectorFlip
  split_ifs with hinvalid
  · exact ⟨rfl, fun h => by cases h⟩
  · push Not at hinvalid
    refine ensures_listPlacements (fun _ msg => ⟨rfl, fun h => by cases h⟩) ?_
    dsimp only
    split_ifs
    · cases a.reg.get d.backendNodeID with
      | none => exact ⟨rfl, fun h => by cases h⟩
      | some spec =>
        rintro ⟨fail, _, _, _, _, _, _⟩ -
        cases fail with
        | none => exact ⟨rfl, fun _ => ⟨hinvalid.1, hinvalid.2, rfl⟩⟩
        | some msg => exact ⟨rfl, fun h => by cases h⟩
    · exact ⟨rfl, fun h => by cases h⟩

end Flip

/-! ## Which placement a build prefers -/

/-- The placement is active and its client is the given one up to case. -/
def Serves [Lowering] (c : ClientID) (p : Placement) : Prop :=
  p.desired = .active ∧ toLower p.clientID = toLower c

/-- A build would take `p` rather than `q`: the client comes first, or it is the same and the placement
comes last. -/
def Prefers (p q : Placement) : Prop :=
  p.clientID < q.clientID ∨ p.clientID = q.clientID ∧ q.id ≤ p.id

/-- Another placement in the store than that of `d` serves its client, is preferred to `d` and to all
others that do. -/
def Outranks [Lowering] (s : Store) (d p : Placement) : Prop :=
  p ∈ s.list ∧ p.id ≠ d.id ∧ Serves d.clientID p ∧ Prefers p d ∧
    ∀ q ∈ s.list, q.id ≠ d.id → Serves d.clientID q → Prefers p q

theorem Prefers.antisymm {p q : Placement} (h : Prefers p q) (h' : Prefers q p) : p.id = q.id := by
  rcases h with h | ⟨hc, h⟩
  · rcases h' with h' | ⟨hc', -⟩
    · exact absurd h' h.asymm
    · exact absurd hc' h.ne'
  · rcases h' with h' | ⟨-, h'⟩
    · exact absurd hc h'.ne'
    · exact le_antisymm h' h

/-- The build takes the placement that is preferred to all. -/
theorem exists_preferred [Lowering] {s : Store} {c u : ClientID} (howner : selectorOwner s.list c = some u) :
    ∃ p ∈ s.list, Serves c p ∧ p.clientID = u ∧
      p.backendNodeID = (activeBackends s.list u).getLastD "" ∧
      ∀ q ∈ s.list, Serves c q → Prefers p q := by
  obtain ⟨hmem, hleast⟩ := List.min?_eq_some_iff.mp howner
  obtain ⟨e, he, heu⟩ := List.mem_map.mp hmem
  obtain ⟨he, hserves⟩ := List.mem_filter.mp he
  obtain ⟨hactive, hlow⟩ := of_decide_eq_true hserves
  have hne : (s.list.filter fun p => p.desired = .active ∧ p.clientID = u) ≠ [] :=
    List.ne_nil_of_mem (List.mem_filter.mpr ⟨he, decide_eq_true ⟨hactive, heu⟩⟩)
  obtain ⟨hp, hpu⟩ := List.mem_filter.mp (List.getLast_mem hne)
  obtain ⟨hpactive, hpu⟩ := of_decide_eq_true hpu
  refine ⟨_, hp, ⟨hpactive, by rw [hpu, ← heu]; exact hlow⟩, hpu, ?_, ?_⟩
  · unfold activeBackends
    rw [List.getLastD_eq_getLast?, List.getLast?_map, List.getLast?_eq_getLast_of_ne_nil hne]
    rfl
  · intro q hq hqserves
    have hle : u ≤ q.clientID :=
      hleast _ (List.mem_map_of_mem (List.mem_filter.mpr ⟨hq, decide_eq_true hqserves⟩))
    rcases hle.lt_or_eq with hlt | heq
    · exact .inl (hpu.trans_lt hlt)
    · -- among the placements of one client the last has the greatest id
      refine .inr ⟨hpu.trans heq, ?_⟩
      have hsorted := s.pairwise_list.filter fun p => p.desired = .active ∧ p.clientID = u
      have hin : q ∈ s.list.filter fun p => p.desired = .active ∧ p.clientID = u :=
        List.mem_filter.mpr ⟨hq, decide_eq_true ⟨hqserves.1, heq.symm⟩⟩
      rw [← List.dropLast_append_getLast hne] at hin hsorted
      rcases List.mem_append.mp hin with hin | hin
      · exact ((List.pairwise_append.mp hsorted).2.2 q hin _ (List.mem_singleton.mpr rfl)).le
      · rw [List.mem_singleton.mp hin]

/-- What is preferred after a put is the record that was put or one that outranks it. -/
theorem preferred_put [Lowering] {s : Store} {d p : Placement} (hp : p ∈ (s.put d).list)
    (hserves : Serves d.clientID p)
    (hall : ∀ q ∈ (s.put d).list, Serves d.clientID q → Prefers p q) (hd : d.desired = .active) :
    (p = d ∧ ∀ q, ¬ Outranks s d q) ∨ (Outranks s d p ∧ ∀ q, Outranks s d q → q = p) := by
  have hput : ∀ q ∈ s.list, q.id ≠ d.id → q ∈ (s.put d).list := by
    intro q hq hid
    rw [Store.mem_list, Store.get_put_of_ne _ _ hid]
    exact Store.mem_list.mp hq
  have hself : d ∈ (s.put d).list := Store.mem_list.mpr (Store.get_put_self s d)
  by_cases hid : p.id = d.id
  · have heq : p = d := by
      have hget := Store.mem_list.mp hp
      rw [hid, Store.get_put_self] at hget
      exact (Option.some.inj hget).symm
    subst heq
    refine .inl ⟨rfl, fun q hq => hq.2.1 ?_⟩
    exact hq.2.2.2.1.antisymm (hall q (hput q hq.1 hq.2.1) hq.2.2.1)
  · have hmem : p ∈ s.list := by
      rw [Store.mem_list, ← Store.get_put_of_ne s d hid]
      exact Store.mem_list.mp hp
    have hout : Outranks s d p := ⟨hmem, hid, hserves, hall d hself ⟨hd, rfl⟩,
      fun q hq hqid hqs => hall q (hput q hq hqid) hqs⟩
    refine .inr ⟨hout, fun q hq => ?_⟩
    have hsame := (hq.2.2.2.2 p hmem hid hserves).antisymm (hall q (hput q hq.1 hq.2.1) hq.2.2.1)
    have hget := Store.mem_list.mp hq.1
    rw [hsame, Store.mem_list.mp hmem] at hget
    exact (Option.some.inj hget).symm

/-! ## The agreement -/

/-- After a flip that is done and stored, the selected outbound is the default that a build of the store
gives exactly when the placement that outranks the flipped one, if any, is on the same backend. -/
theorem selector_agrees_iff [Lowering] {faults : Bool} {a : EntryActions} {d : Placement} {w w' : World}
    {tr : List GoEvent} {cfg : SingBoxConfig}
    (hrun : Run world (Env.Allowed faults) (a.trySelectorFlip d) w tr true w')
    (hbuild : build (a.nodeState (w'.store.put d).list) = .ok cfg) :
    w'.singbox.selected[perUserSelectorTagFor d.clientID]? = selectorDefault cfg.toJson d.clientID ↔
      ∀ p, Outranks w.store d p → toLower p.backendNodeID = toLower d.backendNodeID := by
  obtain ⟨hstore, hdone⟩ := wp_iff_run.mp ensures_trySelectorFlip _ _ _ hrun
  obtain ⟨-, hactive, hselected⟩ := hdone rfl
  rw [hstore] at hbuild
  have hself : d ∈ (w.store.put d).list := Store.mem_list.mpr (Store.get_put_self _ d)
  obtain ⟨u, howner, hlow, -, hdefault⟩ := selectorDefault_build hbuild
    ((mem_routedUsers_iff (validate_of_build hbuild)).mpr ⟨d, hself, hactive, rfl⟩)
  obtain ⟨p, hp, hserves, rfl, hlast, hall⟩ := exists_preferred howner
  have htag : w'.singbox.selected[perUserSelectorTagFor d.clientID]? =
      selectorDefault cfg.toJson d.clientID ↔
      toLower p.backendNodeID = toLower d.backendNodeID := by
    rw [hselected, GoMap.getElem?_insert, if_pos rfl, hdefault, Option.some.injEq]
    rw [show (activeBackends (a.nodeState (w.store.put d).list).placements p.clientID).getLastD "" =
      p.backendNodeID from hlast.symm]
    unfold perUserOutboundTagFor
    rw [hlow, String.append_right_inj]
    exact eq_comm
  rw [htag]
  rcases preferred_put hp hserves hall hactive with ⟨rfl, hnone⟩ | ⟨hout, honly⟩
  · exact ⟨fun _ q hq => absurd hq (hnone q), fun _ => rfl⟩
  · constructor
    · intro heq q hq
      rw [honly q hq]
      exact heq
    · exact fun h => h p hout

section Fixed

open Eval

/-! ## A user with one home and with two -/

def twoBackends : EntryActions := { EntryActions.bare with
  reg := .ofSpecs (["n1", "n2"].map fun id => { id := id, address := "198.51.100.7", port := 443 }) }

/-- An active placement of the client. -/
def homedAt (id : PlacementID) (backend : BackendID) : Placement where
  id := id
  clientID := "c"
  backendNodeID := backend
  desired := .active

/-- The store has the given placements. -/
def storing (ps : List Placement) : World where
  store := ps.foldl Store.put .empty

theorem selector_agrees_one_home : ∃ tr w' cfg,
    Run world (Env.Allowed false) (twoBackends.trySelectorFlip (homedAt "p1" "n2"))
      (storing [homedAt "p1" "n1"]) tr true w' ∧
    build (twoBackends.nodeState (w'.store.put (homedAt "p1" "n2")).list) = .ok cfg ∧
    w'.singbox.selected["u-c"]? = selectorDefault cfg.toJson "c" := by
  have hrun : Run world (Env.Allowed false) (twoBackends.trySelectorFlip (homedAt "p1" "n2"))
    (storing [homedAt "p1" "n1"]) _ true _ := run_replay (Env.allowed_default _) [] (by simp) _
  have hbuild : build (twoBackends.nodeState
    ((storing [homedAt "p1" "n1"]).store.put (homedAt "p1" "n2")).list) = .ok _ := rfl
  refine ⟨_, _, _, hrun, hbuild, (selector_agrees_iff hrun hbuild).mpr ?_⟩
  rintro p ⟨hp, hid, -⟩
  have hmem : p ∈ [homedAt "p1" "n1"] := hp
  rw [List.mem_singleton.mp hmem] at hid
  exact absurd rfl hid

/-- The flip of the first home selects its new backend, and the build goes on with the second home. -/
theorem selector_differs_two_homes : ∃ tr w' cfg,
    Run world (Env.Allowed false) (twoBackends.trySelectorFlip (homedAt "p1" "n2"))
      (storing [homedAt "p1" "n1", homedAt "p2" "n1"]) tr true w' ∧
    build (twoBackends.nodeState (w'.store.put (homedAt "p1" "n2")).list) = .ok cfg ∧
    w'.singbox.selected["u-c"]? = some "b-c-n2" ∧
    selectorDefault cfg.toJson "c" = some "b-c-n1" := by
  have hrun : Run world (Env.Allowed false) (twoBackends.trySelectorFlip (homedAt "p1" "n2"))
    (storing [homedAt "p1" "n1", homedAt "p2" "n1"]) _ true _ :=
    run_replay (Env.allowed_default _) [] (by simp) _
  exact ⟨_, _, _, hrun, rfl, by decide +kernel, by decide +kernel⟩

end Fixed

end NodeAgent.External
