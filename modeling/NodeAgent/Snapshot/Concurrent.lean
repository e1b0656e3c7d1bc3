import NodeAgent.Applier.Versions
import NodeAgent.Snapshot.Exact

/-!
# A command during a resync

The prune at the end of a snapshot lists the store and deletes what the snapshot does not have. A
placement that a command has stored in the meantime is in the listing and in no chunk.
-/

namespace NodeAgent.Snapshot

open Lib Jsonv1

/-- The consumer handles messages one after the other. -/
def consume (nodeID : NodeID) (rebuilder : Rebuilder) : List Delivery → Go Err
  | [] => return none
  | x :: xs => do
    let _ ← deliver nodeID rebuilder x
    consume nodeID rebuilder xs

/-! ## What is deleted -/

/-- A prune lists these placements; it takes the set right before that. -/
def PruneLists (tr : List GoEvent) (ps : List Placement) : Prop :=
  ∃ xs seen ys, tr = xs ++ ⟨.takeSeen, seen⟩ :: ⟨.listPlacements, .ok ps⟩ :: ys

/-- Whatever is deleted, a prune has listed. -/
def DeletesListed (tr : List GoEvent) : Prop :=
  ∀ ev ∈ tr, ∀ id, ev.call = .deletePlacement id → ∃ ps, PruneLists tr ps ∧ ∃ p ∈ ps, p.id = id

section Lists

variable {α β : Type} {tr tr' : List GoEvent} {ps : List Placement}

theorem PruneLists.append_left (h : PruneLists tr ps) : PruneLists (tr' ++ tr) ps := by
  obtain ⟨xs, seen, ys, rfl⟩ := h
  exact ⟨tr' ++ xs, seen, ys, by simp⟩

theorem PruneLists.append_right (h : PruneLists tr ps) : PruneLists (tr ++ tr') ps := by
  obtain ⟨xs, seen, ys, rfl⟩ := h
  exact ⟨xs, seen, ys ++ tr', by simp⟩

theorem DeletesListed.append (h : DeletesListed tr) (h' : DeletesListed tr') :
    DeletesListed (tr ++ tr') := by
  intro ev hev id hc
  rcases List.mem_append.mp hev with hev | hev
  · obtain ⟨ps, hps, hp⟩ := h ev hev id hc
    exact ⟨ps, hps.append_right, hp⟩
  · obtain ⟨ps, hps, hp⟩ := h' ev hev id hc
    exact ⟨ps, hps.append_left, hp⟩

/-- The program deletes only what it has listed. -/
def Lists (p : Go α) : Prop := ∀ tr q, p.After tr q → DeletesListed tr

theorem lists_of_no_delete {p : Go α} (hp : p.All fun c : Call => ∀ id, c ≠ .deletePlacement id) :
    Lists p := fun _ _ h ev hev id hc => absurd hc (hp.of_mem h ev hev id)

theorem lists_of_apart {p : Go α} (hp : p.All Apart) : Lists p :=
  lists_of_no_delete (hp.mono fun c hc id h => by rw [h] at hc; exact hc)

theorem Lists.bind {p : Go α} {f : α → Go β} (hp : Lists p) (hf : ∀ a, Lists (f a)) :
    Lists (p >>= f) := by
  intro tr q h
  rcases Prog.after_bind_iff.mp h with ⟨p', hp', -⟩ | ⟨a, tr₁, tr₂, rfl, h₁, h₂⟩
  · exact hp _ _ hp'
  · exact (hp _ _ h₁).append (hf a _ _ h₂)

theorem lists_port {c : Call} (hc : ∀ id, c ≠ .deletePlacement id) : Lists (port c) :=
  lists_of_no_delete ⟨hc, fun _ => trivial⟩

theorem lists_pruneAbsent (snapshotID : String) : Lists (pruneAbsent snapshotID) := by
  intro tr q h ev hev id hc
  rcases Prog.after_invoke_iff.mp h with ⟨rfl, -⟩ | ⟨seen, tr₁, rfl, h₁⟩
  · cases hev
  rcases List.mem_cons.mp hev with rfl | hev
  · cases hc
  split_ifs at h₁
  · obtain ⟨rfl, -⟩ := Prog.after_done_iff.mp h₁
    cases hev
  · obtain ⟨rfl, -⟩ := Prog.after_done_iff.mp h₁
    cases hev
  rcases Prog.after_invoke_iff.mp h₁ with ⟨rfl, -⟩ | ⟨reply, tr₂, rfl, h₂⟩
  · cases hev
  rcases List.mem_cons.mp hev with rfl | hev'
  · cases hc
  cases reply with
  | error err =>
    obtain ⟨rfl, -⟩ := Prog.after_done_iff.mp h₂
    cases hev'
  | ok all =>
    obtain ⟨p, hp, -, hcall⟩ := (deleteAbsent_calls _ all 0).of_mem h₂ ev hev'
    rw [hc] at hcall
    cases hcall
    exact ⟨all, ⟨[], seen, tr₂, rfl⟩, p, hp, rfl⟩

theorem lists_finishSnapshot (nodeID : NodeID) (rebuilder : Rebuilder) (snapshotID : String) :
    Lists (finishSnapshot nodeID rebuilder snapshotID) := by
  refine (lists_pruneAbsent snapshotID).bind fun r => ?_
  cases r with
  | error err => exact lists_of_apart trivial
  | ok pruned =>
    refine lists_of_no_delete ((finish_rest_calls nodeID rebuilder snapshotID).mono fun c hc id h => ?_)
    rw [h] at hc
    cases hc

theorem lists_deliver (nodeID : NodeID) (rebuilder : Rebuilder) (x : Delivery) :
    Lists (deliver nodeID rebuilder x) := by
  unfold deliver handle
  cases x.msg with
  | error err => exact lists_of_apart trivial
  | ok chunk =>
    dsimp only
    split_ifs
    · exact lists_of_apart trivial
    · refine (lists_port fun _ h => by cases h).bind fun _ => ?_
      refine (lists_port fun _ h => by cases h).bind fun tracked => ?_
      cases tracked with
      | false => exact lists_of_apart trivial
      | true =>
        have hitems : ∀ t ∈ chunk.items.map (itemTask chunk.chunkIndex), t.All Apart := by
          intro t ht
          obtain ⟨cmd, -, rfl⟩ := List.mem_map.mp ht
          exact itemTask_calls _ _
        refine Lists.bind (Lists.bind (lists_of_apart (Prog.group_all hitems)) fun r => ?_)
          fun _ => lists_of_apart trivial
        cases r with
        | error err => exact lists_of_apart trivial
        | ok applied =>
          refine (lists_port fun _ h => by cases h).bind fun _ => ?_
          split_ifs
          · exact lists_finishSnapshot _ _ _
          · exact lists_of_apart trivial

theorem lists_consume (nodeID : NodeID) (rebuilder : Rebuilder) (xs : List Delivery) :
    Lists (consume nodeID rebuilder xs) := by
  induction xs with
  | nil => exact lists_of_apart trivial
  | cons x xs ih => exact (lists_deliver nodeID rebuilder x).bind fun _ => ih

end Lists

/-! ## Next to a command -/

section Pool

variable [Lowering] [Sum256] {A : Env → Prop} {nodeID : NodeID} {x : Executor} {cmd : Command}
  {rebuilder : Rebuilder}
  {xs : List Delivery} {a : EntryActions} {maxBatch rounds : ℕ} {last : Option Digest}
  {w w' : World} {trs : List (Tagged ports)} {ts' : List (Go Err)}

/-- A command, the snapshot consumer and the loop of the coalescer. -/
def duringResync (nodeID : NodeID) (x : Executor) (cmd : Command) (rebuilder : Rebuilder)
    (xs : List Delivery) (loop : Go Err) : List (Go Err) :=
  [Applier.handle nodeID x (.ok cmd), consume nodeID rebuilder xs, loop]

/-- Only what a prune has listed is deleted. -/
theorem deleted_listed
    (h : Interleave (duringResync nodeID x cmd rebuilder xs
      (RenderCoalescer.run a maxBatch rounds { lastHash := last })) trs ts') {ev : GoEvent}
    (hev : ev ∈ trs.map Prod.snd) {id : PlacementID} (hc : ev.call = .deletePlacement id) :
    ∃ ps, PruneLists (eventsOf 1 trs) ps ∧ ∃ p ∈ ps, p.id = id := by
  obtain ⟨⟨i, ev'⟩, hmem, rfl⟩ := List.mem_map.mp hev
  have hlt := h.lt_of_mem hmem
  rcases i with _ | _ | _ | i
  · obtain ⟨q, -, hafter⟩ := h.after (i := 0) rfl
    exact absurd hc (Applier.handle_deletes_nothing hafter (mem_eventsOf.mpr hmem) id)
  · obtain ⟨q, -, hafter⟩ := h.after (i := 1) rfl
    exact lists_consume nodeID rebuilder xs _ _ hafter ev' (mem_eventsOf.mpr hmem) id hc
  · obtain ⟨q, -, hafter⟩ := h.after (i := 2) rfl
    have hcall := (RenderCoalescer.run_calls maxBatch rounds _).of_mem hafter ev' (mem_eventsOf.mpr hmem)
    change RenderCoalescer.RunCall a ev'.call at hcall
    rw [show ev'.call = .deletePlacement id from hc] at hcall
    exact absurd hcall fun h => h
  · change i + 1 + 1 + 1 < 3 at hlt
    omega

/-- A placement that a command has stored and reported as applied stays in the store, if no prune lists
it. -/
theorem resync_keeps_applied
    (h : Pool world A (duringResync nodeID x cmd rebuilder xs
      (RenderCoalescer.run a maxBatch rounds { lastHash := last })) w trs ts' w')
    {rep : PlacementReport} (hrep : rep ∈ reports (eventsOf 0 trs)) (hstatus : rep.status = .applied)
    (hprune : ∀ ps, PruneLists (eventsOf 1 trs) ps → ∀ p ∈ ps, p.id ≠ cmd.placement.id) :
    ∃ e, w'.store.get cmd.placement.id = some e := by
  obtain ⟨q, -, hafter⟩ := h.1.after (i := 0) rfl
  obtain ⟨t, hput⟩ := Applier.handle_applied hafter hrep hstatus
  have hmem : (⟨.putPlacement (cmd.placement.stamp .ok t), none⟩ : GoEvent) ∈ trs.map Prod.snd :=
    List.mem_map.mpr ⟨_, mem_eventsOf.mp hput, rfl⟩
  obtain ⟨tr₁, tr₂, w₁, e, heq, -, -, hr, h₂⟩ := h.2.split_mem hmem
  -- from the put on, the record is there
  refine steps_store_invariant (I := fun s => ∃ e, s.get cmd.placement.id = some e) h₂ ?_ ?_
    ⟨cmd.placement.stamp .ok t, ?_⟩
  · rintro p - s ⟨e, he⟩
    rw [Store.get_put]
    split_ifs
    · exact ⟨p, rfl⟩
    · exact ⟨e, he⟩
  · rintro y hy s ⟨e, he⟩
    have hin : (⟨.deletePlacement y, none⟩ : GoEvent) ∈ trs.map Prod.snd := by
      rw [heq]
      simp [hy]
    obtain ⟨ps, hps, p, hp, hid⟩ := deleted_listed h.1 hin rfl
    rw [Store.get_delete, if_neg fun hcmd => hprune ps hps p hp (hid.trans hcmd.symm)]
    exact ⟨e, he⟩
  · show (World.exec _ e w₁).2.store.get _ = _
    rw [exec_putPlacement hr]
    exact Store.get_put_self w₁.store (cmd.placement.stamp .ok t)

end Pool

theorem PruneLists.mem {tr : List GoEvent} {ps : List Placement} (h : PruneLists tr ps) :
    (⟨.listPlacements, .ok ps⟩ : GoEvent) ∈ tr := by
  obtain ⟨xs, seen, ys, rfl⟩ := h
  simp

section Fixed

open Eval

/-- A placement that the snapshot does not have. -/
def newcomer : Command := .carrying { id := "r", nodeID := "n", desired := .active, opVersion := 1 }

/-- The command for it, and the two chunks of the snapshot. -/
def newcomerDuringResync : List (Go Err) :=
  duringResync "n" Applier.noop newcomer noopRebuilder [⟨.ok firstChunk, []⟩, ⟨.ok lastChunk, []⟩]
    (RenderCoalescer.run .bare 1 0 {})

/-- The event lists the store, and the placement is in it. -/
def listsNewcomer : GoEvent → Bool
  | ⟨.listPlacements, .ok ps⟩ => ps.any (·.id = "r")
  | _ => false

/-- The command comes after the listing of the prune. -/
def afterListing : List ℕ := List.replicate 14 1 ++ List.replicate 8 0 ++ List.replicate 8 1

theorem resync_keeps_late_command : ∃ trs ts' w' rep e,
    Pool world (Env.Allowed false) newcomerDuringResync {} trs ts' w' ∧ ts'[1]? = some (.done none) ∧
    rep ∈ reports (eventsOf 0 trs) ∧ rep.status = .applied ∧ w'.store.get "r" = some e := by
  have h := Applier.pool_taking newcomerDuringResync afterListing {}
  have hdone : (Applier.taking newcomerDuringResync afterListing {}).2.1[1]? = some (.done none) :=
    getElem?_eq_done (by decide +kernel)
  obtain ⟨rep, hrep, hstatus⟩ : ∃ rep ∈ reports (eventsOf 0 (Applier.taking newcomerDuringResync
      afterListing {}).1), rep.status = .applied := by
    decide +kernel
  have hno : ∀ ev ∈ eventsOf 1 (Applier.taking newcomerDuringResync afterListing {}).1,
      listsNewcomer ev = false := by
    decide +kernel
  obtain ⟨e, he⟩ := resync_keeps_applied h hrep hstatus fun ps hps p hp hid => by
    have hfalse := hno _ hps.mem
    rw [listsNewcomer, List.any_eq_false] at hfalse
    exact hfalse p hp (decide_eq_true hid)
  exact ⟨_, _, _, rep, e, h, hdone, hrep, hstatus, he⟩

/-- The first chunk, then the command, then the last chunk: the placement is reported as applied, and the
prune deletes it. -/
theorem resync_loses_command : ∃ trs us w₁ trs' ts' w' rep e,
    "r" ∉ ids firstChunk ∧ "r" ∉ ids lastChunk ∧
    Pool world (Env.Allowed false) newcomerDuringResync {} trs us w₁ ∧
    (⟨.trackSeen "S" (ids firstChunk), true⟩ : GoEvent) ∈ eventsOf 1 trs ∧
    Pool world (Env.Allowed false) us w₁ trs' ts' w' ∧
    (⟨.putPlacement e, none⟩ : GoEvent) ∈ eventsOf 0 trs' ∧ e.id = "r" ∧
    rep ∈ reports (eventsOf 0 trs') ∧ rep.status = .applied ∧
    ts'[0]? = some (.done none) ∧ ts'[1]? = some (.done none) ∧ w'.store.get "r" = none := by
  let first := Applier.taking newcomerDuringResync (List.replicate 6 1) {}
  let second := Applier.taking first.2.1 (List.replicate 8 0 ++ List.replicate 16 1) first.2.2
  obtain ⟨rep, hrep, hstatus⟩ : ∃ rep ∈ reports (eventsOf 0 second.1), rep.status = .applied := by
    decide +kernel
  refine ⟨first.1, first.2.1, first.2.2, second.1, second.2.1, second.2.2, rep,
    newcomer.placement.stamp .ok 0, by decide, by decide, Applier.pool_taking _ _ _,
    List.mem_of_getElem? (i := 1) rfl, Applier.pool_taking _ _ _, List.mem_of_getElem? (i := 3) rfl, rfl,
    hrep, hstatus, getElem?_eq_done (by decide +kernel), getElem?_eq_done (by decide +kernel),
    by decide +kernel⟩

end Fixed

end NodeAgent.Snapshot
