import NodeAgent.Snapshot.Exact

/-!
# A resync of a backend node

`backendRebuilder` of `cmd/agent/main.go`, the rebuilder of a node with a local xray: it adds the users of
the placements that the store has after the prune. Nobody takes out the users of the placements that the
prune has deleted, or that the snapshot has made inactive. So after a resync xray is right exactly when
each user it had before has kept a live placement.
-/

namespace NodeAgent.Backend

open Lib Jsonv1 Snapshot

/-! ## The rebuilder -/

/-- How many users `RebuildFromStore` adds at a time. -/
def backendRebuildConcurrency : ℕ := 10

/-- The goroutine for one placement; a failure is only logged. -/
def addTask (p : Placement) : Go (Except GoError Bool) := do
  match ← port (.xrayAddUser ⟨p.clientID, p.transport⟩) with
  | some _ => return .ok false
  | none => return .ok true

/-- The placements whose users are added. -/
def eligible (p : Placement) : Bool := p.live && p.clientID != ""

/-- `RebuildFromStore`; `sched` says how the goroutines take turns. -/
def rebuildFromStore (sched : List ℕ) : Go Err := do
  match ← port .listPlacements with
  | .error err => return some (.wrap "backend-rebuild: list placements" err)
  | .ok placements =>
    let _ ← Prog.group backendRebuildConcurrency sched ((placements.filter eligible).map addTask)
    return none

/-- It adds users of placements that it has listed. -/
def AddCall (ps : List Placement) (c : Call) : Prop :=
  ∃ p ∈ ps, eligible p = true ∧ c = .xrayAddUser ⟨p.clientID, p.transport⟩

theorem group_adds (sched : List ℕ) (ps : List Placement) :
    (Prog.group backendRebuildConcurrency sched ((ps.filter eligible).map addTask)).All (AddCall ps) := by
  refine Prog.group_all fun t ht => ?_
  obtain ⟨p, hp, rfl⟩ := List.mem_map.mp ht
  obtain ⟨hp, hel⟩ := List.mem_filter.mp hp
  refine Prog.all_invoke_bind.mpr ⟨⟨p, hp, hel, rfl⟩, fun r => ?_⟩
  cases r <;> trivial

theorem rebuildFromStore_calls (sched : List ℕ) : (rebuildFromStore sched).All RebuildCall := by
  refine Prog.all_invoke_bind.mpr ⟨trivial, fun r => ?_⟩
  cases r with
  | error err => trivial
  | ok ps =>
    refine ((group_adds sched ps).mono fun c hc => ?_).bind fun _ => trivial
    obtain ⟨p, -, -, rfl⟩ := hc
    trivial

/-- The backend's `RebuildFromStore`, as the snapshot consumer calls it. -/
def backendRebuilder (sched : List ℕ) : Rebuilder := ⟨rebuildFromStore sched, rebuildFromStore_calls sched⟩

/-! ## What the end of a snapshot does -/

section Finish

variable {faults : Bool} {w : World}

/-- The client has a live placement. -/
def Served (s : Store) (c : ClientID) : Prop := ∃ p ∈ s.list, p.live = true ∧ p.clientID = c

/-- The rebuild adds served users, takes out none, and leaves the store alone. -/
def Rebuilt (w w' : World) : Prop :=
  w'.store = w.store ∧ (∀ c ∈ w.xray, c ∈ w'.xray) ∧ ∀ c ∈ w'.xray, c ∈ w.xray ∨ Served w.store c

theorem ensures_rebuildFromStore (sched : List ℕ) :
    Ensures faults (rebuildFromStore sched) (fun _ _ w' => Rebuilt w w') w := by
  have hsame : Rebuilt w w := ⟨rfl, fun _ h => h, fun _ h => .inl h⟩
  refine ensures_listPlacements (fun _ msg => hsame) ?_
  refine Ensures.bind (R := fun _ _ w' => Rebuilt w w') ?_ fun tr a w' hw' => hw'
  refine wp_iff_run.mpr fun tr a w' hrun => ?_
  have hcalls := (group_adds sched w.store.list).of_mem hrun.1
  refine hrun.2.invariant (I := Rebuilt w) (fun ev hev e v _ _ hv => ?_) hsame
  obtain ⟨p, hp, hel, hc⟩ := hcalls ev hev
  rw [hc]
  obtain ⟨fail, _, _, _, _, _, _⟩ := e
  cases fail with
  | some msg => exact hv
  | none =>
    obtain ⟨hstore, hkeep, hadd⟩ := hv
    refine ⟨hstore, fun c hc => ?_, fun c hc => ?_⟩
    · exact (GoMap.mem_insert _ _ _ _).mpr (.inr (hkeep c hc))
    · rcases (GoMap.mem_insert _ _ _ _).mp hc with rfl | hc
      · simp only [eligible, Bool.and_eq_true] at hel
        exact .inr ⟨p, hp, hel.1, rfl⟩
      · exact hadd c hc

theorem publishSyncReport_quiet (nodeID : NodeID) (snapshotID : String) :
    (publishSyncReport nodeID snapshotID).All Quiet := by
  unfold publishSyncReport
  refine Prog.all_invoke_bind.mpr ⟨(fun _ _ => rfl), fun eventID => ?_⟩
  refine Prog.all_invoke_bind.mpr ⟨(fun _ _ => rfl), fun t => ?_⟩
  refine Prog.all_invoke_bind.mpr ⟨(fun _ _ => rfl), fun n => ?_⟩
  dsimp only
  split
  · trivial
  · exact ⟨(fun _ _ => rfl), fun _ => trivial⟩

/-- The end of a snapshot adds users that are served then, and takes out none. -/
theorem ensures_finish_xray {nodeID : NodeID} {snapshotID : String} {sched : List ℕ}
    (hsnap : w.seen.snap = snapshotID) :
    Ensures faults (finishSnapshot nodeID (backendRebuilder sched) snapshotID) (fun _ r w' => r = none →
      (∀ c ∈ w.xray, c ∈ w'.xray) ∧ ∀ c ∈ w'.xray, c ∈ w.xray ∨ Served w'.store c) w := by
  refine (ensures_prune hsnap).bind fun tr r w₁ h₁ => ?_
  cases r with
  | error err => exact fun h => by cases h
  | ok k =>
    refine (ensures_rebuildFromStore sched).bind fun tr r w₂ h₂ => ?_
    have hall : (∀ c ∈ w.xray, c ∈ w₂.xray) ∧ ∀ c ∈ w₂.xray, c ∈ w.xray ∨ Served w₂.store c := by
      obtain ⟨hstore, hkeep, hadd⟩ := h₂
      rw [hstore, ← h₁.1]
      exact ⟨hkeep, hadd⟩
    cases r with
    | some err => exact fun h => by cases h
    | none =>
      refine (ensures_quiet (publishSyncReport_quiet nodeID snapshotID)).bind fun tr r w₃ h₃ => ?_
      subst h₃
      cases r with
      | some err => exact fun h => by cases h
      | none => exact fun e _ _ => hall

end Finish

/-! ## The records after a resync, from the store and the snapshot -/

/-- A record without its outcome and time stamp. -/
def unstamped (x : Option Placement) : Option Placement := x.map (·.stamp .ok 0)

/-- The record that a chunk leaves, up to outcome and time stamp. -/
def afterChunk (id : PlacementID) (x : Option Placement) (chunk : SnapshotChunk) : Option Placement :=
  match chunk.items.find? (·.placement.id = id) with
  | none => x
  | some cmd =>
    if x.any (·.opVersion ≥ cmd.placement.opVersion) then x else some (cmd.placement.stamp .ok 0)

/-- The item for a placement that the chunk has once. -/
theorem find?_of_once {chunk : SnapshotChunk} {cmd : Command} (honce : Once chunk cmd.placement.id)
    (hcmd : cmd ∈ chunk.items) :
    chunk.items.find? (·.placement.id = cmd.placement.id) = some cmd := by
  cases hfind : chunk.items.find? (·.placement.id = cmd.placement.id) with
  | none => exact absurd (decide_eq_true rfl) (List.find?_eq_none.mp hfind cmd hcmd)
  | some cmd' =>
    have hdec := List.find?_some hfind
    have hid : cmd'.placement.id = cmd.placement.id := of_decide_eq_true hdec
    obtain ⟨i, hi⟩ := List.getElem?_of_mem (List.mem_of_find?_eq_some hfind)
    obtain ⟨j, hj⟩ := List.getElem?_of_mem hcmd
    have hij : i = j := by
      refine honce i j ?_ ?_
      · rw [ids, List.getElem?_map, hi, Option.map_some, hid]
      · rw [ids, List.getElem?_map, hj, Option.map_some]
    rw [hij, hj] at hi
    exact hi.symm

theorem unstamped_moved {chunk : SnapshotChunk} {id : PlacementID} {x x' : Option Placement}
    (honce : Once chunk id) (h : Moved chunk id x x') :
    unstamped x' = afterChunk id (unstamped x) chunk := by
  unfold afterChunk
  rcases h with ⟨hid, rfl⟩ | ⟨cmd, hcmd, rfl, t, rfl⟩
  · have hnone : chunk.items.find? (·.placement.id = id) = none := by
      rw [List.find?_eq_none]
      intro cmd hcmd heq
      exact hid (List.mem_map.mpr ⟨cmd, hcmd, of_decide_eq_true heq⟩)
    rw [hnone]
  · have hany : (unstamped x).any (·.opVersion ≥ cmd.placement.opVersion) =
        x.any (·.opVersion ≥ cmd.placement.opVersion) := by cases x <;> rfl
    rw [find?_of_once honce hcmd]
    dsimp only
    rw [hany]
    split_ifs <;> rfl

theorem unstamped_movedBy {chunks : List SnapshotChunk} {id : PlacementID} {x x' : Option Placement}
    (honce : ∀ chunk ∈ chunks, Once chunk id) (h : MovedBy chunks id x x') :
    unstamped x' = chunks.foldl (afterChunk id) (unstamped x) := by
  induction chunks generalizing x with
  | nil => rw [show x' = x from h, List.foldl_nil]
  | cons chunk chunks ih =>
    obtain ⟨hfirst, hrest⟩ := List.forall_mem_cons.mp honce
    obtain ⟨y, hy, hmoved⟩ := h
    rw [List.foldl_cons, ← unstamped_moved hfirst hy]
    exact ih hrest hmoved

/-- The client keeps a live placement: the prune spares it, no chunk has it twice, and the store's record
with the chunks' items laid over it is live. -/
def KeepsPlacement (w : World) (snapshotID : String) (chunks : List SnapshotChunk) (c : ClientID) : Prop :=
  ∃ id, (∀ chunk ∈ chunks, Once chunk id) ∧
    (noted w.seen snapshotID chunks = [] ∨ id ∈ noted w.seen snapshotID chunks) ∧
    ∃ p, chunks.foldl (afterChunk id) (unstamped (w.store.get id)) = some p ∧ p.live = true ∧
      p.clientID = c

/-! ## Users after a resync -/

section Users

variable {nodeID : NodeID} {sched : List ℕ} {snapshotID : String} {chunks : List SnapshotChunk}
  {last : SnapshotChunk} {w w' : World} {ts : List (Turn ports World Delivery Result)}

theorem served_iff {s : Store} {c : ClientID} : Served s c ↔
    ∃ id p, unstamped (s.get id) = some p ∧ p.live = true ∧ p.clientID = c := by
  constructor
  · rintro ⟨p, hp, hlive, hc⟩
    refine ⟨p.id, p.stamp .ok 0, ?_, hlive, hc⟩
    rw [Store.mem_list.mp hp]
    rfl
  · rintro ⟨id, p, hp, hlive, hc⟩
    obtain ⟨q, hq, rfl⟩ := Option.map_eq_some_iff.mp hp
    exact ⟨q, Store.mem_list_of_get hq, hlive, hc⟩

/-- A placement of the client that is kept is one that is there in the end, and the other way round if
no chunk has a placement twice. -/
theorem served_of_keeps (h : Resync nodeID (backendRebuilder sched) snapshotID chunks last w ts w')
    {c : ClientID} (hkeeps : KeepsPlacement w snapshotID (chunks ++ [last]) c) : Served w'.store c := by
  obtain ⟨id, honce, hspared, p, hp, hlive, hc⟩ := hkeeps
  obtain ⟨x, hx, hw'⟩ := h.moves honce
  have hnot : ¬ (noted w.seen snapshotID (chunks ++ [last]) ≠ [] ∧
      id ∉ noted w.seen snapshotID (chunks ++ [last])) := by
    rintro ⟨hne, hmem⟩
    rcases hspared with hnil | hin
    · exact hne hnil
    · exact hmem hin
  rw [if_neg hnot] at hw'
  refine served_iff.mpr ⟨id, p, ?_, hlive, hc⟩
  rw [show w'.store.get id = x from hw', unstamped_movedBy honce hx]
  exact hp

theorem keeps_of_served (h : Resync nodeID (backendRebuilder sched) snapshotID chunks last w ts w')
    (hnodup : ∀ chunk ∈ chunks ++ [last], (ids chunk).Nodup) {c : ClientID}
    (hserved : Served w'.store c) : KeepsPlacement w snapshotID (chunks ++ [last]) c := by
  obtain ⟨id, p, hp, hlive, hc⟩ := served_iff.mp hserved
  have honce : ∀ chunk ∈ chunks ++ [last], Once chunk id := fun chunk hchunk =>
    once_of_nodup (hnodup chunk hchunk) id
  obtain ⟨x, hx, hw'⟩ := h.moves honce
  by_cases hnot : noted w.seen snapshotID (chunks ++ [last]) ≠ [] ∧
      id ∉ noted w.seen snapshotID (chunks ++ [last])
  · rw [if_pos hnot] at hw'
    rw [show w'.store.get id = none from hw'] at hp
    cases hp
  · rw [if_neg hnot] at hw'
    rw [show w'.store.get id = x from hw', unstamped_movedBy honce hx] at hp
    refine ⟨id, honce, ?_, p, hp, hlive, hc⟩
    by_cases hnil : noted w.seen snapshotID (chunks ++ [last]) = []
    · exact .inl hnil
    · exact .inr (not_not.mp fun hmem => hnot ⟨hnil, hmem⟩)

theorem resync_xray (h : Resync nodeID (backendRebuilder sched) snapshotID chunks last w ts w') :
    (∀ c ∈ w.xray, c ∈ w'.xray) ∧ ∀ c ∈ w'.xray, c ∈ w.xray ∨ Served w'.store c := by
  obtain ⟨w₁, counters, tr, hcol, hsnap, hfinish⟩ := h.stages
  have hsnap' : ({ w₁ with counters := counters } : World).seen.snap = snapshotID := hsnap
  have hxray := wp_iff_run.mp (ensures_finish_xray hsnap') _ _ _ hfinish rfl
  rw [← hcol.xray]
  exact hxray

/-- After a resync xray has no user without a live placement if every user that it had before keeps one;
and only if, when no chunk has a placement twice. -/
theorem resync_serves (h : Resync nodeID (backendRebuilder sched) snapshotID chunks last w ts w') :
    ((∀ c ∈ w.xray, KeepsPlacement w snapshotID (chunks ++ [last]) c) →
      ∀ c ∈ w'.xray, Served w'.store c) ∧
    ((∀ chunk ∈ chunks ++ [last], (ids chunk).Nodup) → (∀ c ∈ w'.xray, Served w'.store c) →
      ∀ c ∈ w.xray, KeepsPlacement w snapshotID (chunks ++ [last]) c) := by
  obtain ⟨hkeep, hadd⟩ := resync_xray h
  constructor
  · intro hall c hc
    rcases hadd c hc with hc | hserved
    · exact served_of_keeps h (hall c hc)
    · exact hserved
  · intro hnodup hall c hc
    exact keeps_of_served h hnodup (hall c (hkeep c hc))

end Users

/-! ## Two resyncs -/

/-- A node that serves a client through placement `p`. -/
def serving : World where
  store := Store.empty.put { id := "p", clientID := "c", desired := .active, opVersion := 1 }
  xray := (∅ : GoMap TransportKind).insert "c" .tcp

/-- A snapshot of one item. -/
def wholeSnapshot (item : Command) : SnapshotChunk where
  nodeID := "n"
  snapshotID := "S"
  chunkIndex := 0
  isLastChunk := true
  items := [item]

/-- A snapshot that still has the placement. -/
def keepsP : SnapshotChunk := wholeSnapshot
  (.carrying { id := "p", clientID := "c", nodeID := "n", desired := .active, opVersion := 2 })

/-- A snapshot that has another client's placement instead. -/
def dropsP : SnapshotChunk := wholeSnapshot
  (.carrying { id := "q", clientID := "d", nodeID := "n", desired := .active, opVersion := 2 })

/-- The snapshot arrives at the node. -/
def resynced (chunk : SnapshotChunk) : List (Turn ports World Delivery Result) × World :=
  replaySession world (Snapshot.deliver "n" (backendRebuilder [])) [(⟨.ok chunk, []⟩, [])] serving

theorem session_resynced (chunk : SnapshotChunk) : Session world (Env.Allowed true)
    (Snapshot.deliver "n" (backendRebuilder [])) serving (resynced chunk).1 (resynced chunk).2 :=
  session_replay (Env.allowed_default _) _ (by simp [Env.Allowed]) _

theorem resync_serves_kept :
    Resync "n" (backendRebuilder []) "S" [] keepsP serving (resynced keepsP).1 (resynced keepsP).2 ∧
    ∀ c ∈ (resynced keepsP).2.xray, Served (resynced keepsP).2.store c := by
  have hresync : Resync "n" (backendRebuilder []) "S" [] keepsP serving (resynced keepsP).1
      (resynced keepsP).2 := ⟨session_resynced _, rfl, by decide, by decide, rfl, by decide⟩
  refine ⟨hresync, (resync_serves hresync).1 fun c hc => ?_⟩
  obtain rfl : c = "c" := by
    rcases (GoMap.mem_insert _ _ _ _).mp hc with hc | hc
    · exact hc
    · exact absurd hc Std.ExtTreeMap.not_mem_empty
  refine ⟨"p", ?_, .inr (by decide), _, rfl, rfl, rfl⟩
  intro chunk hchunk
  obtain rfl := List.mem_singleton.mp hchunk
  exact once_of_nodup (by decide) "p"

/-- The prune deletes the placement and its user stays in xray. -/
theorem resync_leaves_user :
    Resync "n" (backendRebuilder []) "S" [] dropsP serving (resynced dropsP).1 (resynced dropsP).2 ∧
    "c" ∈ (resynced dropsP).2.xray ∧ ¬ Served (resynced dropsP).2.store "c" := by
  have hresync : Resync "n" (backendRebuilder []) "S" [] dropsP serving (resynced dropsP).1
      (resynced dropsP).2 := ⟨session_resynced _, rfl, by decide, by decide, rfl, by decide⟩
  refine ⟨hresync, (resync_xray hresync).1 _ ((GoMap.mem_insert _ _ _ _).mpr (.inl rfl)), ?_⟩
  unfold Served
  decide

end NodeAgent.Backend
