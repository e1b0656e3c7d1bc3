import NodeAgent.Snapshot.Items
import NodeAgent.Snapshot.NilMap

/-!
# A resync from its first chunk to its last

The chunks of one snapshot, handled one after another, the last chunk last. What becomes of a record: each
chunk moves it, and the prune at the end deletes it if no chunk has it.
-/

namespace NodeAgent.Snapshot

open Lib Jsonv1

/-! ## The prune -/

section Finish

variable {faults : Bool} {w : World}

/-- The loop of the prune, when it comes to its end, has deleted what the set does not have. -/
theorem ensures_deleteAbsent (seen : List PlacementID) (ps : List Placement) (n : ℕ) :
    Ensures faults (deleteAbsent seen ps n) (fun _ r w' => w'.xray = w.xray ∧ ∀ k, r = .ok k →
      ∀ id, w'.store.get id =
        if id ∈ ps.map Placement.id ∧ id ∉ seen then none else w.store.get id) w := by
  induction ps generalizing n w with
  | nil => exact ⟨rfl, fun k _ id => by simp⟩
  | cons p ps ih =>
    unfold deleteAbsent
    split_ifs with hp
    · refine wp_mono (ih n) fun tr r w' h => ⟨h.1, fun k hk id => ?_⟩
      rw [h.2 k hk id, List.map_cons]
      by_cases hid : id = p.id
      · rw [hid, if_neg (fun h => h.2 hp), if_neg (fun h => h.2 hp)]
      · simp [hid]
    · refine ensures_deletePlacement (fun _ msg => ⟨rfl, fun k hk => by cases hk⟩) ?_
      refine wp_mono (ih (n + 1)) fun tr r w' h => ⟨h.1, fun k hk id => ?_⟩
      rw [h.2 k hk id, List.map_cons, Store.get_delete]
      by_cases hid : id = p.id
      · rw [hid, if_pos rfl, ite_self, if_pos ⟨List.mem_cons_self, hp⟩]
      · simp [hid]

/-- The prune of a snapshot that has been collected. -/
theorem ensures_prune {snapshotID : String} (hsnap : w.seen.snap = snapshotID) :
    Ensures faults (pruneAbsent snapshotID) (fun _ r w' => w'.xray = w.xray ∧ ∀ k, r = .ok k →
      ∀ id, w'.store.get id =
        if w.seen.ids.getD [] ≠ [] ∧ id ∉ w.seen.ids.getD [] then none else w.store.get id) w := by
  unfold pruneAbsent
  refine Ensures.bind (R := fun _ s w' => s = w.seen ∧ w' = { w with seen := {} })
    (fun e _ => ⟨rfl, rfl⟩) ?_
  rintro tr s w₁ ⟨rfl, rfl⟩
  rw [if_neg (not_not_intro hsnap)]
  split_ifs with hnil
  · exact ⟨rfl, fun k _ id => by simp [hnil]⟩
  · refine ensures_listPlacements (fun _ msg => ⟨rfl, fun k hk => by cases hk⟩) ?_
    refine wp_mono (ensures_deleteAbsent _ _ 0) fun tr r w' h => ⟨h.1, fun k hk id => ?_⟩
    rw [h.2 k hk id]
    by_cases hid : id ∈ w.seen.ids.getD []
    · rw [if_neg (fun h => h.2 hid), if_neg (fun h => h.2 hid)]
    · refine Eq.trans ?_ (if_pos ⟨hnil, hid⟩).symm
      split_ifs with hmem
      · rfl
      · -- the id is not listed, so there is no record
        cases hget : w.store.get id with
        | none => rfl
        | some p =>
          exact absurd ⟨List.mem_map.mpr ⟨p, Store.mem_list_of_get hget, Store.id_of_get hget⟩, hid⟩ hmem

/-- The rebuild and the report leave the store alone. -/
theorem finish_rest_calls (nodeID : NodeID) (rebuilder : Rebuilder) (snapshotID : String) :
    (do
      match ← rebuilder.rebuildFromStore with
      | some err => return some (.wrap "rebuild after last chunk" err)
      | none =>
        match ← publishSyncReport nodeID snapshotID with
        | some err => return some (.wrap "publish sync report" err)
        | none =>
          port .storeCompleted
          return none : Go Err).All fun c : Call => c.writesStore = false := by
  refine (rebuilder.calls.mono fun c hc => ?_).bind fun r => ?_
  · cases c <;> first | rfl | exact absurd hc id
  · cases r with
    | some err => trivial
    | none =>
      refine Prog.All.bind ?_ fun r => ?_
      · unfold publishSyncReport
        refine Prog.all_invoke_bind.mpr ⟨rfl, fun eventID => ?_⟩
        refine Prog.all_invoke_bind.mpr ⟨rfl, fun t => ?_⟩
        refine Prog.all_invoke_bind.mpr ⟨rfl, fun n => ?_⟩
        dsimp only
        split
        · trivial
        · exact ⟨rfl, fun _ => trivial⟩
      · cases r with
        | some err => trivial
        | none => exact Prog.all_invoke_bind.mpr ⟨rfl, fun _ => trivial⟩

/-- The end of a snapshot that has been collected: the store has been pruned. -/
theorem ensures_finish_records {nodeID : NodeID} {rebuilder : Rebuilder} {snapshotID : String}
    (hsnap : w.seen.snap = snapshotID) :
    Ensures faults (finishSnapshot nodeID rebuilder snapshotID) (fun _ r w' => r = none →
      ∀ id, w'.store.get id =
        if w.seen.ids.getD [] ≠ [] ∧ id ∉ w.seen.ids.getD [] then none else w.store.get id) w := by
  refine (ensures_prune hsnap).bind fun tr r w₁ h₁ => ?_
  cases r with
  | error err => exact fun h => by cases h
  | ok k =>
    refine wp_mono (ensures_keeps World.store (finish_rest_calls nodeID rebuilder snapshotID)
      fun c e v hc => store_exec hc e v) fun tr r w₂ h₂ _ id => ?_
    rw [h₂.2]
    exact h₁.2 k rfl id

end Finish

/-! ## Collecting the chunks -/

/-- The ids that the set has once the chunks have been noted. -/
def noted (s : Seen) (snapshotID : String) (chunks : List SnapshotChunk) : List PlacementID :=
  (if s.snap = snapshotID then s.ids.getD [] else []) ++ chunks.flatMap ids

theorem noted_track {s : Seen} {snapshotID : String} {chunk : SnapshotChunk}
    (h : (s.track snapshotID (ids chunk)).1 = true) (rest : List SnapshotChunk) :
    noted (s.track snapshotID (ids chunk)).2 snapshotID rest = noted s snapshotID (chunk :: rest) := by
  unfold noted
  rw [track_snap, if_pos rfl, List.flatMap_cons, ← List.append_assoc]
  congr 1
  obtain ⟨seen, snap⟩ := s
  by_cases hs : snap = snapshotID
  · subst hs
    cases seen with
    | some seen => simp [Seen.track]
    | none =>
      cases hl : ids chunk with
      | nil => simp [Seen.track]
      | cons id l => simp [Seen.track, hl] at h
  · simp [Seen.track, hs]

/-- The chunks one after another make `x'` of the record `x`. -/
def MovedBy : List SnapshotChunk → PlacementID → Option Placement → Option Placement → Prop
  | [], _, x, x' => x' = x
  | chunk :: chunks, id, x, x' => ∃ y, Moved chunk id x y ∧ MovedBy chunks id y x'

theorem MovedBy.append {chunks chunks' : List SnapshotChunk} {id : PlacementID}
    {x y z : Option Placement} (h : MovedBy chunks id x y) (h' : MovedBy chunks' id y z) :
    MovedBy (chunks ++ chunks') id x z := by
  induction chunks generalizing x with
  | nil =>
    rw [← show y = x from h]
    exact h'
  | cons chunk chunks ih =>
    obtain ⟨v, hv, hrest⟩ := h
    exact ⟨v, hv, ih hrest⟩

/-- What the chunks do to the world, short of the end of the snapshot. -/
structure Collected (snapshotID : String) (chunks : List SnapshotChunk) (w w' : World) : Prop where
  xray : w'.xray = w.xray
  noted : ∀ rest, noted w'.seen snapshotID rest = noted w.seen snapshotID (chunks ++ rest)
  records : ∀ id, (∀ chunk ∈ chunks, Once chunk id) →
    MovedBy chunks id (record id w) (record id w')

theorem Collected.trans {snapshotID : String} {chunks chunks' : List SnapshotChunk} {w₁ w₂ w₃ : World}
    (h : Collected snapshotID chunks w₁ w₂) (h' : Collected snapshotID chunks' w₂ w₃) :
    Collected snapshotID (chunks ++ chunks') w₁ w₃ where
  xray := h'.xray.trans h.xray
  noted rest := by rw [h'.noted, h.noted, List.append_assoc]
  records id honce := (h.records id fun chunk hc => honce chunk (List.mem_append_left _ hc)).append
    (h'.records id fun chunk hc => honce chunk (List.mem_append_right _ hc))

/-- The items of a chunk that has been noted. -/
theorem collected_items {A : Env → Prop} {chunk : SnapshotChunk} {w w' : World} {tr : List GoEvent}
    {sched : List ℕ} {as : List Bool} {counters : Counter → ℕ}
    (htrack : (w.seen.track chunk.snapshotID (ids chunk)).1 = true)
    (h : Run world A (Prog.group snapshotApplyConcurrency sched
      (chunk.items.map (itemTask chunk.chunkIndex))) { w with
        counters := counters, seen := (w.seen.track chunk.snapshotID (ids chunk)).2 } tr (.ok as) w') :
    Collected chunk.snapshotID [chunk] w w' ∧ w'.seen.snap = chunk.snapshotID := by
  have hcalls : (Prog.group snapshotApplyConcurrency sched
      (chunk.items.map (itemTask chunk.chunkIndex))).All
      fun c : Call => c.writesXray = false ∧ c.writesSeen = false :=
    items_all (fun _ => ⟨rfl, rfl⟩) ⟨rfl, rfl⟩ (fun _ => ⟨rfl, rfl⟩) _ _ _ _
  have hall := hcalls.of_mem h.1
  have hseen : w'.seen = (w.seen.track chunk.snapshotID (ids chunk)).2 := by
    refine h.2.invariant (I := fun v => v.seen = (w.seen.track chunk.snapshotID (ids chunk)).2)
      (fun ev hev e v _ _ hv => ?_) rfl
    rw [← hv]
    exact seen_exec (hall ev hev).2 e v
  have hxray : w'.xray = w.xray := by
    refine h.2.invariant (I := fun v => v.xray = w.xray) (fun ev hev e v _ _ hv => ?_) rfl
    rw [← hv]
    exact xray_exec (hall ev hev).1 e v
  refine ⟨⟨hxray, fun rest => ?_, fun id honce => ?_⟩, ?_⟩
  · rw [hseen]
    exact noted_track htrack rest
  · exact ⟨_, (group_moves (honce chunk List.mem_cons_self) h).2 as rfl, rfl⟩
  · rw [hseen]
    exact track_snap _ _ _

/-! ## A resync -/

/-- The turns deliver chunks of the snapshot to the node, the last chunk last, and each is handled. -/
structure Resync (nodeID : NodeID) (rebuilder : Rebuilder) (snapshotID : String)
    (chunks : List SnapshotChunk) (last : SnapshotChunk) (w : World)
    (ts : List (Turn ports World Delivery Result)) (w' : World) : Prop where
  session : Session world (Env.Allowed true) (deliver nodeID rebuilder) w ts w'
  msgs : ts.map (fun t => t.input.msg) = (chunks ++ [last]).map .ok
  own : ∀ chunk ∈ chunks ++ [last], chunk.nodeID = nodeID ∧ chunk.snapshotID = snapshotID
  more : ∀ chunk ∈ chunks, chunk.isLastChunk = false
  ends : last.isLastChunk = true
  handled : ∀ t ∈ ts, t.value = .returned none

section Resync

variable {nodeID : NodeID} {rebuilder : Rebuilder} {snapshotID : String} {chunks : List SnapshotChunk}
  {chunk last : SnapshotChunk} {w w' : World} {ts : List (Turn ports World Delivery Result)}

/-- A chunk that is handled has been collected; if it is the last one, the end of the snapshot follows. -/
theorem handled_chunk {x : Delivery} {tr : List GoEvent} (hmsg : x.msg = .ok chunk)
    (hnode : chunk.nodeID = nodeID)
    (h : Run world (Env.Allowed true) (deliver nodeID rebuilder x) w tr (.returned none) w') :
    ∃ w₁, Collected chunk.snapshotID [chunk] w w₁ ∧ w₁.seen.snap = chunk.snapshotID ∧
      ((chunk.isLastChunk = false ∧ ∃ counters, w' = { w₁ with counters := counters }) ∨
        (chunk.isLastChunk = true ∧ ∃ counters tr', Run world (Env.Allowed true)
          (finishSnapshot nodeID rebuilder chunk.snapshotID) { w₁ with counters := counters } tr' none
          w')) := by
  rcases run_deliver_stages hmsg hnode h with ⟨hr, -⟩ | ⟨counters, tr', err, htrack, hr, -, -, hstages⟩
  · cases hr
  · cases hr
    cases hstages with
    | applied tr₁ as last w₂ counters' silent items after =>
      obtain ⟨hcol, hsnap⟩ := collected_items htrack items
      exact ⟨w₂, hcol, hsnap, .inl ⟨last, counters', after⟩⟩
    | finished tr₁ tr₂ as last w₂ counters' err sub silent items finish =>
      obtain ⟨hcol, hsnap⟩ := collected_items htrack items
      exact ⟨w₂, hcol, hsnap, .inr ⟨last, counters', tr₂, finish⟩⟩

/-- The chunks before the last one have been collected. -/
theorem session_collected {rest : List SnapshotChunk}
    (h : Session world (Env.Allowed true) (deliver nodeID rebuilder) w ts w')
    (hmsgs : ts.map (fun t => t.input.msg) = (chunks ++ rest).map .ok)
    (hown : ∀ chunk ∈ chunks, chunk.nodeID = nodeID ∧ chunk.snapshotID = snapshotID)
    (hmore : ∀ chunk ∈ chunks, chunk.isLastChunk = false)
    (hnil : ∀ t ∈ ts, t.value = .returned none) :
    ∃ ts' w₁, (∀ t ∈ ts', t ∈ ts) ∧ Collected snapshotID chunks w w₁ ∧
      Session world (Env.Allowed true) (deliver nodeID rebuilder) w₁ ts' w' ∧
      ts'.map (fun t => t.input.msg) = rest.map .ok := by
  induction chunks generalizing w ts with
  | nil => exact ⟨ts, w, fun t h => h, ⟨rfl, fun _ => rfl, fun _ _ => rfl⟩, h, hmsgs⟩
  | cons chunk chunks ih =>
    obtain ⟨⟨hnode, hsnap⟩, hown⟩ := List.forall_mem_cons.mp hown
    obtain ⟨hlast, hmore⟩ := List.forall_mem_cons.mp hmore
    cases h with
    | nil w => simp at hmsgs
    | @cons w w' t ts hb hrun hts =>
      obtain ⟨hmsg, hmsgs⟩ := List.cons_eq_cons.mp hmsgs
      obtain ⟨hval, hnil⟩ := List.forall_mem_cons.mp hnil
      rw [hval] at hrun
      obtain ⟨w₁, hcol, -, ⟨-, counters, hafter⟩ | ⟨hlast', -⟩⟩ := handled_chunk hmsg hnode hrun
      · obtain ⟨ts', w₂, hsub, hcol', hsession, hrest⟩ := ih hts hmsgs hown hmore hnil
        have hstep : Collected snapshotID [chunk] w t.after := by
          rw [hafter]
          rw [hsnap] at hcol
          exact ⟨hcol.xray, hcol.noted, hcol.records⟩
        exact ⟨ts', w₂, fun u hu => List.mem_cons_of_mem _ (hsub u hu), hstep.trans hcol', hsession, hrest⟩
      · rw [hlast] at hlast'
        cases hlast'

/-- The whole resync: the chunks are collected, then comes the end of the snapshot. -/
theorem Resync.stages (h : Resync nodeID rebuilder snapshotID chunks last w ts w') :
    ∃ w₁ counters tr, Collected snapshotID (chunks ++ [last]) w w₁ ∧ w₁.seen.snap = snapshotID ∧
      Run world (Env.Allowed true) (finishSnapshot nodeID rebuilder snapshotID)
        { w₁ with counters := counters } tr none w' := by
  obtain ⟨hnode, hsnap⟩ := h.own last (List.mem_append_right _ List.mem_cons_self)
  obtain ⟨ts', w₁, hsub, hcol, hsession, hrest⟩ := session_collected h.session h.msgs
    (fun chunk hc => h.own chunk (List.mem_append_left _ hc)) h.more h.handled
  cases hsession with
  | nil w => simp at hrest
  | @cons w₁ w' t ts' hb hrun hts =>
    obtain ⟨hmsg, hnil⟩ := List.cons_eq_cons.mp hrest
    rw [h.handled t (hsub t List.mem_cons_self)] at hrun
    obtain ⟨w₂, hcol', hsnap', ⟨hlast, -⟩ | ⟨-, counters, tr, hfinish⟩⟩ := handled_chunk hmsg hnode hrun
    · rw [h.ends] at hlast
      cases hlast
    · rw [hsnap] at hcol' hsnap' hfinish
      have hnone : ts' = [] := List.map_eq_nil_iff.mp hnil
      subst hnone
      cases hts
      exact ⟨w₂, counters, tr, hcol.trans hcol', hsnap', hfinish⟩

/-- What is left of a record. -/
theorem Resync.moves (h : Resync nodeID rebuilder snapshotID chunks last w ts w') {id : PlacementID}
    (honce : ∀ chunk ∈ chunks ++ [last], Once chunk id) :
    ∃ x, MovedBy (chunks ++ [last]) id (record id w) x ∧ record id w' =
      if noted w.seen snapshotID (chunks ++ [last]) ≠ [] ∧
        id ∉ noted w.seen snapshotID (chunks ++ [last]) then none else x := by
  obtain ⟨w₁, counters, tr, hcol, hsnap, hfinish⟩ := h.stages
  refine ⟨record id w₁, hcol.records id honce, ?_⟩
  have hnoted := hcol.noted []
  rw [List.append_nil] at hnoted
  have hids : w₁.seen.ids.getD [] = noted w.seen snapshotID (chunks ++ [last]) := by
    rw [← hnoted, noted, if_pos hsnap, List.flatMap_nil, List.append_nil]
  have hsnap' : ({ w₁ with counters := counters } : World).seen.snap = snapshotID := hsnap
  have hrec := wp_iff_run.mp (ensures_finish_records hsnap') _ _ _ hfinish rfl id
  rw [← hids]
  exact hrec

theorem Moved.of_not_mem {id : PlacementID} {x x' : Option Placement} (h : Moved chunk id x x')
    (hid : id ∉ ids chunk) : x' = x := by
  rcases h with ⟨-, heq⟩ | ⟨cmd, hcmd, rfl, -⟩
  · exact heq
  · exact absurd (List.mem_map_of_mem hcmd) hid

theorem Moved.of_mem {cmd : Command} {x x' : Option Placement}
    (h : Moved chunk cmd.placement.id x x') (hnodup : (ids chunk).Nodup) (hcmd : cmd ∈ chunk.items) :
    Took cmd x x' := by
  rcases h with ⟨hid, -⟩ | ⟨cmd', hcmd', hid, htook⟩
  · exact absurd (List.mem_map_of_mem hcmd) hid
  · obtain rfl : cmd' = cmd := List.inj_on_of_nodup_map hnodup hcmd' hcmd hid
    exact htook

theorem MovedBy.of_not_mem {id : PlacementID} {x x' : Option Placement} (h : MovedBy chunks id x x')
    (hid : id ∉ chunks.flatMap ids) : x' = x := by
  induction chunks generalizing x with
  | nil => exact h
  | cons chunk chunks ih =>
    rw [List.flatMap_cons, List.mem_append, not_or] at hid
    obtain ⟨y, hy, hrest⟩ := h
    exact (ih hrest hid.2).trans (hy.of_not_mem hid.1)

/-- A record that one item of the snapshot is for has taken that item. -/
theorem MovedBy.of_mem {cmd : Command} {x x' : Option Placement}
    (h : MovedBy chunks cmd.placement.id x x') (hnodup : (chunks.flatMap ids).Nodup)
    (hcmd : cmd ∈ chunks.flatMap SnapshotChunk.items) : Took cmd x x' := by
  induction chunks generalizing x with
  | nil => cases hcmd
  | cons chunk chunks ih =>
    obtain ⟨y, hy, hrest⟩ := h
    rw [List.flatMap_cons, List.nodup_append] at hnodup
    obtain ⟨hfirst, hothers, hdisj⟩ := hnodup
    rcases List.mem_append.mp hcmd with hcmd | hcmd
    · have hnot : cmd.placement.id ∉ chunks.flatMap ids := fun hmem =>
        hdisj _ (List.mem_map_of_mem hcmd) _ hmem rfl
      rw [hrest.of_not_mem hnot]
      exact hy.of_mem hfirst hcmd
    · have hmem : cmd.placement.id ∈ chunks.flatMap ids := by
        obtain ⟨chunk', hchunk', hcmd⟩ := List.mem_flatMap.mp hcmd
        exact List.mem_flatMap.mpr ⟨chunk', hchunk', List.mem_map_of_mem hcmd⟩
      have hnot : cmd.placement.id ∉ ids chunk := fun h => hdisj _ h _ hmem rfl
      rw [← hy.of_not_mem hnot]
      exact ih hrest hothers hcmd

theorem flatMap_ids (chunks : List SnapshotChunk) :
    chunks.flatMap ids = (chunks.flatMap SnapshotChunk.items).map (·.placement.id) := by
  induction chunks with
  | nil => rfl
  | cons chunk chunks ih =>
    rw [List.flatMap_cons, List.flatMap_cons, List.map_append, ih]
    rfl

/-- A full resync is exact: the store has the placements of the snapshot and no others, each as the
snapshot has it unless the store had it in that version or a newer one; a snapshot without items changes
nothing. -/
theorem resync_exact (h : Resync nodeID rebuilder snapshotID chunks last w ts w')
    (hfresh : w.seen.snap ≠ snapshotID) (hnodup : ((chunks ++ [last]).flatMap ids).Nodup) :
    ((chunks ++ [last]).flatMap SnapshotChunk.items ≠ [] →
      (∀ id, (w'.store.get id).isSome = true ↔
        ∃ cmd ∈ (chunks ++ [last]).flatMap SnapshotChunk.items, cmd.placement.id = id) ∧
      ∀ cmd ∈ (chunks ++ [last]).flatMap SnapshotChunk.items, ∃ t,
        w'.store.get cmd.placement.id =
          if (w.store.get cmd.placement.id).any (·.opVersion ≥ cmd.placement.opVersion) then
            w.store.get cmd.placement.id
          else some (cmd.placement.stamp .ok t)) ∧
    ((chunks ++ [last]).flatMap SnapshotChunk.items = [] → w'.store = w.store) := by
  have hnoted : noted w.seen snapshotID (chunks ++ [last]) = (chunks ++ [last]).flatMap ids := by
    rw [noted, if_neg hfresh, List.nil_append]
  have honce : ∀ id, ∀ chunk ∈ chunks ++ [last], Once chunk id := fun id chunk hchunk =>
    once_of_nodup (List.nodup_flatMap.mp hnodup |>.1 chunk hchunk) id
  have hmoves := fun id => h.moves (honce id)
  rw [hnoted] at hmoves
  constructor
  · intro hne
    have hne' : (chunks ++ [last]).flatMap ids ≠ [] := by
      rw [flatMap_ids]
      exact fun heq => hne (List.map_eq_nil_iff.mp heq)
    have hitem : ∀ cmd ∈ (chunks ++ [last]).flatMap SnapshotChunk.items,
        Took cmd (record cmd.placement.id w) (record cmd.placement.id w') := by
      intro cmd hcmd
      obtain ⟨x, hx, hw'⟩ := hmoves cmd.placement.id
      have hmem : cmd.placement.id ∈ (chunks ++ [last]).flatMap ids := by
        rw [flatMap_ids]
        exact List.mem_map_of_mem hcmd
      rw [if_neg fun h => h.2 hmem] at hw'
      rw [hw']
      exact hx.of_mem hnodup hcmd
    refine ⟨fun id => ⟨fun hsome => ?_, ?_⟩, hitem⟩
    · obtain ⟨x, -, hw'⟩ := hmoves id
      by_cases hmem : id ∈ (chunks ++ [last]).flatMap ids
      · rw [flatMap_ids] at hmem
        exact List.mem_map.mp hmem
      · rw [if_pos ⟨hne', hmem⟩] at hw'
        rw [show w'.store.get id = none from hw'] at hsome
        cases hsome
    · rintro ⟨cmd, hcmd, rfl⟩
      obtain ⟨p, hp, -⟩ := (hitem cmd hcmd).self_le
      exact Option.isSome_of_mem hp
  · intro hnil
    have hnil' : (chunks ++ [last]).flatMap ids = [] := by
      rw [flatMap_ids, hnil]
      rfl
    refine Store.ext_get fun id => ?_
    obtain ⟨x, hx, hw'⟩ := hmoves id
    rw [if_neg fun h => h.1 hnil'] at hw'
    rw [show w'.store.get id = x from hw']
    exact hx.of_not_mem (by rw [hnil']; exact List.not_mem_nil)

end Resync

theorem resync_exact_in_order : ∃ w',
    Resync "n" noopRebuilder "S" [firstChunk] lastChunk withOld inOrderTurns w' ∧
      ∀ id, (w'.store.get id).isSome = true ↔
        ∃ cmd ∈ [firstChunk, lastChunk].flatMap SnapshotChunk.items, cmd.placement.id = id := by
  have hrun : Session world (Env.Allowed true) (deliver "n" noopRebuilder) withOld inOrderTurns _ :=
    session_replay (Env.allowed_default _) _ (by simp [Env.Allowed]) _
  have hresync : Resync "n" noopRebuilder "S" [firstChunk] lastChunk withOld inOrderTurns _ :=
    ⟨hrun, rfl, by decide, by decide, rfl, by decide⟩
  exact ⟨_, hresync, ((resync_exact hresync (by decide) (by decide)).1 (by decide)).1⟩

end NodeAgent.Snapshot
