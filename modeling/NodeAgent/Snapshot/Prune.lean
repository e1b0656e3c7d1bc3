import NodeAgent.Snapshot.Consumer
import NodeAgent.World

/-!
# What a prune deletes

Chunks of any snapshots, handled one after another in any order, failed ones again later, with any
call failing. The prune at the end of a snapshot deletes what its seen-set does not have; when is
everything in it that was delivered for the snapshot?
-/

namespace NodeAgent.Snapshot

open Lib Jsonv1

/-! ## What one chunk does to the seen-set and to the store -/

section Chunk

variable {faults : Bool} {w : World} {seen : List PlacementID}

/-- A call that deletes, if anything, a record that the set does not have. -/
def Spares (seen : List PlacementID) : Call → Prop
  | .deletePlacement id => id ∉ seen
  | _ => True

/-- A call that does not touch the consumer's set and deletes nothing. -/
def Apart : Call → Prop
  | .deletePlacement _ => False
  | .trackSeen _ _ => False
  | .takeSeen => False
  | _ => True

theorem Apart.spares {c : Call} (h : Apart c) : Spares seen c := by
  cases c <;> trivial

theorem Apart.writesSeen {c : Call} (h : Apart c) : c.writesSeen = false := by
  cases c <;> trivial

theorem RebuildCall.apart {c : Call} (h : RebuildCall c) : Apart c := by
  cases c <;> trivial

theorem applyItem_all {P : Call → Prop} {cmd : Command} (hget : P (.getPlacement cmd.placement.id))
    (hnow : P .now) (hput : ∀ t, P (.putPlacement (cmd.placement.stamp .ok t))) :
    (applyItem cmd).All P := by
  refine Prog.all_invoke_bind.mpr ⟨hget, fun r => ?_⟩
  cases r with
  | error err => trivial
  | ok existing =>
    dsimp only
    split_ifs
    · trivial
    · refine Prog.all_invoke_bind.mpr ⟨hnow, fun t => ?_⟩
      refine Prog.all_invoke_bind.mpr ⟨hput t, fun r => ?_⟩
      cases r <;> trivial

theorem itemTask_all {P : Call → Prop} {cmd : Command} (hget : P (.getPlacement cmd.placement.id))
    (hnow : P .now) (hput : ∀ t, P (.putPlacement (cmd.placement.stamp .ok t))) (i : ℕ) :
    (itemTask i cmd).All P := by
  refine (applyItem_all hget hnow hput).bind fun r => ?_
  cases r <;> trivial

theorem itemTask_calls (i : ℕ) (cmd : Command) : (itemTask i cmd).All Apart :=
  itemTask_all trivial trivial (fun _ => trivial) i

theorem publishSyncReport_calls (nodeID : NodeID) (snapshotID : String) :
    (publishSyncReport nodeID snapshotID).All Apart := by
  unfold publishSyncReport
  refine Prog.all_invoke_bind.mpr ⟨trivial, fun eventID => ?_⟩
  refine Prog.all_invoke_bind.mpr ⟨trivial, fun t => ?_⟩
  refine Prog.all_invoke_bind.mpr ⟨trivial, fun n => ?_⟩
  dsimp only
  split
  · trivial
  · exact ⟨trivial, fun _ => trivial⟩

theorem deleteAbsent_calls (seen : List PlacementID) (ps : List Placement) (n : ℕ) :
    (deleteAbsent seen ps n).All
      fun c : Call => ∃ p ∈ ps, p.id ∉ seen ∧ c = .deletePlacement p.id := by
  induction ps generalizing n with
  | nil => trivial
  | cons p ps ih =>
    have hrest : ∀ n, (deleteAbsent seen ps n).All fun c : Call =>
        ∃ q ∈ p :: ps, q.id ∉ seen ∧ c = .deletePlacement q.id := fun n =>
      (ih n).mono fun c ⟨q, hq, hc⟩ => ⟨q, List.mem_cons_of_mem _ hq, hc⟩
    unfold deleteAbsent
    split_ifs with hp
    · exact hrest n
    · refine Prog.all_invoke_bind.mpr ⟨⟨p, List.mem_cons_self, hp, rfl⟩, fun r => ?_⟩
      cases r with
      | some err => trivial
      | none => exact hrest (n + 1)

theorem ensures_apart {α : Type} {p : Go α} (hp : p.All Apart) :
    Ensures faults p (fun tr _ w' => (∀ ev ∈ tr, Spares seen ev.call) ∧ w'.seen = w.seen) w :=
  wp_mono (ensures_keeps World.seen hp fun _ e w hc => seen_exec hc.writesSeen e w)
    fun _ _ _ h => ⟨fun ev hev => (h.1 ev hev).spares, h.2⟩

/-- The prune empties the set and spares what was in it. -/
theorem ensures_pruneAbsent (snapshotID : String) : Ensures faults (pruneAbsent snapshotID)
    (fun tr _ w' => (∀ ev ∈ tr, Spares (w.seen.ids.getD []) ev.call) ∧ w'.seen = {}) w := by
  unfold pruneAbsent
  refine Ensures.bind_calls (R := fun s w' => s = w.seen ∧ w'.seen = {})
    (ensures_port_calls trivial fun _ => ⟨rfl, rfl⟩) ?_
  rintro s w₁ ⟨rfl, hw₁⟩
  split_ifs
  · exact ⟨by simp, hw₁⟩
  · exact ⟨by simp, hw₁⟩
  · refine Ensures.bind_calls (R := fun _ w' => w'.seen = {})
      (ensures_port_calls trivial fun _ => hw₁) fun r w₂ hw₂ => ?_
    cases r with
    | error err => exact ⟨by simp, hw₂⟩
    | ok all =>
      have hcalls := deleteAbsent_calls (w.seen.ids.getD []) all 0
      refine wp_mono (ensures_keeps World.seen hcalls fun c e v hc => ?_)
        fun tr _ w' h => ⟨fun ev hev => ?_, h.2.trans hw₂⟩
      · obtain ⟨p, -, -, rfl⟩ := hc
        exact seen_exec rfl e v
      · obtain ⟨p, -, hp, hc⟩ := h.1 ev hev
        rw [hc]
        exact hp

theorem ensures_finishSnapshot (nodeID : NodeID) (rebuilder : Rebuilder) (snapshotID : String) :
    Ensures faults (finishSnapshot nodeID rebuilder snapshotID)
      (fun tr _ w' => (∀ ev ∈ tr, Spares (w.seen.ids.getD []) ev.call) ∧ w'.seen = {}) w := by
  refine (ensures_pruneAbsent snapshotID).bind_calls fun r w₁ hw₁ => ?_
  cases r with
  | error err => exact ⟨by simp, hw₁⟩
  | ok n =>
    refine (ensures_apart (rebuilder.calls.mono fun _ h => h.apart)).bind_calls fun r w₂ hw₂ => ?_
    cases r with
    | some err => exact ⟨by simp, hw₂.trans hw₁⟩
    | none =>
      refine (ensures_apart (publishSyncReport_calls nodeID snapshotID)).bind_calls
        fun r w₃ hw₃ => ?_
      have hw : w₃.seen = {} := hw₃.trans (hw₂.trans hw₁)
      cases r with
      | some err => exact ⟨by simp, hw⟩
      | none =>
        refine Ensures.bind_calls (R := fun _ w' => w'.seen = {})
          (ensures_port_calls trivial fun _ => hw) fun _ w₄ hw₄ => ⟨by simp, hw₄⟩

/-- A chunk spares what is in the set once its own ids are, and leaves that set or none. -/
theorem ensures_handleOwn (nodeID : NodeID) (rebuilder : Rebuilder) (sched : List ℕ)
    (chunk : SnapshotChunk) :
    Ensures faults (handleOwn nodeID rebuilder sched chunk) (fun tr _ w' =>
      (∀ ev ∈ tr,
        Spares ((w.seen.track chunk.snapshotID (ids chunk)).2.ids.getD []) ev.call) ∧
      (w'.seen = (w.seen.track chunk.snapshotID (ids chunk)).2 ∨ w'.seen = {})) w := by
  unfold handleOwn
  refine Ensures.bind_calls (R := fun _ w' => w'.seen = w.seen)
    (ensures_port_calls trivial fun _ => rfl) fun _ w₁ hw₁ => ?_
  refine Ensures.bind_calls
    (R := fun _ w' => w'.seen = (w.seen.track chunk.snapshotID (ids chunk)).2)
    (ensures_port_calls trivial fun _ => by rw [← hw₁]; rfl) fun r w₂ hw₂ => ?_
  cases r with
  | false => exact ⟨by simp, .inl hw₂⟩
  | true =>
    refine Ensures.bind_calls ?_ fun _ w₃ (hw₃ : w₃.seen = _ ∨ w₃.seen = _) => ⟨by simp, hw₃⟩
    have hitems : ∀ t ∈ chunk.items.map (itemTask chunk.chunkIndex), t.All Apart := by
      intro t ht
      obtain ⟨cmd, -, rfl⟩ := List.mem_map.mp ht
      exact itemTask_calls _ cmd
    unfold handleItems
    refine (ensures_apart (Prog.group_all hitems)).bind_calls fun r w₃ hw₃ => ?_
    rw [hw₂] at hw₃
    cases r with
    | error err => exact ⟨by simp, .inl hw₃⟩
    | ok applied =>
      refine Ensures.bind_calls (R := fun _ w' => w'.seen = w₃.seen)
        (ensures_port_calls trivial fun _ => rfl) fun _ w₄ hw₄ => ?_
      rw [hw₃] at hw₄
      split_ifs
      · rw [← hw₄]
        exact wp_mono (ensures_finishSnapshot _ _ _) fun _ _ _ h => ⟨h.1, .inr h.2⟩
      · exact ⟨by simp, .inl hw₄⟩

end Chunk

/-! ## Runs -/

/-- A message for the consumer, and how the goroutines of its items take turns. -/
structure Delivery where
  msg : Except GoError SnapshotChunk
  sched : List ℕ := []

def deliver (nodeID : NodeID) (rebuilder : Rebuilder) (x : Delivery) : Go Result :=
  handle nodeID rebuilder x.sched x.msg

/-- The message is a chunk of this snapshot for this node. -/
def IsChunk (nodeID : NodeID) (snapshotID : String) (x : Delivery) (chunk : SnapshotChunk) : Prop :=
  x.msg = .ok chunk ∧ chunk.nodeID = nodeID ∧ chunk.snapshotID = snapshotID

/-- The id occurs in a chunk of the snapshot that was delivered in one of the turns. -/
def Delivered (nodeID : NodeID) (snapshotID : String) (ts : List (Turn ports World Delivery Result))
    (id : PlacementID) : Prop :=
  ∃ t ∈ ts, ∃ chunk, IsChunk nodeID snapshotID t.input chunk ∧ id ∈ ids chunk

/-- When a chunk arrives the consumer is collecting its snapshot, or the chunk has every id that was
delivered for the snapshot before. -/
def Remembers (nodeID : NodeID) (pre : List (Turn ports World Delivery Result))
    (t : Turn ports World Delivery Result) : Prop :=
  ∀ chunk, t.input.msg = .ok chunk → chunk.nodeID = nodeID →
    t.before.seen.snap = chunk.snapshotID ∨
      ∀ id, Delivered nodeID chunk.snapshotID pre id → id ∈ ids chunk

/-- The set belongs to a snapshot and has all that was delivered for it. -/
def Collects (nodeID : NodeID) (pre : List (Turn ports World Delivery Result)) (w : World) : Prop :=
  w.seen.snap ≠ "" → ∃ seen, w.seen.ids = some seen ∧
    ∀ id, Delivered nodeID w.seen.snap pre id → id ∈ seen

section Run

variable {nodeID : NodeID} {snapshotID : String} {pre : List (Turn ports World Delivery Result)}
  {t : Turn ports World Delivery Result} {w : World} {id : PlacementID} {chunk : SnapshotChunk}

theorem delivered_snoc : Delivered nodeID snapshotID (pre ++ [t]) id ↔
    Delivered nodeID snapshotID pre id ∨
      ∃ chunk, IsChunk nodeID snapshotID t.input chunk ∧ id ∈ ids chunk := by
  unfold Delivered
  simp only [List.mem_append, List.mem_singleton, or_and_right, exists_or, exists_eq_left]

/-- Noting the ids of a chunk that is remembered gives a set with all that was delivered. -/
theorem track_collects (hw : Collects nodeID pre t.before) (hrem : Remembers nodeID pre t)
    (hmsg : t.input.msg = .ok chunk) (hnode : chunk.nodeID = nodeID) (hsnap : chunk.snapshotID ≠ "") :
    (t.before.seen.track chunk.snapshotID (ids chunk)).2.snap = chunk.snapshotID ∧
      ∃ seen, (t.before.seen.track chunk.snapshotID (ids chunk)).2.ids = some seen ∧
        ∀ id, Delivered nodeID chunk.snapshotID (pre ++ [t]) id → id ∈ seen := by
  have hown : ∀ id, (∃ chunk', IsChunk nodeID chunk.snapshotID t.input chunk' ∧ id ∈ ids chunk') →
      id ∈ ids chunk := by
    rintro id ⟨chunk', ⟨hmsg', -, -⟩, hid⟩
    rw [hmsg] at hmsg'
    cases hmsg'
    exact hid
  unfold Seen.track
  by_cases hs : t.before.seen.snap = chunk.snapshotID
  · obtain ⟨seen, hseen, hall⟩ := hw (hs ▸ hsnap)
    rw [if_neg (by simpa using hs)]
    simp only [hseen]
    refine ⟨hs, _, rfl, fun id hid => ?_⟩
    rcases delivered_snoc.mp hid with hid | hid
    · exact List.mem_append_left _ (hall id (hs ▸ hid))
    · exact List.mem_append_right _ (hown id hid)
  · rw [if_pos hs]
    refine ⟨rfl, _, rfl, fun id hid => ?_⟩
    rcases delivered_snoc.mp hid with hid | hid
    · exact (hrem chunk hmsg hnode).resolve_left hs id hid
    · exact hown id hid

/-- A turn without a chunk for this node does nothing. -/
theorem run_deliver_other {rebuilder : Rebuilder} {tr : List GoEvent} {r : Result} {w' : World}
    {x : Delivery} (h : ∀ chunk, x.msg = .ok chunk → chunk.nodeID ≠ nodeID)
    (hrun : Run world (Env.Allowed true) (deliver nodeID rebuilder x) w tr r w') :
    tr = [] ∧ w' = w ∧ ∃ err, r = .returned err := by
  unfold deliver handle at hrun
  cases hmsg : x.msg with
  | error err =>
    rw [hmsg] at hrun
    obtain ⟨rfl, rfl, rfl⟩ := run_done.mp hrun
    exact ⟨rfl, rfl, _, rfl⟩
  | ok chunk =>
    simp only [hmsg, if_pos (h chunk hmsg)] at hrun
    obtain ⟨rfl, rfl, rfl⟩ := run_done.mp hrun
    exact ⟨rfl, rfl, _, rfl⟩

theorem run_deliver_own {rebuilder : Rebuilder} {tr : List GoEvent} {r : Result} {w' : World}
    {x : Delivery} (hmsg : x.msg = .ok chunk) (hnode : chunk.nodeID = nodeID)
    (hrun : Run world (Env.Allowed true) (deliver nodeID rebuilder x) w tr r w') :
    (∀ ev ∈ tr, Spares ((w.seen.track chunk.snapshotID (ids chunk)).2.ids.getD []) ev.call) ∧
      (w'.seen = (w.seen.track chunk.snapshotID (ids chunk)).2 ∨ w'.seen = {}) := by
  unfold deliver handle at hrun
  simp only [hmsg, hnode, ne_eq, not_true_eq_false, if_false] at hrun
  exact wp_iff_run.mp (ensures_handleOwn _ _ _ _) _ _ _ hrun

theorem collects_after {rebuilder : Rebuilder}
    (hrun : Run world (Env.Allowed true) (deliver nodeID rebuilder t.input) t.before t.trace t.value
      t.after)
    (hw : Collects nodeID pre t.before) (hrem : Remembers nodeID pre t)
    (hsnap : ∀ chunk, t.input.msg = .ok chunk → chunk.nodeID = nodeID → chunk.snapshotID ≠ "") :
    Collects nodeID (pre ++ [t]) t.after := by
  by_cases hown : ∃ chunk, t.input.msg = .ok chunk ∧ chunk.nodeID = nodeID
  · obtain ⟨chunk, hmsg, hnode⟩ := hown
    obtain ⟨hs, seen, hseen, hall⟩ := track_collects hw hrem hmsg hnode (hsnap chunk hmsg hnode)
    rcases (run_deliver_own hmsg hnode hrun).2 with hafter | hafter
    · intro _
      rw [hafter, hs]
      exact ⟨seen, hseen, hall⟩
    · intro hne
      rw [hafter] at hne
      exact absurd rfl hne
  · simp only [not_exists, not_and] at hown
    obtain ⟨-, hafter, -⟩ := run_deliver_other hown hrun
    rw [hafter]
    intro hne
    obtain ⟨seen, hseen, hall⟩ := hw hne
    refine ⟨seen, hseen, fun id hid => hall id ?_⟩
    refine (delivered_snoc.mp hid).resolve_right ?_
    rintro ⟨chunk, ⟨hmsg, hnode, -⟩, -⟩
    exact hown chunk hmsg hnode

/-- The ids that a run deletes or tries to delete. -/
def deletes (tr : List GoEvent) : List PlacementID :=
  tr.filterMap fun ev =>
    match ev.call with
    | .deletePlacement id => some id
    | _ => none

theorem not_mem_of_deletes {seen : List PlacementID} {tr : List GoEvent}
    (h : ∀ ev ∈ tr, Spares seen ev.call) (hid : id ∈ deletes tr) : id ∉ seen := by
  obtain ⟨ev, hev, hsome⟩ := List.mem_filterMap.mp hid
  have hsp := h ev hev
  split at hsome
  · cases hsome
    simpa [Spares, *] using hsp
  · cases hsome

/-- If every chunk is remembered, the prune at the end of a snapshot spares every id that was
delivered for it. -/
theorem prune_spares_delivered {rebuilder : Rebuilder} {w' : World}
    {ts : List (Turn ports World Delivery Result)}
    (h : Session world (Env.Allowed true) (deliver nodeID rebuilder) w ts w') (hw : w.seen = {})
    (hsnap : ∀ t ∈ ts, ∀ chunk, t.input.msg = .ok chunk → chunk.snapshotID ≠ "")
    (hrem : ∀ pre t post, ts = pre ++ t :: post → Remembers nodeID pre t) :
    ∀ pre t post, ts = pre ++ t :: post →
      ∀ snapshotID chunk, IsChunk nodeID snapshotID t.input chunk →
        ∀ id ∈ deletes t.trace, ¬ Delivered nodeID snapshotID (pre ++ [t]) id := by
  have hmem : ∀ pre t post, ts = pre ++ t :: post → t ∈ ts := fun pre t post h => by simp [h]
  have hempty : Collects nodeID [] w := fun hne => by
    rw [hw] at hne
    exact absurd rfl hne
  have hinv := h.history hempty fun pre t post hts hrun hI =>
    collects_after hrun hI (hrem pre t post hts) fun chunk hmsg _ => hsnap t (hmem _ _ _ hts) chunk hmsg
  intro pre t post hts snapshotID chunk hchunk id hid hdel
  obtain ⟨hmsg, hnode, rfl⟩ := hchunk
  obtain ⟨hI, hrun⟩ := hinv pre t post hts
  obtain ⟨-, seen, hseen, hall⟩ :=
    track_collects hI (hrem pre t post hts) hmsg hnode (hsnap t (hmem _ _ _ hts) chunk hmsg)
  have hspare := not_mem_of_deletes (run_deliver_own hmsg hnode hrun).1 hid
  rw [hseen] at hspare
  exact hspare (hall id hdel)

end Run

/-- The first chunk of snapshot `S`. -/
def firstChunk : SnapshotChunk where
  nodeID := "n"
  snapshotID := "S"
  chunkIndex := 0
  items := [.carrying { id := "p", nodeID := "n", desired := .active, opVersion := 1 }]

/-- The last one. -/
def lastChunk : SnapshotChunk where
  nodeID := "n"
  snapshotID := "S"
  chunkIndex := 1
  isLastChunk := true
  items := [.carrying { id := "q", nodeID := "n", desired := .active, opVersion := 1 }]

/-- A store with a placement that the snapshot does not have. -/
def withOld : World where
  store := Store.empty.put { id := "old", opVersion := 1 }

/-- Both chunks of a snapshot in order. -/
def inOrderTurns : List (Turn ports World Delivery Result) :=
  (replaySession world (deliver "n" noopRebuilder)
    [(⟨.ok firstChunk, []⟩, []), (⟨.ok lastChunk, []⟩, [])] withOld).1

theorem prune_spares_in_order : (∃ t ∈ inOrderTurns, deletes t.trace = ["old"]) ∧
    ∀ pre t post, inOrderTurns = pre ++ t :: post →
      ∀ snapshotID chunk, IsChunk "n" snapshotID t.input chunk →
        ∀ id ∈ deletes t.trace, ¬ Delivered "n" snapshotID (pre ++ [t]) id := by
  have hrun : Session world (Env.Allowed true) (deliver "n" noopRebuilder) withOld inOrderTurns _ :=
    session_replay (Env.allowed_default _) _ (by simp [Env.Allowed]) _
  refine ⟨⟨_, List.mem_cons_of_mem _ List.mem_cons_self, by decide⟩,
    prune_spares_delivered hrun rfl (fun t ht chunk hmsg => ?_) fun pre t post hts => ?_⟩
  · rcases List.mem_cons.mp ht with rfl | ht
    · cases hmsg
      decide
    · obtain rfl := List.mem_singleton.mp ht
      cases hmsg
      decide
  · rcases pre with _ | ⟨a, _ | ⟨b, pre⟩⟩
    · intro chunk _ _
      refine .inr fun id hid => ?_
      obtain ⟨u, hu, -⟩ := hid
      cases hu
    · obtain ⟨-, hts⟩ := List.cons_eq_cons.mp hts
      obtain ⟨rfl, -⟩ := List.cons_eq_cons.mp hts
      intro chunk hmsg _
      cases hmsg
      exact .inl (by decide)
    · exact absurd (congrArg List.length hts) (by simp [inOrderTurns, replaySession])

/-- The report of the last chunk cannot be published, and the chunk is delivered again. -/
def lastChunkAgain : List (Delivery × List Env) :=
  [(⟨.ok firstChunk, []⟩, []),
   (⟨.ok lastChunk, []⟩, List.replicate 11 default ++ [{ fail := some "no responders" }]),
   (⟨.ok lastChunk, []⟩, [])]

theorem prune_deletes_delivered : ∃ ts w',
    Session world (Env.Allowed true) (deliver "n" noopRebuilder) {} ts w' ∧
      ∃ pre t post, ts = pre ++ t :: post ∧ IsChunk "n" "S" t.input lastChunk ∧
        "p" ∈ deletes t.trace ∧ Delivered "n" "S" pre "p" ∧ t.after.store.get "p" = none := by
  refine ⟨_, _, session_replay (Env.allowed_default _) lastChunkAgain (by simp [Env.Allowed]) _,
    [_, _], _, [], rfl, ⟨rfl, rfl, rfl⟩, by decide, ?_, by decide⟩
  exact ⟨_, List.mem_cons_self, firstChunk, ⟨rfl, rfl, rfl⟩, by decide⟩

end NodeAgent.Snapshot
