import NodeAgent.Lib.Since
import NodeAgent.Snapshot.Prune

/-!
# The consumer's set before its first use

A new consumer has no set, and the prune takes the set away. `trackSeen` makes a new one when the
snapshot id changes, so a chunk without a snapshot id may find none. When does it?
-/

namespace NodeAgent.Snapshot

open Lib Jsonv1

/-! ## Noting the ids of a chunk -/

section Track

variable (s : Seen) (snapshotID : String) (l : List PlacementID)

theorem track_snap : (s.track snapshotID l).2.snap = snapshotID := by
  obtain ⟨ids, snap⟩ := s
  by_cases h : snap = snapshotID
  · cases ids <;> cases l <;> simp [Seen.track, h]
  · simp [Seen.track, h]

theorem track_ids_eq_none :
    (s.track snapshotID l).2.ids = none ↔ s.snap = snapshotID ∧ s.ids = none := by
  obtain ⟨ids, snap⟩ := s
  by_cases h : snap = snapshotID
  · cases ids <;> cases l <;> simp [Seen.track, h]
  · simp [Seen.track, h]

theorem track_eq_false :
    (s.track snapshotID l).1 = false ↔ s.snap = snapshotID ∧ s.ids = none ∧ l ≠ [] := by
  obtain ⟨ids, snap⟩ := s
  by_cases h : snap = snapshotID
  · cases ids <;> cases l <;> simp [Seen.track, h]
  · simp [Seen.track, h]

end Track

/-! ## One chunk -/

/-- The prune has taken the set. -/
def Takes (tr : List GoEvent) : Prop := ∃ ev ∈ tr, ev.call = .takeSeen

instance (tr : List GoEvent) : Decidable (Takes tr) := by
  unfold Takes
  infer_instance

section Chunk

variable {faults : Bool} {w : World} {nodeID : NodeID} {rebuilder : Rebuilder} {sched : List ℕ}
  {chunk : SnapshotChunk}

theorem not_takes_of_apart {tr : List GoEvent} (h : ∀ ev ∈ tr, Apart ev.call) : ¬ Takes tr := by
  rintro ⟨ev, hev, hc⟩
  have hap := h ev hev
  rw [hc] at hap
  exact hap

theorem ensures_finishSnapshot_takes (snapshotID : String) :
    Ensures faults (finishSnapshot nodeID rebuilder snapshotID)
      (fun tr _ w' => Takes tr ∧ w'.seen = {}) w := by
  refine wp_iff_run.mpr fun tr a w' hr => ⟨?_, ?_⟩
  · -- taking the set is the first thing it does
    obtain ⟨s, tr', rfl, -⟩ := Prog.after_call_done_iff.mp hr.1
    exact ⟨_, List.mem_cons_self, rfl⟩
  · exact (wp_iff_run.mp (ensures_finishSnapshot nodeID rebuilder snapshotID) tr a w' hr).2

/-- After the ids are noted the set stays, or the prune takes it. -/
theorem ensures_handleItems_seen :
    Ensures faults (handleItems nodeID rebuilder sched chunk) (fun tr _ w' =>
      (¬ Takes tr ∧ w'.seen = w.seen) ∨ (Takes tr ∧ w'.seen = {})) w := by
  have hitems : ∀ t ∈ chunk.items.map (itemTask chunk.chunkIndex), t.All Apart := by
    intro t ht
    obtain ⟨cmd, -, rfl⟩ := List.mem_map.mp ht
    exact itemTask_calls _ cmd
  unfold handleItems
  refine Ensures.bind (ensures_keeps World.seen (Prog.group_all hitems)
    fun _ e w hc => seen_exec hc.writesSeen e w) fun tr r w₁ ⟨hap, hw₁⟩ => ?_
  have hno := not_takes_of_apart hap
  cases r with
  | error err =>
    refine .inl ⟨?_, hw₁⟩
    rw [List.append_nil]
    exact hno
  | ok applied =>
    have hno' : ∀ tr', Takes (tr ++ ⟨.count .syncedItems (applied.count true), ()⟩ :: tr') ↔
        Takes tr' := by
      intro tr'
      constructor
      · rintro ⟨ev, hev, hc⟩
        rcases List.mem_append.mp hev with hev | hev
        · exact absurd ⟨ev, hev, hc⟩ hno
        · rcases List.mem_cons.mp hev with rfl | hev
          · cases hc
          · exact ⟨ev, hev, hc⟩
      · rintro ⟨ev, hev, hc⟩
        exact ⟨ev, List.mem_append_right _ (List.mem_cons_of_mem _ hev), hc⟩
    refine fun e _ => ?_
    split_ifs
    · refine wp_mono (ensures_finishSnapshot_takes _) fun tr' _ w' h => .inr ?_
      exact ⟨(hno' tr').mpr h.1, h.2⟩
    · refine .inl ⟨fun h => ?_, hw₁⟩
      obtain ⟨ev, hev, -⟩ := (hno' []).mp h
      cases hev

/-- A chunk for this node panics when its ids cannot be noted. -/
theorem ensures_handleOwn_seen :
    Ensures faults (handleOwn nodeID rebuilder sched chunk) (fun tr r w' =>
      (r = .panicked ↔ (w.seen.track chunk.snapshotID (ids chunk)).1 = false) ∧
      ((¬ Takes tr ∧ w'.seen = (w.seen.track chunk.snapshotID (ids chunk)).2) ∨
        (Takes tr ∧ w'.seen = {}))) w := by
  have hno : ∀ (r : Bool) tr, Takes (⟨.count .receivedChunks 1, ()⟩ ::
      ⟨.trackSeen chunk.snapshotID (ids chunk), r⟩ :: tr) ↔ Takes tr := by
    intro r tr
    simp [Takes]
  refine fun e _ e' _ => ?_
  show wp world _ (if (w.seen.track chunk.snapshotID (ids chunk)).1 = true then _ else _) _ _
  cases htrack : (w.seen.track chunk.snapshotID (ids chunk)).1 with
  | false =>
    refine ⟨by simp, .inl ⟨fun h => ?_, rfl⟩⟩
    obtain ⟨ev, hev, -⟩ := (hno _ _).mp h
    cases hev
  | true =>
    refine Ensures.bind ensures_handleItems_seen fun tr r w₁ h => ?_
    refine ⟨by simp, ?_⟩
    rw [List.append_nil, hno]
    exact h

end Chunk

/-! ## Runs -/

/-- The message is a chunk for this node that has a snapshot id. -/
def Named (nodeID : NodeID) (x : Delivery) : Prop :=
  ∃ chunk, x.msg = .ok chunk ∧ chunk.nodeID = nodeID ∧ chunk.snapshotID ≠ ""

/-- A chunk with a snapshot id has been handled, and from it on no prune has taken the set. -/
def Collecting (nodeID : NodeID) (pre : List (Turn ports World Delivery Result)) : Prop :=
  ∃ a u b, pre = a ++ u :: b ∧ Named nodeID u.input ∧ ∀ v ∈ u :: b, ¬ Takes v.trace

/-- Without a set the consumer is not collecting, and its snapshot id is empty. -/
def SetFits (nodeID : NodeID) (pre : List (Turn ports World Delivery Result)) (w : World) : Prop :=
  (w.seen.ids = none ↔ ¬ Collecting nodeID pre) ∧ (w.seen.ids = none → w.seen.snap = "")

section Run

variable {nodeID : NodeID} {rebuilder : Rebuilder} {pre : List (Turn ports World Delivery Result)}
  {t : Turn ports World Delivery Result} {chunk : SnapshotChunk}

theorem collecting_iff_since : Collecting nodeID pre ↔
    Since (fun _ u => Named nodeID u.input ∧ ¬ Takes u.trace) (fun v => ¬ Takes v.trace) pre := by
  constructor
  · rintro ⟨a, u, b, heq, hu, hno⟩
    exact ⟨a, u, b, heq, ⟨hu, hno u List.mem_cons_self⟩, fun v hv => hno v (List.mem_cons_of_mem _ hv)⟩
  · rintro ⟨a, u, b, heq, ⟨hu, hnou⟩, hno⟩
    refine ⟨a, u, b, heq, hu, fun v hv => ?_⟩
    rcases List.mem_cons.mp hv with rfl | hv
    · exact hnou
    · exact hno v hv

theorem collecting_snoc : Collecting nodeID (pre ++ [t]) ↔
    ¬ Takes t.trace ∧ (Named nodeID t.input ∨ Collecting nodeID pre) := by
  rw [collecting_iff_since, collecting_iff_since, since_snoc, ← or_and_right]
  exact and_comm

theorem run_deliver_seen {w w' : World} {tr : List GoEvent} {r : Result} {x : Delivery}
    (hmsg : x.msg = .ok chunk) (hnode : chunk.nodeID = nodeID)
    (hrun : Run world (Env.Allowed true) (deliver nodeID rebuilder x) w tr r w') :
    (r = .panicked ↔ (w.seen.track chunk.snapshotID (ids chunk)).1 = false) ∧
      ((¬ Takes tr ∧ w'.seen = (w.seen.track chunk.snapshotID (ids chunk)).2) ∨
        (Takes tr ∧ w'.seen = {})) := by
  unfold deliver handle at hrun
  simp only [hmsg, hnode, ne_eq, not_true_eq_false, if_false] at hrun
  exact wp_iff_run.mp ensures_handleOwn_seen _ _ _ hrun

/-- The step: a turn keeps the relation between what was handled and the set. -/
theorem setFits_after
    (hrun : Run world (Env.Allowed true) (deliver nodeID rebuilder t.input) t.before t.trace t.value
      t.after) (hw : SetFits nodeID pre t.before) : SetFits nodeID (pre ++ [t]) t.after := by
  by_cases hown : ∃ chunk, t.input.msg = .ok chunk ∧ chunk.nodeID = nodeID
  · obtain ⟨chunk, hmsg, hnode⟩ := hown
    have hnamed : Named nodeID t.input ↔ chunk.snapshotID ≠ "" := by
      simp [Named, hmsg, hnode]
    unfold SetFits
    rw [collecting_snoc, hnamed]
    rcases (run_deliver_seen hmsg hnode hrun).2 with ⟨hno, hseen⟩ | ⟨htakes, hseen⟩
    · rw [hseen, track_ids_eq_none, track_snap]
      constructor
      · constructor
        · rintro ⟨hsnap, hids⟩ ⟨-, hne | hcol⟩
          · exact hne (hsnap.symm.trans (hw.2 hids))
          · exact hw.1.mp hids hcol
        · intro h
          have hempty : chunk.snapshotID = "" := by
            by_contra hne
            exact h ⟨hno, .inl hne⟩
          have hids : t.before.seen.ids = none := hw.1.mpr fun hcol => h ⟨hno, .inr hcol⟩
          exact ⟨(hw.2 hids).trans hempty.symm, hids⟩
      · rintro ⟨hsnap, hids⟩
        exact hsnap.symm.trans (hw.2 hids)
    · rw [hseen]
      exact ⟨⟨fun _ h => h.1 htakes, fun _ => rfl⟩, fun _ => rfl⟩
  · simp only [not_exists, not_and] at hown
    obtain ⟨htr, hafter, -⟩ := run_deliver_other hown hrun
    have hnamed : ¬ Named nodeID t.input := fun ⟨chunk, hmsg, hnode, _⟩ => hown chunk hmsg hnode
    have hno : ¬ Takes t.trace := by
      rw [htr]
      rintro ⟨ev, hev, -⟩
      cases hev
    unfold SetFits
    rw [collecting_snoc, hafter]
    simp only [hnamed, hno, not_false_eq_true, true_and, false_or]
    exact hw

/-- Handling a message writes to the nil map exactly when it is a chunk for this node with items but
without a snapshot id, and the consumer is not collecting. -/
theorem trackSeen_into_map_iff {w w' : World} {ts : List (Turn ports World Delivery Result)}
    (h : Session world (Env.Allowed true) (deliver nodeID rebuilder) w ts w') (hw : w.seen = {}) :
    ∀ pre t post, ts = pre ++ t :: post →
      (t.value ≠ .panicked ↔ ∀ chunk, t.input.msg = .ok chunk → chunk.nodeID = nodeID →
        chunk.snapshotID = "" → chunk.items ≠ [] → Collecting nodeID pre) := by
  have hstart : SetFits nodeID [] w := by
    rw [SetFits, hw]
    exact ⟨⟨fun _ ⟨a, u, b, heq, _⟩ => absurd heq (by simp), fun _ => rfl⟩, fun _ => rfl⟩
  have hinv := h.history hstart fun pre t _ _ hrun hI => setFits_after hrun hI
  intro pre t post hts
  obtain ⟨hI, hrun⟩ := hinv pre t post hts
  by_cases hown : ∃ chunk, t.input.msg = .ok chunk ∧ chunk.nodeID = nodeID
  · obtain ⟨chunk, hmsg, hnode⟩ := hown
    have hids : ids chunk ≠ [] ↔ chunk.items ≠ [] := by simp [ids]
    rw [ne_eq, (run_deliver_seen hmsg hnode hrun).1, track_eq_false, hids]
    constructor
    · intro hno chunk' hmsg' _ hempty hitems
      cases hmsg.symm.trans hmsg'
      by_contra hcol
      have hnone := hI.1.mpr hcol
      exact hno ⟨(hI.2 hnone).trans hempty.symm, hnone, hitems⟩
    · rintro hall ⟨hsnap, hnone, hitems⟩
      have hempty : chunk.snapshotID = "" := hsnap.symm.trans (hI.2 hnone)
      exact hI.1.mp hnone (hall chunk hmsg hnode hempty hitems)
  · simp only [not_exists, not_and] at hown
    constructor
    · intro _ chunk hmsg hnode
      exact absurd hnode (hown chunk hmsg)
    · intro _ hpanic
      obtain ⟨-, -, err, hret⟩ := run_deliver_other hown hrun
      rw [hret] at hpanic
      cases hpanic

end Run

/-- A chunk without `snapshot_id`, as it comes from the wire. -/
def namelessChunk : SnapshotChunkDTO where
  nodeID := "n"
  emittedAt := "t"
  chunkIndex := 0
  items := [{ nodeID := "n", emittedAt := "t", eventID := "e", placementID := "p", opVersion := 1,
              desiredState := "active" }]

def nameless : Delivery := ⟨unmarshalSnapshotChunkEvent (fun _ => .ok 0) namelessChunk, []⟩

/-- A chunk of snapshot `S`, and then one without a snapshot id. -/
def namedThenNameless : List (Delivery × List Env) := [(⟨.ok firstChunk, []⟩, []), (nameless, [])]

theorem trackSeen_into_map_after_named : ∃ ts w',
    Session world (Env.Allowed true) (deliver "n" noopRebuilder) {} ts w' ∧
      ∃ pre t post, ts = pre ++ t :: post ∧ t.input = nameless ∧ t.value ≠ .panicked := by
  have hrun : Session world (Env.Allowed true) (deliver "n" noopRebuilder) {} _ _ :=
    session_replay (Env.allowed_default _) namedThenNameless (by simp [namedThenNameless, Env.Allowed]) _
  refine ⟨_, _, hrun, [_], _, [], rfl, rfl, ?_⟩
  refine (trackSeen_into_map_iff hrun rfl [_] _ [] rfl).mpr fun chunk _ _ _ _ => ?_
  exact ⟨[], _, [], rfl, ⟨firstChunk, rfl, rfl, by decide⟩, by decide⟩

theorem trackSeen_into_nil_map : ∃ ts w',
    Session world (Env.Allowed true) (deliver "n" noopRebuilder) {} ts w' ∧
      ∃ t ∈ ts, t.input = nameless ∧ (∃ chunk, t.input.msg = .ok chunk ∧ chunk.nodeID = "n") ∧
        t.value = .panicked := by
  have hrun : Session world (Env.Allowed true) (deliver "n" noopRebuilder) {} _ _ :=
    session_replay (Env.allowed_default _) [(nameless, [])] (by simp [Env.Allowed]) _
  exact ⟨_, _, hrun, _, List.mem_cons_self, rfl, ⟨_, rfl, rfl⟩, rfl⟩

end NodeAgent.Snapshot
