import NodeAgent.Snapshot.Items

/-!
# What a full-resync report says

Chunks of any snapshots in any order, failed ones again later. The report at the end of a snapshot is
published without a look at the chunks before: a chunk that has failed is missing from the store, its
ids are in the seen-set all the same. When is every item that was delivered for the snapshot in the
store, as it is in the chunk or newer?
-/

namespace NodeAgent.Snapshot

open Lib Jsonv1

/-! ## Items and chunks of a run -/

/-- The store has the item, or something newer. -/
def Stored (w : World) (cmd : Command) : Prop :=
  ∃ p, w.store.get cmd.placement.id = some p ∧ cmd.placement.opVersion ≤ p.opVersion

/-- The chunk has the item, or something newer in its place. -/
def Covers (chunk : SnapshotChunk) (cmd : Command) : Prop :=
  ∃ cmd' ∈ chunk.items, cmd'.placement.id = cmd.placement.id ∧
    cmd.placement.opVersion ≤ cmd'.placement.opVersion

/-- The item is in a chunk of the snapshot that was delivered in one of the turns. -/
def DeliveredItem (nodeID : NodeID) (snapshotID : String)
    (ts : List (Turn ports World Delivery Result)) (cmd : Command) : Prop :=
  ∃ t ∈ ts, ∃ chunk, IsChunk nodeID snapshotID t.input chunk ∧ cmd ∈ chunk.items

/-- The chunk has been delivered and not been handled, nor has it been since. -/
def Open (nodeID : NodeID) (snapshotID : String) (ts : List (Turn ports World Delivery Result))
    (chunk : SnapshotChunk) : Prop :=
  ∃ pre t post, ts = pre ++ t :: post ∧ IsChunk nodeID snapshotID t.input chunk ∧
    ∀ u ∈ t :: post, IsChunk nodeID snapshotID u.input chunk → u.value ≠ .returned none

/-- What is asked of a delivery: the snapshot has an id and the chunk each placement once, the consumer
is still collecting the snapshot or the chunk has all its items, and the last chunk has the items of the
chunks that are open. -/
def Orderly (nodeID : NodeID) (pre : List (Turn ports World Delivery Result))
    (t : Turn ports World Delivery Result) : Prop :=
  ∀ chunk, t.input.msg = .ok chunk → chunk.nodeID = nodeID →
    chunk.snapshotID ≠ "" ∧ (ids chunk).Nodup ∧
    (t.before.seen.snap = chunk.snapshotID ∨
      ∀ cmd, DeliveredItem nodeID chunk.snapshotID pre cmd → Covers chunk cmd) ∧
    (chunk.isLastChunk = true → ∀ chunk', Open nodeID chunk.snapshotID pre chunk' →
      ∀ cmd ∈ chunk'.items, Covers chunk cmd)

section Items

variable {nodeID : NodeID} {snapshotID : String} {pre : List (Turn ports World Delivery Result)}
  {t : Turn ports World Delivery Result} {chunk chunk' : SnapshotChunk} {cmd cmd' : Command}
  {w w' : World} {x x' : Option Placement}

theorem covers_of_mem (h : cmd ∈ chunk.items) : Covers chunk cmd := ⟨cmd, h, rfl, Nat.le_refl _⟩

theorem Covers.mem_ids (h : Covers chunk cmd) : cmd.placement.id ∈ ids chunk := by
  obtain ⟨cmd', hmem, hid, -⟩ := h
  rw [← hid]
  exact List.mem_map_of_mem hmem

theorem Covers.trans (h : Covers chunk' cmd) (hall : ∀ cmd ∈ chunk'.items, Covers chunk cmd) :
    Covers chunk cmd := by
  obtain ⟨cmd', hmem, hid, hle⟩ := h
  obtain ⟨cmd'', hmem', hid', hle'⟩ := hall cmd' hmem
  exact ⟨cmd'', hmem', hid'.trans hid, hle.trans hle'⟩

theorem deliveredItem_snoc : DeliveredItem nodeID snapshotID (pre ++ [t]) cmd ↔
    DeliveredItem nodeID snapshotID pre cmd ∨
      ∃ chunk, IsChunk nodeID snapshotID t.input chunk ∧ cmd ∈ chunk.items := by
  unfold DeliveredItem
  simp only [List.mem_append, List.mem_singleton, or_and_right, exists_or, exists_eq_left]

theorem delivered_iff_item {id : PlacementID} : Delivered nodeID snapshotID pre id ↔
    ∃ cmd, DeliveredItem nodeID snapshotID pre cmd ∧ cmd.placement.id = id := by
  constructor
  · rintro ⟨t, ht, chunk, hchunk, hid⟩
    obtain ⟨cmd, hcmd, rfl⟩ := List.mem_map.mp hid
    exact ⟨cmd, ⟨t, ht, chunk, hchunk, hcmd⟩, rfl⟩
  · rintro ⟨cmd, ⟨t, ht, chunk, hchunk, hcmd⟩, rfl⟩
    exact ⟨t, ht, chunk, hchunk, List.mem_map_of_mem hcmd⟩

theorem Orderly.remembers (h : Orderly nodeID pre t) : Remembers nodeID pre t := by
  intro chunk hmsg hnode
  refine (h chunk hmsg hnode).2.2.1.imp_right fun hall id hid => ?_
  obtain ⟨cmd, hcmd, rfl⟩ := delivered_iff_item.mp hid
  exact (hall cmd hcmd).mem_ids

theorem open_snoc_of_ne (h : Open nodeID snapshotID pre chunk')
    (ht : IsChunk nodeID snapshotID t.input chunk' → t.value ≠ .returned none) :
    Open nodeID snapshotID (pre ++ [t]) chunk' := by
  obtain ⟨pre₁, u, post, rfl, hchunk, hall⟩ := h
  refine ⟨pre₁, u, post ++ [t], by simp, hchunk, fun v hv hchunk' => ?_⟩
  rw [← List.cons_append] at hv
  rcases List.mem_append.mp hv with hv | hv
  · exact hall v hv hchunk'
  · obtain rfl := List.mem_singleton.mp hv
    exact ht hchunk'

theorem open_snoc_self (hchunk : IsChunk nodeID snapshotID t.input chunk) (ht : t.value ≠ .returned none) :
    Open nodeID snapshotID (pre ++ [t]) chunk :=
  ⟨pre, t, [], rfl, hchunk, fun u hu _ => by rwa [List.mem_singleton.mp hu]⟩

/-! ## Records that are moved -/

theorem Stored.moved (h : Stored w cmd)
    (hm : record cmd.placement.id w' = record cmd.placement.id w ∨
      Moved chunk cmd.placement.id (record cmd.placement.id w) (record cmd.placement.id w')) :
    Stored w' cmd := by
  obtain ⟨p, hp, hle⟩ := h
  rcases hm with heq | ⟨-, heq⟩ | ⟨cmd', -, -, htook⟩
  · exact ⟨p, heq.trans hp, hle⟩
  · exact ⟨p, heq.trans hp, hle⟩
  · exact htook.le hp hle

theorem stored_of_covers (h : Covers chunk cmd) (hnodup : (ids chunk).Nodup)
    (hm : Moved chunk cmd.placement.id (record cmd.placement.id w) (record cmd.placement.id w')) :
    Stored w' cmd := by
  rcases hm with ⟨hmem, -⟩ | ⟨cmd₁, hmem₁, hid₁, htook⟩
  · exact absurd h.mem_ids hmem
  · obtain ⟨cmd₂, hmem₂, hid₂, hle⟩ := h
    obtain rfl : cmd₁ = cmd₂ := List.inj_on_of_nodup_map hnodup hmem₁ hmem₂ (hid₁.trans hid₂.symm)
    obtain ⟨p, hp, hle'⟩ := htook.self_le
    exact ⟨p, hp, hle.trans hle'⟩

end Items

/-! ## One delivery -/

section Run

variable {nodeID : NodeID} {rebuilder : Rebuilder} {pre : List (Turn ports World Delivery Result)}
  {t : Turn ports World Delivery Result} {chunk : SnapshotChunk} {w : World} {id : PlacementID}

/-- What a delivery does to a record that is in the set: it moves it or leaves it as it was, and it has
moved it when the chunk is handled or comes to its report. -/
theorem deliver_moves
    (hrun : Run world (Env.Allowed true) (deliver nodeID rebuilder t.input) t.before t.trace t.value
      t.after)
    (hmsg : t.input.msg = .ok chunk) (hnode : chunk.nodeID = nodeID) (honce : Once chunk id)
    (hseen : id ∈ (t.before.seen.track chunk.snapshotID (ids chunk)).2.ids.getD []) :
    (record id t.after = record id t.before ∨
        Moved chunk id (record id t.before) (record id t.after)) ∧
      ((t.value = .returned none ∨ ∃ ev ∈ t.trace, ∃ m, ev.call = .publish m) →
        Moved chunk id (record id t.before) (record id t.after)) := by
  have hspare : ∀ ev ∈ t.trace, ev.call ≠ .deletePlacement id := by
    intro ev hev hc
    have hsp := (run_deliver_own hmsg hnode hrun).1 ev hev
    rw [hc] at hsp
    exact hsp hseen
  rcases run_deliver_stages hmsg hnode hrun with ⟨hr, hsilent, hstore⟩ |
    ⟨counters, tr', err, -, hr, hsub, hsilent, hstages⟩
  · refine ⟨.inl (by rw [record, hstore]), ?_⟩
    rintro (h | ⟨ev, hev, m, hc⟩)
    · rw [hr] at h
      cases h
    · exact absurd hc (hsilent ev hev m)
  · obtain ⟨hmoved, hdone⟩ := stages_moves hstages honce fun ev hev => hspare ev (hsub hev)
    refine ⟨hmoved, fun h => hdone (h.imp (fun h => ?_) ?_)⟩
    · rw [hr] at h
      cases h
      rfl
    · rintro ⟨ev, hev, m, hc⟩
      exact ⟨ev, hsilent ev hev m hc, m, hc⟩

/-! ## Runs -/

/-- While a snapshot is collected, what was delivered for it is stored, or an open chunk has it. -/
def Honest (nodeID : NodeID) (pre : List (Turn ports World Delivery Result)) (w : World) : Prop :=
  w.seen.snap ≠ "" → ∀ cmd, DeliveredItem nodeID w.seen.snap pre cmd →
    Stored w cmd ∨ ∃ chunk, Open nodeID w.seen.snap pre chunk ∧ Covers chunk cmd

/-- What holds of the records of all items that were delivered, the chunk at hand included. -/
theorem delivered_moves
    (hrun : Run world (Env.Allowed true) (deliver nodeID rebuilder t.input) t.before t.trace t.value
      t.after)
    (hcol : Collects nodeID pre t.before) (hord : Orderly nodeID pre t)
    (hmsg : t.input.msg = .ok chunk) (hnode : chunk.nodeID = nodeID) {cmd : Command}
    (hcmd : DeliveredItem nodeID chunk.snapshotID (pre ++ [t]) cmd) :
    (Stored t.before cmd → Stored t.after cmd) ∧
      ((t.value = .returned none ∨ ∃ ev ∈ t.trace, ∃ m, ev.call = .publish m) → Covers chunk cmd →
        Stored t.after cmd) := by
  obtain ⟨hsnap, hnodup, -, -⟩ := hord chunk hmsg hnode
  obtain ⟨-, seen, hseen, hall⟩ := track_collects hcol hord.remembers hmsg hnode hsnap
  have hin : cmd.placement.id ∈
      (t.before.seen.track chunk.snapshotID (ids chunk)).2.ids.getD [] := by
    rw [hseen]
    exact hall _ (delivered_iff_item.mpr ⟨cmd, hcmd, rfl⟩)
  obtain ⟨hmoved, hdone⟩ := deliver_moves hrun hmsg hnode (once_of_nodup hnodup _) hin
  exact ⟨fun h => h.moved hmoved, fun h hcov => stored_of_covers hcov hnodup (hdone h)⟩

theorem honest_after
    (hrun : Run world (Env.Allowed true) (deliver nodeID rebuilder t.input) t.before t.trace t.value
      t.after)
    (hcol : Collects nodeID pre t.before) (hord : Orderly nodeID pre t)
    (hw : Honest nodeID pre t.before) : Honest nodeID (pre ++ [t]) t.after := by
  by_cases hown : ∃ chunk, t.input.msg = .ok chunk ∧ chunk.nodeID = nodeID
  · obtain ⟨chunk, hmsg, hnode⟩ := hown
    have hchunk : IsChunk nodeID chunk.snapshotID t.input chunk := ⟨hmsg, hnode, rfl⟩
    obtain ⟨hsnap, -, hres, -⟩ := hord chunk hmsg hnode
    obtain ⟨htrack, -⟩ := track_collects hcol hord.remembers hmsg hnode hsnap
    rcases (run_deliver_own hmsg hnode hrun).2 with hafter | hafter
    · intro _ cmd hcmd
      rw [hafter, htrack] at hcmd ⊢
      obtain ⟨hkeep, hdone⟩ := delivered_moves hrun hcol hord hmsg hnode hcmd
      -- whatever the chunk has is stored if the chunk is handled, and is in an open chunk if not
      have hcovered : Covers chunk cmd → Stored t.after cmd ∨
          ∃ chunk', Open nodeID chunk.snapshotID (pre ++ [t]) chunk' ∧ Covers chunk' cmd := by
        intro hcov
        by_cases hnil : t.value = .returned none
        · exact .inl (hdone (.inl hnil) hcov)
        · exact .inr ⟨chunk, open_snoc_self hchunk hnil, hcov⟩
      rcases deliveredItem_snoc.mp hcmd with hcmd | ⟨chunk', ⟨hmsg', -, -⟩, hcmd⟩
      · rcases hres with hres | hres
        · rw [← hres] at hcmd
          rcases hw (hres ▸ hsnap) cmd hcmd with hst | ⟨chunk', hopen, hcov⟩
          · exact .inl (hkeep hst)
          · rw [hres] at hopen
            by_cases hsame : IsChunk nodeID chunk.snapshotID t.input chunk'
            · obtain ⟨hmsg', -, -⟩ := hsame
              rw [hmsg] at hmsg'
              cases hmsg'
              exact hcovered hcov
            · exact .inr ⟨chunk', open_snoc_of_ne hopen fun h => absurd h hsame, hcov⟩
        · exact hcovered (hres cmd hcmd)
      · rw [hmsg] at hmsg'
        cases hmsg'
        exact hcovered (covers_of_mem hcmd)
    · intro hne
      rw [hafter] at hne
      exact absurd rfl hne
  · simp only [not_exists, not_and] at hown
    obtain ⟨-, hafter, -⟩ := run_deliver_other hown hrun
    rw [hafter]
    intro hne cmd hcmd
    have hnot : ∀ snapshotID chunk, ¬ IsChunk nodeID snapshotID t.input chunk :=
      fun _ chunk h => hown chunk h.1 h.2.1
    rcases deliveredItem_snoc.mp hcmd with hcmd | ⟨chunk, hchunk, -⟩
    · refine (hw hne cmd hcmd).imp_right ?_
      rintro ⟨chunk, hopen, hcov⟩
      exact ⟨chunk, open_snoc_of_ne hopen fun h => absurd h (hnot _ _), hcov⟩
    · exact absurd hchunk (hnot _ _)

/-- A report is of the snapshot whose last chunk is at hand. -/
theorem report_of_chunk
    (hrun : Run world (Env.Allowed true) (deliver nodeID rebuilder t.input) t.before t.trace t.value
      t.after) {ev : GoEvent} (hev : ev ∈ t.trace) {report : SyncReport}
    (hc : ev.call = .publish (.syncReport report)) :
    ∃ chunk, IsChunk nodeID report.inventoryHash t.input chunk ∧ chunk.isLastChunk = true := by
  by_cases hown : ∃ chunk, t.input.msg = .ok chunk ∧ chunk.nodeID = nodeID
  · obtain ⟨chunk, hmsg, hnode⟩ := hown
    refine ⟨chunk, ?_⟩
    rcases run_deliver_stages hmsg hnode hrun with ⟨-, hsilent, -⟩ |
      ⟨counters, tr', err, -, -, -, hsilent, hstages⟩
    · exact absurd hc (hsilent ev hev _)
    · have hev' := hsilent ev hev _ hc
      cases hstages with
      | failed tr₁ err silent items => exact absurd hc (silent ev hev' _)
      | applied tr₁ as last w₂ counters silent items after => exact absurd hc (silent ev hev' _)
      | finished tr₁ tr₂ as last w₂ counters err sub silent items finish =>
        have hhash := (finishSnapshot_publishes nodeID rebuilder chunk.snapshotID).of_mem finish.1 ev
          (silent ev hev' _ hc) report hc
        exact ⟨⟨hmsg, hnode, hhash.symm⟩, last⟩
  · simp only [not_exists, not_and] at hown
    obtain ⟨htr, -, -⟩ := run_deliver_other hown hrun
    rw [htr] at hev
    cases hev

/-- If every delivery is orderly, then whenever a full resync is reported, every item that was delivered
for the snapshot is in the store, as it was delivered or newer. (After the report the store is not
written to.) -/
theorem report_honest {ts : List (Turn ports World Delivery Result)} {w' : World}
    (h : Session world (Env.Allowed true) (deliver nodeID rebuilder) w ts w') (hw : w.seen = {})
    (hord : ∀ pre t post, ts = pre ++ t :: post → Orderly nodeID pre t) :
    ∀ pre t post, ts = pre ++ t :: post → ∀ ev ∈ t.trace, ∀ report,
      ev.call = .publish (.syncReport report) → report.fullResyncCompleted = true →
        ∀ cmd, DeliveredItem nodeID report.inventoryHash (pre ++ [t]) cmd → Stored t.after cmd := by
  have hempty : Collects nodeID [] w ∧ Honest nodeID [] w := by
    constructor <;>
    · intro hne
      rw [hw] at hne
      exact absurd rfl hne
  have hsnap : ∀ {pre t}, Orderly nodeID pre t →
      ∀ chunk, t.input.msg = .ok chunk → chunk.nodeID = nodeID → chunk.snapshotID ≠ "" :=
    fun hord chunk hmsg hnode => (hord chunk hmsg hnode).1
  have hinv := h.history (I := fun pre w => Collects nodeID pre w ∧ Honest nodeID pre w) hempty
    fun pre t post hts hrun hI =>
      ⟨collects_after hrun hI.1 (hord pre t post hts).remembers (hsnap (hord pre t post hts)),
        honest_after hrun hI.1 (hord pre t post hts) hI.2⟩
  intro pre t post hts ev hev report hc _ cmd hcmd
  obtain ⟨⟨hcol, hhonest⟩, hrun⟩ := hinv pre t post hts
  obtain ⟨chunk, ⟨hmsg, hnode, hhash⟩, hlast⟩ := report_of_chunk hrun hev hc
  rw [← hhash] at hcmd
  have hord' := hord pre t post hts
  obtain ⟨hne, -, hres, hopen⟩ := hord' chunk hmsg hnode
  obtain ⟨hkeep, hdone⟩ := delivered_moves hrun hcol hord' hmsg hnode hcmd
  have hstored : Covers chunk cmd → Stored t.after cmd := hdone (.inr ⟨ev, hev, _, hc⟩)
  rcases deliveredItem_snoc.mp hcmd with hcmd | ⟨chunk', ⟨hmsg', -, -⟩, hcmd⟩
  · rcases hres with hres | hres
    · rw [← hres] at hcmd
      rcases hhonest (hres ▸ hne) cmd hcmd with hst | ⟨chunk', hop, hcov⟩
      · exact hkeep hst
      · rw [hres] at hop
        exact hstored (hcov.trans (hopen hlast chunk' hop))
    · exact hstored (hres cmd hcmd)
  · rw [hmsg] at hmsg'
    cases hmsg'
    exact hstored (covers_of_mem hcmd)

end Run

/-! ## A snapshot in two chunks -/

theorem orderly_in_order : ∀ pre t post, inOrderTurns = pre ++ t :: post → Orderly "n" pre t := by
  intro pre t post hts
  rcases pre with _ | ⟨a, _ | ⟨b, pre⟩⟩
  · obtain ⟨rfl, -⟩ := List.cons_eq_cons.mp hts
    intro chunk hmsg _
    cases hmsg
    refine ⟨by decide +kernel, by decide +kernel, .inr fun cmd ⟨u, hu, _⟩ => absurd hu (by simp), fun h => ?_⟩
    exact absurd h (by decide +kernel)
  · obtain ⟨rfl, hrest⟩ := List.cons_eq_cons.mp hts
    obtain ⟨rfl, -⟩ := List.cons_eq_cons.mp hrest
    intro chunk hmsg _
    cases hmsg
    refine ⟨by decide +kernel, by decide +kernel, .inl (by decide +kernel), fun _ chunk' hopen => ?_⟩
    -- the chunk before has been handled
    obtain ⟨pre, u, post, heq, hchunk, hall⟩ := hopen
    obtain ⟨rfl, hnil⟩ : pre = [] ∧ post = [] := by
      have hlen := congrArg List.length heq
      simp only [List.length_cons, List.length_nil, List.length_append] at hlen
      exact ⟨List.eq_nil_of_length_eq_zero (by omega), List.eq_nil_of_length_eq_zero (by omega)⟩
    obtain ⟨rfl, -⟩ := List.cons_eq_cons.mp heq
    exact absurd (by decide +kernel) (hall _ List.mem_cons_self hchunk)
  · exact absurd (congrArg List.length hts) (by simp [inOrderTurns, replaySession])

theorem report_honest_in_order :
    (∃ t ∈ inOrderTurns, ∃ ev ∈ t.trace, ∃ report,
      ev.call = .publish (.syncReport report) ∧ report.fullResyncCompleted = true) ∧
    ∀ pre t post, inOrderTurns = pre ++ t :: post → ∀ ev ∈ t.trace, ∀ report,
      ev.call = .publish (.syncReport report) → report.fullResyncCompleted = true →
        ∀ cmd, DeliveredItem "n" report.inventoryHash (pre ++ [t]) cmd → Stored t.after cmd := by
  have hrun : Session world (Env.Allowed true) (deliver "n" noopRebuilder) withOld inOrderTurns _ :=
    session_replay (Env.allowed_default _) _ (by simp [Env.Allowed]) _
  refine ⟨⟨_, List.mem_cons_of_mem _ List.mem_cons_self, _, List.mem_of_getElem? (i := 12) rfl, _, rfl,
    rfl⟩, report_honest hrun rfl orderly_in_order⟩

/-- The report of the snapshot. -/
def resyncReport : SyncReport where
  eventID := "id"
  nodeID := "n"
  emittedAt := 0
  syncedCount := 1
  fullResyncCompleted := true
  inventoryHash := "S"

/-- The item of the first chunk cannot be stored. -/
def firstChunkFails : List (Delivery × List Env) :=
  [(⟨.ok firstChunk, []⟩, List.replicate 4 default ++ [{ fail := some "disk full" }]),
   (⟨.ok lastChunk, []⟩, [])]

theorem report_dishonest : ∃ ts w',
    Session world (Env.Allowed true) (deliver "n" noopRebuilder) {} ts w' ∧
      ∃ pre t post, ts = pre ++ t :: post ∧ ∃ ev ∈ t.trace, ∃ report,
        ev.call = .publish (.syncReport report) ∧ report.fullResyncCompleted = true ∧
        ∃ cmd, DeliveredItem "n" report.inventoryHash (pre ++ [t]) cmd ∧ ¬ Stored t.after cmd := by
  refine ⟨_, _, session_replay (Env.allowed_default _) firstChunkFails (by simp [Env.Allowed]) _,
    [_], _, [], rfl, ⟨.publish (.syncReport resyncReport), none⟩,
    List.mem_of_getElem? (i := 11) rfl, resyncReport, rfl, rfl, _,
    ⟨_, List.mem_cons_self, firstChunk, ⟨rfl, rfl, rfl⟩, List.mem_cons_self⟩, ?_⟩
  rintro ⟨p, hp, -⟩
  have hnone : (replaySession world (deliver "n" noopRebuilder) firstChunkFails {}).2.store.get "p" =
    none := by decide +kernel
  exact absurd (hp.symm.trans hnone) (Option.some_ne_none p)

end NodeAgent.Snapshot
