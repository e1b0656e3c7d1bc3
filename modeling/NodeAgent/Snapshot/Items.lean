import NodeAgent.Lib.Member
import NodeAgent.Snapshot.Prune

/-!
# What a chunk does to the records

The goroutines of a chunk's items read and write at the same time. The record of a placement that the
chunk has once is touched by one of them only, and so it becomes what that item makes of it, whatever
the others do.
-/

namespace NodeAgent.Snapshot

open Lib Jsonv1

/-! ## One item -/

/-- The item is taken over the record `x`, which makes it `x'`. -/
def Took (cmd : Command) (x x' : Option Placement) : Prop :=
  ∃ t, x' = if x.any (·.opVersion ≥ cmd.placement.opVersion) then x else some (cmd.placement.stamp .ok t)

theorem Took.le {cmd : Command} {x x' : Option Placement} {p : Placement} {v : OpVersion}
    (h : Took cmd x x') (hx : x = some p) (hv : v ≤ p.opVersion) : ∃ p', x' = some p' ∧ v ≤ p'.opVersion := by
  obtain ⟨t, rfl⟩ := h
  subst hx
  split_ifs with hstale
  · exact ⟨p, rfl, hv⟩
  · refine ⟨_, rfl, ?_⟩
    have hlt : p.opVersion < cmd.placement.opVersion := by simpa using hstale
    exact hv.trans hlt.le

theorem Took.self_le {cmd : Command} {x x' : Option Placement} (h : Took cmd x x') :
    ∃ p', x' = some p' ∧ cmd.placement.opVersion ≤ p'.opVersion := by
  obtain ⟨t, rfl⟩ := h
  split_ifs with hstale
  · cases x with
    | none => simp at hstale
    | some p => exact ⟨p, rfl, by simpa using hstale⟩
  · exact ⟨_, rfl, Nat.le_refl _⟩

theorem itemTask_keeps {id : PlacementID} {cmd : Command} (h : cmd.placement.id ≠ id) (k : ℕ) :
    (itemTask k cmd).All (Keeps id) :=
  itemTask_all trivial trivial (fun _ => h) k

theorem putPlacement_failed {p : Placement} {e : Env} {w : World} {err : GoError}
    (h : (World.exec (.putPlacement p) e w).1 = some err) : (World.exec (.putPlacement p) e w).2 = w := by
  obtain ⟨fail, _, _, _, _, _, _⟩ := e
  cases fail with
  | none => cases h
  | some msg => rfl

/-- An item that has been applied is taken over the record; before that the record may still be as it
was. -/
theorem applyItem_record {A : Env → Prop} {cmd : Command} {mine : List GoEvent}
    {q : Go (Except GoError Bool)} {x x' : Option Placement} (h : (applyItem cmd).After mine q)
    (hs : Sees world A (record cmd.placement.id) x mine x') :
    (x' = x ∨ Took cmd x x') ∧ ∀ a, q = .done (.ok a) → Took cmd x x' := by
  rcases Prog.after_invoke_iff.mp h with ⟨rfl, rfl⟩ | ⟨r, tr₁, rfl, h₁⟩
  · exact ⟨.inl hs, fun a hq => by cases hq⟩
  · obtain ⟨e, w, -, rfl, hr, hs⟩ := hs
    cases r with
    | error err =>
      obtain ⟨rfl, rfl⟩ := Prog.after_done_iff.mp h₁
      exact ⟨.inl hs, fun a hq => by cases hq⟩
    | ok existing =>
      obtain rfl := exec_getPlacement hr
      dsimp only at h₁
      split_ifs at h₁ with hstale
      · obtain ⟨rfl, rfl⟩ := Prog.after_done_iff.mp h₁
        have htook : Took cmd (record cmd.placement.id w) x' := ⟨0, by rw [if_pos hstale]; exact hs⟩
        exact ⟨.inl hs, fun _ _ => htook⟩
      · rcases Prog.after_invoke_iff.mp h₁ with ⟨rfl, rfl⟩ | ⟨t, tr₂, rfl, h₂⟩
        · exact ⟨.inl hs, fun a hq => by cases hq⟩
        · obtain ⟨e₂, w₂, -, hw₂, -, hs⟩ := hs
          rcases Prog.after_invoke_iff.mp h₂ with ⟨rfl, rfl⟩ | ⟨r, tr₃, rfl, h₃⟩
          · exact ⟨.inl (hs.trans hw₂), fun a hq => by cases hq⟩
          · obtain ⟨e₃, w₃, -, hw₃, hr₃, hs⟩ := hs
            cases r with
            | some err =>
              obtain ⟨rfl, rfl⟩ := Prog.after_done_iff.mp h₃
              have hsame : x' = record cmd.placement.id w₃ := by
                rw [← putPlacement_failed hr₃]
                exact hs
              exact ⟨.inl (hsame.trans (hw₃.trans hw₂)), fun a hq => by cases hq⟩
            | none =>
              obtain ⟨rfl, rfl⟩ := Prog.after_done_iff.mp h₃
              have hput : x' = some (cmd.placement.stamp .ok t) := by
                rw [show x' = _ from hs]
                show (World.exec _ e₃ w₃).2.store.get _ = _
                rw [exec_putPlacement hr₃]
                exact Store.get_put_self _ (cmd.placement.stamp .ok t)
              have htook : Took cmd (record cmd.placement.id w) x' := ⟨t, by rw [if_neg hstale]; exact hput⟩
              exact ⟨.inr htook, fun _ _ => htook⟩

theorem itemTask_record {A : Env → Prop} {k : ℕ} {cmd : Command} {mine : List GoEvent}
    {q : Go (Except GoError Bool)} {x x' : Option Placement} (h : (itemTask k cmd).After mine q)
    (hs : Sees world A (record cmd.placement.id) x mine x') :
    (x' = x ∨ Took cmd x x') ∧ ∀ a, q = .done (.ok a) → Took cmd x x' := by
  rcases Prog.after_bind_cases h with ⟨c, f, h₁, rfl⟩ | ⟨r, tr₁, tr₂, rfl, h₁, h₂⟩
  · exact ⟨(applyItem_record h₁ hs).1, fun a hq => by cases hq⟩
  · have hnil : tr₂ = [] := by
      cases r <;> exact (Prog.after_done_iff.mp h₂).1
    subst hnil
    rw [List.append_nil] at hs
    obtain ⟨hmoved, hdone⟩ := applyItem_record h₁ hs
    refine ⟨hmoved, fun a hq => ?_⟩
    cases r with
    | error err =>
      obtain ⟨-, heq⟩ := Prog.after_done_iff.mp h₂
      rw [heq] at hq
      cases hq
    | ok b => exact hdone b rfl

/-! ## The items of a chunk -/

/-- The chunk has the placement at most once. -/
def Once (chunk : SnapshotChunk) (id : PlacementID) : Prop :=
  ∀ i j : ℕ, (ids chunk)[i]? = some id → (ids chunk)[j]? = some id → i = j

theorem once_of_nodup {chunk : SnapshotChunk} (h : (ids chunk).Nodup) (id : PlacementID) :
    Once chunk id := by
  intro i j hi hj
  obtain ⟨hi, heq⟩ := List.getElem?_eq_some_iff.mp hi
  obtain ⟨hj, heq'⟩ := List.getElem?_eq_some_iff.mp hj
  exact (h.getElem_inj_iff).mp (heq.trans heq'.symm)

/-- The chunk makes `x'` of the record `x`. -/
def Moved (chunk : SnapshotChunk) (id : PlacementID) (x x' : Option Placement) : Prop :=
  (id ∉ ids chunk ∧ x' = x) ∨ ∃ cmd ∈ chunk.items, cmd.placement.id = id ∧ Took cmd x x'

/-- The goroutines of the items move a record as the chunk says, or leave it as it was; if all of them
succeed, they have moved it. -/
theorem group_moves {A : Env → Prop} {limit k : ℕ} {sched : List ℕ} {chunk : SnapshotChunk}
    {id : PlacementID} {tr : List GoEvent} {out : Except GoError (List Bool)} {w w' : World}
    (honce : Once chunk id)
    (h : Run world A (Prog.group limit sched (chunk.items.map (itemTask k))) w tr out w') :
    (record id w' = record id w ∨ Moved chunk id (record id w) (record id w')) ∧
      ∀ as, out = .ok as → Moved chunk id (record id w) (record id w') := by
  obtain ⟨hafter, hsteps⟩ := h
  by_cases hmem : id ∈ ids chunk
  · obtain ⟨i, hi⟩ := List.getElem?_of_mem hmem
    obtain ⟨cmd, hcmd, rfl⟩ : ∃ cmd, chunk.items[i]? = some cmd ∧ cmd.placement.id = id := by
      rw [ids, List.getElem?_map] at hi
      exact Option.map_eq_some_iff.mp hi
    have htask : (chunk.items.map (itemTask k))[i]? = some (itemTask k cmd) := by
      rw [List.getElem?_map, hcmd]
      rfl
    have hothers : ∀ j u, j ≠ i → (chunk.items.map (itemTask k))[j]? = some u →
        u.All (Keeps cmd.placement.id) := by
      intro j u hj hu
      rw [List.getElem?_map] at hu
      obtain ⟨cmd', hcmd', rfl⟩ := Option.map_eq_some_iff.mp hu
      refine itemTask_keeps (fun heq => hj (honce j i ?_ hi)) k
      rw [ids, List.getElem?_map, hcmd', Option.map_some, heq]
    obtain ⟨mine, t', hmine, hmixed, hfin⟩ := Prog.group_member htask hothers hafter
    have hsees := hmixed.sees (f := record cmd.placement.id) record_exec hsteps
    obtain ⟨hmoved, hdone⟩ := itemTask_record hmine hsees
    have hin : cmd ∈ chunk.items := List.mem_of_getElem? hcmd
    refine ⟨hmoved.imp_right fun h => .inr ⟨cmd, hin, rfl, h⟩, fun as hout => ?_⟩
    obtain ⟨a, ha⟩ := hfin as (by rw [hout])
    exact .inr ⟨cmd, hin, rfl, hdone a ha⟩
  · have hall : (Prog.group limit sched (chunk.items.map (itemTask k))).All (Keeps id) := by
      refine Prog.group_all fun t ht => ?_
      obtain ⟨cmd, hcmd, rfl⟩ := List.mem_map.mp ht
      refine itemTask_keeps (fun heq => hmem ?_) k
      rw [← heq]
      exact List.mem_map_of_mem hcmd
    have hsame : record id w' = record id w := steps_record hsteps (hall.of_mem hafter)
    exact ⟨.inl hsame, fun _ _ => .inl ⟨hmem, hsame⟩⟩

/-! ## The parts of a chunk -/

/-- How a chunk goes once its ids have been noted: the items, and after the last chunk the end of the
snapshot. Only that may publish something. -/
inductive Stages (A : Env → Prop) (nodeID : NodeID) (rebuilder : Rebuilder) (sched : List ℕ)
    (chunk : SnapshotChunk) (w : World) (tr : List GoEvent) (w' : World) : Err → Prop
  | failed (tr₁ : List GoEvent) (err : GoError) (silent : ∀ ev ∈ tr, ∀ m, ev.call ≠ .publish m)
      (items : Run world A (Prog.group snapshotApplyConcurrency sched
        (chunk.items.map (itemTask chunk.chunkIndex))) w tr₁ (.error err) w') :
      Stages A nodeID rebuilder sched chunk w tr w' (some err)
  | applied (tr₁ : List GoEvent) (as : List Bool) (last : chunk.isLastChunk = false) (w₂ : World)
      (counters : Counter → ℕ) (silent : ∀ ev ∈ tr, ∀ m, ev.call ≠ .publish m)
      (items : Run world A (Prog.group snapshotApplyConcurrency sched
        (chunk.items.map (itemTask chunk.chunkIndex))) w tr₁ (.ok as) w₂)
      (after : w' = { w₂ with counters := counters }) :
      Stages A nodeID rebuilder sched chunk w tr w' none
  | finished (tr₁ tr₂ : List GoEvent) (as : List Bool) (last : chunk.isLastChunk = true) (w₂ : World)
      (counters : Counter → ℕ) (err : Err) (sub : tr₂ ⊆ tr)
      (silent : ∀ ev ∈ tr, ∀ m, ev.call = .publish m → ev ∈ tr₂)
      (items : Run world A (Prog.group snapshotApplyConcurrency sched
        (chunk.items.map (itemTask chunk.chunkIndex))) w tr₁ (.ok as) w₂)
      (finish : Run world A (finishSnapshot nodeID rebuilder chunk.snapshotID)
        { w₂ with counters := counters } tr₂ err w') :
      Stages A nodeID rebuilder sched chunk w tr w' err

theorem items_all {P : Call → Prop} (hget : ∀ id, P (.getPlacement id)) (hnow : P .now)
    (hput : ∀ p, P (.putPlacement p)) (limit k : ℕ) (sched : List ℕ) (cmds : List Command) :
    (Prog.group limit sched (cmds.map (itemTask k))).All P := by
  refine Prog.group_all fun t ht => ?_
  obtain ⟨cmd, -, rfl⟩ := List.mem_map.mp ht
  exact itemTask_all (hget _) hnow (fun _ => hput _) k

theorem items_silent (limit k : ℕ) (sched : List ℕ) (cmds : List Command) :
    (Prog.group limit sched (cmds.map (itemTask k))).All fun c : Call => ∀ m, c ≠ .publish m :=
  items_all (fun _ _ h => by cases h) (fun _ h => by cases h) (fun _ _ h => by cases h) limit k sched cmds

theorem run_handleItems {A : Env → Prop} {nodeID : NodeID} {rebuilder : Rebuilder} {sched : List ℕ}
    {chunk : SnapshotChunk} {w w' : World} {tr : List GoEvent} {err : Err}
    (h : Run world A (handleItems nodeID rebuilder sched chunk) w tr err w') :
    Stages A nodeID rebuilder sched chunk w tr w' err := by
  unfold handleItems at h
  obtain ⟨out, tr₁, tr₂, w₂, rfl, h₁, h₂⟩ := run_bind.mp h
  have hsilent : ∀ ev ∈ tr₁, ∀ m, ev.call ≠ .publish m :=
    (items_silent snapshotApplyConcurrency chunk.chunkIndex sched chunk.items).of_mem h₁.1
  cases out with
  | error err =>
    obtain ⟨rfl, rfl, rfl⟩ := run_done.mp h₂
    exact .failed tr₁ err (by simpa using hsilent) h₁
  | ok as =>
    obtain ⟨e, tr₃, -, rfl, h₃⟩ := run_call.mp h₂
    dsimp only at h₃
    split_ifs at h₃ with hlast
    · refine .finished tr₁ tr₃ as hlast w₂ _ err (fun ev hev => by simp [hev])
        (fun ev hev m hc => ?_) h₁ h₃
      rcases List.mem_append.mp hev with hev | hev
      · exact absurd hc (hsilent ev hev m)
      · rcases List.mem_cons.mp hev with rfl | hev
        · cases hc
        · exact hev
    · obtain ⟨rfl, rfl, rfl⟩ := run_done.mp h₃
      refine .applied tr₁ as (by simpa using hlast) w₂ _ (fun ev hev m hc => ?_) h₁ rfl
      rcases List.mem_append.mp hev with hev | hev
      · exact hsilent ev hev m hc
      · obtain rfl := List.mem_singleton.mp hev
        cases hc

/-- The calls of the prune. -/
theorem pruneAbsent_all {P : Call → Prop} (htake : P .takeSeen) (hlist : P .listPlacements)
    (hdelete : ∀ id, P (.deletePlacement id)) (snapshotID : String) : (pruneAbsent snapshotID).All P := by
  refine Prog.all_invoke_bind.mpr ⟨htake, fun seen => ?_⟩
  split_ifs
  · trivial
  · trivial
  · refine Prog.all_invoke_bind.mpr ⟨hlist, fun r => ?_⟩
    cases r with
    | error err => trivial
    | ok all =>
      refine (deleteAbsent_calls _ all 0).mono ?_
      rintro c ⟨p, -, -, rfl⟩
      exact hdelete p.id

/-- What the end of a snapshot calls besides what a rebuilder may. -/
theorem finishSnapshot_all {P : Call → Prop} {nodeID : NodeID} {rebuilder : Rebuilder}
    {snapshotID : String} (hrebuild : ∀ c, RebuildCall c → P c) (htake : P .takeSeen)
    (hdelete : ∀ id, P (.deletePlacement id))
    (hpublish : ∀ r : SyncReport, r.inventoryHash = snapshotID → P (.publish (.syncReport r)))
    (hcompleted : P .storeCompleted) : (finishSnapshot nodeID rebuilder snapshotID).All P := by
  refine (pruneAbsent_all htake (hrebuild _ trivial) hdelete snapshotID).bind fun r => ?_
  cases r with
  | error err => trivial
  | ok n =>
    refine (rebuilder.calls.mono hrebuild).bind fun r => ?_
    cases r with
    | some err => trivial
    | none =>
      refine Prog.All.bind ?_ fun r => ?_
      · unfold publishSyncReport
        refine Prog.all_invoke_bind.mpr ⟨hrebuild _ trivial, fun eventID => ?_⟩
        refine Prog.all_invoke_bind.mpr ⟨hrebuild _ trivial, fun t => ?_⟩
        refine Prog.all_invoke_bind.mpr ⟨hrebuild _ trivial, fun n => ?_⟩
        unfold marshalSyncReportEvent
        dsimp only
        split_ifs
        · trivial
        · trivial
        · exact ⟨hpublish _ rfl, fun _ => trivial⟩
      · cases r with
        | some err => trivial
        | none => exact Prog.all_invoke_bind.mpr ⟨hcompleted, fun _ => trivial⟩

theorem finishSnapshot_puts_nothing (nodeID : NodeID) (rebuilder : Rebuilder) (snapshotID : String) :
    (finishSnapshot nodeID rebuilder snapshotID).All fun c : Call => ∀ p, c ≠ .putPlacement p :=
  finishSnapshot_all (fun c hc p h => by rw [h] at hc; exact hc) (fun _ h => by cases h)
    (fun _ _ h => by cases h) (fun _ _ _ h => by cases h) fun _ h => by cases h

theorem finishSnapshot_publishes (nodeID : NodeID) (rebuilder : Rebuilder) (snapshotID : String) :
    (finishSnapshot nodeID rebuilder snapshotID).All fun c : Call =>
      ∀ r, c = .publish (.syncReport r) → r.inventoryHash = snapshotID :=
  finishSnapshot_all (fun c hc r h => by rw [h] at hc; exact absurd hc id) (fun _ h => by cases h)
    (fun _ _ h => by cases h) (fun r hr r' h => by cases h; exact hr) fun _ h => by cases h

/-- A chunk that does not delete the record moves it or leaves it as it was; a chunk that is handled, or
that comes to its report, has moved it. -/
theorem stages_moves {A : Env → Prop} {nodeID : NodeID} {rebuilder : Rebuilder} {sched : List ℕ}
    {chunk : SnapshotChunk} {w w' : World} {tr : List GoEvent} {err : Err} {id : PlacementID}
    (h : Stages A nodeID rebuilder sched chunk w tr w' err) (honce : Once chunk id)
    (hspare : ∀ ev ∈ tr, ev.call ≠ .deletePlacement id) :
    (record id w' = record id w ∨ Moved chunk id (record id w) (record id w')) ∧
      ((err = none ∨ ∃ ev ∈ tr, ∃ m, ev.call = .publish m) →
        Moved chunk id (record id w) (record id w')) := by
  cases h with
  | failed tr₁ err silent items =>
    refine ⟨(group_moves honce items).1, ?_⟩
    rintro (h | ⟨ev, hev, m, hc⟩)
    · cases h
    · exact absurd hc (silent ev hev m)
  | applied tr₁ as last w₂ counters silent items after =>
    subst after
    have hmoved := (group_moves honce items).2 as rfl
    exact ⟨.inr hmoved, fun _ => hmoved⟩
  | finished tr₁ tr₂ as last w₂ counters err sub silent items finish =>
    have hmoved := (group_moves honce items).2 as rfl
    have hkeeps : ∀ ev ∈ tr₂, Keeps id ev.call := by
      intro ev hev
      have hput := (finishSnapshot_puts_nothing _ _ _).of_mem finish.1 ev hev
      have hdel := hspare ev (sub hev)
      unfold Keeps
      split
      · next p hc => exact absurd hc (hput p)
      · next x hc =>
        rintro rfl
        exact hdel hc
      · trivial
    have hsame : record id w' = record id w₂ := (steps_record finish.2 hkeeps).trans rfl
    rw [← hsame] at hmoved
    exact ⟨.inr hmoved, fun _ => hmoved⟩

/-- A delivery of a chunk for this node notes the ids and goes through its stages, or panics. -/
theorem run_deliver_stages {A : Env → Prop} {nodeID : NodeID} {rebuilder : Rebuilder} {x : Delivery}
    {chunk : SnapshotChunk} {w w' : World} {tr : List GoEvent} {r : Result} (hmsg : x.msg = .ok chunk)
    (hnode : chunk.nodeID = nodeID) (h : Run world A (deliver nodeID rebuilder x) w tr r w') :
    (r = .panicked ∧ (∀ ev ∈ tr, ∀ m, ev.call ≠ .publish m) ∧ w'.store = w.store) ∨
    ∃ counters tr' err, (w.seen.track chunk.snapshotID (ids chunk)).1 = true ∧ r = .returned err ∧
      tr' ⊆ tr ∧
      (∀ ev ∈ tr, ∀ m, ev.call = .publish m → ev ∈ tr') ∧
      Stages A nodeID rebuilder x.sched chunk { w with
        counters := counters, seen := (w.seen.track chunk.snapshotID (ids chunk)).2 } tr' w' err := by
  unfold deliver handle at h
  simp only [hmsg, hnode, ne_eq, not_true_eq_false, if_false] at h
  obtain ⟨e', tr₁, -, rfl, h₁⟩ := run_call.mp h
  obtain ⟨e, tr₂, -, rfl, h₂⟩ := run_call.mp h₁
  cases htrack : (w.seen.track chunk.snapshotID (ids chunk)).1 with
  | false =>
    have hreply : (world.exec (.trackSeen chunk.snapshotID (ids chunk)) e
      (world.exec (.count .receivedChunks 1) e' w).2).1 = false := htrack
    rw [hreply] at h₂
    obtain ⟨rfl, rfl, rfl⟩ := run_done.mp h₂
    refine .inl ⟨rfl, fun ev hev m hc => ?_, rfl⟩
    rcases List.mem_cons.mp hev with rfl | hev
    · cases hc
    · obtain rfl := List.mem_singleton.mp hev
      cases hc
  | true =>
    have hreply : (world.exec (.trackSeen chunk.snapshotID (ids chunk)) e
      (world.exec (.count .receivedChunks 1) e' w).2).1 = true := htrack
    rw [hreply] at h₂
    change Run world A (handleItems nodeID rebuilder x.sched chunk >>=
      fun err => Prog.done (Result.returned err)) _ _ _ _ at h₂
    obtain ⟨err, tr₃, tr₄, w₃, rfl, h₃, h₄⟩ := run_bind.mp h₂
    obtain ⟨rfl, rfl, rfl⟩ := run_done.mp h₄
    refine .inr ⟨_, tr₃, err, rfl, rfl, fun ev hev => by simp [hev], fun ev hev m hc => ?_,
      run_handleItems h₃⟩
    rcases List.mem_cons.mp hev with rfl | hev
    · cases hc
    · rcases List.mem_cons.mp hev with rfl | hev
      · cases hc
      · simpa using hev

end NodeAgent.Snapshot
