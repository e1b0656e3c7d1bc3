import NodeAgent.Snapshot.Report

/-!
# What the report counts

`SyncedCount` is read from a counter of the consumer. A chunk adds the number of its items that were stored,
but only if all its items went through, and nothing resets the counter: a report counts what earlier snapshots
have stored as well, modulo 2³², and does not count what a chunk has stored that failed in the end.
-/

namespace NodeAgent.Snapshot

open Lib Jsonv1

/-! ## The counter -/

/-- What a call adds to the counter. -/
def addsSynced : Call → ℕ
  | .count .syncedItems n => n
  | _ => 0

def countsItems : Call → Bool
  | .count .syncedItems _ => true
  | _ => false

theorem addsSynced_eq_zero {c : Call} (h : countsItems c = false) : addsSynced c = 0 := by
  unfold addsSynced
  split
  · cases h
  · rfl

/-- A call that neither counts items nor publishes anything. -/
def Quiet (c : Call) : Prop := countsItems c = false ∧ ∀ m, c ≠ .publish m

theorem RebuildCall.quiet {c : Call} (h : RebuildCall c) : Quiet c := by
  constructor
  · cases c with
    | count c n => cases h
    | _ => rfl
  · rintro m rfl
    exact h

theorem synced_exec (c : Call) (e : Env) (w : World) {n : ℕ} (hw : w.counters .syncedItems = n % 2 ^ 32) :
    (World.exec c e w).2.counters .syncedItems = (n + addsSynced c) % 2 ^ 32 := by
  have hproxy : ∀ x, (w.ofProxy x).2.counters = w.counters := fun x => by cases x <;> rfl
  have hkeeps : ∀ {v : World}, v.counters = w.counters → v.counters .syncedItems = (n + 0) % 2 ^ 32 :=
    fun h => by rw [h, hw]; rfl
  cases c with
  | count c k =>
    cases c with
    | syncedItems =>
      show (w.counters .syncedItems + k) % 2 ^ 32 = _
      rw [hw, Nat.mod_add_mod]
      rfl
    | _ => exact hw
  | submit overlay => simp only [World.exec]; split <;> exact hw
  | receive timer => simp only [World.exec]; split <;> (try split_ifs) <;> (try split) <;> exact hw
  | _ => first
    | exact hw
    | exact hkeeps (e.guarded_keeps World.counters rfl)
    | exact hkeeps (e.guarded_keeps World.counters (hproxy _))

theorem steps_synced {A : Env → Prop} {w w' : World} {tr : List GoEvent} (h : Steps world A w tr w') {n : ℕ}
    (hw : w.counters .syncedItems = n % 2 ^ 32) :
    w'.counters .syncedItems = (n + (tr.map fun ev => addsSynced ev.call).sum) % 2 ^ 32 := by
  induction tr generalizing w n with
  | nil =>
    cases h
    exact hw
  | cons ev tr ih =>
    obtain ⟨e, -, -, hrest⟩ := steps_cons.mp h
    rw [ih hrest (synced_exec ev.call e w hw), List.map_cons, List.sum_cons, Nat.add_assoc]

theorem steps_synced_quiet {A : Env → Prop} {w w' : World} {tr : List GoEvent} (h : Steps world A w tr w')
    (hquiet : ∀ ev ∈ tr, countsItems ev.call = false) {n : ℕ} (hw : w.counters .syncedItems = n % 2 ^ 32) :
    w'.counters .syncedItems = n % 2 ^ 32 := by
  have hnone : (tr.map fun ev => addsSynced ev.call).sum = 0 := by
    refine List.sum_eq_zero fun k hk => ?_
    obtain ⟨ev, hev, rfl⟩ := List.mem_map.mp hk
    exact addsSynced_eq_zero (hquiet ev hev)
  rw [steps_synced h hw, hnone, Nat.add_zero]

/-! ## One delivery -/

/-- A placement is stored. -/
def putOf : GoEvent → ℕ
  | ⟨.putPlacement _, none⟩ => 1
  | _ => 0

/-- The number of placements that are stored. -/
def puts (tr : List GoEvent) : ℕ := (tr.map putOf).sum

/-- All items of the chunk have gone through. -/
def wentThrough (tr : List GoEvent) : Bool := tr.any fun ev => countsItems ev.call

/-- What a delivery adds to the counter. -/
def counted (tr : List GoEvent) : ℕ := if wentThrough tr then puts tr else 0

theorem puts_append (tr tr' : List GoEvent) : puts (tr ++ tr') = puts tr + puts tr' := by
  rw [puts, List.map_append, List.sum_append]
  rfl

theorem puts_eq_zero {tr : List GoEvent} (h : ∀ ev ∈ tr, ∀ p, ev.call ≠ .putPlacement p) : puts tr = 0 := by
  refine List.sum_eq_zero fun n hn => ?_
  obtain ⟨ev, hev, rfl⟩ := List.mem_map.mp hn
  unfold putOf
  split
  · next p => exact absurd rfl (h _ hev p)
  · rfl

theorem wentThrough_append (tr tr' : List GoEvent) :
    wentThrough (tr ++ tr') = (wentThrough tr || wentThrough tr') := List.any_append

theorem wentThrough_eq_false {tr : List GoEvent} (h : ∀ ev ∈ tr, countsItems ev.call = false) :
    wentThrough tr = false := by
  rw [wentThrough, List.any_eq_false]
  exact fun ev hev => by simp [h ev hev]

/-- An item says that it was applied when it was stored. -/
theorem itemTask_earns (k : ℕ) (cmd : Command) : Prog.Earns putOf Bool.toNat (itemTask k cmd) 0 := by
  intro tr a h
  obtain ⟨r, tr₁, tr₂, rfl, h₁, h₂⟩ := Prog.after_bind_done_iff.mp h
  cases r with
  | error err => cases (Prog.after_done_iff.mp h₂).2
  | ok b =>
    obtain ⟨rfl, heq⟩ := Prog.after_done_iff.mp h₂
    cases heq
    obtain ⟨existing, tr₂, rfl, h₃⟩ := Prog.after_invoke_done_iff.mp h₁
    cases existing with
    | error err => cases (Prog.after_done_iff.mp h₃).2
    | ok existing =>
      dsimp only at h₃
      split_ifs at h₃
      · obtain ⟨rfl, heq⟩ := Prog.after_done_iff.mp h₃
        cases heq
        rfl
      · obtain ⟨t, tr₃, rfl, h₄⟩ := Prog.after_invoke_done_iff.mp h₃
        obtain ⟨res, tr₄, rfl, h₅⟩ := Prog.after_invoke_done_iff.mp h₄
        cases res with
        | some err => cases (Prog.after_done_iff.mp h₅).2
        | none =>
          obtain ⟨rfl, heq⟩ := Prog.after_done_iff.mp h₅
          cases heq
          rfl

/-- The number of items that say so is the number of placements stored. -/
theorem count_true_eq_puts {limit k : ℕ} {sched : List ℕ} {cmds : List Command} {tr : List GoEvent}
    {as : List Bool}
    (h : (Prog.group limit sched (cmds.map (itemTask k))).After tr (.done (.ok as))) :
    as.count true = puts tr := by
  have hcount : as.count true = (as.map Bool.toNat).sum := by
    clear h
    induction as with
    | nil => rfl
    | cons a as ih => cases a <;> simp [ih, Nat.add_comm]
  rw [hcount, puts]
  refine (Prog.group_sum (fun t ht => ?_) h).symm
  obtain ⟨cmd, -, rfl⟩ := List.mem_map.mp ht
  exact itemTask_earns k cmd

theorem report_syncedCount {A : Env → Prop} {nodeID : NodeID} {snapshotID : String} {w w' : World}
    {tr : List GoEvent} {err : Err} (h : Run world A (publishSyncReport nodeID snapshotID) w tr err w')
    {ev : GoEvent} (hev : ev ∈ tr) {report : SyncReport} (hc : ev.call = .publish (.syncReport report)) :
    report.syncedCount = w.counters .syncedItems := by
  obtain ⟨e₁, tr₁, -, rfl, h₁⟩ := run_call.mp h
  obtain ⟨e₂, tr₂, -, rfl, h₂⟩ := run_call.mp h₁
  obtain ⟨e₃, tr₃, -, rfl, h₃⟩ := run_call.mp h₂
  have hev₃ : ev ∈ tr₃ := by
    simp only [List.mem_cons] at hev
    rcases hev with rfl | rfl | rfl | hev
    · cases hc
    · cases hc
    · cases hc
    · exact hev
  dsimp only [Prog.bind, marshalSyncReportEvent] at h₃
  split_ifs at h₃
  · obtain ⟨rfl, -⟩ := run_done.mp h₃
    cases hev₃
  · obtain ⟨rfl, -⟩ := run_done.mp h₃
    cases hev₃
  · obtain ⟨e₄, tr₄, -, rfl, h₄⟩ := run_call.mp h₃
    obtain ⟨rfl, -⟩ := run_done.mp h₄
    rw [List.mem_singleton.mp hev₃] at hc
    cases hc
    rfl

/-- The report says what the counter was when the snapshot came to its end. -/
theorem finish_syncedCount {A : Env → Prop} {nodeID : NodeID} {rebuilder : Rebuilder} {snapshotID : String}
    {w w' : World} {tr : List GoEvent} {err : Err}
    (h : Run world A (finishSnapshot nodeID rebuilder snapshotID) w tr err w') {n : ℕ}
    (hw : w.counters .syncedItems = n % 2 ^ 32) {ev : GoEvent} (hev : ev ∈ tr) {report : SyncReport}
    (hc : ev.call = .publish (.syncReport report)) : report.syncedCount = n % 2 ^ 32 := by
  obtain ⟨r, tr₁, tr₂, w₁, rfl, hprune, h₂⟩ := run_bind.mp h
  have hquiet : ∀ ev ∈ tr₁, Quiet ev.call :=
    (pruneAbsent_all (P := Quiet) ⟨rfl, fun _ h => by cases h⟩ ⟨rfl, fun _ h => by cases h⟩
      (fun _ => ⟨rfl, fun _ h => by cases h⟩) snapshotID).of_mem hprune.1
  have hev₂ : ev ∈ tr₂ := (List.mem_append.mp hev).resolve_left fun h => (hquiet ev h).2 _ hc
  cases r with
  | error err =>
    obtain ⟨rfl, -⟩ := run_done.mp h₂
    cases hev₂
  | ok pruned =>
    obtain ⟨r, tr₃, tr₄, w₂, rfl, hrebuild, h₃⟩ := run_bind.mp h₂
    have hquiet' : ∀ ev ∈ tr₃, Quiet ev.call := (rebuilder.calls.mono fun _ h => h.quiet).of_mem hrebuild.1
    have hev₃ : ev ∈ tr₄ := (List.mem_append.mp hev₂).resolve_left fun h => (hquiet' ev h).2 _ hc
    cases r with
    | some err =>
      obtain ⟨rfl, -⟩ := run_done.mp h₃
      cases hev₃
    | none =>
      obtain ⟨r, tr₅, tr₆, w₃, rfl, hreport, h₄⟩ := run_bind.mp h₃
      have hlast : ev ∈ tr₅ := by
        refine (List.mem_append.mp hev₃).resolve_right fun hev₆ => ?_
        cases r with
        | some err =>
          obtain ⟨rfl, -⟩ := run_done.mp h₄
          cases hev₆
        | none =>
          obtain ⟨e, tr₇, -, rfl, h₅⟩ := run_call.mp h₄
          obtain ⟨rfl, -⟩ := run_done.mp h₅
          rw [List.mem_singleton.mp hev₆] at hc
          cases hc
      rw [report_syncedCount hreport hlast hc]
      exact steps_synced_quiet hrebuild.2 (fun ev hev => (hquiet' ev hev).1)
        (steps_synced_quiet hprune.2 (fun ev hev => (hquiet ev hev).1) hw)

/-- What a delivery makes of a counter at `n`, and what its report says. -/
structure Counts (n : ℕ) (tr : List GoEvent) (w' : World) : Prop where
  counter : w'.counters .syncedItems = (n + counted tr) % 2 ^ 32
  report : ∀ ev ∈ tr, ∀ report, ev.call = .publish (.syncReport report) →
    report.syncedCount = (n + counted tr) % 2 ^ 32

theorem Counts.cons {w' : World} {ev : GoEvent} {tr : List GoEvent} {n : ℕ} (h : Counts n tr w')
    (hquiet : Quiet ev.call) (hput : putOf ev = 0) : Counts n (ev :: tr) w' := by
  have hcounted : counted (ev :: tr) = counted tr := by
    rw [counted, wentThrough, List.any_cons, hquiet.1, puts, List.map_cons, List.sum_cons, hput, Nat.zero_add]
    rfl
  refine ⟨?_, fun ev' hev' report hc => ?_⟩
  · rw [hcounted]
    exact h.counter
  · rw [hcounted]
    rcases List.mem_cons.mp hev' with rfl | hev'
    · exact absurd hc (hquiet.2 _)
    · exact h.report ev' hev' report hc

/-- After the items have been counted nothing is stored or counted. -/
theorem tail_counts {A : Env → Prop} {nodeID : NodeID} {rebuilder : Rebuilder} {chunk : SnapshotChunk}
    {w w' : World} {tr : List GoEvent} {err : Err}
    (h : Run world A (if chunk.isLastChunk then finishSnapshot nodeID rebuilder chunk.snapshotID
      else return none) w tr err w') {n : ℕ} (hw : w.counters .syncedItems = n % 2 ^ 32) :
    (∀ ev ∈ tr, countsItems ev.call = false) ∧ puts tr = 0 ∧
      ∀ ev ∈ tr, ∀ report, ev.call = .publish (.syncReport report) → report.syncedCount = n % 2 ^ 32 := by
  split_ifs at h with hlast
  · have hcounts : ∀ ev ∈ tr, countsItems ev.call = false :=
      (finishSnapshot_all (P := fun c => countsItems c = false) (fun c hc => hc.quiet.1) rfl
        (fun _ => rfl) (fun _ _ => rfl) rfl).of_mem h.1
    exact ⟨hcounts, puts_eq_zero ((finishSnapshot_puts_nothing _ _ _).of_mem h.1),
      fun ev hev report hc => finish_syncedCount h hw hev hc⟩
  · obtain ⟨rfl, -⟩ := run_done.mp h
    exact ⟨by simp, rfl, by simp⟩

theorem handleItems_counts {A : Env → Prop} {nodeID : NodeID} {rebuilder : Rebuilder} {sched : List ℕ}
    {chunk : SnapshotChunk} {w w' : World} {tr : List GoEvent} {err : Err}
    (h : Run world A (handleItems nodeID rebuilder sched chunk) w tr err w') {n : ℕ}
    (hw : w.counters .syncedItems = n % 2 ^ 32) : Counts n tr w' := by
  obtain ⟨out, tr₁, tr₂, w₁, rfl, h₁, h₂⟩ := run_bind.mp h
  have hquiet : ∀ ev ∈ tr₁, Quiet ev.call :=
    (items_all (P := Quiet) (fun _ => ⟨rfl, fun _ h => by cases h⟩) ⟨rfl, fun _ h => by cases h⟩
      (fun _ => ⟨rfl, fun _ h => by cases h⟩) _ _ _ _).of_mem h₁.1
  have hthrough := wentThrough_eq_false fun ev hev => (hquiet ev hev).1
  have hw₁ := steps_synced_quiet h₁.2 (fun ev hev => (hquiet ev hev).1) hw
  cases out with
  | error err =>
    obtain ⟨rfl, rfl, rfl⟩ := run_done.mp h₂
    rw [List.append_nil]
    refine ⟨?_, fun ev hev report hc => absurd hc ((hquiet ev hev).2 _)⟩
    rw [counted, hthrough]
    exact hw₁
  | ok as =>
    obtain ⟨e, tr₃, -, rfl, h₃⟩ := run_call.mp h₂
    have hw₂ : (World.exec (.count .syncedItems (as.count true)) e w₁).2.counters .syncedItems =
        (n + puts tr₁) % 2 ^ 32 := by
      rw [synced_exec _ e w₁ hw₁, ← count_true_eq_puts h₁.1]
      rfl
    obtain ⟨htail, hnoput, hreport⟩ := tail_counts h₃ hw₂
    have hcounted : counted (tr₁ ++ ⟨.count .syncedItems (as.count true), ()⟩ :: tr₃) = puts tr₁ := by
      have hcons : puts (⟨.count .syncedItems (as.count true), ()⟩ :: tr₃) = 0 + puts tr₃ := rfl
      rw [counted, wentThrough_append, puts_append, hcons, hnoput]
      exact if_pos (by simp [wentThrough, countsItems])
    refine ⟨?_, fun ev hev report hc => ?_⟩
    · rw [hcounted]
      exact steps_synced_quiet h₃.2 htail hw₂
    · rw [hcounted]
      rcases List.mem_append.mp hev with hev | hev
      · exact absurd hc ((hquiet ev hev).2 _)
      · rcases List.mem_cons.mp hev with rfl | hev
        · cases hc
        · exact hreport ev hev report hc

theorem deliver_counts {A : Env → Prop} {nodeID : NodeID} {rebuilder : Rebuilder} {x : Delivery}
    {w w' : World} {tr : List GoEvent} {r : Result} (h : Run world A (deliver nodeID rebuilder x) w tr r w')
    {n : ℕ} (hw : w.counters .syncedItems = n % 2 ^ 32) : Counts n tr w' := by
  have hnothing : ∀ {v : World}, v.counters .syncedItems = n % 2 ^ 32 → Counts n [] v :=
    fun hv => ⟨hv, by simp⟩
  unfold deliver handle at h
  cases hmsg : x.msg with
  | error err =>
    rw [hmsg] at h
    obtain ⟨rfl, -, rfl⟩ := run_done.mp h
    exact hnothing hw
  | ok chunk =>
    rw [hmsg] at h
    dsimp only at h
    split_ifs at h with hnode
    · obtain ⟨rfl, -, rfl⟩ := run_done.mp h
      exact hnothing hw
    · obtain ⟨e₁, tr₁, -, rfl, h₁⟩ := run_call.mp h
      obtain ⟨e₂, tr₂, -, rfl, h₂⟩ := run_call.mp h₁
      have hrest : Counts n tr₂ w' := by
        cases htrack : (w.seen.track chunk.snapshotID (ids chunk)).1 with
        | false =>
          have hreply : (world.exec (.trackSeen chunk.snapshotID (ids chunk)) e₂
            (world.exec (.count .receivedChunks 1) e₁ w).2).1 = false := htrack
          rw [hreply] at h₂
          obtain ⟨rfl, -, rfl⟩ := run_done.mp h₂
          exact hnothing hw
        | true =>
          have hreply : (world.exec (.trackSeen chunk.snapshotID (ids chunk)) e₂
            (world.exec (.count .receivedChunks 1) e₁ w).2).1 = true := htrack
          rw [hreply] at h₂
          change Run world A (handleItems nodeID rebuilder x.sched chunk >>=
            fun err => Prog.done (Result.returned err)) _ _ _ _ at h₂
          obtain ⟨err, tr₃, tr₄, w₃, rfl, h₃, h₄⟩ := run_bind.mp h₂
          obtain ⟨rfl, -, rfl⟩ := run_done.mp h₄
          rw [List.append_nil]
          exact handleItems_counts h₃ hw
      exact (hrest.cons ⟨rfl, fun _ h => by cases h⟩ rfl).cons ⟨rfl, fun _ h => by cases h⟩ rfl

/-! ## Whole runs -/

/-- The snapshot of a chunk for this node. -/
def snapshotOf (nodeID : NodeID) (x : Delivery) : Option String :=
  match x.msg with
  | .ok chunk => if chunk.nodeID = nodeID then some chunk.snapshotID else none
  | .error _ => none

/-- The placements stored while the chunks of a snapshot were handled. -/
def storedFor (nodeID : NodeID) (snapshotID : String) (ts : List (Turn ports World Delivery Result)) : ℕ :=
  ((ts.filter fun t => snapshotOf nodeID t.input = some snapshotID).map fun t => puts t.trace).sum

/-- Those among them whose chunk failed. -/
def uncountedFor (nodeID : NodeID) (snapshotID : String) (ts : List (Turn ports World Delivery Result)) :
    ℕ :=
  ((ts.filter fun t => snapshotOf nodeID t.input = some snapshotID ∧ wentThrough t.trace = false).map
    fun t => puts t.trace).sum

/-- What was counted for other snapshots. -/
def countedForOthers (nodeID : NodeID) (snapshotID : String)
    (ts : List (Turn ports World Delivery Result)) : ℕ :=
  ((ts.filter fun t => snapshotOf nodeID t.input ≠ some snapshotID).map fun t => counted t.trace).sum

theorem counted_add_uncountedFor (nodeID : NodeID) (snapshotID : String)
    (ts : List (Turn ports World Delivery Result)) :
    (ts.map fun t => counted t.trace).sum + uncountedFor nodeID snapshotID ts =
      storedFor nodeID snapshotID ts + countedForOthers nodeID snapshotID ts := by
  unfold uncountedFor storedFor countedForOthers
  induction ts with
  | nil => rfl
  | cons t ts ih =>
    by_cases hsnap : snapshotOf nodeID t.input = some snapshotID
    · cases hthrough : wentThrough t.trace with
      | false =>
        simp only [hsnap, hthrough, counted, List.map_cons, List.sum_cons, List.filter_cons, and_self,
          decide_true, if_true, ne_eq, not_true_eq_false, decide_false, Bool.false_eq_true, if_false] at ih ⊢
        omega
      | true =>
        simp only [hsnap, hthrough, counted, List.map_cons, List.sum_cons, List.filter_cons,
          decide_true, if_true, ne_eq, not_true_eq_false, decide_false, Bool.false_eq_true, if_false,
          Bool.true_eq_false, and_false] at ih ⊢
        omega
    · simp only [hsnap, List.map_cons, List.sum_cons, List.filter_cons, false_and, decide_false,
        Bool.false_eq_true, if_false, ne_eq, not_false_eq_true, decide_true, if_true] at ih ⊢
      omega

/-- The report of a snapshot has the number of placements that were stored for it exactly if this number fits
into 32 bits, and what had been counted for other snapshots is, modulo 2³², as much as what its failed chunks
have stored. -/
theorem synced_count_per_snapshot_iff {nodeID : NodeID} {rebuilder : Rebuilder} {w w' : World}
    {ts : List (Turn ports World Delivery Result)}
    (h : Session world (Env.Allowed true) (deliver nodeID rebuilder) w ts w')
    (hw : w.counters .syncedItems = 0) :
    ∀ pre t post, ts = pre ++ t :: post → ∀ ev ∈ t.trace, ∀ report,
      ev.call = .publish (.syncReport report) →
        (report.syncedCount = storedFor nodeID report.inventoryHash (pre ++ [t]) ↔
          storedFor nodeID report.inventoryHash (pre ++ [t]) < 2 ^ 32 ∧
          countedForOthers nodeID report.inventoryHash (pre ++ [t]) ≡
            uncountedFor nodeID report.inventoryHash (pre ++ [t]) [MOD 2 ^ 32]) := by
  have hhistory := h.history
    (I := fun pre v => v.counters .syncedItems = (pre.map fun t => counted t.trace).sum % 2 ^ 32) hw
    fun pre t post _ hrun hI => by
      rw [(deliver_counts hrun hI).counter, List.map_append, List.sum_append]
      rfl
  intro pre t post hts ev hev report hc
  obtain ⟨hbefore, hrun⟩ := hhistory pre t post hts
  have hreport : report.syncedCount = ((pre ++ [t]).map fun t => counted t.trace).sum % 2 ^ 32 := by
    rw [(deliver_counts hrun hbefore).report ev hev report hc, List.map_append, List.sum_append]
    rfl
  have hsum := counted_add_uncountedFor nodeID report.inventoryHash (pre ++ [t])
  rw [hreport, Nat.ModEq]
  omega

theorem synced_count_per_snapshot_in_order : ∃ pre t post, inOrderTurns = pre ++ t :: post ∧
    ∃ ev ∈ t.trace, ∃ report, ev.call = .publish (.syncReport report) ∧ report.syncedCount = 2 ∧
      report.syncedCount = storedFor "n" report.inventoryHash (pre ++ [t]) := by
  have hrun : Session world (Env.Allowed true) (deliver "n" noopRebuilder) withOld inOrderTurns _ :=
    session_replay (Env.allowed_default _) _ (by simp [Env.Allowed]) _
  refine ⟨[_], _, [], rfl, _, List.mem_of_getElem? (i := 12) rfl, _, rfl, rfl, ?_⟩
  refine (synced_count_per_snapshot_iff hrun rfl [_] _ [] rfl _ (List.mem_of_getElem? (i := 12) rfl) _
    rfl).mpr ⟨?_, congrArg (· % 2 ^ 32) ?_⟩
  · decide +kernel
  · decide +kernel

/-- Another snapshot of one chunk. -/
def nextSnapshot : SnapshotChunk where
  nodeID := "n"
  snapshotID := "T"
  chunkIndex := 0
  isLastChunk := true
  items := [.carrying { id := "t", nodeID := "n", desired := .active, opVersion := 1 }]

/-- Two snapshots with one placement each. -/
def twoSnapshots : List (Delivery × List Env) := [(⟨.ok lastChunk, []⟩, []), (⟨.ok nextSnapshot, []⟩, [])]

theorem synced_count_of_both : ∃ ts w',
    Session world (Env.Allowed true) (deliver "n" noopRebuilder) {} ts w' ∧
      ∃ pre t post, ts = pre ++ t :: post ∧ ∃ ev ∈ t.trace, ∃ report,
        ev.call = .publish (.syncReport report) ∧ report.inventoryHash = "T" ∧ report.syncedCount = 2 ∧
        storedFor "n" report.inventoryHash (pre ++ [t]) = 1 := by
  refine ⟨_, _, session_replay (Env.allowed_default _) twoSnapshots (by simp [Env.Allowed, twoSnapshots]) _,
    [_], _, [], rfl, _, List.mem_of_getElem? (i := 12) rfl, _, rfl, rfl, rfl, ?_⟩
  decide +kernel

end NodeAgent.Snapshot
