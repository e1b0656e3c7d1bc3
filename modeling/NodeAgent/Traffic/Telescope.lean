import NodeAgent.Traffic.Conservation
import NodeAgent.Lib.Runs

/-!
# What the entry's publisher adds up to

Each tick publishes, for every backend, what its connections have moved since the tick before. Connections
come and go: one that was not listed at the tick before adds nothing, whatever its counters say. So along the
ticks the payloads of a backend add up, connection by connection and run by run of consecutive ticks, to the
last reading of the counter minus the first, as far as 64 bits go.
-/

namespace NodeAgent.Traffic

open Lib

/-! ## One tick -/

section Tick

variable {d : Direction} {last : GoMap ConnState} {conns : List Singbox.Connection} {b : String}

theorem getD_bump (m : GoMap ℕ) (k x : String) (v : ℕ) :
    (bump m k v)[x]?.getD 0 = m[x]?.getD 0 + if k = x then v else 0 := by
  unfold bump
  rw [GoMap.getElem?_insert]
  by_cases h : k = x
  · rw [if_pos h.symm, if_pos h, Option.getD_some, h]
  · rw [if_neg (Ne.symm h), if_neg h]
    rfl

theorem getD_active (hb : b ≠ "") (t : PerBackend) :
    (conns.foldl (addConn last) t).active[b]?.getD 0 =
      t.active[b]?.getD 0 + conns.countP fun c => pickBackendID c.chains = b := by
  have hstep : ∀ t c, (addConn last t c).active[b]?.getD 0 =
      t.active[b]?.getD 0 + if pickBackendID c.chains = b then 1 else 0 := by
    intro t c
    unfold addConn
    by_cases hnone : pickBackendID c.chains = ""
    · rw [if_pos hnone, if_neg fun h => hb (h.symm.trans hnone)]
      rfl
    · rw [if_neg hnone]
      exact getD_bump ..
  have hfold : (conns.foldl (addConn last) t).active[b]?.getD 0 = _ :=
    foldl_add_by_key (fun t => t.active[b]?.getD 0) hstep conns t
  rw [hfold, List.map_const', List.sum_replicate, smul_eq_mul, mul_one, List.countP_eq_length_filter]

/-- The entries that are for a backend. -/
def entriesFor (b : String) (entries : List NodeTrafficPayload) : List NodeTrafficPayload :=
  entries.filter fun e => e.backendNodeID = b

/-- A payload has one entry for every backend with a connection. -/
theorem entriesFor_payload {p : Publisher} (hb : b ≠ "") {order : List String}
    (horder : order.Perm (conns.foldl (addConn last) {}).active.keys) :
    entriesFor b (order.map (p.entry (conns.foldl (addConn last) {}))) =
      if connsFor b conns = [] then [] else [p.entry (conns.foldl (addConn last) {}) b] := by
  have hnodup : order.Nodup := horder.nodup_iff.mpr Std.ExtTreeMap.nodup_keys
  have hfilter : entriesFor b (order.map (p.entry (conns.foldl (addConn last) {}))) =
      (List.replicate (order.count b) b).map (p.entry (conns.foldl (addConn last) {})) := by
    rw [entriesFor, List.filter_map, ← List.filter_eq]
    rfl
  have hmem : b ∈ order ↔ connsFor b conns ≠ [] :=
    (horder.mem_iff.trans (mem_keys_active b)).trans (and_iff_right hb)
  rw [hfilter, hnodup.count]
  by_cases hnone : connsFor b conns = []
  · rw [if_pos hnone, if_neg fun h => hmem.mp h hnone]
    rfl
  · rw [if_neg hnone, if_pos (hmem.mpr hnone)]
    rfl

theorem ofEntry_entry (p : Publisher) (hb : b ≠ "") :
    d.ofEntry (p.entry (conns.foldl (addConn last) {}) b) =
      ((connsFor b conns).map (increment d last)).sum % 2 ^ 64 := by
  rw [← getD_foldl_addConn d hb]
  cases d <;> rfl

theorem activeSessions_entry (p : Publisher) (hb : b ≠ "") :
    (p.entry (conns.foldl (addConn last) {}) b).activeSessions = (connsFor b conns).length := by
  have hfold : (conns.foldl (addConn last) {}).active[b]?.getD 0 = _ := getD_active hb {}
  rw [show ({} : PerBackend).active[b]?.getD 0 = 0 from rfl, Nat.zero_add,
    List.countP_eq_length_filter] at hfold
  exact hfold

/-- What the entries for a backend add up to. -/
def sumFor (d : Direction) (b : String) (entries : List NodeTrafficPayload) : ℕ :=
  ((entriesFor b entries).map d.ofEntry).sum

theorem sumFor_entries {p : Publisher} (hb : b ≠ "") {order : List String}
    (horder : order.Perm (conns.foldl (addConn last) {}).active.keys) :
    sumFor d b (order.map (p.entry (conns.foldl (addConn last) {}))) ≡
      ((connsFor b conns).map (increment d last)).sum [MOD 2 ^ 64] := by
  rw [sumFor, entriesFor_payload hb horder]
  split_ifs with hnone
  · rw [hnone]
    rfl
  · rw [List.map_singleton, List.sum_singleton, ofEntry_entry p hb]
    exact Nat.mod_modEq _ _

end Tick

/-! ## The ticks of a run -/

/-- The entries that an event has published. -/
def entriesOf : TrafficEvent → List NodeTrafficPayload
  | ⟨.publish _ (.node entries), none⟩ => entries
  | _ => []

/-- The increments of a backend's connections along the snapshots. -/
def moved (d : Direction) (b : String) (last : GoMap ConnState) : List (List Singbox.Connection) → ℕ
  | [] => 0
  | conns :: rest => ((connsFor b conns).map (increment d last)).sum + moved d b (observe ∅ conns) rest

section Run

variable {d : Direction} {last : GoMap ConnState} {b : String} {p : Publisher} {tr : List TrafficEvent}

theorem sumFor_append (es es' : List NodeTrafficPayload) :
    sumFor d b (es ++ es') = sumFor d b es + sumFor d b es' := by
  rw [sumFor, entriesFor, List.filter_append, List.map_append, List.sum_append]
  rfl

theorem snapshots_append (tr tr' : List TrafficEvent) :
    snapshots (tr ++ tr') = snapshots tr ++ snapshots tr' := List.flatMap_append

theorem entriesOf_of_not_publish (h : ∀ ev ∈ tr, isPublish ev = false) : tr.flatMap entriesOf = [] := by
  refine List.flatMap_eq_nil_iff.mpr fun ev hev => ?_
  obtain ⟨c, r⟩ := ev
  have hno := h _ hev
  cases c <;> first | rfl | cases hno

/-- If every payload gets through, the entries of a backend add up to its increments, modulo 2⁶⁴. -/
theorem run_moved {n : ℕ} (hb : b ≠ "") (h : (p.run n last).After tr (.done ()))
    (hsent : AllSent (fun _ => True) tr) :
    sumFor d b (tr.flatMap entriesOf) ≡ moved d b last (snapshots tr) [MOD 2 ^ 64] := by
  induction n generalizing last tr with
  | zero =>
    obtain ⟨rfl, -⟩ := Prog.after_done_iff.mp h
    rfl
  | succ n ih =>
    obtain ⟨r, tr₁, tr₂, rfl, h₁, h₂⟩ := Prog.after_bind_done_iff.mp h
    rw [allSent_append] at hsent
    rw [List.flatMap_append, sumFor_append, snapshots_append]
    have hrest := ih h₂ hsent.2
    rcases publisher_tick_stages h₁ with ⟨hnone, hr, hquiet⟩ |
      ⟨conns, rest, rfl, hr, ⟨rfl, hkeys⟩ | ⟨keys, order, res, horder, rfl⟩⟩
    · rw [hr] at hrest
      rw [hnone, entriesOf_of_not_publish hquiet, show sumFor d b [] = 0 from rfl, Nat.zero_add]
      exact hrest
    · have hzero : sumFor d b ([].map (p.entry (conns.foldl (addConn last) {}))) ≡ _ [MOD 2 ^ 64] :=
        sumFor_entries hb (by rw [hkeys])
      rw [hr] at hrest
      exact hzero.add hrest
    · obtain rfl : res = none := hsent.1 _ _ _ (by simp) trivial
      have hentries : sumFor d b (order.val.map (p.entry (conns.foldl (addConn last) {}))) ≡ _ [MOD 2 ^ 64] :=
        sumFor_entries hb horder
      rw [hr] at hrest
      show sumFor d b (_ ++ []) + _ ≡ _ + moved d b (observe ∅ conns) (snapshots tr₂) [MOD 2 ^ 64]
      rw [List.append_nil]
      exact hentries.add hrest

/-- One entry for every backend that has connections in the snapshot, with their number. -/
def SessionsOf (conns : List Singbox.Connection) (entries : List NodeTrafficPayload) : Prop :=
  ∀ b, b ≠ "" → (entriesFor b entries).map (·.activeSessions) =
    if connsFor b conns = [] then [] else [(connsFor b conns).length]

/-- A payload counts the connections of the last snapshot before it. -/
def CountsSessions (tr : List TrafficEvent) : Prop :=
  ∀ pre subject entries r post, tr = pre ++ ⟨.publish subject (.node entries), r⟩ :: post →
    ∃ conns, (snapshots pre).getLast? = some conns ∧ SessionsOf conns entries

theorem CountsSessions.append {tr₁ tr₂ : List TrafficEvent} (h₁ : CountsSessions tr₁)
    (h₂ : CountsSessions tr₂) : CountsSessions (tr₁ ++ tr₂) := by
  intro pre subject entries r post heq
  have hright : ∀ mid, pre = tr₁ ++ mid → tr₂ = mid ++ ⟨.publish subject (.node entries), r⟩ :: post →
      ∃ conns, (snapshots pre).getLast? = some conns ∧ SessionsOf conns entries := by
    rintro mid rfl hmid
    obtain ⟨conns, hlast, hcount⟩ := h₂ mid subject entries r post hmid
    refine ⟨conns, ?_, hcount⟩
    rw [snapshots_append, List.getLast?_append, hlast]
    rfl
  rcases List.append_eq_append_iff.mp heq with ⟨mid, hpre, htr⟩ | ⟨mid, htr, hpost⟩
  · exact hright mid hpre htr
  · cases mid with
    | nil => exact hright [] (by rw [htr, List.append_nil, List.append_nil]) hpost.symm
    | cons ev mid =>
      cases hpost
      exact h₁ pre subject entries r mid htr

theorem countsSessions_of_not_publish (h : ∀ ev ∈ tr, isPublish ev = false) : CountsSessions tr := by
  rintro pre subject entries r post rfl
  cases h _ (List.mem_append_right pre (List.mem_cons_self ..))

theorem run_countsSessions {n : ℕ} (h : (p.run n last).After tr (.done ())) : CountsSessions tr := by
  induction n generalizing last tr with
  | zero =>
    obtain ⟨rfl, -⟩ := Prog.after_done_iff.mp h
    exact countsSessions_of_not_publish (by simp)
  | succ n ih =>
    obtain ⟨r, tr₁, tr₂, rfl, h₁, h₂⟩ := Prog.after_bind_done_iff.mp h
    refine CountsSessions.append ?_ (ih h₂)
    rcases publisher_tick_stages h₁ with ⟨-, -, hquiet⟩ |
      ⟨conns, rest, rfl, -, ⟨rfl, -⟩ | ⟨keys, order, res, horder, rfl⟩⟩
    · exact countsSessions_of_not_publish hquiet
    · exact countsSessions_of_not_publish (by simp [isPublish])
    · -- the payload is the last of the tick's three events
      rintro (_ | ⟨ev₁, _ | ⟨ev₂, _ | ⟨ev₃, pre⟩⟩⟩) subject entries r' post heq
      · cases heq
      · cases heq
      · cases heq
        refine ⟨conns, rfl, fun b hb => ?_⟩
        rw [entriesFor_payload hb horder]
        split_ifs
        · rfl
        · rw [List.map_singleton, activeSessions_entry p hb]
      · have hlen := congrArg List.length heq
        simp at hlen

end Run

/-! ## Connection by connection -/

/-- The counter of a connection in a snapshot, if it is listed. -/
def reading (d : Direction) (x : String) (conns : List Singbox.Connection) : Option ℕ :=
  (conns.find? fun c => c.id = x).map d.ofConn

/-- The connections of a backend over some snapshots. -/
def connsOf (b : String) (snaps : List (List Singbox.Connection)) : List String :=
  ((snaps.flatMap (connsFor b)).map (·.id)).dedup

/-- Connections have an id of their own, stay with their backend, and their counters do not fall while they
are listed. -/
structure Steady (snaps : List (List Singbox.Connection)) : Prop where
  unique : ∀ conns ∈ snaps, (conns.map (·.id)).Nodup
  backend : ∀ c ∈ snaps.flatten, ∀ c' ∈ snaps.flatten, c.id = c'.id →
    pickBackendID c.chains = pickBackendID c'.chains
  rising : snaps.IsChain fun conns conns' => ∀ c ∈ conns, ∀ c' ∈ conns', c.id = c'.id →
    c.upload ≤ c'.upload ∧ c.download ≤ c'.download

section Steady

variable {d : Direction} {last : GoMap ConnState} {conns : List Singbox.Connection} {b x : String}
  {snaps : List (List Singbox.Connection)} {before : Option ℕ}

theorem exists_of_reading {v : ℕ} (h : reading d x conns = some v) :
    ∃ c ∈ conns, c.id = x ∧ d.ofConn c = v := by
  obtain ⟨c, hfind, hv⟩ := Option.map_eq_some_iff.mp h
  exact ⟨c, List.mem_of_find?_eq_some hfind, by simpa using List.find?_some hfind, hv⟩

/-- Ids are unique, so a snapshot lists a connection once or not at all. -/
theorem filter_id (hunique : (conns.map (·.id)).Nodup) :
    (conns.filter fun c => c.id = x) = (conns.find? fun c => c.id = x).toList := by
  induction conns with
  | nil => rfl
  | cons c conns ih =>
    obtain ⟨hfresh, hrest⟩ := List.nodup_cons.mp hunique
    by_cases hc : c.id = x
    · rw [List.filter_cons_of_pos (by simpa using hc), List.find?_cons_of_pos (by simpa using hc),
        List.filter_eq_nil_iff.mpr]
      · rfl
      · intro c' hc' hx
        exact hfresh (List.mem_map.mpr ⟨c', hc', (of_decide_eq_true hx).trans hc.symm⟩)
    · rw [List.filter_cons_of_neg (by simpa using hc), List.find?_cons_of_neg (by simpa using hc), ih hrest]

/-- What a snapshot leaves in the map of the last observations. -/
theorem ofState_observe (hunique : (conns.map (·.id)).Nodup)
    (hpick : ∀ c ∈ conns, c.id = x → pickBackendID c.chains ≠ "") :
    ((observe ∅ conns)[x]?).map d.ofState = reading d x conns := by
  have hfold : ∀ m : GoMap ConnState, ((observe m conns)[x]?).map d.ofState =
      (reading d x conns).or (m[x]?.map d.ofState) := by
    induction conns with
    | nil => exact fun m => rfl
    | cons c conns ih =>
      intro m
      obtain ⟨hfresh, hrest⟩ := List.nodup_cons.mp hunique
      have hstep := ih hrest fun c' hc' => hpick c' (List.mem_cons_of_mem _ hc')
      rw [observe, List.foldl_cons]
      refine (hstep _).trans ?_
      by_cases hc : c.id = x
      · have hnone : reading d x conns = none := by
          cases hread : reading d x conns with
          | none => rfl
          | some v =>
            obtain ⟨c', hc', hx, -⟩ := exists_of_reading hread
            exact absurd (List.mem_map.mpr ⟨c', hc', hx.trans hc.symm⟩) hfresh
        have hhead : reading d x (c :: conns) = some (d.ofConn c) := by
          rw [reading, List.find?_cons_of_pos (by simpa using hc)]
          rfl
        rw [hnone, hhead, if_neg (hpick c (List.mem_cons_self ..) hc), ← hc, GoMap.getElem?_insert,
          if_pos rfl]
        cases d <;> rfl
      · have htail : reading d x (c :: conns) = reading d x conns := by
          rw [reading, List.find?_cons_of_neg (by simpa using hc)]
          rfl
        rw [htail]
        split_ifs
        · rfl
        · rw [GoMap.getElem?_insert, if_neg (Ne.symm hc)]
  rw [hfold]
  simp

theorem increment_eq_climb (hlast : (last[x]?).map d.ofState = before) (c : Singbox.Connection)
    (hc : c.id = x) : increment d last c = climb before (some (d.ofConn c)) := by
  rw [increment, hc, hlast]
  cases before with
  | none => rfl
  | some a =>
    show (if _ then _ else _) = _
    split_ifs with hle
    · rfl
    · exact (Nat.sub_eq_zero_of_le (Nat.le_of_not_le hle)).symm

/-- The increments of a backend are those of its connections. -/
theorem sum_increment_eq {xs : List String} (hxs : xs.Nodup) (hunique : (conns.map (·.id)).Nodup)
    (hmem : ∀ c ∈ conns, pickBackendID c.chains = b ↔ c.id ∈ xs) :
    ((connsFor b conns).map (increment d last)).sum =
      (xs.map fun x => climb (last[x]?.map d.ofState) (reading d x conns)).sum := by
  have hin : ∀ c ∈ connsFor b conns, increment d last c ≠ 0 → c.id ∈ xs := fun c hc _ =>
    (hmem c (List.mem_of_mem_filter hc)).mp (by simpa using (List.mem_filter.mp hc).2)
  rw [← sum_by_key hxs hin]
  refine congrArg List.sum (List.map_congr_left fun x hx => ?_)
  have hfilter : ((connsFor b conns).filter fun c => c.id = x) = conns.filter fun c => c.id = x := by
    rw [connsFor, List.filter_filter]
    refine List.filter_congr fun c hc => ?_
    by_cases hid : c.id = x
    · simp [hid, (hmem c hc).mpr (hid ▸ hx)]
    · simp [hid]
  rw [hfilter, filter_id hunique, reading]
  cases hfind : conns.find? (fun c => c.id = x) with
  | none => cases last[x]? <;> rfl
  | some c =>
    have hid : c.id = x := by simpa using List.find?_some hfind
    exact (Nat.add_zero _).trans (increment_eq_climb rfl c hid)

/-- Along the snapshots the increments of a backend are those of its connections. -/
theorem moved_eq {xs : List String} (hb : b ≠ "") (hxs : xs.Nodup)
    (hunique : ∀ conns ∈ snaps, (conns.map (·.id)).Nodup)
    (hmem : ∀ conns ∈ snaps, ∀ c ∈ conns, pickBackendID c.chains = b ↔ c.id ∈ xs) :
    moved d b last snaps =
      (xs.map fun x => climbs (last[x]?.map d.ofState) (snaps.map (reading d x))).sum := by
  induction snaps generalizing last with
  | nil => simp [moved, climbs]
  | cons conns snaps ih =>
    have hconns := hmem conns (List.mem_cons_self ..)
    have hrest : moved d b (observe ∅ conns) snaps = _ :=
      ih (fun c hc => hunique c (List.mem_cons_of_mem _ hc)) fun c hc => hmem c (List.mem_cons_of_mem _ hc)
    rw [moved, hrest, sum_increment_eq hxs (hunique conns (List.mem_cons_self ..)) hconns,
      ← List.sum_map_add]
    refine congrArg List.sum (List.map_congr_left fun x hx => ?_)
    rw [ofState_observe (hunique conns (List.mem_cons_self ..))]
    · rfl
    · intro c hc hid hnone
      exact hb ((((hconns c hc).mpr (hid ▸ hx)).symm).trans hnone)

theorem Direction.ofConn_mono {c c' : Singbox.Connection}
    (h : c.upload ≤ c'.upload ∧ c.download ≤ c'.download) : d.ofConn c ≤ d.ofConn c' := by
  cases d with
  | upload => exact h.1
  | download => exact h.2

theorem Steady.rises (h : Steady snaps) (d : Direction) (x : String) :
    Rises none (snaps.map (reading d x)) := by
  have hchain : ∀ (conns : List Singbox.Connection) (snaps : List (List Singbox.Connection)),
      ((conns :: snaps).IsChain fun conns conns' => ∀ c ∈ conns, ∀ c' ∈ conns', c.id = c'.id →
        c.upload ≤ c'.upload ∧ c.download ≤ c'.download) →
      Rises (reading d x conns) (snaps.map (reading d x)) := by
    intro conns snaps hrising
    induction snaps generalizing conns with
    | nil => trivial
    | cons conns' snaps ih =>
      obtain ⟨hstep, hrest⟩ := List.isChain_cons_cons.mp hrising
      refine ⟨fun v hv v' hv' => ?_, ih conns' hrest⟩
      obtain ⟨c, hc, hid, rfl⟩ := exists_of_reading hv
      obtain ⟨c', hc', hid', rfl⟩ := exists_of_reading hv'
      exact Direction.ofConn_mono (hstep c hc c' hc' (hid.trans hid'.symm))
  cases snaps with
  | nil => trivial
  | cons conns snaps => exact ⟨by simp, hchain conns snaps h.rising⟩

theorem Steady.mem_connsOf (h : Steady snaps) (hconns : conns ∈ snaps) {c : Singbox.Connection}
    (hc : c ∈ conns) : pickBackendID c.chains = b ↔ c.id ∈ connsOf b snaps := by
  have hflat : ∀ {conns c}, conns ∈ snaps → c ∈ conns → c ∈ snaps.flatten :=
    fun hconns hc => List.mem_flatten.mpr ⟨_, hconns, hc⟩
  rw [connsOf, List.mem_dedup, List.mem_map]
  constructor
  · intro hpick
    exact ⟨c, List.mem_flatMap.mpr ⟨conns, hconns, List.mem_filter.mpr ⟨hc, by simpa using hpick⟩⟩, rfl⟩
  · rintro ⟨c', hc', hid⟩
    obtain ⟨conns', hconns', hc'⟩ := List.mem_flatMap.mp hc'
    obtain ⟨hc', hpick⟩ := List.mem_filter.mp hc'
    exact (h.backend c (hflat hconns hc) c' (hflat hconns' hc') hid.symm).trans (by simpa using hpick)

theorem Steady.moved_eq_rises (h : Steady snaps) (hb : b ≠ "") :
    moved d b ∅ snaps = ((connsOf b snaps).map fun x =>
      ((runs (snaps.map (reading d x))).map rise).sum).sum := by
  rw [moved_eq hb (List.nodup_dedup _) h.unique fun conns hconns c hc => h.mem_connsOf hconns hc]
  refine congrArg List.sum (List.map_congr_left fun x _ => ?_)
  have hrises := sum_rise_runs (h.rises d x)
  rw [runs_cons_none, List.map_cons, List.sum_cons] at hrises
  exact hrises.symm.trans (Nat.zero_add _)

end Steady

/-- Over the ticks from a new publisher that all get through, the payloads of a backend add up to what each
of its connections has moved in each stretch of ticks that list it, and each payload counts the connections
of its tick. -/
theorem published_deltas_telescope {p : Publisher} {n : ℕ} {tr : List TrafficEvent}
    (h : (p.run n ∅).After tr (.done ())) (hsent : AllSent (fun _ => True) tr)
    (hsteady : Steady (snapshots tr)) :
    (∀ d b, b ≠ "" → sumFor d b (tr.flatMap entriesOf) ≡
        ((connsOf b (snapshots tr)).map fun x =>
          ((runs ((snapshots tr).map (reading d x))).map rise).sum).sum [MOD 2 ^ 64]) ∧
      CountsSessions tr := by
  refine ⟨fun d b hb => ?_, run_countsSessions h⟩
  rw [← hsteady.moved_eq_rises hb]
  exact run_moved hb h hsent

section Fixed

open Eval

/-- A connection moves fifteen bytes in two ticks, is away for one, and moves two more in the next two. -/
def awayTicks : List TrafficEvent × Unit × Unit :=
  replay outside (entryNode.run 5 ∅)
    [{ conns := [uploaded 10] }, {}, {}, { conns := [uploaded 25] }, {}, {}, {},
      { conns := [uploaded 40] }, {}, {}, { conns := [uploaded 42] }, {}, {}] ()

theorem snapshots_awayTicks : snapshots awayTicks.1 =
    [[uploaded 10], [uploaded 25], [], [uploaded 40], [uploaded 42]] := by
  rfl

theorem steady_awayTicks : Steady (snapshots awayTicks.1) := by
  rw [snapshots_awayTicks]
  refine ⟨by decide, ?_, ?_⟩
  · intro c hc c' hc' _
    simp only [List.flatten_cons, List.flatten_nil, List.mem_append, List.mem_singleton, List.not_mem_nil,
      or_false, false_or] at hc hc'
    rcases hc with rfl | rfl | rfl | rfl <;> rcases hc' with rfl | rfl | rfl | rfl <;> rfl
  · simp [uploaded]

theorem published_deltas_telescope_away :
    ((runs ((snapshots awayTicks.1).map (reading .upload "x"))).map rise) = [15, 2] ∧
      sumFor .upload (pickBackendID direct.chains) (awayTicks.1.flatMap entriesOf) ≡ 17 [MOD 2 ^ 64] ∧
      CountsSessions awayTicks.1 := by
  have hsent : AllSent (fun _ => True) awayTicks.1 := allSent_of_noFault
    (run_replay (A := fun e : Answer => e.fail = none) rfl _ (by simp) ()).2
  have hall := published_deltas_telescope
    (run_replay (A := fun _ => True) trivial _ (fun _ _ => trivial) ()).1 hsent steady_awayTicks
  refine ⟨by rfl, ?_, hall.2⟩
  exact hall.1 .upload (pickBackendID direct.chains) (by decide +kernel)

end Fixed

end NodeAgent.Traffic
