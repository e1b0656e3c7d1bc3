import NodeAgent.Traffic.Conservation

/-!
# One tick, three lists

A tick of the backend's publisher makes three things of one list of rows: the node's payload, the users'
payload and the list of live clients. Each is told by the rows alone, whatever the order in which the map
of users is ranged over, and so they agree with each other.
-/

namespace NodeAgent.Traffic

open Lib

/-! ## What the rows say -/

/-- No sum of the tick wraps around: the two of the node and the totals of the clients. -/
structure SumsFit (p : BackendPublisher) (rows : List UserStat) : Prop where
  up : linkSum p linkUplink rows < 2 ^ 64
  down : linkSum p linkDownlink rows < 2 ^ 64
  client : ∀ k, k ∉ p.probe → clientTotal rows k < 2 ^ 64

/-- The client is no probe and has moved something. -/
def Billed (p : BackendPublisher) (rows : List UserStat) (k : String) : Prop :=
  k ∉ p.probe ∧ 0 < clientTotal rows k

/-! ## The tick -/

/-- What the events of a tick have to do with the rows it has read. -/
structure StreamsAgree (p : BackendPublisher) (rows : List UserStat) (tr : List TrafficEvent) : Prop where
  /-- the node's payload -/
  node : ∀ s m r, (⟨.publish s (.node m), r⟩ : TrafficEvent) ∈ tr →
    m = [{ backendNodeID := p.nodeID, bytesIn := linkSum p linkUplink rows,
           bytesOut := linkSum p linkDownlink rows }]
  /-- the users' payload: every client that is billed, once, with its total -/
  users : ∀ s ds r, (⟨.publish s (.users ds), r⟩ : TrafficEvent) ∈ tr →
    (ds.map UserTrafficDelta.identifier).Nodup ∧
      (∀ k n, (⟨k, n⟩ : UserTrafficDelta) ∈ ds ↔ Billed p rows k ∧ n = clientTotal rows k) ∧
      (ds.map UserTrafficDelta.deltaBytes).sum = linkSum p linkUplink rows + linkSum p linkDownlink rows
  /-- with a bucket, a live list is put under the node's key -/
  put : ∀ bucket, p.liveStatsBucket = some bucket → ∃ ts ids r,
    (⟨.kvPut bucket (backendStatsKeyPrefix ++ p.nodeID) ⟨p.nodeID, ts, ids⟩, r⟩ : TrafficEvent) ∈ tr
  /-- the clients of a live list -/
  live : ∀ b key payload r, (⟨.kvPut b key payload, r⟩ : TrafficEvent) ∈ tr →
    (payload.activeClientIDs.getD []).Nodup ∧
      ∀ k, k ∈ payload.activeClientIDs.getD [] ↔ Billed p rows k
  /-- nothing moved, nothing published -/
  zero : linkSum p linkUplink rows = 0 ∧ linkSum p linkDownlink rows = 0 →
    (∀ ev ∈ tr, isPublish ev = false) ∧
      ∀ b key payload r, (⟨.kvPut b key payload, r⟩ : TrafficEvent) ∈ tr →
        payload.activeClientIDs.getD [] = []
  /-- something moved: the node's payload, and after it the users' one -/
  published : ¬ (linkSum p linkUplink rows = 0 ∧ linkSum p linkDownlink rows = 0) →
    ∃ m r, (⟨.publish p.nodeTrafficSubject (.node m), r⟩ : TrafficEvent) ∈ tr ∧
      (r = none → p.userTrafficSubject ≠ "" →
        ∃ ds r', (⟨.publish p.userTrafficSubject (.users ds), r'⟩ : TrafficEvent) ∈ tr)

section Tick

variable {p : BackendPublisher} {rows : List UserStat} {ks : List String} {t : Totals}
  {tr : List TrafficEvent}

theorem Tallied.exact_sums (h : Tallied p rows ks t) (hfits : SumsFit p rows) :
    t.sumUp = linkSum p linkUplink rows ∧ t.sumDown = linkSum p linkDownlink rows := by
  obtain ⟨hup, hdown⟩ := h.sums_of_lt hfits.client
  exact ⟨hup.trans (Nat.mod_eq_of_lt hfits.up), hdown.trans (Nat.mod_eq_of_lt hfits.down)⟩

theorem Tallied.billed_iff (h : Tallied p rows ks t) (hfits : SumsFit p rows) (k : String) :
    k ∈ t.activeIDs ↔ Billed p rows k := by
  rw [h.ids, List.mem_filter, decide_eq_true_eq, Billed]
  constructor
  · rintro ⟨hk, hmod⟩
    exact ⟨((h.clients.mem k).mp hk).1, Nat.pos_of_ne_zero fun hzero => hmod (by rw [hzero, Nat.zero_mod])⟩
  · rintro ⟨hprobe, hpos⟩
    refine ⟨h.clients.mem_of_total hprobe hpos.ne', ?_⟩
    rw [Nat.mod_eq_of_lt (hfits.client k hprobe)]
    exact hpos.ne'

theorem Tallied.nodup (h : Tallied p rows ks t) : t.activeIDs.Nodup := by
  rw [h.ids]
  exact h.clients.nodup.filter _

theorem Tallied.identifiers (h : Tallied p rows ks t) :
    t.deltas.map UserTrafficDelta.identifier = t.activeIDs := by
  rw [h.deltas, List.map_map]
  exact List.map_id _

theorem Tallied.mem_deltas (h : Tallied p rows ks t) (hfits : SumsFit p rows) (k : String) (n : ℕ) :
    (⟨k, n⟩ : UserTrafficDelta) ∈ t.deltas ↔ Billed p rows k ∧ n = clientTotal rows k := by
  rw [h.deltas, List.mem_map, ← h.billed_iff hfits]
  have hmod : k ∈ t.activeIDs → clientTotal rows k % 2 ^ 64 = clientTotal rows k := fun hk =>
    Nat.mod_eq_of_lt (hfits.client k ((h.billed_iff hfits k).mp hk).1)
  constructor
  · rintro ⟨k', hk, heq⟩
    cases heq
    exact ⟨hk, hmod hk⟩
  · rintro ⟨hk, rfl⟩
    exact ⟨k, hk, by rw [hmod hk]⟩

theorem Tallied.activeIDs_eq_nil_iff (h : Tallied p rows ks t) (hfits : SumsFit p rows) :
    t.activeIDs = [] ↔ t.sumUp = 0 ∧ t.sumDown = 0 := by
  constructor
  · intro hnil
    rw [h.sumUp, h.sumDown, hnil]
    exact ⟨rfl, rfl⟩
  · rintro ⟨hup, hdown⟩
    obtain ⟨hup', hdown'⟩ := h.exact_sums hfits
    refine List.eq_nil_iff_forall_not_mem.mpr fun k hk => ?_
    obtain ⟨hprobe, hpos⟩ := (h.billed_iff hfits k).mp hk
    have hle : clientTotal rows k ≤ linkSum p linkUplink rows + linkSum p linkDownlink rows :=
      clientTotal_le hprobe
    omega

theorem mem_publish {r : Option GoError} (h : (p.publish t).After tr (.done r)) {ev : TrafficEvent}
    (hev : ev ∈ tr) : ¬ (t.sumUp = 0 ∧ t.sumDown = 0) ∧ ∃ s m r', ev = ⟨.publish s m, r'⟩ ∧
      (m = .node [{ backendNodeID := p.nodeID, bytesIn := t.sumUp, bytesOut := t.sumDown }] ∨
        m = .users t.deltas) := by
  rcases publish_events h with ⟨-, -, rfl⟩ | ⟨hsome, r', rest, rfl, hrest, -, -⟩
  · cases hev
  · refine ⟨hsome, ?_⟩
    rcases List.mem_cons.mp hev with rfl | hev
    · exact ⟨_, _, r', rfl, .inl rfl⟩
    · rcases hrest with rfl | ⟨r'', rfl⟩
      · cases hev
      · exact ⟨_, _, r'', List.mem_singleton.mp hev, .inr rfl⟩

/-- What has moved is published: the node's payload, and if that gets through, the users' one. -/
theorem publish_moved {r : Option GoError} (h : (p.publish t).After tr (.done r))
    (hsome : ¬ (t.sumUp = 0 ∧ t.sumDown = 0)) (hdeltas : t.deltas ≠ []) :
    ∃ m r', (⟨.publish p.nodeTrafficSubject (.node m), r'⟩ : TrafficEvent) ∈ tr ∧
      (r' = none → p.userTrafficSubject ≠ "" →
        ∃ ds r'', (⟨.publish p.userTrafficSubject (.users ds), r''⟩ : TrafficEvent) ∈ tr) := by
  rcases publish_events h with ⟨h₁, h₂, -⟩ | ⟨-, r', rest, rfl, hrest, -, hboth⟩
  · exact absurd ⟨h₁, h₂⟩ hsome
  · refine ⟨_, r', List.mem_cons_self, fun hr hs => ?_⟩
    rcases hrest with rfl | ⟨r'', rfl⟩
    · exact absurd rfl (hboth hr hs hdeltas)
    · exact ⟨_, r'', List.mem_cons_of_mem _ (List.mem_singleton_self _)⟩

/-- With a bucket the live list is put there, and nothing else is put. -/
theorem publishLive_puts {ids : Option (List String)} (h : (publishLive p ids).After tr (.done ())) :
    (∀ bucket, p.liveStatsBucket = some bucket → ∃ ts r,
      (⟨.kvPut bucket (backendStatsKeyPrefix ++ p.nodeID) ⟨p.nodeID, ts, ids⟩, r⟩ : TrafficEvent) ∈ tr) ∧
    ∀ b key payload r, (⟨.kvPut b key payload, r⟩ : TrafficEvent) ∈ tr → payload.activeClientIDs = ids := by
  unfold publishLive at h
  split at h
  · next hnone =>
    obtain ⟨rfl, -⟩ := Prog.after_done_iff.mp h
    refine ⟨fun bucket hsome => ?_, fun b key payload r hmem => ?_⟩
    · rw [hnone] at hsome
      cases hsome
    · cases hmem
  · next bucket hsome =>
    obtain ⟨ts, tr₁, rfl, h₁⟩ := Prog.after_invoke_done_iff.mp h
    obtain ⟨r', tr₂, rfl, h₂⟩ := Prog.after_invoke_done_iff.mp h₁
    obtain ⟨rfl, -⟩ := Prog.after_done_iff.mp h₂
    refine ⟨fun bucket' hsome' => ?_, fun b key payload r hmem => ?_⟩
    · cases hsome.symm.trans hsome'
      exact ⟨ts, r', by simp⟩
    · rcases List.mem_cons.mp hmem with heq | hmem
      · cases heq
      · cases List.mem_singleton.mp hmem
        rfl

/-- The events of a tick that has read the rows: no publish comes before the last part, and the live list is
put there, with the active clients. -/
theorem tick_parts {r : Option GoError}
    (h : p.tick.After (⟨.queryUserStats, .ok rows⟩ :: tr) (.done r)) :
    ∃ ks t pre pubs, tr = pre ++ pubs ∧ Tallied p rows ks t ∧ (p.publish t).After pubs (.done r) ∧
      (∀ ev ∈ pre, isPublish ev = false) ∧
      (∀ bucket, p.liveStatsBucket = some bucket → ∃ ts ids r,
        (⟨.kvPut bucket (backendStatsKeyPrefix ++ p.nodeID) ⟨p.nodeID, ts, ids⟩, r⟩ : TrafficEvent) ∈ pre) ∧
      ∀ b key payload r, (⟨.kvPut b key payload, r⟩ : TrafficEvent) ∈ pre →
        payload.activeClientIDs.getD [] = t.activeIDs := by
  rcases backend_tick_stages h with ⟨err, heq⟩ |
    ⟨rows', ks, t, ids, range, live, pubs, heq, hrange, ht, hids, hlive, hpub⟩
  · cases heq
  · cases heq
    obtain ⟨hput, hputs⟩ := publishLive_puts hlive
    refine ⟨ks, t, range ++ live, pubs, (List.append_assoc ..).symm, ht, hpub, fun ev hev => ?_,
      fun bucket hsome => ?_, fun b key payload r hmem => ?_⟩
    · rcases List.mem_append.mp hev with hev | hev
      · obtain ⟨c, r⟩ := ev
        obtain ⟨keys, rfl⟩ := hrange _ hev
        rfl
      · exact (publishLive_silent hlive ev hev).1
    · obtain ⟨ts, r', hmem⟩ := hput bucket hsome
      exact ⟨ts, ids, r', List.mem_append_right _ hmem⟩
    · rcases List.mem_append.mp hmem with hmem | hmem
      · obtain ⟨keys, hc⟩ := hrange _ hmem
        cases hc
      · rw [hputs b key payload r hmem, hids]

/-- The three lists of a tick that has read the rows agree, if its sums fit. -/
theorem tick_streams_agree {r : Option GoError}
    (h : p.tick.After (⟨.queryUserStats, .ok rows⟩ :: tr) (.done r)) (hfits : SumsFit p rows) :
    StreamsAgree p rows tr := by
  obtain ⟨ks, t, pre, pubs, rfl, ht, hpub, hpre, hput, hlive⟩ := tick_parts h
  obtain ⟨hup, hdown⟩ := ht.exact_sums hfits
  have hpubs : ∀ s m r, (⟨.publish s m, r⟩ : TrafficEvent) ∈ pre ++ pubs →
      m = .node [{ backendNodeID := p.nodeID, bytesIn := t.sumUp, bytesOut := t.sumDown }] ∨
        m = .users t.deltas := by
    intro s m r hmem
    rcases List.mem_append.mp hmem with hmem | hmem
    · cases hpre _ hmem
    · obtain ⟨-, s', m', r', heq, hm⟩ := mem_publish hpub hmem
      cases heq
      exact hm
  have hputs : ∀ b key payload r, (⟨.kvPut b key payload, r⟩ : TrafficEvent) ∈ pre ++ pubs →
      payload.activeClientIDs.getD [] = t.activeIDs := by
    intro b key payload r hmem
    rcases List.mem_append.mp hmem with hmem | hmem
    · exact hlive b key payload r hmem
    · obtain ⟨-, s', m', r', heq, -⟩ := mem_publish hpub hmem
      cases heq
  refine ⟨fun s m r hmem => ?_, fun s ds r hmem => ?_, fun bucket hsome => ?_,
    fun b key payload r hmem => ?_, fun hzero => ?_, fun hsome => ?_⟩
  · rcases hpubs s _ r hmem with heq | heq
    · cases heq
      rw [← hup, ← hdown]
    · cases heq
  · rcases hpubs s _ r hmem with heq | heq
    · cases heq
    · cases heq
      exact ⟨by rw [ht.identifiers]; exact ht.nodup, ht.mem_deltas hfits,
        (ht.deltas_held.2.mpr hfits.client).symm⟩
  · obtain ⟨ts, ids, r', hmem⟩ := hput bucket hsome
    exact ⟨ts, ids, r', List.mem_append_left _ hmem⟩
  · rw [hputs b key payload r hmem]
    exact ⟨ht.nodup, ht.billed_iff hfits⟩
  · rw [← hup, ← hdown] at hzero
    refine ⟨fun ev hev => ?_, fun b key payload r hmem => ?_⟩
    · rcases List.mem_append.mp hev with hev | hev
      · exact hpre ev hev
      · exact absurd hzero (mem_publish hpub hev).1
    · rw [hputs b key payload r hmem, (ht.activeIDs_eq_nil_iff hfits).mpr hzero]
  · rw [← hup, ← hdown] at hsome
    have hdeltas : t.deltas ≠ [] := by
      intro hnil
      refine hsome ((ht.activeIDs_eq_nil_iff hfits).mp ?_)
      rw [← ht.identifiers, hnil]
      rfl
    obtain ⟨m, r', hnode, husers⟩ := publish_moved hpub hsome hdeltas
    refine ⟨m, r', List.mem_append_right _ hnode, fun hr hs => ?_⟩
    obtain ⟨ds, r'', hmem⟩ := husers hr hs
    exact ⟨ds, r'', List.mem_append_right _ hmem⟩

end Tick

/-- Three clients, one of them the probe, with repeated, negative and unknown rows. -/
def mixedRows : List UserStat :=
  [⟨"c", "uplink", 5⟩, ⟨"probe", "uplink", 100⟩, ⟨"d", "other", 9⟩, ⟨"c", "downlink", 7⟩,
   ⟨"c", "uplink", -3⟩, ⟨"c", "uplink", 2⟩]

/-- The backend's node with a probe and a live list. -/
def probedNode : BackendPublisher :=
  { backendNode with probe := ["probe"], liveStatsBucket := some "live" }

def mixedTick : List TrafficEvent × Option GoError × Unit :=
  replay outside probedNode.tick [{ stats := mixedRows }] ()

theorem sumsFit_mixedRows : SumsFit probedNode mixedRows := by
  have hlt : linkSum probedNode linkUplink mixedRows + linkSum probedNode linkDownlink mixedRows <
      2 ^ 64 := by
    decide +kernel
  exact ⟨by omega, by omega, fun k hk => (clientTotal_le hk).trans_lt hlt⟩

theorem tick_streams_agree_mixed : ∃ tr, mixedTick.1 = ⟨.queryUserStats, .ok mixedRows⟩ :: tr ∧
    StreamsAgree probedNode mixedRows tr ∧ linkSum probedNode linkUplink mixedRows = 7 ∧
    linkSum probedNode linkDownlink mixedRows = 7 ∧
    (⟨.kvPut "live" "backend.n" ⟨"n", 0, some ["c"]⟩, none⟩ : TrafficEvent) ∈ tr := by
  have hrun : probedNode.tick.After mixedTick.1 (.done mixedTick.2.1) :=
    (run_replay (A := fun _ => True) trivial _ (fun _ _ => trivial) ()).1
  exact ⟨_, rfl, tick_streams_agree hrun sumsFit_mixedRows, by decide +kernel, by decide +kernel,
    List.mem_of_getElem? (i := 2) (by rfl)⟩

end NodeAgent.Traffic
