import NodeAgent.Singboxgen.Tags
import NodeAgent.Executor.EntryActions

/-!
# Whose backend a connection goes through

Two readers attribute the live connections of sing-box to backends. The drain of a flip counts them by
the last tag of their chains (`internal/adapters/singbox/connections.go`, `OldBackendConnections`), the
traffic publisher scans a chain for the first per-user tag (`internal/app/traffic/publisher.go`).
-/

namespace NodeAgent

open Lib Singboxgen

/-! ## Counting in a map -/

namespace GoMap

/-- `m[k]++` for every key. -/
def tally (keys : List String) : GoMap ℕ := keys.foldl (fun m k => m.insert k (m[k]?.getD 0 + 1)) ∅

theorem tally_snoc (keys : List String) (k : String) :
    tally (keys ++ [k]) = (tally keys).insert k ((tally keys)[k]?.getD 0 + 1) := by
  rw [tally, List.foldl_append]
  rfl

theorem getElem?_tally (keys : List String) (k : String) :
    (tally keys)[k]? = if k ∈ keys then some (keys.count k) else none := by
  induction keys using List.reverseRecOn with
  | nil => simp [tally]
  | append_singleton keys k' ih =>
    rw [tally_snoc, GoMap.getElem?_insert, List.count_append]
    by_cases hk : k = k'
    · subst hk
      rw [if_pos rfl, if_pos (by simp), List.count_singleton_self, ih]
      split_ifs with hmem
      · rfl
      · rw [List.count_eq_zero_of_not_mem hmem]
        rfl
    · rw [if_neg hk, ih, List.count_singleton]
      simp [hk, Ne.symm hk]

theorem getD_tally (keys : List String) (k : String) : (tally keys)[k]?.getD 0 = keys.count k := by
  rw [getElem?_tally]
  split_ifs with hmem
  · rfl
  · exact (List.count_eq_zero_of_not_mem hmem).symm

/-- The map lists every key with its number. -/
theorem toList_tally_perm (keys : List String) :
    (tally keys).toList.Perm (keys.dedup.map fun k => (k, keys.count k)) := by
  have hkeys : (tally keys).toList.Nodup := by
    refine List.Nodup.of_map Prod.fst ?_
    rw [Std.ExtTreeMap.map_fst_toList_eq_keys]
    exact Std.ExtTreeMap.nodup_keys
  have hinj : Function.Injective fun k => (k, keys.count k) := fun a b h => (Prod.mk.inj h).1
  refine (List.perm_ext_iff_of_nodup hkeys ((List.nodup_dedup _).map hinj)).mpr ?_
  rintro ⟨k, n⟩
  rw [Std.ExtTreeMap.mem_toList_iff_getElem?_eq_some, getElem?_tally]
  constructor
  · intro h
    split_ifs at h with hmem
    exact List.mem_map.mpr ⟨k, List.mem_dedup.mpr hmem, by rw [Option.some.inj h]⟩
  · intro h
    obtain ⟨k', hmem, heq⟩ := List.mem_map.mp h
    obtain ⟨rfl, rfl⟩ := Prod.mk.inj heq
    rw [if_pos (List.mem_dedup.mp hmem)]

theorem sum_tally (keys : List String) : ((tally keys).toList.map Prod.snd).sum = keys.length := by
  rw [((toList_tally_perm keys).map Prod.snd).sum_eq, List.map_map]
  exact List.sum_map_count_dedup_eq_length keys

theorem size_tally (keys : List String) : (tally keys).size = keys.dedup.length := by
  rw [← Std.ExtTreeMap.length_toList, (toList_tally_perm keys).length_eq, List.length_map]

end GoMap

/-! ## The connections of sing-box -/

namespace Singbox

/-- A connection as the Clash API lists it. -/
structure Connection where
  id : String := ""
  chains : List String
  upload : ℕ := 0
  download : ℕ := 0
  deriving DecidableEq, Repr

/-- The connections, with their number by outbound. -/
structure Connections where
  total : ℕ
  perOutbound : GoMap ℕ
  conns : List Connection

/-- The last element of the chain, by which `Connections` counts. -/
def lastOutbound (chain : List String) : String := chain.getLastD ""

/-- The tag under which a connection is counted. -/
def countedUnder (conn : Connection) : String :=
  if lastOutbound conn.chains = "" then "_unknown" else lastOutbound conn.chains

/-- `Client.Connections` on the decoded response. -/
def connections (dto : List Connection) : Connections where
  total := dto.length
  perOutbound := dto.foldl (fun m conn =>
    m.insert (countedUnder conn) (m[countedUnder conn]?.getD 0 + 1)) ∅
  conns := dto

theorem perOutbound_eq_tally (dto : List Connection) :
    (connections dto).perOutbound = GoMap.tally (dto.map countedUnder) := by
  rw [GoMap.tally, List.foldl_map]
  rfl

theorem perOutbound_sum {dto : List Connection} {l : List (String × ℕ)}
    (hl : l.Perm (connections dto).perOutbound.toList) (P : String → Bool) :
    ((l.filter fun x => P x.1).map Prod.snd).sum = dto.countP fun conn => P (countedUnder conn) := by
  rw [perOutbound_eq_tally] at hl
  have hperm := ((hl.trans (GoMap.toList_tally_perm _)).filter fun x => P x.1).map Prod.snd
  rw [hperm.sum_eq, List.filter_map, List.map_map]
  show (((dto.map countedUnder).dedup.filter P).map (dto.map countedUnder).count).sum = _
  rw [List.sum_map_count_dedup_filter_eq_countP, List.countP_map]
  rfl

end Singbox

/-! ## The traffic publisher -/

namespace Traffic

/-- The backend of the first per-user tag. -/
def pickBackendID : List String → String
  | [] => ""
  | tag :: tags =>
    match parsePerUserOutboundTag tag with
    | some (_, backend) => backend
    | none => pickBackendID tags

/-- The tag of an outbound that the builder makes for a client and a backend with UUIDs. -/
def IsPerUserTag [Lowering] (tag : String) : Prop :=
  ∃ c b, UuidShaped c ∧ UuidShaped b ∧ tag = perUserOutboundTagFor c b

/-- A chain with at most one per-user tag; the other entries do not look like one. -/
def OneUser [Lowering] (chains : List String) : Prop :=
  (∀ tag ∈ chains, IsPerUserTag tag ∨ hasTagPrefix tag = false) ∧
    ∀ tag ∈ chains, ∀ tag' ∈ chains, IsPerUserTag tag → IsPerUserTag tag' → tag = tag'

section Chain

variable {chains : List String} {b : BackendID}

theorem parse_eq_none {tag : String} (h : hasTagPrefix tag = false) :
    parsePerUserOutboundTag tag = none := by
  unfold parsePerUserOutboundTag
  rw [if_pos h]

theorem toLower_ne_empty [Lowering] (hb : UuidShaped b) : toLower b ≠ "" := by
  intro h
  have hlen := length_toLower hb
  rw [h] at hlen
  simp at hlen

theorem perUserOutboundTagFor_congr [Lowering] {c b b' : String} (h : toLower b = toLower b') :
    perUserOutboundTagFor c b = perUserOutboundTagFor c b' := by
  unfold perUserOutboundTagFor
  rw [h]

/-- The publisher picks a backend exactly if one of its tags is in the chain. -/
theorem pickBackendID_eq_iff [Lowering] (hb : UuidShaped b) (h : OneUser chains) :
    pickBackendID chains = toLower b ↔
      ∃ c, UuidShaped c ∧ perUserOutboundTagFor c b ∈ chains := by
  obtain ⟨hform, huniq⟩ := h
  induction chains with
  | nil => simp [pickBackendID, (toLower_ne_empty hb).symm]
  | cons tag tags ih =>
    have hrest := ih (fun t ht => hform t (List.mem_cons_of_mem _ ht)) fun t ht t' ht' =>
      huniq t (List.mem_cons_of_mem _ ht) t' (List.mem_cons_of_mem _ ht')
    rcases hform tag List.mem_cons_self with ⟨c', b', hc', hb', rfl⟩ | hno
    · rw [pickBackendID, parse_perUserOutboundTagFor hc' hb']
      constructor
      · intro heq
        exact ⟨c', hc', by rw [perUserOutboundTagFor_congr heq]; exact List.mem_cons_self⟩
      · rintro ⟨c, hc, hmem⟩
        have htag := huniq _ List.mem_cons_self _ hmem ⟨c', b', hc', hb', rfl⟩ ⟨c, b, hc, hb, rfl⟩
        have hparse := parse_perUserOutboundTagFor hc hb
        rw [← htag, parse_perUserOutboundTagFor hc' hb'] at hparse
        exact (Prod.mk.inj (Option.some.inj hparse)).2
    · rw [pickBackendID, parse_eq_none hno, hrest]
      refine exists_congr fun c => and_congr_right fun _ => ?_
      rw [List.mem_cons]
      constructor
      · exact .inr
      · rintro (rfl | hmem)
        · rw [hasTagPrefix_perUserOutboundTagFor] at hno
          cases hno
        · exact hmem

/-- The drain counts a connection for a backend exactly if the chain ends with one of its tags. -/
theorem counted_iff [Lowering] {conn : Singbox.Connection} (hb : UuidShaped b) (h : OneUser conn.chains) :
    (hasTagPrefix (Singbox.countedUnder conn) = true ∧
      ("-" ++ toLower b).toList <:+ (Singbox.countedUnder conn).toList) ↔
      ∃ c, UuidShaped c ∧ conn.chains.getLast? = some (perUserOutboundTagFor c b) := by
  have hlast : Singbox.lastOutbound conn.chains = conn.chains.getLast?.getD "" :=
    List.getLastD_eq_getLast?
  unfold Singbox.countedUnder
  constructor
  · intro ⟨hpre, hsuf⟩
    split_ifs at hpre hsuf with hempty
    · exact absurd hpre (by decide)
    · cases hl : conn.chains.getLast? with
      | none =>
        rw [hlast, hl] at hempty
        exact absurd rfl hempty
      | some tag =>
        rw [hlast, hl, Option.getD_some] at hpre hsuf
        rcases h.1 tag (List.mem_of_getLast? hl) with ⟨c, b', hc, hb', rfl⟩ | hno
        · refine ⟨c, hc, ?_⟩
          rw [perUserOutboundTagFor_congr ((suffix_perUserOutboundTagFor_iff hb' hb).mp hsuf)]
        · rw [hno] at hpre
          cases hpre
  · rintro ⟨c, hc, hl⟩
    have hne : perUserOutboundTagFor c b ≠ "" := fun h => by
      have hpre := hasTagPrefix_perUserOutboundTagFor c b
      rw [h] at hpre
      exact absurd hpre (by decide)
    rw [hlast, hl, Option.getD_some, if_neg hne]
    exact ⟨hasTagPrefix_perUserOutboundTagFor c b,
      (suffix_perUserOutboundTagFor_iff hb hb).mpr rfl⟩

end Chain

/-! ## The two counts -/

/-- Two counts of which one implies the other agree exactly if they count the same. -/
theorem countP_eq_iff {α : Type} {l : List α} {p q : α → Bool} (h : ∀ x ∈ l, p x = true → q x = true) :
    l.countP p = l.countP q ↔ ∀ x ∈ l, q x = true → p x = true := by
  induction l with
  | nil => simp
  | cons x l ih =>
    have hrest := ih fun y hy => h y (List.mem_cons_of_mem _ hy)
    have hle : l.countP p ≤ l.countP q :=
      List.countP_mono_left fun y hy => h y (List.mem_cons_of_mem _ hy)
    have hx := h x List.mem_cons_self
    rw [List.countP_cons, List.countP_cons, List.forall_mem_cons, ← hrest]
    cases hp : p x with
    | true => simp [hx hp]
    | false =>
      cases hq : q x with
      | true =>
        simp only [Bool.false_eq_true, if_false, if_true, true_implies, false_and, iff_false]
        omega
      | false => simp

/-- The tags that the drain of a backend adds up. -/
def drains [Lowering] (b : BackendID) (tag : String) : Bool :=
  "b-".toList.isPrefixOf tag.toList ∧ ("-" ++ toLower b).toList.isSuffixOf tag.toList

theorem oldBackendConnections_after_iff [Lowering] {conns : List Singbox.Connection} {plan : FlipPlan}
    {perOutbound : List (String × ℕ)} {n : ℕ}
    (hper : perOutbound.Perm (Singbox.connections conns).perOutbound.toList) :
    (EntryActions.oldBackendConnections plan).After [⟨.connections, .ok perOutbound⟩]
      (.done (.ok n)) ↔ n = conns.countP fun conn => drains plan.oldBackend (Singbox.countedUnder conn) := by
  rw [← Singbox.perOutbound_sum hper]
  constructor
  · intro hrun
    obtain ⟨r, tr, heq, hdone⟩ := Prog.after_invoke_done_iff.mp hrun
    cases heq
    obtain ⟨-, hn⟩ := Prog.after_done_iff.mp hdone
    simp only [Prog.done.injEq, Except.ok.injEq] at hn
    exact hn
  · rintro rfl
    exact .cons _ (.nil _)

/-- The drain of a backend and the publisher count the same connections exactly if, in every chain that
goes through the backend, its tag is the last. -/
theorem drain_count_eq_iff [Lowering] {conns : List Singbox.Connection} {plan : FlipPlan}
    {perOutbound : List (String × ℕ)} {n : ℕ} (hb : UuidShaped plan.oldBackend)
    (hconns : ∀ conn ∈ conns, OneUser conn.chains)
    (hper : perOutbound.Perm (Singbox.connections conns).perOutbound.toList)
    (hrun : (EntryActions.oldBackendConnections plan).After [⟨.connections, .ok perOutbound⟩]
      (.done (.ok n))) :
    n = conns.countP (fun conn => pickBackendID conn.chains = toLower plan.oldBackend) ↔
      ∀ conn ∈ conns, ∀ c, UuidShaped c → perUserOutboundTagFor c plan.oldBackend ∈ conn.chains →
        conn.chains.getLast? = some (perUserOutboundTagFor c plan.oldBackend) := by
  have hdrain : ∀ conn ∈ conns, (drains plan.oldBackend (Singbox.countedUnder conn) = true ↔
      ∃ c, UuidShaped c ∧ conn.chains.getLast? = some (perUserOutboundTagFor c plan.oldBackend)) := by
    intro conn hconn
    rw [drains, decide_eq_true_eq, List.isSuffixOf_iff_suffix, ← counted_iff hb (hconns conn hconn)]
    rfl
  have hpick : ∀ conn ∈ conns, (decide (pickBackendID conn.chains = toLower plan.oldBackend) = true ↔
      ∃ c, UuidShaped c ∧ perUserOutboundTagFor c plan.oldBackend ∈ conn.chains) := by
    intro conn hconn
    rw [decide_eq_true_eq, pickBackendID_eq_iff hb (hconns conn hconn)]
  rw [(oldBackendConnections_after_iff hper).mp hrun, countP_eq_iff]
  · constructor
    · intro h conn hconn c hc hmem
      obtain ⟨c', hc', hlast⟩ :=
        (hdrain conn hconn).mp (h conn hconn ((hpick conn hconn).mpr ⟨c, hc, hmem⟩))
      have htag := (hconns conn hconn).2 _ hmem _ (List.mem_of_getLast? hlast)
        ⟨c, _, hc, hb, rfl⟩ ⟨c', _, hc', hb, rfl⟩
      rw [htag]
      exact hlast
    · intro h conn hconn hp
      obtain ⟨c, hc, hmem⟩ := (hpick conn hconn).mp hp
      exact (hdrain conn hconn).mpr ⟨c, hc, h conn hconn c hc hmem⟩
  · intro conn hconn hp
    obtain ⟨c, hc, hlast⟩ := (hdrain conn hconn).mp hp
    exact (hpick conn hconn).mpr ⟨c, hc, List.mem_of_getLast? hlast⟩

section Fixed

open Eval

/-- The UUID with this digit everywhere. -/
def uuidOf (digit : Char) : String := dashJoin ([8, 4, 4, 4, 12].map fun n => List.replicate n digit)

theorem uuidShaped_uuidOf (digit : Char) (h : isHex digit = true) : UuidShaped (uuidOf digit) := by
  refine uuidShaped_dashJoin (by simp) fun p hp c hc => ?_
  obtain ⟨n, -, rfl⟩ := List.mem_map.mp hp
  rw [List.eq_of_mem_replicate hc]
  exact h

def someClient : ClientID := uuidOf '1'

def someBackend : BackendID := uuidOf '2'

/-- A flip away from the backend. -/
def drained : FlipPlan where
  placementID := "p"
  oldBackend := someBackend
  newBackend := "b"
  drainTimeout := 0
  opVersion := 2
  desired := {}

theorem uuidShaped_drained : UuidShaped drained.oldBackend := uuidShaped_uuidOf '2' rfl

/-- A connection of the client through the outbound for the backend. -/
def direct : Singbox.Connection where
  chains := [perUserOutboundTagFor someClient someBackend]

/-- The same through the client's selector: sing-box names the outbound first. -/
def viaSelector : Singbox.Connection where
  chains := [perUserOutboundTagFor someClient someBackend, perUserSelectorTagFor someClient]

theorem oneUser_direct : OneUser direct.chains := by
  have htag : IsPerUserTag (perUserOutboundTagFor someClient someBackend) :=
    ⟨_, _, uuidShaped_uuidOf '1' rfl, uuidShaped_uuidOf '2' rfl, rfl⟩
  simp only [OneUser, direct, List.forall_mem_singleton]
  exact ⟨.inl htag, fun _ _ => trivial⟩

theorem drain_count_direct : ∃ n, (EntryActions.oldBackendConnections drained).After
    [⟨.connections, .ok (Singbox.connections [direct]).perOutbound.toList⟩] (.done (.ok n)) ∧
    n = [direct].countP (fun conn => pickBackendID conn.chains = toLower drained.oldBackend) := by
  have hrun : (EntryActions.oldBackendConnections drained).After _ _ :=
    (oldBackendConnections_after_iff (List.Perm.refl
      (Singbox.connections [direct]).perOutbound.toList)).mpr rfl
  refine ⟨_, hrun, ?_⟩
  refine (drain_count_eq_iff uuidShaped_drained (List.forall_mem_singleton.mpr oneUser_direct)
    (List.Perm.refl _) hrun).mpr fun conn hconn c _ hmem => ?_
  rw [List.mem_singleton.mp hconn] at hmem ⊢
  rw [List.mem_singleton.mp hmem]
  rfl

theorem hasTagPrefix_selector : hasTagPrefix (perUserSelectorTagFor someClient) = false := by
  decide +kernel

theorem oneUser_viaSelector : OneUser viaSelector.chains := by
  have htag : IsPerUserTag (perUserOutboundTagFor someClient someBackend) :=
    ⟨_, _, uuidShaped_uuidOf '1' rfl, uuidShaped_uuidOf '2' rfl, rfl⟩
  have hnot : ¬ IsPerUserTag (perUserSelectorTagFor someClient) := by
    rintro ⟨c, b, -, -, heq⟩
    have hsel := hasTagPrefix_selector
    rw [heq, hasTagPrefix_perUserOutboundTagFor] at hsel
    cases hsel
  constructor
  · rintro tag htag'
    rcases List.mem_pair.mp htag' with rfl | rfl
    · exact .inl htag
    · exact .inr hasTagPrefix_selector
  · intro tag h tag' h' hp hp'
    rcases List.mem_pair.mp h with rfl | rfl
    · rcases List.mem_pair.mp h' with rfl | rfl
      · rfl
      · exact absurd hp' hnot
    · exact absurd hp hnot

/-- The drain sees no connection where the publisher sees one. -/
theorem drain_misses_selector : OneUser viaSelector.chains ∧
    (EntryActions.oldBackendConnections drained).After
      [⟨.connections, .ok (Singbox.connections [viaSelector]).perOutbound.toList⟩] (.done (.ok 0)) ∧
    [viaSelector].countP (fun conn => pickBackendID conn.chains = toLower drained.oldBackend) = 1 := by
  refine ⟨oneUser_viaSelector, (oldBackendConnections_after_iff (List.Perm.refl _)).mpr ?_, ?_⟩
  · have hnone : ¬ drains drained.oldBackend (Singbox.countedUnder viaSelector) = true := by
      rw [drains, decide_eq_true_eq]
      exact fun h => absurd h.1 (by decide +kernel)
    rw [List.countP_singleton, if_neg hnone]
  · rw [List.countP_singleton, if_pos]
    rw [decide_eq_true_eq, pickBackendID_eq_iff uuidShaped_drained oneUser_viaSelector]
    exact ⟨_, uuidShaped_uuidOf '1' rfl, List.mem_cons_self⟩

end Fixed

end Traffic

end NodeAgent
