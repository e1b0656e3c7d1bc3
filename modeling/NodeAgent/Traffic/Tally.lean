import NodeAgent.Traffic.Publisher
import NodeAgent.Lib.Sums

/-!
# The sums of a tick

The backend's publisher adds up the rows of xray client by client, and the clients to the node's two sums. All
of these are `uint64`: they are what the rows say exactly if they fit.
-/

namespace NodeAgent.Traffic

open Lib

/-! ## What the rows say -/

/-- The positive values among some rows. -/
def sumWhere (q : UserStat → Prop) [DecidablePred q] (rows : List UserStat) : ℕ :=
  ((rows.filter fun s => q s ∧ 0 < s.value).map fun s => s.value.toNat).sum

/-- What went over a link, without the probes. -/
def linkSum (p : BackendPublisher) (link : String) (rows : List UserStat) : ℕ :=
  sumWhere (fun s => s.clientID ∉ p.probe ∧ s.link = link) rows

/-- What a client moved over the two links. -/
def clientTotal (rows : List UserStat) (k : String) : ℕ :=
  sumWhere (fun s => s.clientID = k ∧ (s.link = linkUplink ∨ s.link = linkDownlink)) rows

/-- The node's two sums fit into 64 bits. A client whose total is 2⁶⁴ would be taken for one that has moved
nothing. -/
structure NodeFits (p : BackendPublisher) (rows : List UserStat) : Prop where
  up : linkSum p linkUplink rows < 2 ^ 64
  down : linkSum p linkDownlink rows < 2 ^ 64
  client : ∀ k, k ∉ p.probe → clientTotal rows k ≠ 2 ^ 64

/-- The totals of the clients fit into 64 bits, and the node's two sums, which decide whether anything is
published, do not both wrap around to nothing. -/
structure UsersFit (p : BackendPublisher) (rows : List UserStat) : Prop where
  client : ∀ k, k ∉ p.probe → clientTotal rows k < 2 ^ 64
  node : linkSum p linkUplink rows % 2 ^ 64 = 0 → linkSum p linkDownlink rows % 2 ^ 64 = 0 →
    linkSum p linkUplink rows = 0 ∧ linkSum p linkDownlink rows = 0

/-! ## The users -/

section Rows

variable {p : BackendPublisher} {rows : List UserStat}

/-- The rows of a client. -/
def rowsOf (rows : List UserStat) (k : String) : List UserStat := rows.filter fun s => s.clientID = k

/-- The bytes of a row; there are two links. -/
def UserStat.bytes (s : UserStat) : ℕ :=
  if s.link = linkUplink ∨ s.link = linkDownlink then s.value.toNat else 0

/-- A number read off an accumulator, and what a row adds to it. -/
structure Meter where
  read : Accum → ℕ
  row : UserStat → ℕ
  start : read {} = 0
  add : ∀ (u : Accum) (s : UserStat) (n : ℕ), read u = n % 2 ^ 64 →
    read (u.add s.link s.value.toNat) = (n + row s) % 2 ^ 64
  nonpos : ∀ s, s.value ≤ 0 → row s = 0

namespace Meter

/-- The uplink bytes of a client, and below the downlink bytes and both together. -/
def up : Meter where
  read := Accum.up
  row s := if s.link = linkUplink then s.value.toNat else 0
  start := rfl
  add u s n h := by
    unfold Accum.add
    split_ifs
    · show add64 u.up _ = _
      rw [h, add64, Nat.mod_add_mod]
    · exact h
    · exact h
  nonpos s h := by rw [Int.toNat_eq_zero.mpr h, ite_self]

def down : Meter where
  read := Accum.down
  row s := if s.link = linkDownlink then s.value.toNat else 0
  start := rfl
  add u s n h := by
    unfold Accum.add
    split_ifs with hup hdown hdown
    · rw [hup] at hdown
      exact absurd hdown (by decide)
    · exact h
    · show add64 u.down _ = _
      rw [h, add64, Nat.mod_add_mod]
    · exact h
  nonpos s h := by rw [Int.toNat_eq_zero.mpr h, ite_self]

def total : Meter where
  read u := add64 u.up u.down
  row := UserStat.bytes
  start := rfl
  add u s n h := by
    unfold Accum.add UserStat.bytes
    unfold add64 at h ⊢
    by_cases hup : s.link = linkUplink
    · rw [if_pos hup, if_pos (.inl hup)]
      dsimp only
      omega
    · rw [if_neg hup]
      by_cases hdown : s.link = linkDownlink
      · rw [if_pos hdown, if_pos (.inr hdown)]
        dsimp only
        omega
      · rw [if_neg hdown, if_neg (not_or.mpr ⟨hup, hdown⟩)]
        exact h
  nonpos s h := by rw [UserStat.bytes, Int.toNat_eq_zero.mpr h, ite_self]

/-- What the rows of a client add up to on a meter. -/
def of (m : Meter) (rows : List UserStat) (k : String) : ℕ := ((rowsOf rows k).map m.row).sum

theorem read_addStat (m : Meter) (k : String) (users : GoMap Accum) (s : UserStat) (n : ℕ)
    (h : m.read (users[k]?.getD {}) = n % 2 ^ 64) : m.read ((addStat users s)[k]?.getD {}) =
      (n + if s.clientID = k then m.row s else 0) % 2 ^ 64 := by
  unfold addStat
  by_cases hval : s.value ≤ 0
  · rw [if_pos hval, m.nonpos s hval, ite_self]
    exact h
  · rw [if_neg hval, GoMap.getElem?_insert]
    by_cases hk : s.clientID = k
    · rw [if_pos hk.symm, if_pos hk, Option.getD_some, hk]
      exact m.add _ s n h
    · rw [if_neg (Ne.symm hk), if_neg hk]
      exact h

theorem read_users (m : Meter) (k : String) :
    m.read ((rows.foldl addStat ∅)[k]?.getD {}) = m.of rows k % 2 ^ 64 := by
  have hstart : m.read ((∅ : GoMap Accum)[k]?.getD {}) = 0 % 2 ^ 64 := by
    rw [Std.ExtTreeMap.getElem?_empty, Option.getD_none, m.start, Nat.zero_mod]
  have hfold := foldl_mod_by_key (fun users => m.read (users[k]?.getD {})) (m.read_addStat k) rows hstart
  rw [Nat.zero_add] at hfold
  exact hfold

end Meter

theorem mem_addStat (users : GoMap Accum) (s : UserStat) (k : String) :
    k ∈ addStat users s ↔ k ∈ users ∨ (0 < s.value ∧ s.clientID = k) := by
  unfold addStat
  split_ifs with hval
  · simp [Int.not_lt.mpr hval]
  · rw [GoMap.mem_insert, or_comm]
    simp [Int.not_le.mp hval, eq_comm]

theorem mem_users (users : GoMap Accum) (k : String) :
    k ∈ rows.foldl addStat users ↔ k ∈ users ∨ ∃ s ∈ rows, 0 < s.value ∧ s.clientID = k := by
  induction rows generalizing users with
  | nil => simp
  | cons s rows ih =>
    rw [List.foldl_cons, ih, mem_addStat, List.exists_mem_cons_iff, or_assoc]

/-! ## The rows, link by link and client by client -/

/-- The other rows add nothing. -/
theorem sumWhere_eq {q : UserStat → Prop} [DecidablePred q] {f : UserStat → ℕ}
    (h : ∀ s, f s = if q s then s.value.toNat else 0) : sumWhere q rows = (rows.map f).sum := by
  rw [sumWhere, sum_map_filter]
  refine congrArg List.sum (List.map_congr_left fun s _ => ?_)
  have hpos : (if 0 < s.value then s.value.toNat else 0) = s.value.toNat := by
    split_ifs with hval
    · rfl
    · exact (Int.toNat_eq_zero.mpr (Int.not_lt.mp hval)).symm
  rw [h s, ite_and, hpos]

/-- The rows of the clients that are not probes. -/
def Meter.rowCounted (m : Meter) (p : BackendPublisher) (s : UserStat) : ℕ :=
  if s.clientID ∈ p.probe then 0 else m.row s

theorem linkSum_eq {link : String} {m : Meter} (h : ∀ s, m.row s = if s.link = link then s.value.toNat else 0) :
    linkSum p link rows = (rows.map (m.rowCounted p)).sum := by
  refine sumWhere_eq fun s => ?_
  rw [ite_and, ite_not, Meter.rowCounted, h s]

theorem clientTotal_eq (k : String) : clientTotal rows k = Meter.total.of rows k := by
  rw [Meter.of, rowsOf, sum_map_filter]
  refine sumWhere_eq fun s => ?_
  rw [ite_and]
  rfl

theorem clientTotal_eq_add (k : String) :
    clientTotal rows k = Meter.up.of rows k + Meter.down.of rows k := by
  rw [clientTotal_eq, Meter.of, Meter.of, Meter.of, ← List.sum_map_add]
  refine congrArg List.sum (List.map_congr_left fun s _ => ?_)
  unfold Meter.total Meter.up Meter.down UserStat.bytes
  dsimp only
  by_cases hup : s.link = linkUplink
  · have hdown : s.link ≠ linkDownlink := by
      rw [hup]
      decide
    rw [if_pos hup, if_neg hdown, if_pos (.inl hup), Nat.add_zero]
  · simp [hup]

/-- The clients that are no probes and have a row that counts, in some order. -/
structure Clients (p : BackendPublisher) (rows : List UserStat) (ks : List String) : Prop where
  nodup : ks.Nodup
  mem : ∀ k, k ∈ ks ↔ k ∉ p.probe ∧ ∃ s ∈ rows, 0 < s.value ∧ s.clientID = k

section Clients

variable {ks : List String}

theorem Clients.sum_of (h : Clients p rows ks) (m : Meter) :
    (ks.map (m.of rows)).sum = (rows.map (m.rowCounted p)).sum := by
  have hkey : ∀ k ∈ ks, m.of rows k = ((rows.filter fun s => s.clientID = k).map (m.rowCounted p)).sum := by
    intro k hk
    refine congrArg List.sum (List.map_congr_left fun s hs => ?_)
    rw [Meter.rowCounted, of_decide_eq_true (List.mem_filter.mp hs).2, if_neg ((h.mem k).mp hk).1]
  rw [List.map_congr_left hkey]
  refine sum_by_key h.nodup fun s hs hne => (h.mem _).mpr ⟨?_, s, hs, ?_, rfl⟩
  · intro hprobe
    exact hne (if_pos hprobe)
  · by_contra hval
    refine hne ?_
    rw [Meter.rowCounted, m.nonpos s (Int.not_lt.mp hval), ite_self]

theorem Clients.linkSums (h : Clients p rows ks) :
    linkSum p linkUplink rows = (ks.map (Meter.up.of rows)).sum ∧
      linkSum p linkDownlink rows = (ks.map (Meter.down.of rows)).sum := by
  rw [h.sum_of, h.sum_of]
  exact ⟨linkSum_eq fun _ => rfl, linkSum_eq fun _ => rfl⟩

theorem Clients.sum_total (h : Clients p rows ks) :
    linkSum p linkUplink rows + linkSum p linkDownlink rows = (ks.map (clientTotal rows)).sum := by
  rw [h.linkSums.1, h.linkSums.2, ← List.sum_map_add]
  exact congrArg List.sum (List.map_congr_left fun k _ => (clientTotal_eq_add k).symm)

theorem Clients.of_le (h : Clients p rows ks) {k : String} (hk : k ∈ ks) :
    Meter.up.of rows k ≤ linkSum p linkUplink rows ∧ Meter.down.of rows k ≤ linkSum p linkDownlink rows := by
  rw [h.linkSums.1, h.linkSums.2]
  exact ⟨List.single_le_sum (by simp) _ (List.mem_map_of_mem hk),
    List.single_le_sum (by simp) _ (List.mem_map_of_mem hk)⟩

theorem Clients.mem_of_total (h : Clients p rows ks) {k : String} (hprobe : k ∉ p.probe)
    (htotal : clientTotal rows k ≠ 0) : k ∈ ks := by
  refine (h.mem k).mpr ⟨hprobe, ?_⟩
  by_contra hnone
  refine htotal ?_
  rw [clientTotal_eq]
  refine List.sum_eq_zero fun n hn => ?_
  obtain ⟨s, hs, rfl⟩ := List.mem_map.mp hn
  obtain ⟨hs, hk⟩ := List.mem_filter.mp hs
  refine Meter.total.nonpos s (Int.not_lt.mp fun hpos => hnone ⟨s, hs, hpos, ?_⟩)
  exact of_decide_eq_true hk

end Clients

/-! ## The loop over the users -/

/-- The client is no probe and its total is not 0. -/
def isActive (p : BackendPublisher) (users : GoMap Accum) (k : String) : Bool :=
  k ∉ p.probe ∧ Meter.total.read (users[k]?.getD {}) ≠ 0

/-- What the loop has added up and listed of some active clients. -/
structure Adds (users : GoMap Accum) (ks : List String) (t t' : Totals) : Prop where
  ids : t'.activeIDs = t.activeIDs ++ ks
  deltas : t'.deltas = t.deltas ++ ks.map fun k => ⟨k, Meter.total.read (users[k]?.getD {})⟩
  sumUp : ∀ n, t.sumUp = n % 2 ^ 64 →
    t'.sumUp = (n + (ks.map fun k => Meter.up.read (users[k]?.getD {})).sum) % 2 ^ 64
  sumDown : ∀ n, t.sumDown = n % 2 ^ 64 →
    t'.sumDown = (n + (ks.map fun k => Meter.down.read (users[k]?.getD {})).sum) % 2 ^ 64

theorem adds_nil (users : GoMap Accum) (t : Totals) : Adds users [] t t :=
  ⟨(List.append_nil _).symm, (List.append_nil _).symm, fun _ h => h, fun _ h => h⟩

theorem Adds.trans {users : GoMap Accum} {ks ks' : List String} {t t' t'' : Totals} (h : Adds users ks t t')
    (h' : Adds users ks' t' t'') : Adds users (ks ++ ks') t t'' where
  ids := by rw [h'.ids, h.ids, List.append_assoc]
  deltas := by rw [h'.deltas, h.deltas, List.append_assoc, List.map_append]
  sumUp n hn := by rw [h'.sumUp _ (h.sumUp n hn), List.map_append, List.sum_append, Nat.add_assoc]
  sumDown n hn := by rw [h'.sumDown _ (h.sumDown n hn), List.map_append, List.sum_append, Nat.add_assoc]

theorem adds_addClient (users : GoMap Accum) (t : Totals) (k : String) :
    Adds users ([k].filter (isActive p users)) t (addClient p users t k) := by
  unfold addClient
  by_cases hactive : isActive p users k = true
  · obtain ⟨hprobe, htotal⟩ := of_decide_eq_true hactive
    have htotal' : add64 (users[k]?.getD {}).up (users[k]?.getD {}).down ≠ 0 := htotal
    rw [List.filter_cons_of_pos hactive, if_neg hprobe]
    dsimp only
    rw [if_neg htotal']
    refine ⟨rfl, rfl, fun n hn => ?_, fun n hn => ?_⟩
    · show add64 t.sumUp _ = _
      rw [hn, add64, Nat.mod_add_mod]
      rfl
    · show add64 t.sumDown _ = _
      rw [hn, add64, Nat.mod_add_mod]
      rfl
  · rw [List.filter_cons_of_neg hactive]
    dsimp only
    split_ifs with hprobe htotal
    · exact adds_nil users t
    · exact adds_nil users t
    · exact absurd (decide_eq_true ⟨hprobe, htotal⟩) hactive

theorem adds_foldl (users : GoMap Accum) (order : List String) (t : Totals) :
    Adds users (order.filter (isActive p users)) t (order.foldl (addClient p users) t) := by
  induction order generalizing t with
  | nil => exact adds_nil users t
  | cons k order ih =>
    rw [← List.singleton_append, List.filter_append]
    exact (adds_addClient users t k).trans (ih _)

/-- The totals are those of the rows, as far as 64 bits go. -/
structure Tallied (p : BackendPublisher) (rows : List UserStat) (ks : List String) (t : Totals) : Prop where
  clients : Clients p rows ks
  ids : t.activeIDs = ks.filter fun k => clientTotal rows k % 2 ^ 64 ≠ 0
  deltas : t.deltas = t.activeIDs.map fun k => ⟨k, clientTotal rows k % 2 ^ 64⟩
  sumUp : t.sumUp = (t.activeIDs.map (Meter.up.of rows)).sum % 2 ^ 64
  sumDown : t.sumDown = (t.activeIDs.map (Meter.down.of rows)).sum % 2 ^ 64

theorem tallied_foldl {order : List String} (horder : order.Perm (rows.foldl addStat ∅).keys) :
    Tallied p rows (order.filter fun k => k ∉ p.probe)
      (order.foldl (addClient p (rows.foldl addStat ∅)) {}) := by
  have hadds := adds_foldl (p := p) (rows.foldl addStat ∅) order {}
  have hids := hadds.ids
  rw [List.nil_append] at hids
  refine ⟨⟨?_, fun k => ?_⟩, ?_, ?_, ?_, ?_⟩
  · exact (horder.nodup_iff.mpr Std.ExtTreeMap.nodup_keys).filter _
  · rw [List.mem_filter, horder.mem_iff, Std.ExtTreeMap.mem_keys, mem_users, and_comm, decide_eq_true_eq]
    refine and_congr_right' (or_iff_right ?_)
    exact Std.ExtTreeMap.not_mem_empty
  · rw [hids, List.filter_filter]
    refine List.filter_congr fun k _ => ?_
    rw [isActive, Meter.read_users, clientTotal_eq, Bool.decide_and, Bool.and_comm]
  · rw [hadds.deltas, hids, List.nil_append]
    refine List.map_congr_left fun k _ => ?_
    rw [Meter.read_users, clientTotal_eq]
  · rw [hadds.sumUp 0 rfl, hids, Nat.zero_add, List.map_congr_left fun k _ => Meter.up.read_users k]
    exact sum_map_mod ..
  · rw [hadds.sumDown 0 rfl, hids, Nat.zero_add, List.map_congr_left fun k _ => Meter.down.read_users k]
    exact sum_map_mod ..

section Tallied

variable {ks : List String} {t : Totals}

/-- If only clients without bytes are left out, the node's sums are those of the rows. -/
theorem Tallied.sums (h : Tallied p rows ks t)
    (hkept : ∀ k ∈ ks, clientTotal rows k % 2 ^ 64 = 0 → clientTotal rows k = 0) :
    t.sumUp = linkSum p linkUplink rows % 2 ^ 64 ∧ t.sumDown = linkSum p linkDownlink rows % 2 ^ 64 := by
  have hzero : ∀ k ∈ ks, ¬ clientTotal rows k % 2 ^ 64 ≠ 0 →
      Meter.up.of rows k = 0 ∧ Meter.down.of rows k = 0 := by
    intro k hk hmod
    rw [← Nat.add_eq_zero_iff, ← clientTotal_eq_add]
    exact hkept k hk (not_not.mp hmod)
  rw [h.sumUp, h.sumDown, h.ids, h.clients.linkSums.1, h.clients.linkSums.2,
    (sum_filter_eq_iff _).2.mpr fun k hk hmod => (hzero k hk hmod).1,
    (sum_filter_eq_iff _).2.mpr fun k hk hmod => (hzero k hk hmod).2]
  exact ⟨rfl, rfl⟩

/-- The node's two sums are all that was obtained exactly if they fit. -/
theorem Tallied.node_held (h : Tallied p rows ks t) :
    t.sumUp + t.sumDown ≤ linkSum p linkUplink rows + linkSum p linkDownlink rows ∧
      (linkSum p linkUplink rows + linkSum p linkDownlink rows = t.sumUp + t.sumDown ↔
        NodeFits p rows) := by
  obtain ⟨hup, hdown⟩ := h.clients.linkSums
  obtain ⟨hleUp, hiffUp⟩ := sum_filter_eq_iff (l := ks) (f := Meter.up.of rows)
    fun k => clientTotal rows k % 2 ^ 64 ≠ 0
  obtain ⟨hleDown, hiffDown⟩ := sum_filter_eq_iff (l := ks) (f := Meter.down.of rows)
    fun k => clientTotal rows k % 2 ^ 64 ≠ 0
  rw [← hup, ← h.ids] at hleUp hiffUp
  rw [← hdown, ← h.ids] at hleDown hiffDown
  have hsumUp := h.sumUp
  have hsumDown := h.sumDown
  refine ⟨by omega, fun heq => ?_, fun hfits => ?_⟩
  · refine ⟨by omega, by omega, fun k hprobe htotal => ?_⟩
    have hk : k ∈ ks := h.clients.mem_of_total hprobe (by omega)
    have hzero := hiffUp.mp (by omega) k hk (by omega)
    have hzero' := hiffDown.mp (by omega) k hk (by omega)
    rw [clientTotal_eq_add] at htotal
    omega
  · have hfitsUp := hfits.up
    have hfitsDown := hfits.down
    obtain ⟨hmodUp, hmodDown⟩ := h.sums fun k hk hmod => by
      have hne := hfits.client k ((h.clients.mem k).mp hk).1
      obtain ⟨hofUp, hofDown⟩ := h.clients.of_le hk
      rw [clientTotal_eq_add] at hne hmod ⊢
      omega
    omega

/-- What the users' payload is to carry; none is sent if the node's sums are 0. -/
def Totals.billed (t : Totals) : ℕ :=
  if t.sumUp = 0 ∧ t.sumDown = 0 then 0 else (t.deltas.map UserTrafficDelta.deltaBytes).sum

theorem Tallied.sum_deltas (h : Tallied p rows ks t) :
    (t.deltas.map UserTrafficDelta.deltaBytes).sum = (ks.map fun k => clientTotal rows k % 2 ^ 64).sum := by
  rw [h.deltas, List.map_map, h.ids]
  exact ((sum_filter_eq_iff _).2.mpr fun k _ hmod => not_not.mp hmod).symm

theorem Tallied.deltas_held (h : Tallied p rows ks t) :
    (t.deltas.map UserTrafficDelta.deltaBytes).sum ≤
        linkSum p linkUplink rows + linkSum p linkDownlink rows ∧
      (linkSum p linkUplink rows + linkSum p linkDownlink rows =
          (t.deltas.map UserTrafficDelta.deltaBytes).sum ↔
        ∀ k, k ∉ p.probe → clientTotal rows k < 2 ^ 64) := by
  obtain ⟨hle, hiff⟩ := sum_map_eq_iff fun k (_ : k ∈ ks) => Nat.mod_le (clientTotal rows k) (2 ^ 64)
  rw [h.sum_deltas, h.clients.sum_total]
  refine ⟨hle, hiff.trans ⟨fun heq k hprobe => ?_, fun hlt k hk => ?_⟩⟩
  · by_cases hk : k ∈ ks
    · rw [← heq k hk]
      exact Nat.mod_lt _ (by decide)
    · by_contra hlarge
      exact hk (h.clients.mem_of_total hprobe (by omega))
  · exact Nat.mod_eq_of_lt (hlt k ((h.clients.mem k).mp hk).1)

theorem Tallied.sums_of_lt (h : Tallied p rows ks t)
    (hlt : ∀ k, k ∉ p.probe → clientTotal rows k < 2 ^ 64) :
    t.sumUp = linkSum p linkUplink rows % 2 ^ 64 ∧ t.sumDown = linkSum p linkDownlink rows % 2 ^ 64 :=
  h.sums fun k hk hmod => by
    have hk' := hlt k ((h.clients.mem k).mp hk).1
    omega

/-- The deltas are all that was obtained exactly if they fit and are sent. -/
theorem Tallied.users_held (h : Tallied p rows ks t) :
    t.billed ≤ linkSum p linkUplink rows + linkSum p linkDownlink rows ∧
      (linkSum p linkUplink rows + linkSum p linkDownlink rows = t.billed ↔ UsersFit p rows) := by
  unfold Totals.billed
  obtain ⟨hle, hiff⟩ := h.deltas_held
  split_ifs with hzero
  · refine ⟨Nat.zero_le _, fun hnone => ?_, fun hfits => ?_⟩
    · have hsum : (t.deltas.map UserTrafficDelta.deltaBytes).sum = 0 := by omega
      exact ⟨hiff.mp (by omega), fun _ _ => Nat.add_eq_zero_iff.mp hnone⟩
    · obtain ⟨hup, hdown⟩ := h.sums_of_lt hfits.client
      rw [hzero.1] at hup
      rw [hzero.2] at hdown
      rw [Nat.add_eq_zero_iff]
      exact hfits.node hup.symm hdown.symm
  · refine ⟨hle, hiff.trans ⟨fun hlt => ⟨hlt, fun hup hdown => ?_⟩, UsersFit.client⟩⟩
    obtain ⟨hup', hdown'⟩ := h.sums_of_lt hlt
    exact absurd ⟨hup'.trans hup, hdown'.trans hdown⟩ hzero

theorem clientTotal_le {k : String} (hprobe : k ∉ p.probe) :
    clientTotal rows k ≤ linkSum p linkUplink rows + linkSum p linkDownlink rows := by
  by_cases hzero : clientTotal rows k = 0
  · rw [hzero]
    exact Nat.zero_le _
  · have hclients := (@tallied_foldl p rows _ (.refl _)).clients
    obtain ⟨hup, hdown⟩ := hclients.of_le (hclients.mem_of_total hprobe hzero)
    rw [clientTotal_eq_add]
    exact Nat.add_le_add hup hdown

theorem fits_of_lt (h : linkSum p linkUplink rows + linkSum p linkDownlink rows < 2 ^ 64) :
    NodeFits p rows ∧ UsersFit p rows := by
  have hlt : ∀ k, k ∉ p.probe → clientTotal rows k < 2 ^ 64 := fun k hk => (clientTotal_le hk).trans_lt h
  refine ⟨⟨by omega, by omega, fun k hk => (hlt k hk).ne⟩, hlt, fun hup hdown => ?_⟩
  omega

/-- Something is sent only if a client has bytes. -/
theorem Tallied.billed_ne_zero (h : Tallied p rows ks t) (hsome : ¬ (t.sumUp = 0 ∧ t.sumDown = 0)) :
    t.billed ≠ 0 := by
  rw [Totals.billed, if_neg hsome]
  intro hnone
  refine hsome ?_
  have hids : t.activeIDs = [] := by
    refine List.eq_nil_iff_forall_not_mem.mpr fun k hk => ?_
    have hzero : clientTotal rows k % 2 ^ 64 = 0 := by
      refine List.sum_eq_zero_iff.mp hnone _ ?_
      rw [h.deltas, List.map_map]
      exact List.mem_map_of_mem (f := fun k => clientTotal rows k % 2 ^ 64) hk
    rw [h.ids, List.mem_filter] at hk
    exact of_decide_eq_true hk.2 hzero
  rw [h.sumUp, h.sumDown, hids]
  exact ⟨rfl, rfl⟩

end Tallied

end Rows

end NodeAgent.Traffic
