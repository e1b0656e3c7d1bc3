import NodeAgent.Traffic.Publisher
import NodeAgent.Singboxgen.Tags
import NodeAgent.Lib.Exec

/-!
# The statistics of the entry

`internal/app/traffic/stats_reporter.go` over `internal/adapters/entryproxyclient`: the client writes each
live connection of the entry proxy as a sing-box connection whose chain is a per-user tag, and the reporter
reads client and backend back from the tag. The tag is in lower case. The probe list and the registry are
not, so that a client or a backend that is listed there in another case is not recognised.
-/

namespace NodeAgent.Traffic

open Lib Singboxgen

/-! ## The entry proxy's client -/

/-- `ports.EntryConnection` -/
structure EntryConnection where
  id : String := ""
  clientID : ClientID
  backendID : BackendID
  upload : ℕ := 0
  download : ℕ := 0
  deriving DecidableEq, Repr

/-- A connection as `Client.Connections` passes it on. -/
def EntryConnection.toSingbox [Lowering] (ec : EntryConnection) : Singbox.Connection where
  id := ec.id
  chains := [perUserOutboundTagFor ec.clientID ec.backendID]
  upload := ec.upload
  download := ec.download

/-- The ids of a connection have the shape of UUIDs. -/
def EntryConnection.Shaped (ec : EntryConnection) : Prop :=
  dashes ec.clientID = 4 ∧ dashes ec.backendID = 4

namespace Stats

/-- `statsPayload`, which is put into the bucket. -/
structure StatsPayload where
  nodeID : NodeID
  ts : Time
  total : ℕ
  uploadTotal : ℕ
  downloadTotal : ℕ
  byBackend : GoMap ℕ
  byClientID : GoMap ℕ
  uniqueUsers : ℕ

/-- What the reporter asks of the outside. -/
inductive Call
  | activeConnections
  | now
  | kvPut (bucket key : String) (payload : StatsPayload)

abbrev Reply : Call → Type
  | .activeConnections => Except GoError (List EntryConnection)
  | .now => Time
  | .kvPut _ _ _ => Option GoError

abbrev stats : Sig where
  Call := Call
  Reply := Reply

abbrev StatsEvent := Event stats

abbrev statsPort (c : Call) : Prog stats (Reply c) := Prog.invoke (S := stats) c

/-- `Client.Connections`, of which the reporter reads `Conns`. -/
def connections [Lowering] : Prog stats (Except GoError (List Singbox.Connection)) := do
  match ← statsPort .activeConnections with
  | .error err => return .error err
  | .ok conns => return .ok (conns.map EntryConnection.toSingbox)

/-! ## The reporter -/

def statsKvBucket : String := "entry-routing-stats"

def statsKeyPrefix : String := "node."

def tagDirect : String := "direct"

/-- `StatsReporter`: its configuration. -/
structure StatsReporter where
  nodeID : NodeID
  bucket : String := statsKvBucket
  /-- the keys of the set that `idSet` makes -/
  probe : List String := []
  backends : Option Registry := none

/-- The client and the backend of the first per-user tag. -/
def pickClientAndBackend (chains : List String) : Option (String × String) :=
  chains.findSome? parsePerUserOutboundTag

/-- The registry's name of a backend, or its id. -/
def StatsReporter.nameOf (r : StatsReporter) (backend : BackendID) : String :=
  match r.backends with
  | none => backend
  | some registry =>
    match registry.get backend with
    | none => backend
    | some spec => if spec.name ≠ "" then spec.name else backend

/-- `aggregatedBackendTag`: the backend of the first per-user outbound, else the last outbound of
the chain. -/
def StatsReporter.aggregatedBackendTag (r : StatsReporter) (chains : List String) : String :=
  match chains.findSome? fun c => if hasTagPrefix c then parsePerUserOutboundTag c else none with
  | some (_, backend) => "backend-" ++ r.nameOf backend
  | none => chains.getLastD tagDirect

/-- The sums of one tick. -/
structure Counted where
  byBackend : GoMap ℕ := ∅
  byClient : GoMap ℕ := ∅
  total : ℕ := 0
  uploadTotal : ℕ := 0
  downloadTotal : ℕ := 0

/-- The loop body over the connections. -/
def StatsReporter.count (r : StatsReporter) (t : Counted) (c : Singbox.Connection) : Counted :=
  let picked := pickClientAndBackend c.chains
  let u := (picked.map Prod.fst).getD ""
  if u ∈ r.probe then t
  else
    { total := t.total + 1
      uploadTotal := add64 t.uploadTotal c.upload
      downloadTotal := add64 t.downloadTotal c.download
      byBackend := bump t.byBackend (r.aggregatedBackendTag c.chains) 1
      byClient := if picked.isSome ∧ u ≠ "" then bump t.byClient u 1 else t.byClient }

/-- The payload of a tick. -/
def StatsReporter.payload (r : StatsReporter) (t : Counted) (ts : Time) : StatsPayload where
  nodeID := r.nodeID
  ts := ts
  total := t.total
  uploadTotal := t.uploadTotal
  downloadTotal := t.downloadTotal
  byBackend := t.byBackend
  byClientID := t.byClient
  uniqueUsers := t.byClient.size

/-- `StatsReporter.tick`. -/
def StatsReporter.tick [Lowering] (r : StatsReporter) : Prog stats (Option GoError) := do
  match ← connections with
  | .error err => return some (.wrap "connections" err)
  | .ok conns =>
    let t := conns.foldl r.count {}
    let ts ← statsPort .now
    match ← statsPort (.kvPut r.bucket (statsKeyPrefix ++ r.nodeID) (r.payload t ts)) with
    | some err => return some (.wrap "kv put" err)
    | none => return none

section Tick

variable [Lowering] {r : StatsReporter} {tr : List StatsEvent} {err : Option GoError}
  {conns : List EntryConnection}

/-- With the connections at hand a tick puts their payload. -/
theorem tick_puts (h : r.tick.After tr (.done err))
    (hconns : (⟨.activeConnections, .ok conns⟩ : StatsEvent) ∈ tr) :
    ∃ ts res, tr = [⟨.activeConnections, .ok conns⟩, ⟨.now, ts⟩, ⟨.kvPut r.bucket (statsKeyPrefix ++ r.nodeID)
      (r.payload ((conns.map EntryConnection.toSingbox).foldl r.count {}) ts), res⟩] := by
  unfold StatsReporter.tick connections at h
  obtain ⟨reply, tr₁, tr₂, rfl, h₁, h₂⟩ := Prog.after_bind_done_iff.mp h
  obtain ⟨got, tr₃, rfl, h₃⟩ := Prog.after_invoke_done_iff.mp h₁
  cases got with
  | error e =>
    obtain ⟨rfl, hreply⟩ := Prog.after_done_iff.mp h₃
    cases hreply
    obtain ⟨rfl, -⟩ := Prog.after_done_iff.mp h₂
    simp at hconns
  | ok got =>
    obtain ⟨rfl, hreply⟩ := Prog.after_done_iff.mp h₃
    cases hreply
    obtain ⟨ts, tr₄, rfl, h₄⟩ := Prog.after_invoke_done_iff.mp h₂
    obtain ⟨res, tr₅, rfl, h₅⟩ := Prog.after_invoke_done_iff.mp h₄
    have htr₅ : tr₅ = [] := by
      cases res with
      | none => exact (Prog.after_done_iff.mp h₅).1
      | some e => exact (Prog.after_done_iff.mp h₅).1
    subst htr₅
    have hgot : conns = got := by simpa using hconns
    subst hgot
    exact ⟨ts, res, rfl⟩

end Tick

/-! ## What is counted -/

/-- A mapping to lower case that is applied once or twice with the same result. -/
class CaseFolding extends Lowering where
  rune_rune : ∀ c, rune (rune c) = rune c

theorem toLower_toLower [CaseFolding] (s : String) : toLower (toLower s) = toLower s := by
  unfold toLower
  rw [String.toList_ofList, List.map_map]
  exact congrArg String.ofList (List.map_congr_left fun c _ => CaseFolding.rune_rune c)

/-- The tag a connection is counted under. -/
def StatsReporter.tagOf [Lowering] (r : StatsReporter) (ec : EntryConnection) : String :=
  r.aggregatedBackendTag ec.toSingbox.chains

section Count

variable [Lowering] {r : StatsReporter} {ec : EntryConnection} {conns : List EntryConnection}

theorem parse_tagFor (h : ec.Shaped) :
    parsePerUserOutboundTag (perUserOutboundTagFor ec.clientID ec.backendID) =
    some (toLower ec.clientID, toLower ec.backendID) :=
  parse_eq_some_iff.mpr ⟨rfl, (dashes_toLower _).trans h.1, (dashes_toLower _).trans h.2⟩

theorem tagOf_eq (h : ec.Shaped) : r.tagOf ec = "backend-" ++ r.nameOf (toLower ec.backendID) := by
  have hstart : hasTagPrefix (perUserOutboundTagFor ec.clientID ec.backendID) = true :=
    hasTagPrefix_iff.mpr ⟨toLower ec.clientID ++ "-" ++ toLower ec.backendID, by
      rw [← String.append_assoc, ← String.append_assoc]
      rfl⟩
  unfold StatsReporter.tagOf StatsReporter.aggregatedBackendTag EntryConnection.toSingbox
  simp only [List.findSome?_cons, hstart, if_true, parse_tagFor h]

/-- A connection is counted, unless the client's id in lower case is a probe's. -/
theorem count_toSingbox (h : ec.Shaped) (t : Counted) : r.count t ec.toSingbox =
    if toLower ec.clientID ∈ r.probe then t
    else
      { total := t.total + 1
        uploadTotal := add64 t.uploadTotal ec.upload
        downloadTotal := add64 t.downloadTotal ec.download
        byBackend := bump t.byBackend (r.tagOf ec) 1
        byClient := bump t.byClient (toLower ec.clientID) 1 } := by
  have hpicked : pickClientAndBackend ec.toSingbox.chains =
      some (toLower ec.clientID, toLower ec.backendID) := by
    unfold pickClientAndBackend EntryConnection.toSingbox
    simp only [List.findSome?_cons, parse_tagFor h]
  have hne : toLower ec.clientID ≠ "" := by
    intro hnil
    have hdashes := dashes_toLower ec.clientID
    rw [hnil, h.1] at hdashes
    cases hdashes
  unfold StatsReporter.count
  simp only [hpicked, Option.map_some, Option.getD_some, Option.isSome_some, hne, ne_eq,
    not_false_eq_true, and_self, if_true]
  rfl

/-- The connections that are counted. -/
def StatsReporter.counted (r : StatsReporter) (conns : List EntryConnection) :
    List EntryConnection :=
  conns.filter fun ec => toLower ec.clientID ∉ r.probe

theorem foldl_count (h : ∀ ec ∈ conns, ec.Shaped) :
    (conns.map EntryConnection.toSingbox).foldl r.count {} =
      { total := (r.counted conns).length
        uploadTotal := ((r.counted conns).map (·.upload)).sum % 2 ^ 64
        downloadTotal := ((r.counted conns).map (·.download)).sum % 2 ^ 64
        byBackend := GoMap.tally ((r.counted conns).map r.tagOf)
        byClient := GoMap.tally ((r.counted conns).map fun ec => toLower ec.clientID) } := by
  induction conns using List.reverseRecOn with
  | nil => rfl
  | append_singleton conns ec ih =>
    rw [List.map_append, List.foldl_append, ih fun ec' hec' => h ec' (List.mem_append_left _ hec')]
    have hshaped : ec.Shaped := h ec (List.mem_append_right _ (List.mem_singleton_self ec))
    rw [List.map_singleton, List.foldl_cons, List.foldl_nil, count_toSingbox hshaped]
    unfold StatsReporter.counted
    rw [List.filter_append]
    by_cases hprobe : toLower ec.clientID ∈ r.probe
    · simp [hprobe]
    · rw [List.filter_cons_of_pos (by simpa using hprobe), List.filter_nil, if_neg hprobe]
      simp only [List.map_append, List.map_singleton, List.sum_append, List.sum_singleton,
        List.length_append, List.length_singleton, GoMap.tally_snoc, add64, Nat.mod_add_mod]
      rfl

end Count

/-! ## Real users -/

section Spec

variable [Lowering] (r : StatsReporter)

/-- The client is in the probe list, in whatever case. -/
def IsProbe (ec : EntryConnection) : Prop := ∃ id ∈ r.probe, toLower id = toLower ec.clientID

instance (ec : EntryConnection) : Decidable (IsProbe r ec) :=
  inferInstanceAs (Decidable (∃ id ∈ r.probe, _))

/-- The connections of clients that are no probes, up to case. -/
def realUsers (conns : List EntryConnection) : List EntryConnection :=
  conns.filter fun ec => ¬ IsProbe r ec

def StatsReporter.specs : List BackendSpec := (r.backends.map Registry.all).getD []

/-- The registry has this name for the backend, in whatever case its id is listed. -/
def Named (b : BackendID) (name : String) : Prop :=
  name ≠ "" ∧ ∃ spec ∈ r.specs, toLower spec.id = toLower b ∧ spec.name = name

/-- The tag stands for the backend: it has a name of it or, if there is none, its id. -/
def StandsFor (tag : String) (b : BackendID) : Prop :=
  (∃ name, Named r b name ∧ tag = "backend-" ++ name) ∨
    ((∀ name, ¬ Named r b name) ∧ ∃ id, toLower id = toLower b ∧ tag = "backend-" ++ id)

/-- The payload counts the connections of real users. -/
structure CountsRealUsers (conns : List EntryConnection) (p : StatsPayload) : Prop where
  total : p.total = (realUsers r conns).length
  uploadTotal : p.uploadTotal = ((realUsers r conns).map (·.upload)).sum
  downloadTotal : p.downloadTotal = ((realUsers r conns).map (·.download)).sum
  sum_byBackend : (p.byBackend.toList.map Prod.snd).sum = p.total
  /-- every connection under its tag -/
  byBackend : ∀ tag, p.byBackend[tag]?.getD 0 = ((realUsers r conns).map r.tagOf).count tag
  tag : ∀ ec ∈ realUsers r conns, StandsFor r (r.tagOf ec) ec.backendID
  sum_byClientID : (p.byClientID.toList.map Prod.snd).sum = p.total
  uniqueUsers : p.uniqueUsers = ((realUsers r conns).map fun ec => toLower ec.clientID).dedup.length

/-- A probe that has connections is listed in lower case. -/
def ProbesListed (conns : List EntryConnection) : Prop :=
  ∀ ec ∈ conns, IsProbe r ec → toLower ec.clientID ∈ r.probe

instance (conns : List EntryConnection) : Decidable (ProbesListed r conns) :=
  inferInstanceAs (Decidable (∀ ec ∈ conns, _))

/-- A backend that has connections and a name has one under its id in lower case (or has its id for a
name). -/
def NamesListed (conns : List EntryConnection) : Prop :=
  ∀ ec ∈ conns, ¬ IsProbe r ec → (∃ name, Named r ec.backendID name) →
    ∃ spec ∈ r.specs, toLower spec.id = toLower ec.backendID ∧ spec.name ≠ "" ∧
      (spec.id = toLower ec.backendID ∨ spec.name = toLower ec.backendID)

/-- The bytes of real users stay below 2⁶⁴, where the totals wrap around. -/
def TotalsFit (conns : List EntryConnection) : Prop :=
  ((realUsers r conns).map (·.upload)).sum < 2 ^ 64 ∧ ((realUsers r conns).map (·.download)).sum < 2 ^ 64

instance (conns : List EntryConnection) : Decidable (TotalsFit r conns) :=
  inferInstanceAs (Decidable (_ ∧ _))

end Spec

section Names

variable {r : StatsReporter}

theorem mem_specs {spec : BackendSpec} :
    spec ∈ r.specs ↔ ∃ registry, r.backends = some registry ∧ registry.get spec.id = some spec := by
  unfold StatsReporter.specs
  cases r.backends with
  | none => simp
  | some registry => simp [Registry.mem_all]

/-- What the code takes for the name of a backend. -/
theorem nameOf_spec (b : BackendID) :
    (∃ spec ∈ r.specs, spec.id = b ∧ spec.name ≠ "" ∧ r.nameOf b = spec.name) ∨
      (r.nameOf b = b ∧ ∀ spec ∈ r.specs, spec.id = b → spec.name = "") := by
  unfold StatsReporter.nameOf
  simp only [mem_specs]
  cases r.backends with
  | none => exact .inr ⟨rfl, by simp⟩
  | some registry =>
    cases hget : registry.get b with
    | none =>
      refine .inr ⟨by simp [hget], ?_⟩
      rintro spec ⟨_, ⟨⟩, hspec⟩ rfl
      rw [hget] at hspec
      cases hspec
    | some spec =>
      have hid : spec.id = b := registry.keyed b spec hget
      by_cases hname : spec.name = ""
      · refine .inr ⟨by simp [hget, hname], ?_⟩
        rintro spec' ⟨_, ⟨⟩, hspec'⟩ rfl
        rw [hget] at hspec'
        cases hspec'
        exact hname
      · exact .inl ⟨spec, ⟨registry, rfl, hid.symm ▸ hget⟩, hid, hname, by simp [hget, hname]⟩

end Names

section Exact

variable [CaseFolding] {r : StatsReporter} {ec : EntryConnection} {conns : List EntryConnection}

theorem isProbe_of_mem (h : toLower ec.clientID ∈ r.probe) : IsProbe r ec :=
  ⟨_, h, toLower_toLower _⟩

/-- The tag is right exactly if a name that exists is found. -/
theorem standsFor_tagOf_iff (h : ec.Shaped) :
    StandsFor r (r.tagOf ec) ec.backendID ↔ ((∃ name, Named r ec.backendID name) →
      ∃ spec ∈ r.specs, toLower spec.id = toLower ec.backendID ∧ spec.name ≠ "" ∧
        (spec.id = toLower ec.backendID ∨ spec.name = toLower ec.backendID)) := by
  have hlower := toLower_toLower ec.backendID
  rw [tagOf_eq h]
  rcases nameOf_spec (r := r) (toLower ec.backendID) with ⟨spec, hspec, hid, hne, hname⟩ | ⟨hname, hnone⟩
  · have hsame : toLower spec.id = toLower ec.backendID := by rw [hid, hlower]
    refine iff_of_true (.inl ⟨spec.name, ⟨hne, spec, hspec, hsame, rfl⟩, by rw [hname]⟩) fun _ => ?_
    exact ⟨spec, hspec, hsame, hne, .inl hid⟩
  · rw [hname]
    constructor
    · rintro (⟨name, ⟨hne, spec, hspec, hsame, rfl⟩, htag⟩ | ⟨hno, -⟩) hnamed
      · exact ⟨spec, hspec, hsame, hne, .inr (String.append_right_inj _ |>.mp htag).symm⟩
      · obtain ⟨name, hname⟩ := hnamed
        exact absurd hname (hno name)
    · intro hfound
      by_cases hnamed : ∃ name, Named r ec.backendID name
      · obtain ⟨spec, hspec, hsame, hne, hid | hown⟩ := hfound hnamed
        · exact absurd (hnone spec hspec hid) hne
        · exact .inl ⟨spec.name, ⟨hne, spec, hspec, hsame, rfl⟩, by rw [hown]⟩
      · exact .inr ⟨fun name hname => hnamed ⟨name, hname⟩, _, hlower, rfl⟩

theorem realUsers_eq :
    realUsers r conns = (r.counted conns).filter fun ec => ¬ IsProbe r ec := by
  unfold realUsers StatsReporter.counted
  rw [List.filter_filter]
  refine List.filter_congr fun ec _ => ?_
  by_cases hprobe : IsProbe r ec
  · simp [hprobe]
  · have hmem : toLower ec.clientID ∉ r.probe := fun hmem => hprobe (isProbe_of_mem hmem)
    simp [hprobe, hmem]

theorem length_realUsers_iff : (r.counted conns).length = (realUsers r conns).length ↔
    ProbesListed r conns := by
  rw [realUsers_eq, eq_comm, List.length_filter_eq_length_iff]
  unfold StatsReporter.counted ProbesListed
  simp only [List.mem_filter, decide_eq_true_eq, and_imp]
  refine forall₂_congr fun ec _ => ?_
  exact not_imp_not

theorem counted_eq_realUsers (h : ProbesListed r conns) :
    r.counted conns = realUsers r conns := by
  rw [realUsers_eq, eq_comm, List.filter_eq_self]
  exact List.length_filter_eq_length_iff.mp (realUsers_eq ▸ (length_realUsers_iff.mpr h).symm)

end Exact

/-- A tick that gets the connections puts a payload, and it counts the real users exactly if the probes
and the names of backends are found under ids in lower case and the totals do not wrap around. -/
theorem stats_count_real_users_iff [CaseFolding] (r : StatsReporter) {tr : List StatsEvent}
    {err : Option GoError} {conns : List EntryConnection} (h : r.tick.After tr (.done err))
    (hconns : (⟨.activeConnections, .ok conns⟩ : StatsEvent) ∈ tr) (hshaped : ∀ ec ∈ conns, ec.Shaped) :
    ∃ ts p res, tr = [⟨.activeConnections, .ok conns⟩, ⟨.now, ts⟩,
        ⟨.kvPut r.bucket (statsKeyPrefix ++ r.nodeID) p, res⟩] ∧
      (CountsRealUsers r conns p ↔ ProbesListed r conns ∧ NamesListed r conns ∧ TotalsFit r conns) := by
  obtain ⟨ts, res, hput⟩ := tick_puts h hconns
  refine ⟨ts, _, res, hput, ?_⟩
  rw [foldl_count hshaped]
  constructor
  · intro hcounts
    have hprobes := length_realUsers_iff.mp hcounts.total
    have hup := hcounts.uploadTotal
    have hdown := hcounts.downloadTotal
    rw [counted_eq_realUsers hprobes] at hup hdown
    refine ⟨hprobes, fun ec hec hreal => ?_, (Nat.mod_eq_iff_lt (by norm_num)).mp hup,
      (Nat.mod_eq_iff_lt (by norm_num)).mp hdown⟩
    exact (standsFor_tagOf_iff (hshaped ec hec)).mp
      (hcounts.tag ec (List.mem_filter.mpr ⟨hec, by simpa using hreal⟩))
  · rintro ⟨hprobes, hnames, hup, hdown⟩
    rw [counted_eq_realUsers hprobes, Nat.mod_eq_of_lt hup, Nat.mod_eq_of_lt hdown]
    refine ⟨rfl, rfl, rfl, ?_, GoMap.getD_tally _, fun ec hec => ?_, ?_, GoMap.size_tally _⟩
    · exact (GoMap.sum_tally _).trans (List.length_map _)
    · obtain ⟨hec, hreal⟩ := List.mem_filter.mp hec
      exact (standsFor_tagOf_iff (hshaped ec hec)).mpr (hnames ec hec (by simpa using hreal))
    · exact (GoMap.sum_tally _).trans (List.length_map _)

section Fixed

open Eval

local instance asciiFolding : CaseFolding where
  rune_rune := Char.toLower_toLower_eq_toLower

def statsOutside : Handler stats (List EntryConnection) Unit where
  exec
    | .activeConnections, conns, _ => (.ok conns, ())
    | .now, _, _ => (0, ())
    | .kvPut _ _ _, _, _ => (none, ())

/-- A probe and a user on a backend that the registry knows by name. -/
def mixedCase : List EntryConnection :=
  [{ clientID := "P-1-2-3-4", backendID := "B-1-2-3-4", upload := 5 },
    { clientID := "U-1-2-3-4", backendID := "B-1-2-3-4", upload := 7 }]

/-- A reporter with these ids in its probe list and in its registry. -/
def reporterWith (probe backend : String) : StatsReporter where
  nodeID := "n"
  probe := [probe]
  backends := some (Registry.new.upsert { id := backend, name := "alpha" }).1

def statsTick (r : StatsReporter) : List StatsEvent × Option GoError × Unit :=
  replay statsOutside r.tick [mixedCase, [], []] ()

theorem after_statsTick (r : StatsReporter) : r.tick.After (statsTick r).1 (.done none) :=
  (run_replay (A := fun _ => True) trivial _ (fun _ _ => trivial) ()).1

theorem mem_statsTick {r : StatsReporter} :
    (⟨.activeConnections, .ok mixedCase⟩ : StatsEvent) ∈ (statsTick r).1 := List.mem_cons_self ..

theorem shaped_mixedCase : ∀ ec ∈ mixedCase, ec.Shaped := by
  intro ec hec
  rcases List.mem_pair.mp hec with rfl | rfl
  all_goals exact ⟨by decide +kernel, by decide +kernel⟩

theorem stats_count_real_users_listed : ∃ ts p res,
    (statsTick (reporterWith "p-1-2-3-4" "b-1-2-3-4")).1 = [⟨.activeConnections, .ok mixedCase⟩, ⟨.now, ts⟩,
      ⟨.kvPut statsKvBucket "node.n" p, res⟩] ∧
    CountsRealUsers (reporterWith "p-1-2-3-4" "b-1-2-3-4") mixedCase p := by
  obtain ⟨ts, p, res, htr, hiff⟩ := stats_count_real_users_iff
    (reporterWith "p-1-2-3-4" "b-1-2-3-4") (after_statsTick _) mem_statsTick shaped_mixedCase
  refine ⟨ts, p, res, htr, hiff.mpr ⟨by decide +kernel, fun ec hec _ _ => ?_, by decide +kernel⟩⟩
  refine ⟨{ id := "b-1-2-3-4", name := "alpha" }, by decide +kernel, ?_⟩
  rcases List.mem_pair.mp hec with rfl | rfl
  all_goals decide +kernel

/-- A probe that is listed with a capital letter is counted as a user. -/
theorem stats_count_probe : ∃ ts p res,
    ((reporterWith "P-1-2-3-4" "b-1-2-3-4").tick).After
      [⟨.activeConnections, .ok mixedCase⟩, ⟨.now, ts⟩, ⟨.kvPut statsKvBucket "node.n" p, res⟩] (.done none) ∧
    (∀ ec ∈ mixedCase, ec.Shaped) ∧ p.total = 2 ∧
    (realUsers (reporterWith "P-1-2-3-4" "b-1-2-3-4") mixedCase).length = 1 ∧
    ¬ CountsRealUsers (reporterWith "P-1-2-3-4" "b-1-2-3-4") mixedCase p := by
  have hafter := after_statsTick (reporterWith "P-1-2-3-4" "b-1-2-3-4")
  obtain ⟨ts, res, htr⟩ := tick_puts hafter mem_statsTick
  have htotal : ((mixedCase.map EntryConnection.toSingbox).foldl
      (reporterWith "P-1-2-3-4" "b-1-2-3-4").count {}).total = 2 := by decide +kernel
  have hreal : (realUsers (reporterWith "P-1-2-3-4" "b-1-2-3-4") mixedCase).length = 1 := by
    decide +kernel
  rw [htr] at hafter
  refine ⟨ts, _, res, hafter, shaped_mixedCase, htotal, hreal, fun hcounts => ?_⟩
  have hsame := htotal.symm.trans (hcounts.total.trans hreal)
  cases hsame

end Fixed

end Stats

end NodeAgent.Traffic
