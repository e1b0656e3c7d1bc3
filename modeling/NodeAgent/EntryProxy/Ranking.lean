import NodeAgent.EntryProxy

/-!
# The order of the candidates

`connBackends` ranks the known backends of a client: the healthy ones first, and by score among those of
the same health. Where scores differ the ranking is a strict order that looks at one backend at a time,
so another backend that comes or goes does not move the rest.
-/

namespace NodeAgent.Proxy

/-! ## Reachable proxies -/

/-- The calls that write the maps. -/
inductive Op
  | addUser (clientID flow : String)
  | removeUser (clientID : String)
  | selectBackend (clientID backendID : String)
  | setUserBackends (clientID : String) (backendIDs : List String)
  | setBackends (specs : List EntryBackend)
  | markBackendFailure (id : String) (now : Time)
  | markBackendSuccess (id : String)

/-- A call that returns an error has changed nothing. -/
def perform (p : Proxy) : Op → Proxy
  | .addUser clientID flow => (p.addUser clientID flow).toOption.getD p
  | .removeUser clientID => p.removeUser clientID
  | .selectBackend clientID backendID => (p.selectBackend clientID backendID).toOption.getD p
  | .setUserBackends clientID backendIDs => (p.setUserBackends clientID backendIDs).toOption.getD p
  | .setBackends specs => p.setBackends specs
  | .markBackendFailure id now => p.markBackendFailure id now
  | .markBackendSuccess id => p.markBackendSuccess id

/-- What a sequence of calls makes of a new proxy. -/
def Reachable (p : Proxy) : Prop := ∃ ops : List Op, p = ops.foldl perform new

section Reachable

variable {p : Proxy}

theorem nodup_distinctIDs (seen ids : List String) : (distinctIDs seen ids).Nodup := by
  induction ids generalizing seen with
  | nil => exact List.nodup_nil
  | cons id ids ih =>
    unfold distinctIDs
    split_ifs
    · exact ih seen
    · refine List.nodup_cons.mpr ⟨fun hmem => ?_, ih _⟩
      exact (mem_distinctIDs.mp hmem).2.2 List.mem_cons_self

theorem routeOf_insert (p : Proxy) (c x : String) (ids : List String) :
    routeOf { p with route := p.route.insert c ids } x = if x = c then ids else p.routeOf x := by
  unfold routeOf
  rw [GoMap.getElem?_insert]
  split_ifs <;> rfl

/-- No call puts an id into a route twice. -/
theorem nodup_perform (h : ∀ c, (p.routeOf c).Nodup) (op : Op) (c : String) :
    ((p.perform op).routeOf c).Nodup := by
  cases op with
  | addUser x flow =>
    unfold perform addUser
    dsimp only
    split_ifs
    · exact h c
    · exact h c
  | removeUser x =>
    unfold perform
    rw [routeOf_removeUser]
    split_ifs
    · exact List.nodup_nil
    · exact h c
  | selectBackend x b =>
    unfold perform selectBackend
    dsimp only
    split_ifs with hknown hthere
    · exact h c
    · show (routeOf { p with route := _ } c).Nodup
      rw [routeOf_insert]
      split_ifs
      · exact List.nodup_append_comm.mp (List.nodup_cons.mpr ⟨hthere, h x⟩)
      · exact h c
    · exact h c
  | setUserBackends x ids =>
    unfold perform setUserBackends
    dsimp only
    split_ifs
    · exact h c
    · show (routeOf { p with route := _ } c).Nodup
      rw [routeOf_insert]
      split_ifs
      · exact nodup_distinctIDs [] ids
      · exact h c
  | setBackends specs => exact h c
  | markBackendFailure id now => exact h c
  | markBackendSuccess id =>
    unfold perform markBackendSuccess
    dsimp only
    split
    · exact h c
    · exact h c

theorem nodup_routeOf (hp : Reachable p) (c : String) : (p.routeOf c).Nodup := by
  obtain ⟨ops, rfl⟩ := hp
  have hrun : ∀ (ops : List Op) (q : Proxy), (∀ c, (q.routeOf c).Nodup) →
      ∀ c, ((ops.foldl perform q).routeOf c).Nodup := by
    intro ops
    induction ops with
    | nil => exact fun q hq => hq
    | cons op ops ih => exact fun q hq => ih _ (nodup_perform hq op)
  refine hrun ops new (fun c => ?_) c
  simp [routeOf]

end Reachable

/-! ## The ranking -/

/-- `healthy` in `connBackends`. -/
def isHealthy (p : Proxy) (id : String) (now : Time) : Bool :=
  match p.health[id]? with
  | none => true
  | some h => decide (¬ now < h.unhealthyUntil)

/-- The backend under an id, if it is known and eligible for the client. -/
def offered (p : Proxy) (c id : String) : Option EntryBackend :=
  if id ∈ p.routeOf c then p.backends[id]? else none

/-- No two backends that are offered have the same score. -/
def DistinctScores (p : Proxy) (c dest : String) : Prop :=
  ∀ id id', (p.offered c id).isSome → (p.offered c id').isSome →
    hrwScore id c dest = hrwScore id' c dest → id = id'

/-- A healthy backend comes before an unhealthy one; otherwise the higher score comes first. -/
def Before (p : Proxy) (c dest : String) (now : Time) (a b : EntryBackend) : Prop :=
  if p.isHealthy a.id now = p.isHealthy b.id now then hrwScore b.id c dest < hrwScore a.id c dest
  else p.isHealthy a.id now = true

section Rank

/-- The place of a candidate: by health, then by score. -/
def Cand.rank (a : Cand) : Bool ×ₗ ℕᵒᵈ := toLex (!a.healthy, OrderDual.toDual a.score.toNat)

theorem Cand.less_eq_false_iff {a b : Cand} : b.less a = false ↔ a.rank ≤ b.rank := by
  unfold Cand.less Cand.rank
  rw [Prod.Lex.toLex_le_toLex, OrderDual.toDual_le_toDual]
  cases ha : a.healthy <;> cases hb : b.healthy <;> simp [UInt64.lt_iff_toNat_lt]

instance : Std.Total fun a b : Cand => b.less a = false where
  total a b := by
    rw [Cand.less_eq_false_iff, Cand.less_eq_false_iff]
    exact le_total _ _

instance : IsTrans Cand fun a b : Cand => b.less a = false where
  trans a b d := by
    rw [Cand.less_eq_false_iff, Cand.less_eq_false_iff, Cand.less_eq_false_iff]
    exact le_trans

variable {p : Proxy} {c dest : String} {now : Time}

/-- The candidate of a backend. -/
def candOf (p : Proxy) (c dest : String) (now : Time) (be : EntryBackend) : Cand where
  be := be
  score := hrwScore be.id c dest
  healthy := p.isHealthy be.id now

theorem cands_eq (p : Proxy) (c dest : String) (now : Time) :
    p.cands c dest now = ((p.routeOf c).filterMap fun id => p.backends[id]?).map (p.candOf c dest now) := by
  unfold cands
  rw [List.map_filterMap]
  refine List.filterMap_congr fun id _ => ?_
  cases hbe : p.backends[id]? with
  | none => rfl
  | some be =>
    rw [Option.map_some, Option.map_some, candOf, p.keyed id be hbe]
    rfl

theorem connBackends_perm (p : Proxy) (c dest : String) (now : Time) :
    (p.connBackends c dest now).Perm ((p.routeOf c).filterMap fun id => p.backends[id]?) := by
  unfold connBackends
  refine ((List.perm_insertionSort _ _).map Cand.be).trans ?_
  rw [cands_eq, List.map_map]
  exact .of_eq (List.map_id _)

theorem mem_connBackends_iff {be : EntryBackend} :
    be ∈ p.connBackends c dest now ↔ p.offered c be.id = some be := by
  rw [mem_connBackends, offered]
  by_cases h : be.id ∈ p.routeOf c
  · simp [h]
  · simp [h]

/-- The sorted candidates, each seen through its backend. -/
theorem pairwise_connBackends (p : Proxy) (c dest : String) (now : Time) :
    (p.connBackends c dest now).Pairwise fun a b =>
      (p.candOf c dest now a).rank ≤ (p.candOf c dest now b).rank := by
  have hsorted := List.pairwise_insertionSort (fun a b : Cand => b.less a = false) (p.cands c dest now)
  have hcand : ∀ a ∈ (p.cands c dest now).insertionSort fun a b => b.less a = false,
      p.candOf c dest now a.be = a := by
    intro a ha
    rw [List.mem_insertionSort, cands_eq] at ha
    obtain ⟨be, -, rfl⟩ := List.mem_map.mp ha
    rfl
  unfold connBackends
  rw [List.pairwise_map]
  refine hsorted.imp_of_mem fun ha hb hab => ?_
  rw [hcand _ ha, hcand _ hb]
  exact Cand.less_eq_false_iff.mp hab

theorem nodup_ids_connBackends (hp : Reachable p) (c dest : String) (now : Time) :
    ((p.connBackends c dest now).map EntryBackend.id).Nodup := by
  rw [((p.connBackends_perm c dest now).map EntryBackend.id).nodup_iff]
  have hids : ((p.routeOf c).filterMap fun id => p.backends[id]?).map EntryBackend.id =
      (p.routeOf c).filter fun id => (p.backends[id]?).isSome := by
    rw [List.map_filterMap, ← List.filterMap_eq_filter]
    refine List.filterMap_congr fun id _ => ?_
    cases hbe : p.backends[id]? with
    | none => simp [Option.guard, hbe]
    | some be => simp [Option.guard, hbe, p.keyed id be hbe]
  rw [hids]
  exact (nodup_routeOf hp c).filter _

theorem before_iff {a b : EntryBackend} : p.Before c dest now a b ↔
    (p.candOf c dest now a).rank < (p.candOf c dest now b).rank := by
  unfold Before Cand.rank candOf
  rw [Prod.Lex.toLex_lt_toLex, OrderDual.toDual_lt_toDual]
  cases ha : p.isHealthy a.id now <;> cases hb : p.isHealthy b.id now <;>
    simp [UInt64.lt_iff_toNat_lt]

/-- With distinct scores the ranking is strict. -/
theorem before_connBackends (hp : Reachable p) (hscores : p.DistinctScores c dest) (now : Time) :
    (p.connBackends c dest now).Pairwise (p.Before c dest now) := by
  have hnodup := List.pairwise_map.mp (nodup_ids_connBackends hp c dest now)
  refine ((pairwise_connBackends p c dest now).and hnodup).imp_of_mem fun {a b} ha hb hab => ?_
  rw [before_iff]
  refine lt_of_le_of_ne hab.1 fun heq => hab.2 ?_
  have hscore : hrwScore a.id c dest = hrwScore b.id c dest := by
    have hsnd := congrArg (fun x => (ofLex x).2) heq
    exact UInt64.toNat_inj.mp (OrderDual.toDual_inj.mp hsnd)
  refine hscores a.id b.id ?_ ?_ hscore
  · rw [mem_connBackends_iff.mp ha]
    rfl
  · rw [mem_connBackends_iff.mp hb]
    rfl

instance : Std.Antisymm (p.Before c dest now) where
  antisymm a b hab hba := by
    rw [before_iff] at hab hba
    exact absurd hab (lt_asymm hba)

instance : Std.Irrefl (p.Before c dest now) where
  irrefl _ h := lt_irrefl _ (before_iff.mp h)

end Rank

/-! ## Two proxies -/

section Two

variable {p p' : Proxy} {c dest : String} {now now' : Time}

theorem before_congr (hhealth : ∀ id, p'.isHealthy id now' = p.isHealthy id now) :
    p'.Before c dest now' = p.Before c dest now := by
  funext a b
  unfold Before
  rw [hhealth, hhealth]

theorem filter_connBackends_eq (hp : Reachable p) (hp' : Reachable p') (hscores : p.DistinctScores c dest)
    (hscores' : p'.DistinctScores c dest) (keep : EntryBackend → Bool)
    (hoffered : ∀ be, keep be = true → p'.offered c be.id = p.offered c be.id)
    (hhealth : ∀ id, p'.isHealthy id now' = p.isHealthy id now) :
    (p'.connBackends c dest now').filter keep = (p.connBackends c dest now).filter keep := by
  have hsorted' := (before_connBackends hp' hscores' now').filter keep
  rw [before_congr hhealth] at hsorted'
  refine hsorted'.eq_of_mem_iff ((before_connBackends hp hscores now).filter keep) fun be => ?_
  rw [List.mem_filter, List.mem_filter, mem_connBackends_iff, mem_connBackends_iff]
  refine and_congr_left fun hkeep => ?_
  rw [hoffered be hkeep]

/-- The candidates are the known backends of the client, each once, ranked by health and by score; the
ranking depends on what is offered only, and a backend more or less leaves the others in their order. -/
theorem connBackends_ranked (hp : Reachable p) (hscores : p.DistinctScores c dest) :
    ((p.connBackends c dest now).map EntryBackend.id).Nodup ∧
      (∀ be, be ∈ p.connBackends c dest now ↔ be.id ∈ p.routeOf c ∧ p.backends[be.id]? = some be) ∧
      (p.connBackends c dest now).Pairwise (p.Before c dest now) ∧
      (∀ p' now', Reachable p' → (∀ id, p'.offered c id = p.offered c id) →
        (∀ id, p'.isHealthy id now' = p.isHealthy id now) →
        p'.connBackends c dest now' = p.connBackends c dest now) ∧
      ∀ p' now' x, Reachable p' → p'.DistinctScores c dest →
        (∀ id, id ≠ x → p'.offered c id = p.offered c id) →
        (∀ id, p'.isHealthy id now' = p.isHealthy id now) →
        (p'.connBackends c dest now').filter (fun be => be.id ≠ x) =
          (p.connBackends c dest now).filter fun be => be.id ≠ x := by
  refine ⟨nodup_ids_connBackends hp c dest now, fun be => mem_connBackends,
    before_connBackends hp hscores now, ?_, ?_⟩
  · intro p' now' hp' hoffered hhealth
    have hscores' : p'.DistinctScores c dest := by
      intro id id' h h'
      rw [hoffered] at h h'
      exact hscores id id' h h'
    have hall := filter_connBackends_eq hp hp' hscores hscores' (fun _ => true)
      (fun be _ => hoffered be.id) hhealth
    rw [List.filter_true, List.filter_true] at hall
    exact hall
  · intro p' now' x hp' hscores' hoffered hhealth
    exact filter_connBackends_eq hp hp' hscores hscores' _
      (fun be hkeep => hoffered be.id (of_decide_eq_true hkeep)) hhealth

end Two

theorem distinctScores_of_routeOf {p : Proxy} {c dest : String}
    (h : ∀ id ∈ p.routeOf c, ∀ id' ∈ p.routeOf c, hrwScore id c dest = hrwScore id' c dest → id = id') :
    p.DistinctScores c dest := by
  have hmem : ∀ id, (p.offered c id).isSome → id ∈ p.routeOf c := by
    intro id hid
    unfold offered at hid
    split_ifs at hid with hin
    · exact hin
    · cases hid
  exact fun id id' hid hid' => h id (hmem id hid) id' (hmem id' hid')

/-- A client with two backends. -/
def twoBackends : Proxy :=
  [.setBackends [⟨"be1", "10.0.0.1", 443⟩, ⟨"be2", "10.0.0.2", 443⟩], .selectBackend "u" "be1",
    .selectBackend "u" "be2"].foldl perform new

theorem connBackends_ranked_twoBackends : Reachable twoBackends ∧
    twoBackends.DistinctScores "u" "site.com" ∧
    (twoBackends.connBackends "u" "site.com" 0).Pairwise (twoBackends.Before "u" "site.com" 0) := by
  have hreach : Reachable twoBackends := ⟨_, rfl⟩
  have hscores : twoBackends.DistinctScores "u" "site.com" := distinctScores_of_routeOf (by decide +kernel)
  exact ⟨hreach, hscores, (connBackends_ranked hreach hscores).2.2.1⟩

end NodeAgent.Proxy
