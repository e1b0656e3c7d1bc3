import NodeAgent.EntryProxy.Ranking

/-!
# Health and its history

The record of a backend is a counter and an instant. The counter is not reset when the instant has passed,
and the record is made at the first failure. What it says about a backend is read off the marks on that
backend alone: the failures since its last success, and when the last of them was.
-/

namespace NodeAgent.Proxy

/-- A call of `markBackendFailure` or `markBackendSuccess`, and when it was made. -/
structure Mark where
  id : String
  failed : Bool
  time : Time
  deriving DecidableEq, Repr

def mark (p : Proxy) (m : Mark) : Proxy :=
  if m.failed then p.markBackendFailure m.id m.time else p.markBackendSuccess m.id

/-- The proxy after the marks of a history. -/
def marked (p : Proxy) (hist : List Mark) : Proxy := hist.foldl mark p

theorem marked_concat (p : Proxy) (hist : List Mark) (m : Mark) :
    p.marked (hist ++ [m]) = (p.marked hist).mark m := by
  unfold marked
  rw [List.foldl_append]
  rfl

/-! ## What the marks say -/

/-- The marks on a backend, the last one first. -/
def marksOn (b : String) (hist : List Mark) : List Mark := (hist.filter fun m => m.id = b).reverse

/-- The failures of a backend since its last success, the last one first. -/
def failuresSince (b : String) (hist : List Mark) : List Mark := (marksOn b hist).takeWhile Mark.failed

/-- The time of the latest failure of a backend. -/
def latestFailure (b : String) (hist : List Mark) : Option Time :=
  (((marksOn b hist).filter Mark.failed).map Mark.time).max?

/-- Two failures since the last success, and less than 30 seconds since the latest failure. -/
def Unhealthy (b : String) (hist : List Mark) (t : Time) : Prop :=
  2 ≤ (failuresSince b hist).length ∧ ∃ f, latestFailure b hist = some f ∧ t < f + 30 * 1000000000

section Marks

variable {b : String} {hist : List Mark} {m : Mark}

theorem marksOn_concat : marksOn b (hist ++ [m]) =
    if m.id = b then m :: marksOn b hist else marksOn b hist := by
  unfold marksOn
  rw [List.filter_append, List.filter_singleton]
  split_ifs with h
  · simp [h]
  · simp [h]

theorem failuresSince_concat : failuresSince b (hist ++ [m]) =
    if m.id = b then if m.failed then m :: failuresSince b hist else [] else failuresSince b hist := by
  unfold failuresSince
  rw [marksOn_concat]
  split_ifs with hid hfailed
  · rw [List.takeWhile_cons_of_pos hfailed]
  · rw [List.takeWhile_cons_of_neg hfailed]
  · rfl

/-- Where time does not go back, the last failure is the latest. -/
theorem latestFailure_eq {rest : List Mark} (hsorted : hist.Pairwise fun a b => a.time ≤ b.time)
    (h : failuresSince b hist = m :: rest) : latestFailure b hist = some m.time := by
  unfold failuresSince at h
  have hmarks : (marksOn b hist).Pairwise fun a b => b.time ≤ a.time :=
    List.pairwise_reverse.mpr (hsorted.filter _)
  cases hcases : marksOn b hist with
  | nil =>
    rw [hcases] at h
    cases h
  | cons x xs =>
    rw [hcases] at h hmarks
    rw [List.takeWhile_cons] at h
    split_ifs at h with hfailed
    obtain ⟨rfl, -⟩ := List.cons_eq_cons.mp h
    unfold latestFailure
    rw [hcases, List.max?_eq_some_iff]
    refine ⟨List.mem_map_of_mem (List.mem_filter.mpr ⟨List.mem_cons_self, hfailed⟩), fun u hu => ?_⟩
    obtain ⟨y, hy, rfl⟩ := List.mem_map.mp hu
    rcases List.mem_cons.mp (List.mem_filter.mp hy).1 with rfl | hy
    · exact le_refl _
    · exact List.rel_of_pairwise_cons hmarks hy

end Marks

/-! ## What the record says -/

section Record

variable {p : Proxy} {b : String} {hist : List Mark}

/-- The record of a backend; a missing one is that of a backend that has never failed. -/
def healthOf (p : Proxy) (b : String) : BackendHealth := p.health[b]?.getD {}

theorem healthOf_markBackendFailure (p : Proxy) (id b : String) (now : Time) :
    (p.markBackendFailure id now).healthOf b =
      if b = id then ⟨(p.healthOf id).fails + 1,
        if (p.healthOf id).fails + 1 ≥ backendFailThreshold then now + backendUnhealthyCooldown
        else (p.healthOf id).unhealthyUntil⟩
      else p.healthOf b := by
  unfold markBackendFailure healthOf
  dsimp only
  rw [GoMap.getElem?_insert]
  split_ifs <;> rfl

theorem healthOf_markBackendSuccess (p : Proxy) (id b : String) :
    (p.markBackendSuccess id).healthOf b = if b = id then {} else p.healthOf b := by
  unfold markBackendSuccess healthOf
  split
  · next hnone =>
    split_ifs with hb
    · rw [hb, hnone]
      rfl
    · rfl
  · dsimp only
    rw [GoMap.getElem?_insert]
    split_ifs <;> rfl

/-- The record that a history leaves. -/
def recordOf : List Mark → BackendHealth
  | [] => {}
  | m :: rest => ⟨rest.length + 1, if rest = [] then 0 else m.time + backendUnhealthyCooldown⟩

theorem healthOf_marked (hp : p.health = ∅) (b : String) (hist : List Mark) :
    (p.marked hist).healthOf b = recordOf (failuresSince b hist) := by
  induction hist using List.reverseRecOn with
  | nil =>
    show p.healthOf b = {}
    unfold healthOf
    rw [hp]
    simp
  | append_singleton hist m ih =>
    rw [marked_concat, failuresSince_concat, mark]
    by_cases hid : m.id = b
    swap
    · rw [if_neg hid, ← ih]
      split_ifs
      · rw [healthOf_markBackendFailure, if_neg (Ne.symm hid)]
      · rw [healthOf_markBackendSuccess, if_neg (Ne.symm hid)]
    subst hid
    rw [if_pos rfl]
    split_ifs with hfailed
    · rw [healthOf_markBackendFailure, if_pos rfl, ih]
      cases hsince : failuresSince m.id hist with
      | nil => rfl
      | cons m' rest =>
        unfold recordOf backendFailThreshold
        simp
    · rw [healthOf_markBackendSuccess, if_pos rfl]
      rfl

theorem isHealthy_eq_false_iff {t : Time} (ht : 0 ≤ t) :
    p.isHealthy b t = false ↔ t < (p.healthOf b).unhealthyUntil := by
  unfold isHealthy healthOf
  cases p.health[b]? with
  | none => simp [ht]
  | some h => simp

theorem isHealthy_marked_iff (hp : p.health = ∅) (hsorted : hist.Pairwise fun a b => a.time ≤ b.time)
    {t : Time} (ht : 0 ≤ t) : (p.marked hist).isHealthy b t = false ↔ Unhealthy b hist t := by
  rw [isHealthy_eq_false_iff ht, healthOf_marked hp]
  unfold Unhealthy
  match hsince : failuresSince b hist with
  | [] => exact iff_of_false (not_lt.mpr ht) fun h => by cases h.1
  | [m] => exact iff_of_false (not_lt.mpr ht) fun h => by simp at h
  | m :: m' :: rest =>
    rw [latestFailure_eq hsorted hsince]
    simp [recordOf, backendUnhealthyCooldown]

end Record

/-! ## The ranking -/

/-- A list in which what has `f` comes first is cut by `f`. -/
theorem eq_filter_append {α : Type*} {f : α → Bool} {l : List α}
    (h : l.Pairwise fun a b => f b = true → f a = true) :
    l = l.filter f ++ l.filter fun a => !f a := by
  induction l with
  | nil => rfl
  | cons a l ih =>
    obtain ⟨ha, hl⟩ := List.pairwise_cons.mp h
    cases hf : f a with
    | true =>
      rw [List.filter_cons_of_pos hf, List.filter_cons_of_neg (by simp [hf]), List.cons_append, ← ih hl]
    | false =>
      have hnone : l.filter f = [] := by
        rw [List.filter_eq_nil_iff]
        intro b hb hfb
        rw [ha b hb hfb] at hf
        cases hf
      rw [List.filter_cons_of_neg (by simp [hf]), List.filter_cons_of_pos (by simp [hf])]
      rw [hnone] at ih ⊢
      exact congrArg (a :: ·) (ih hl)

theorem healthy_first (p : Proxy) (c dest : String) (now : Time) :
    (p.connBackends c dest now).Pairwise fun a b =>
      p.isHealthy b.id now = true → p.isHealthy a.id now = true := by
  refine (pairwise_connBackends p c dest now).imp fun {a b} hab hb => ?_
  unfold Cand.rank candOf at hab
  rw [Prod.Lex.toLex_le_toLex] at hab
  cases ha : p.isHealthy a.id now with
  | true => rfl
  | false =>
    simp only [ha, hb, Bool.not_false, Bool.not_true, reduceCtorEq, false_and, or_false] at hab
    exact absurd hab (by decide)

/-- Marks change nothing but the health records. -/
theorem marked_keeps (p : Proxy) (hist : List Mark) :
    (p.marked hist).route = p.route ∧ (p.marked hist).backends = p.backends := by
  induction hist using List.reverseRecOn with
  | nil => exact ⟨rfl, rfl⟩
  | append_singleton hist m ih =>
    rw [marked_concat, mark]
    split_ifs
    · exact ih
    · unfold markBackendSuccess
      split
      · exact ih
      · exact ih

theorem mem_connBackends_marked {p : Proxy} {hist : List Mark} {c dest : String} {t : Time}
    {be : EntryBackend} : be ∈ (p.marked hist).connBackends c dest t ↔
      be.id ∈ p.routeOf c ∧ p.backends[be.id]? = some be := by
  rw [mem_connBackends, routeOf, (p.marked_keeps hist).1, (p.marked_keeps hist).2]
  rfl

/-- After any marks on a proxy, the known backends of a client are ranked in two groups. A backend is in the
second one, of the unhealthy, exactly if it has failed twice since its last success and the time is less than
30 seconds after its latest failure. -/
theorem ranked_by_history {p : Proxy} (hp : p.health = ∅) {hist : List Mark}
    (hsorted : hist.Pairwise fun a b => a.time ≤ b.time) {t : Time} (ht : 0 ≤ t) :
    (∀ c dest, ∃ healthy unhealthy, (p.marked hist).connBackends c dest t = healthy ++ unhealthy ∧
      (∀ be, be ∈ healthy ↔
        (be.id ∈ p.routeOf c ∧ p.backends[be.id]? = some be) ∧ ¬ Unhealthy be.id hist t) ∧
      ∀ be, be ∈ unhealthy ↔
        (be.id ∈ p.routeOf c ∧ p.backends[be.id]? = some be) ∧ Unhealthy be.id hist t) ∧
    (∀ c dest, ∀ cand ∈ (p.marked hist).cands c dest t,
      cand.healthy = false ↔ Unhealthy cand.be.id hist t) ∧
    ∀ b, (p.marked hist).isHealthy b t = (p.marked (hist.filter fun m => m.id = b)).isHealthy b t := by
  have hiff : ∀ b, (p.marked hist).isHealthy b t = false ↔ Unhealthy b hist t :=
    fun b => isHealthy_marked_iff hp hsorted ht
  refine ⟨fun c dest => ?_, fun c dest cand hcand => ?_, fun b => ?_⟩
  · refine ⟨_, _, eq_filter_append (healthy_first _ c dest t), fun be => ?_, fun be => ?_⟩
    · rw [List.mem_filter, mem_connBackends_marked, ← hiff, Bool.not_eq_false]
    · rw [List.mem_filter, mem_connBackends_marked, ← hiff, Bool.not_eq_true']
  · rw [cands_eq] at hcand
    obtain ⟨be, -, rfl⟩ := List.mem_map.mp hcand
    exact hiff be.id
  · rw [Bool.eq_iff_iff, ← not_iff_not, Bool.not_eq_true, Bool.not_eq_true, hiff,
      isHealthy_marked_iff hp (hsorted.filter _) ht]
    unfold Unhealthy failuresSince latestFailure marksOn
    rw [List.filter_filter]
    simp

/-- The first backend fails twice, the second once. -/
def threeFailures : List Mark := [⟨"be1", true, 1⟩, ⟨"be2", true, 2⟩, ⟨"be1", true, 3⟩]

/-- The second backend, which came second, comes first after the failures. -/
theorem ranked_by_history_threeFailures :
    twoBackends.connBackends "u" "site.com" 10 = [⟨"be1", "10.0.0.1", 443⟩, ⟨"be2", "10.0.0.2", 443⟩] ∧
    ∃ healthy unhealthy,
      (twoBackends.marked threeFailures).connBackends "u" "site.com" 10 = healthy ++ unhealthy ∧
      healthy = [⟨"be2", "10.0.0.2", 443⟩] ∧ unhealthy = [⟨"be1", "10.0.0.1", 443⟩] ∧
      ¬ Unhealthy "be2" threeFailures 10 ∧ Unhealthy "be1" threeFailures 10 := by
  have hsorted : threeFailures.Pairwise fun a b => a.time ≤ b.time := by decide
  obtain ⟨hgroups, -, -⟩ :=
    ranked_by_history (p := twoBackends) (by rfl) hsorted (t := 10) (by decide)
  obtain ⟨healthy, unhealthy, hsplit, hhealthy, hunhealthy⟩ := hgroups "u" "site.com"
  have horder : (twoBackends.marked threeFailures).connBackends "u" "site.com" 10 =
      [⟨"be2", "10.0.0.2", 443⟩] ++ [⟨"be1", "10.0.0.1", 443⟩] := by decide +kernel
  have hfails : Unhealthy "be1" threeFailures 10 := ⟨by decide, 3, by decide, by decide⟩
  have honce : ¬ Unhealthy "be2" threeFailures 10 := fun h => absurd h.1 (by decide)
  have hsecond := List.length_pos_of_mem
    ((hhealthy ⟨"be2", "10.0.0.2", 443⟩).mpr ⟨by decide +kernel, honce⟩)
  have hfirst := List.length_pos_of_mem
    ((hunhealthy ⟨"be1", "10.0.0.1", 443⟩).mpr ⟨by decide +kernel, hfails⟩)
  have hlen := congrArg List.length (hsplit.symm.trans horder)
  rw [List.length_append] at hlen
  obtain ⟨hh, hu⟩ := List.append_inj (hsplit.symm.trans horder) (by simp at hlen ⊢; omega)
  exact ⟨by decide +kernel, healthy, unhealthy, hsplit, hh, hu, honce, hfails⟩

end NodeAgent.Proxy
