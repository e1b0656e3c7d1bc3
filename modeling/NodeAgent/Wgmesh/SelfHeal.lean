import NodeAgent.Wgmesh.Service

/-!
# Self-heal next to the watch

A heal applies what it has read from the cache, and the watch caches a state after it has applied it. So
a heal that has read before an update is cached may put an older state back on the device.
-/

namespace NodeAgent.Wgmesh

open Lib

/-- The watch, and any number of heals. -/
def goroutines (us : List Update) (heals : ℕ) : List (Prog mesh Unit) :=
  watch us :: List.replicate heals maybeSelfHeal

/-- A heal reads before an update is cached and applies another state after that update was applied. -/
def HealOverlaps (tr : List (Tagged mesh)) : Prop :=
  ∃ (a b c : List (Tagged mesh)) (i : ℕ) (state st : ApplyState),
    tr = a ++ (0, ⟨.apply state, none⟩) :: (b ++ (0, ⟨.storeLast state, ()⟩) :: c) ∧
    eventsOf 0 b = [] ∧ (i, ⟨.loadLast, some st⟩) ∈ a ++ b ∧ (i, ⟨.apply st, none⟩) ∈ b ++ c ∧
    st ≠ state

section Steps

variable {A : MeshEnv → Prop} {m m' : Mesh} {tr : List MeshEvent} {state : ApplyState}

/-- The device keeps its state while only that one is applied. -/
theorem steps_device (h : Steps wg A m tr m')
    (hsame : ∀ st, (⟨.apply st, none⟩ : MeshEvent) ∈ tr → st = state) (hm : m.device = some state) :
    m'.device = some state := by
  refine h.invariant (I := fun v => v.device = some state) (fun ev hev e v _ hr hv => ?_) hm
  obtain ⟨c, r⟩ := ev
  cases c with
  | apply st =>
    obtain ⟨fail, stats⟩ := e
    cases fail with
    | some msg => exact hv
    | none =>
      cases hr
      rw [← hsame st hev]
      rfl
  | peerStats => exact hv
  | loadLast => exact hv
  | storeLast st => exact hv

theorem device_of_applied {e : MeshEnv} (h : (Mesh.exec (.apply state) e m).1 = none) :
    (Mesh.exec (.apply state) e m).2.device = some state := by
  obtain ⟨fail, stats⟩ := e
  cases fail with
  | some msg => cases h
  | none => rfl

theorem steps_lastState (h : Steps wg A m tr m')
    (hno : ∀ st r, (⟨.storeLast st, r⟩ : MeshEvent) ∉ tr) : m'.lastState = m.lastState := by
  refine h.invariant (I := fun v => v.lastState = m.lastState) (fun ev hev e v _ hr hv => ?_) rfl
  obtain ⟨c, r⟩ := ev
  cases c with
  | apply st =>
    obtain ⟨fail, stats⟩ := e
    cases fail <;> exact hv
  | peerStats => exact hv
  | loadLast => exact hv
  | storeLast st => exact absurd hev (hno st r)

end Steps

section Pool

variable {A : MeshEnv → Prop} {us : List Update} {heals : ℕ} {m m' : Mesh}
  {tr : List (Tagged mesh)} {ts' : List (Prog mesh Unit)}

theorem heal_events (h : Interleave (goroutines us heals) tr ts') (hdone : ∀ q ∈ ts', q = .done ())
    {i : ℕ} {ev : MeshEvent} (hi : i ≠ 0) (hmem : (i, ev) ∈ tr) :
    maybeSelfHeal.After (eventsOf i tr) (.done ()) := by
  obtain ⟨k, rfl⟩ := Nat.exists_eq_succ_of_ne_zero hi
  have hlt := h.lt_of_mem hmem
  rw [goroutines, List.length_cons, List.length_replicate, Nat.succ_lt_succ_iff] at hlt
  have hk : (goroutines us heals)[k + 1]? = some maybeSelfHeal := by
    rw [goroutines, List.getElem?_cons_succ, List.getElem?_replicate, if_pos hlt]
  obtain ⟨q, hq, hafter⟩ := h.after hk
  rwa [hdone q (List.mem_of_getElem? hq)] at hafter

/-- A heal reads, and what it applies it has read. -/
theorem heal_call (h : Interleave (goroutines us heals) tr ts') (hdone : ∀ q ∈ ts', q = .done ())
    {i : ℕ} {ev : MeshEvent} (hi : i ≠ 0) (hmem : (i, ev) ∈ tr) :
    ev.call = .loadLast ∨ ev.call = .peerStats ∨
      ∃ st, ev.call = .apply st ∧ (i, ⟨.loadLast, some st⟩) ∈ tr := by
  obtain ⟨found, rest, heq, hrest⟩ := maybeSelfHeal_events (heal_events h hdone hi hmem)
  have hev := mem_eventsOf.mpr hmem
  rw [heq] at hev
  rcases List.mem_cons.mp hev with rfl | htail
  · exact .inl rfl
  rcases hrest with hrest | ⟨st, stats, r, rfl, rfl⟩
  · exact .inr (.inl (hrest _ htail))
  rcases List.mem_cons.mp htail with rfl | happly
  · exact .inr (.inl rfl)
  · rw [List.mem_singleton.mp happly]
    refine .inr (.inr ⟨st, rfl, mem_eventsOf.mp ?_⟩)
    rw [heq]
    exact List.mem_cons_self

theorem read_of_healed (h : Interleave (goroutines us heals) tr ts') (hdone : ∀ q ∈ ts', q = .done ())
    {i : ℕ} {st : ApplyState} {r : Option GoError} (hi : i ≠ 0) (hmem : (i, ⟨.apply st, r⟩) ∈ tr) :
    (i, ⟨.loadLast, some st⟩) ∈ tr := by
  rcases heal_call h hdone hi hmem with hc | hc | ⟨st', hc, hread⟩
  · cases hc
  · cases hc
  · cases hc
    exact hread

theorem cached_by_watch (h : Interleave (goroutines us heals) tr ts') (hdone : ∀ q ∈ ts', q = .done ())
    {i : ℕ} {st : ApplyState} {r : Unit} (hmem : (i, ⟨.storeLast st, r⟩) ∈ tr) : i = 0 := by
  by_contra hi
  rcases heal_call h hdone hi hmem with hc | hc | ⟨_, hc, -⟩ <;> cases hc

/-- Once all calls have returned, the device has the state of the last handled update, if no heal
overlaps an update. -/
theorem mesh_not_rolled_back (h : Pool wg A (goroutines us heals) m tr ts' m')
    (hdone : ∀ q ∈ ts', q = .done ()) (hok : Applies (tr.map Prod.snd)) (hno : ¬ HealOverlaps tr)
    {state : ApplyState} (hlast : (us.filterMap handled).getLast? = some state) :
    m'.device = some state := by
  -- cut the trace at the last update
  obtain ⟨q, hq, hafter⟩ := h.1.after (i := 0) rfl
  rw [hdone q (List.mem_of_getElem? hq)] at hafter
  have hevents := watch_events (fun st r hmem => hok st r
    (List.mem_map_of_mem (mem_eventsOf.mp hmem))) hafter
  obtain ⟨l, hl⟩ := List.getLast?_eq_some_iff.mp hlast
  rw [hl, List.flatMap_append] at hevents
  have hcut : eventsOf 0 tr = l.flatMap updateEvents ++
      ⟨.apply state, none⟩ :: ([] ++ ⟨.storeLast state, ()⟩ :: []) := hevents
  obtain ⟨a, b, c, rfl, -, hb, hc⟩ := exists_cuts_of_eventsOf_eq hcut
  have hsub : ∀ x ∈ b ++ c, x ∈ a ++ (0, ⟨.apply state, none⟩) ::
      (b ++ (0, ⟨.storeLast state, ()⟩) :: c) := by
    intro x hx
    simp only [List.mem_append, List.mem_cons] at hx ⊢
    tauto
  have hothers : ∀ x ∈ b ++ c, x.1 ≠ 0 := by
    rintro ⟨i, ev⟩ hx rfl
    rcases List.mem_append.mp hx with hx | hx
    · exact List.not_mem_nil (hb ▸ mem_eventsOf.mpr hx)
    · exact List.not_mem_nil (hc ▸ mem_eventsOf.mpr hx)
  -- the worlds at the cuts
  obtain ⟨us₁, m₁, -, h₂⟩ := pool_append.mp h
  obtain ⟨e, -, hr, hs₂⟩ := steps_cons.mp h₂.2
  obtain ⟨m₃, -, e', -, -, hs₄⟩ := steps_append.mp (List.map_append ▸ hs₂)
  have hcached : ∀ {c₁ c₂ : List MeshEvent} {m₅ : Mesh}, c.map Prod.snd = c₁ ++ c₂ →
      Steps wg A (Mesh.exec (.storeLast state) e' m₃).2 c₁ m₅ → m₅.lastState = some state := by
    intro c₁ c₂ m₅ heq hs₅
    refine (steps_lastState hs₅ fun st r hmem => ?_).trans rfl
    obtain ⟨⟨i, ev⟩, hin, rfl⟩ := List.mem_map.mp (heq ▸ List.mem_append_left c₂ hmem)
    exact hothers _ (List.mem_append_right b hin)
      (cached_by_watch h.1 hdone (hsub _ (List.mem_append_right b hin)))
  -- whatever is applied afterwards is the same state
  have hsame : ∀ i st, (i, ⟨.apply st, none⟩) ∈ b ++ c → st = state := by
    intro i st hmem
    have hread := read_of_healed h.1 hdone (hothers _ hmem) (hsub _ hmem)
    rw [List.mem_append, List.mem_cons, List.mem_append, List.mem_cons] at hread
    by_contra hne
    have hover : (i, ⟨.loadLast, some st⟩) ∉ a ++ b := fun hab =>
      hno ⟨a, b, c, i, state, st, rfl, hb, hab, hmem, hne⟩
    rw [List.mem_append, not_or] at hover
    rcases hread with hin | hin | hin | hin | hin
    · exact hover.1 hin
    · cases hin
    · exact hover.2 hin
    · cases hin
    · obtain ⟨c₁, c₂, m₅, e₅, heq, hs₅, -, hr₅, -⟩ := hs₄.split_mem (List.mem_map_of_mem hin)
      have hst : m₅.lastState = some st := hr₅
      rw [hcached heq hs₅] at hst
      exact hne (Option.some.inj hst).symm
  refine steps_device hs₂ (fun st hmem => ?_) (device_of_applied hr)
  obtain ⟨⟨i, ev⟩, hin, rfl⟩ := List.mem_map.mp hmem
  refine hsame i st (List.mem_append.mpr ?_)
  rcases List.mem_append.mp hin with hin | hin
  · exact .inl hin
  · exact .inr ((List.mem_cons.mp hin).resolve_left fun h => by cases h)

end Pool

/-! ## Two updates and a heal -/

/-- An update with one peer. -/
def peerUpdate (publicKey : String) : Update :=
  .ok { nodeID := "n", address := "10.0.0.1/24", peers := [{ publicKey := publicKey }] }

/-- The peers `a` and `b`, one after the other; the heal finds a peer without a handshake. -/
def twoUpdates (sched : List ℕ) : List (Tagged mesh) × List (Prog mesh Unit) × Mesh :=
  schedule wg (goroutines [peerUpdate "a", peerUpdate "b"] 1)
    (sched.map fun i => (i, { stats := [⟨"a", false⟩] })) {}

theorem pool_twoUpdates (sched : List ℕ) :
    Pool wg (fun e => e.fail = none) (goroutines [peerUpdate "a", peerUpdate "b"] 1) {}
      (twoUpdates sched).1 (twoUpdates sched).2.1 (twoUpdates sched).2.2 := by
  refine pool_schedule _ (fun x hx => ?_) _
  obtain ⟨i, -, rfl⟩ := List.mem_map.mp hx
  rfl

theorem applies_of_noFault {m m' : Mesh} {tr : List MeshEvent}
    (h : Steps wg (fun e => e.fail = none) m tr m') : Applies tr := by
  intro state r hmem
  obtain ⟨-, -, m₁, e, -, -, he, hr, -⟩ := h.split_mem hmem
  obtain ⟨fail, stats⟩ := e
  obtain rfl : fail = none := he
  exact hr.symm

/-- The heal comes last. -/
theorem mesh_not_rolled_back_heal_last :
    (twoUpdates [0, 0, 0, 0, 1, 1, 1]).2.2.device = handled (peerUpdate "b") := by
  have hpool := pool_twoUpdates [0, 0, 0, 0, 1, 1, 1]
  have hdone : (twoUpdates [0, 0, 0, 0, 1, 1, 1]).2.1 = [.done (), .done ()] := by rfl
  refine mesh_not_rolled_back hpool ?_ (applies_of_noFault hpool.2) ?_ rfl
  · rw [hdone]
    simp
  · rintro ⟨a, b, c, i, state, st, heq, -, hread, -, -⟩
    have hsorted : (twoUpdates [0, 0, 0, 0, 1, 1, 1]).1.Pairwise fun x y => x.1 ≤ y.1 := by
      rw [← List.pairwise_map (f := Prod.fst) (R := (· ≤ ·))]
      decide
    have hread' : (i, ⟨.loadLast, some st⟩) ∈ (twoUpdates [0, 0, 0, 0, 1, 1, 1]).1 := by
      rw [heq]
      simp only [List.mem_append, List.mem_cons] at hread ⊢
      tauto
    have hle : i ≤ 0 := by
      rw [heq, List.pairwise_append, List.pairwise_cons, List.pairwise_append] at hsorted
      rcases List.mem_append.mp hread with hin | hin
      · exact hsorted.2.2 _ hin _ List.mem_cons_self
      · exact hsorted.2.1.2.2.2 _ hin _ List.mem_cons_self
    obtain rfl : i = 0 := Nat.le_zero.mp hle
    -- the watch does not read the cache
    have hnone : (twoUpdates [0, 0, 0, 0, 1, 1, 1]).1.all
        (fun x => !(x.1 = 0 && x.2.call matches .loadLast)) = true := by
      decide
    cases List.all_eq_true.mp hnone _ hread'

theorem heal_rolls_back : ∃ tr m',
    Pool wg (fun e => e.fail = none) (goroutines [peerUpdate "a", peerUpdate "b"] 1) {} tr
      [.done (), .done ()] m' ∧
    ([peerUpdate "a", peerUpdate "b"].filterMap handled).getLast? = handled (peerUpdate "b") ∧
    m'.device = handled (peerUpdate "a") ∧ handled (peerUpdate "a") ≠ handled (peerUpdate "b") :=
  ⟨_, _, pool_twoUpdates [0, 0, 1, 0, 0, 1, 1], rfl, rfl, by decide⟩

end NodeAgent.Wgmesh
