import NodeAgent.Entry.Rebuild
import NodeAgent.Entry.Users
import NodeAgent.Lib.Pool

/-!
# Deferred routes

`SimpleApply` and `RebuildFromStore` next to each other, any number of each. A route whose backend is not
registered yet is deferred, and `pending` tells that there is one. The flag is written apart from the
record: by a `SimpleApply` before its put, by a rebuild after its listing.
-/

namespace NodeAgent.Entry

open Lib EntryProxyActions

/-! ## The property -/

/-- The client has live placements, and none of their backends is registered. -/
def Stranded (reg : Registry) (s : Store) (x : ClientID) : Prop :=
  s.LiveClient x ∧ ∀ p ∈ s.list, p.live = true → p.clientID = x → reg.get p.backendNodeID = none

/-- If `HasPending` is false, no client is stranded. -/
def PendingTold (reg : Registry) (w : World) : Prop :=
  w.pending = false → ∀ x, ¬ Stranded reg w.store x

/-- A call of the entry actions. -/
inductive Job
  | apply (desired : Placement)
  | rebuild

/-- The program of a job. -/
def Job.prog (reg : Registry) : Job → Go Err
  | .apply desired => simpleApply reg desired
  | .rebuild => rebuildFromStore reg

/-- The live placements under the id of a command are of the client of that command. -/
structure OneClient (jobs : List Job) (s : Store) : Prop where
  stored : ∀ d, .apply d ∈ jobs → ∀ p ∈ s.list, p.id = d.id → p.live = true → p.clientID = d.clientID
  given : ∀ d, .apply d ∈ jobs → ∀ d', .apply d' ∈ jobs → d'.id = d.id → d'.clientID = d.clientID

/-- Job `i` lists the placements before job `j` puts its one, and takes back the flag after job `j`
has set it. -/
def Overlooks (i j : ℕ) (tr : List (Tagged ports)) : Prop :=
  ∃ all p, [(i, ⟨.listPlacements, .ok all⟩), (j, ⟨.putPlacement p, none⟩)].Sublist tr ∧
    [(j, ⟨.storePending true, ()⟩), (i, ⟨.storePending false, ()⟩)].Sublist tr

/-! ## The events of a job -/

/-- The event stores whether a route is deferred. -/
def isPending : GoEvent → Bool
  | ⟨.storePending _, _⟩ => true
  | _ => false

section Jobs

variable {reg : Registry} {d : Placement} {tr : List GoEvent}

theorem syncBackends_done (h : (syncBackends reg).After tr (.done none)) :
    tr = [⟨.setBackends reg.entryBackends, none⟩] := by
  obtain ⟨r, tr₁, rfl, h₁⟩ := Prog.after_invoke_done_iff.mp h
  cases r with
  | some err => simp at h₁
  | none =>
    obtain ⟨rfl, -⟩ := Prog.after_done_iff.mp h₁
    rfl

/-- What is done about the route: it is selected, or its deferral is noted. -/
def routeEvent (reg : Registry) (d : Placement) : GoEvent :=
  if (reg.get d.backendNodeID).isSome then ⟨.selectBackend d.clientID d.backendNodeID, none⟩
  else ⟨.storePending true, ()⟩

theorem serve_done (h : (serve reg d).After tr (.done none)) :
    ∃ flow, tr = [⟨.setBackends reg.entryBackends, none⟩, ⟨.addUser d.clientID flow, none⟩,
      routeEvent reg d] := by
  obtain ⟨r, tr₁, tr₂, rfl, hsync, h₂⟩ := Prog.after_bind_done_iff.mp h
  cases r with
  | some err => simp at h₂
  | none =>
    rw [syncBackends_done hsync]
    obtain ⟨r, tr₃, rfl, h₃⟩ := Prog.after_invoke_done_iff.mp h₂
    cases r with
    | some err => simp at h₃
    | none =>
      refine ⟨_, congrArg (fun l => _ :: _ :: l) ?_⟩
      dsimp only at h₃
      unfold routeEvent
      cases hreg : reg.get d.backendNodeID with
      | none =>
        rw [hreg] at h₃
        obtain ⟨_, tr₄, rfl, h₄⟩ := Prog.after_invoke_done_iff.mp h₃
        obtain ⟨rfl, -⟩ := Prog.after_done_iff.mp h₄
        rfl
      | some spec =>
        rw [hreg] at h₃
        obtain ⟨r, tr₄, rfl, h₄⟩ := Prog.after_invoke_done_iff.mp h₃
        cases r with
        | some err => simp at h₄
        | none =>
          obtain ⟨rfl, -⟩ := Prog.after_done_iff.mp h₄
          rfl

/-- A `SimpleApply` of a live placement: stale, or it selects the backend or sets the flag, and puts. -/
theorem simpleApply_live_events (hd : d.live = true)
    (h : (simpleApply reg d).After tr (.done none)) :
    (∃ found, tr = [⟨.getPlacement d.id, .ok found⟩]) ∨
      ∃ found t flow, tr = [⟨.getPlacement d.id, .ok found⟩, ⟨.now, t⟩,
        ⟨.setBackends reg.entryBackends, none⟩, ⟨.addUser d.clientID flow, none⟩,
        routeEvent reg d, ⟨.putPlacement (d.stamp .ok t), none⟩] := by
  obtain ⟨found, ⟨hstale, -⟩ | ⟨t, mid, rfl, -, hmid⟩⟩ := simpleApply_done h
  · exact .inl ⟨found, hstale⟩
  · rw [if_pos hd] at hmid
    obtain ⟨flow, rfl⟩ := serve_done hmid
    exact .inr ⟨found, t, flow, rfl⟩

/-- The loop over the clients writes neither the store nor the flag, and the flag it returns tells
whether it deferred a route. -/
theorem rebuildUsers_done {users : GoMap (List Placement)} {cs : List ClientID} {pending b : Bool}
    (h : (rebuildUsers reg users cs pending).After tr (.done (.ok b))) :
    (∀ ev ∈ tr, ev.call.writesStore = false ∧ isPending ev = false) ∧
      (b = false → pending = false ∧ ∀ x ∈ cs, eligibleBackendIDs reg [] (users[x]?.getD []) ≠ []) := by
  induction cs generalizing tr pending with
  | nil =>
    obtain ⟨rfl, hb⟩ := Prog.after_done_iff.mp h
    cases hb
    exact ⟨by simp, fun hb => ⟨hb, by simp⟩⟩
  | cons x cs ih =>
    obtain ⟨r, tr₁, rfl, h₁⟩ := Prog.after_invoke_done_iff.mp h
    cases r with
    | some err => simp at h₁
    | none =>
      dsimp only at h₁
      split_ifs at h₁ with hids
      · obtain ⟨hcalls, hb⟩ := ih h₁
        refine ⟨List.forall_mem_cons.mpr ⟨⟨rfl, rfl⟩, hcalls⟩, fun hf => ?_⟩
        cases (hb hf).1
      · obtain ⟨r, tr₂, rfl, h₂⟩ := Prog.after_invoke_done_iff.mp h₁
        cases r with
        | some err => simp at h₂
        | none =>
          obtain ⟨hcalls, hb⟩ := ih h₂
          refine ⟨List.forall_mem_cons.mpr ⟨⟨rfl, rfl⟩, List.forall_mem_cons.mpr ⟨⟨rfl, rfl⟩, hcalls⟩⟩,
            fun hf => ⟨(hb hf).1, List.forall_mem_cons.mpr ⟨hids, (hb hf).2⟩⟩⟩

/-- A rebuild: the listing, calls that write neither the store nor the flag, the flag. -/
theorem rebuild_done (h : (rebuildFromStore reg).After tr (.done none)) :
    ∃ all mid b n, tr = ⟨.setBackends reg.entryBackends, none⟩ :: ⟨.listPlacements, .ok all⟩ ::
        (mid ++ [⟨.storePending b, ()⟩, ⟨.storeUsers n, ()⟩]) ∧
      (∀ ev ∈ mid, ev.call.writesStore = false ∧ isPending ev = false) ∧
      (b = false → ∀ x, groupOf all x ≠ [] → eligibleBackendIDs reg [] (groupOf all x) ≠ []) := by
  obtain ⟨r, tr₁, tr₂, rfl, hsync, h₂⟩ := Prog.after_bind_done_iff.mp h
  cases r with
  | some err => simp at h₂
  | none =>
    rw [syncBackends_done hsync]
    obtain ⟨r, tr₃, rfl, h₃⟩ := Prog.after_invoke_done_iff.mp h₂
    cases r with
    | error err => simp at h₃
    | ok all =>
      obtain ⟨order, tr₄, rfl, h₄⟩ := Prog.after_invoke_done_iff.mp h₃
      obtain ⟨r, tr₅, tr₆, rfl, hloop, h₆⟩ := Prog.after_bind_done_iff.mp h₄
      cases r with
      | error err => simp at h₆
      | ok b =>
        obtain ⟨_, tr₇, rfl, h₇⟩ := Prog.after_invoke_done_iff.mp h₆
        obtain ⟨_, tr₈, rfl, h₈⟩ := Prog.after_invoke_done_iff.mp h₇
        obtain ⟨rfl, -⟩ := Prog.after_done_iff.mp h₈
        obtain ⟨hcalls, hb⟩ := rebuildUsers_done hloop
        refine ⟨all, _ :: tr₅, b, _, rfl, List.forall_mem_cons.mpr ⟨⟨rfl, rfl⟩, hcalls⟩,
          fun hf x hx => ?_⟩
        have hmem : x ∈ order.val := by
          rw [order.property.mem_iff, Std.ExtTreeMap.mem_keys, mem_byUser]
          exact hx
        rw [← byUser_getD]
        exact (hb hf).2 x hmem

end Jobs

/-! ## The flag -/

section Steps

variable {A : Env → Prop} {w w' : World} {tr : List GoEvent}

theorem pending_exec {c : Call} (h : ∀ b, c ≠ .storePending b) (e : Env) (w : World) :
    (World.exec c e w).2.pending = w.pending := by
  have hproxy : ∀ x, (w.ofProxy x).2.pending = w.pending := fun x => by cases x <;> rfl
  cases c with
  | storePending b => exact absurd rfl (h b)
  | submit overlay => simp only [World.exec]; split <;> rfl
  | receive timer => simp only [World.exec]; split <;> (try split_ifs) <;> (try split) <;> rfl
  | _ => first
    | rfl
    | exact e.guarded_keeps World.pending rfl
    | exact e.guarded_keeps World.pending (hproxy _)

theorem steps_pending (h : Steps world A w tr w') (hno : tr.any isPending = false) :
    w'.pending = w.pending := by
  refine h.invariant (I := fun v => v.pending = w.pending) (fun ev hev e v _ _ hv => ?_) rfl
  rw [← hv]
  refine pending_exec (fun b hb => ?_) e v
  have hev' := List.any_eq_false.mp hno ev hev
  obtain ⟨c, r⟩ := ev
  cases hb
  exact hev' rfl

/-- The flag is what was written last. -/
theorem last_pending {a c : List (Tagged ports)} {i : ℕ} {ev : GoEvent}
    (h : Steps world A w ((a ++ (i, ev) :: c).map Prod.snd) w') (hev : isPending ev = true)
    (hc : c.any (fun y => isPending y.2) = false) (hw : w'.pending = false) :
    ev = ⟨.storePending false, ()⟩ := by
  rw [List.map_append, List.map_cons] at h
  obtain ⟨w₁, -, e, -, -, h₂⟩ := steps_append.mp h
  have hlast := steps_pending h₂ (by rw [List.any_map]; exact hc)
  rw [hw] at hlast
  obtain ⟨c, r⟩ := ev
  cases c <;> cases hev
  rw [show false = _ from hlast]
  rfl

end Steps

/-! ## The store -/

section Store

variable {reg : Registry} {jobs : List Job} {s : Store} {d : Placement} {t : Time}

theorem mem_list_stamped {p : Placement} :
    p ∈ (s.put (d.stamp .ok t)).list ↔ p = d.stamp .ok t ∨ p ∈ s.list ∧ p.id ≠ d.id := by
  rw [Store.mem_list, Store.mem_list, Store.get_put, Placement.stamp_id]
  split_ifs with hid
  · simp [hid, eq_comm]
  · refine ⟨fun h => .inr ⟨h, hid⟩, ?_⟩
    rintro (rfl | h)
    · exact absurd rfl hid
    · exact h.1

theorem OneClient.put (h : OneClient jobs s) (hd : .apply d ∈ jobs) :
    OneClient jobs (s.put (d.stamp .ok t)) := by
  refine ⟨fun d' hd' p hp hid hlive => ?_, h.given⟩
  rcases mem_list_stamped.mp hp with rfl | ⟨hp, -⟩
  · exact h.given d' hd' d hd hid
  · exact h.stored d' hd' p hp hid hlive

theorem liveClient_of_put {x : ClientID} (hx : d.clientID ≠ x)
    (h : (s.put (d.stamp .ok t)).LiveClient x) : s.LiveClient x := by
  obtain ⟨p, hp, hl, hpx⟩ := h
  rcases mem_list_stamped.mp hp with rfl | ⟨hp, -⟩
  · exact absurd hpx hx
  · exact ⟨p, hp, hl, hpx⟩

theorem not_stranded_put (h : OneClient jobs s) (hd : .apply d ∈ jobs) (hlive : d.live = true)
    (hreg : reg.get d.backendNodeID ≠ none) (hs : ∀ x, ¬ Stranded reg s x) (x : ClientID) :
    ¬ Stranded reg (s.put (d.stamp .ok t)) x := by
  rintro ⟨hl, hall⟩
  by_cases hx : d.clientID = x
  · exact hreg (hall (d.stamp .ok t) (mem_list_stamped.mpr (.inl rfl)) hlive hx)
  · refine hs x ⟨liveClient_of_put hx hl, fun q hq hql hqx =>
      hall q (mem_list_stamped.mpr (.inr ⟨hq, fun hid => ?_⟩)) hql hqx⟩
    exact hx ((h.stored d hd q hq hid hql).symm.trans hqx)

/-- A rebuild that defers no route has found none that it would have to. -/
theorem not_stranded_of_verdict (hnamed : ¬ s.LiveClient "")
    (hall : ∀ x, groupOf s.list x ≠ [] → eligibleBackendIDs reg [] (groupOf s.list x) ≠ [])
    (x : ClientID) : ¬ Stranded reg s x := by
  rintro ⟨hx, hnone⟩
  have hne : x ≠ "" := by
    rintro rfl
    exact hnamed hx
  obtain ⟨b, hb⟩ := List.exists_mem_of_ne_nil _ (hall x (groupOf_ne_nil.mpr ⟨hne, hx⟩))
  obtain ⟨-, hreg, p, hp, rfl⟩ := mem_eligibleBackendIDs.mp hb
  obtain ⟨hp, hkey⟩ := List.mem_filter.mp hp
  simp only [decide_eq_true_eq] at hkey
  rw [hnone p hp hkey.1 hkey.2.2] at hreg
  cases hreg

end Store

/-! ## Jobs next to each other -/

section Pool

variable {A : Env → Prop} {reg : Registry} {jobs : List Job} {w w' : World}
  {tr : List (Tagged ports)} {ts' : List (Go Err)}

theorem job_done (h : Interleave (jobs.map (Job.prog reg)) tr ts') (hdone : ∀ q ∈ ts', q = .done none)
    {j : ℕ} {ev : GoEvent} (hmem : (j, ev) ∈ tr) :
    ∃ job ∈ jobs, (job.prog reg).After (eventsOf j tr) (.done none) := by
  have hj := h.lt_of_mem hmem
  rw [List.length_map] at hj
  have hjob : (jobs.map (Job.prog reg))[j]? = some (jobs[j].prog reg) := by
    rw [List.getElem?_map, List.getElem?_eq_getElem hj]
    rfl
  obtain ⟨q, hq, hafter⟩ := h.after hjob
  rw [hdone q (List.mem_of_getElem? hq)] at hafter
  exact ⟨jobs[j], List.getElem_mem hj, hafter⟩

theorem client_ne_of_added (h : Steps world A w (tr.map Prod.snd) w') {j : ℕ} {x flow : String}
    (hmem : (j, ⟨.addUser x flow, none⟩) ∈ tr) : x ≠ "" := by
  obtain ⟨-, -, w₁, e, -, -, -, hr, -⟩ := h.split_mem (List.mem_map_of_mem hmem)
  obtain ⟨fail, _, _, _, _, _, _⟩ := e
  cases fail with
  | some msg => cases hr
  | none =>
    change (w₁.ofProxy (w₁.proxy.addUser x flow)).1 = none at hr
    cases hadd : w₁.proxy.addUser x flow with
    | error err =>
      rw [hadd] at hr
      cases hr
    | ok p => exact (Proxy.addUser_ok hadd).1

/-- The store is written by a `SimpleApply`, which has set the flag before if the backend is not
registered. -/
theorem stored_by_job (h : Pool world A (jobs.map (Job.prog reg)) w tr ts' w')
    (hdone : ∀ q ∈ ts', q = .done none) (hlive : ∀ d, .apply d ∈ jobs → d.live = true) {j : ℕ}
    {ev : GoEvent} (hmem : (j, ev) ∈ tr) (hev : ev.call.writesStore = true) :
    ∃ d t, ev = ⟨.putPlacement (d.stamp .ok t), none⟩ ∧ .apply d ∈ jobs ∧ d.clientID ≠ "" ∧
      (reg.get d.backendNodeID = none → (j, ⟨.storePending true, ()⟩) ∈ tr) := by
  obtain ⟨job, hjob, hafter⟩ := job_done h.1 hdone hmem
  have hin : ∀ ev ∈ eventsOf j tr, (j, ev) ∈ tr := fun ev => mem_eventsOf.mp
  replace hmem := mem_eventsOf.mpr hmem
  cases job with
  | apply d =>
    rcases simpleApply_live_events (hlive d hjob) hafter with ⟨found, heq⟩ | ⟨found, t, flow, heq⟩
    · rw [heq, List.mem_singleton] at hmem
      rw [hmem] at hev
      cases hev
    · rw [heq] at hmem hin
      have hadded := hin ⟨.addUser d.clientID flow, none⟩ (by simp)
      refine ⟨d, t, ?_, hjob, client_ne_of_added h.2 hadded, fun hnone => hin _ ?_⟩
      · simp only [List.mem_cons, List.not_mem_nil, or_false] at hmem
        rcases hmem with rfl | rfl | rfl | rfl | rfl | rfl
        · cases hev
        · cases hev
        · cases hev
        · cases hev
        · unfold routeEvent at hev
          split_ifs at hev <;> cases hev
        · rfl
      · simp [routeEvent, hnone]
  | rebuild =>
    obtain ⟨all, mid, b, n, heq, hmid, -⟩ := rebuild_done hafter
    rw [heq] at hmem
    simp only [List.mem_cons, List.mem_append, List.not_mem_nil, or_false] at hmem
    rcases hmem with rfl | rfl | hmem | rfl | rfl
    · cases hev
    · cases hev
    · rw [(hmid _ hmem).1] at hev
      cases hev
    · cases hev
    · cases hev

/-- The flag is taken back by a rebuild, which has found a registered backend for every client. -/
theorem verdict_of_job (h : Interleave (jobs.map (Job.prog reg)) tr ts')
    (hdone : ∀ q ∈ ts', q = .done none) (hlive : ∀ d, .apply d ∈ jobs → d.live = true) {i : ℕ}
    (hmem : (i, ⟨.storePending false, ()⟩) ∈ tr) :
    ∃ all xs ys, eventsOf i tr = xs ++ ⟨.listPlacements, .ok all⟩ :: ys ∧
      ∀ x, groupOf all x ≠ [] → eligibleBackendIDs reg [] (groupOf all x) ≠ [] := by
  obtain ⟨job, hjob, hafter⟩ := job_done h hdone hmem
  replace hmem := mem_eventsOf.mpr hmem
  cases job with
  | apply d =>
    exfalso
    rcases simpleApply_live_events (hlive d hjob) hafter with ⟨found, heq⟩ | ⟨found, t, flow, heq⟩
    · rw [heq] at hmem
      simp at hmem
    · have hroute : routeEvent reg d ≠ ⟨.storePending false, ()⟩ := by
        unfold routeEvent
        split_ifs <;> exact fun h => by cases h
      rw [heq] at hmem
      simp [hroute.symm] at hmem
  | rebuild =>
    obtain ⟨all, mid, b, n, heq, hmid, hverdict⟩ := rebuild_done hafter
    refine ⟨all, [_], _, heq, hverdict ?_⟩
    rw [heq] at hmem
    simp only [List.mem_cons, List.mem_append, List.not_mem_nil, or_false] at hmem
    rcases hmem with hmem | hmem | hmem | hmem | hmem
    · cases hmem
    · cases hmem
    · cases (hmid _ hmem).2
    · cases hmem
      rfl
    · cases hmem

/-- What the puts of the jobs keep of the store, a part of the trace keeps. -/
theorem jobs_store_invariant {I : Store → Prop}
    (h : Pool world A (jobs.map (Job.prog reg)) w tr ts' w') (hdone : ∀ q ∈ ts', q = .done none)
    (hlive : ∀ d, .apply d ∈ jobs → d.live = true) {part : List (Tagged ports)} {w₁ w₂ : World}
    (hsub : part ⊆ tr) (hs : Steps world A w₁ (part.map Prod.snd) w₂)
    (hput : ∀ j d t, (j, ⟨.putPlacement (d.stamp .ok t), none⟩) ∈ part → .apply d ∈ jobs →
      d.clientID ≠ "" → (reg.get d.backendNodeID = none → (j, ⟨.storePending true, ()⟩) ∈ tr) →
      ∀ s, I s → I (s.put (d.stamp .ok t)))
    (hw : I w₁.store) : I w₂.store := by
  refine steps_store_invariant hs (fun p hp s hI => ?_) (fun id hid s hI => ?_) hw
  · obtain ⟨⟨j, ev⟩, hmem, rfl⟩ := List.mem_map.mp hp
    obtain ⟨d, t, heq, hd, hne, hflag⟩ := stored_by_job h hdone hlive (hsub hmem) rfl
    cases heq
    exact hput j d t hmem hd hne hflag s hI
  · obtain ⟨⟨j, ev⟩, hmem, rfl⟩ := List.mem_map.mp hid
    obtain ⟨d, t, heq, -⟩ := stored_by_job h hdone hlive (hsub hmem) rfl
    cases heq

/-- Once all jobs have returned nil, a stranded client is told by the flag, if no rebuild overlooks
a placement and takes back its flag. -/
theorem deferred_route_told (hlive : ∀ d, .apply d ∈ jobs → d.live = true) (hw : PendingTold reg w)
    (h : Pool world A (jobs.map (Job.prog reg)) w tr ts' w') (hdone : ∀ q ∈ ts', q = .done none)
    (hnamed : ¬ w.store.LiveClient "") (hone : OneClient jobs w.store)
    (hno : ∀ i j, ¬ Overlooks i j tr) : PendingTold reg w' := by
  -- registered backends strand nobody
  have hkeep : ∀ {part : List (Tagged ports)} {w₁ : World}, part ⊆ tr →
      Steps world A w₁ (part.map Prod.snd) w' → OneClient jobs w₁.store →
      (∀ j p, (j, ⟨.putPlacement p, none⟩) ∈ part → (j, ⟨.storePending true, ()⟩) ∉ tr) →
      (∀ x, ¬ Stranded reg w₁.store x) → ∀ x, ¬ Stranded reg w'.store x := by
    intro part w₁ hsub hs hone₁ hreg hw₁
    refine (jobs_store_invariant (I := fun s => OneClient jobs s ∧ ∀ x, ¬ Stranded reg s x) h hdone
      hlive hsub hs (fun j d t hmem hd _ hflag s hI => ⟨hI.1.put hd, ?_⟩) ⟨hone₁, hw₁⟩).2
    exact not_stranded_put hI.1 hd (hlive d hd) (fun hnone => hreg j _ hmem (hflag hnone)) hI.2
  intro hpending
  rcases any_eq_false_or_last (fun y : Tagged ports => isPending y.2) tr with
    hnone | ⟨a, ⟨i, ev⟩, c, htr, hev, hc⟩
  · -- nobody has written the flag
    have hsame : w'.pending = w.pending := by
      refine steps_pending h.2 ?_
      rw [List.any_map]
      exact hnone
    refine hkeep (List.Subset.refl tr) h.2 hone (fun j p _ hmem => ?_) (hw (hsame ▸ hpending))
    exact List.any_eq_false.mp hnone _ hmem rfl
  · -- the last one to write it has taken it back, so it is a rebuild
    obtain rfl : ev = ⟨.storePending false, ()⟩ := last_pending (htr ▸ h.2) hev hc hpending
    have hmem : (i, ⟨.storePending false, ()⟩) ∈ tr := by
      rw [htr]
      exact List.mem_append_right _ List.mem_cons_self
    obtain ⟨all, xs, ys, heq, hverdict⟩ := verdict_of_job h.1 hdone hlive hmem
    obtain ⟨a₁, b₁, htr₁, -, -⟩ := exists_of_eventsOf_eq heq
    have hpool := h
    rw [htr₁] at hpool
    obtain ⟨us, w₁, h₁, h₂⟩ := pool_append.mp hpool
    obtain ⟨e, -, hr, -⟩ := steps_cons.mp h₂.2
    rw [exec_listPlacements hr] at hverdict
    have hsub₁ : a₁ ⊆ tr := htr₁ ▸ List.subset_append_left _ _
    -- the store of its listing
    obtain ⟨hone₁, hnamed₁⟩ := jobs_store_invariant
      (I := fun s => OneClient jobs s ∧ ¬ s.LiveClient "") h hdone hlive hsub₁ h₁.2
      (fun j d t _ hd hne _ s hI => ⟨hI.1.put hd, fun hx => hI.2 (liveClient_of_put hne hx)⟩)
      ⟨hone, hnamed⟩
    refine hkeep (htr₁ ▸ List.subset_append_right _ _) h₂.2 hone₁ (fun j p hput hflag => ?_)
      (not_stranded_of_verdict hnamed₁ hverdict)
    refine hno i j ⟨all, p, ?_, ?_⟩
    · rw [htr₁]
      refine List.Sublist.trans ?_ (List.sublist_append_right _ _)
      refine List.Sublist.cons_cons _ (List.singleton_sublist.mpr ?_)
      exact (List.mem_cons.mp hput).resolve_left fun h => by cases h
    · have hbefore : (j, ⟨.storePending true, ()⟩) ∈ a := by
        rw [htr, List.mem_append, List.mem_cons] at hflag
        rcases hflag with hflag | hflag | hflag
        · exact hflag
        · cases hflag
        · exact absurd rfl (List.any_eq_false.mp hc _ hflag)
      rw [htr]
      exact (List.singleton_sublist.mpr hbefore).append
        (List.singleton_sublist.mpr List.mem_cons_self)

end Pool

/-- A command next to a rebuild, and nothing is stored yet. -/
def applyAndRebuild : List Job := [.apply (ofClient "p" .active 1), .rebuild]

theorem oneClient_applyAndRebuild : OneClient applyAndRebuild Store.empty := by
  have hcmd : ∀ d, Job.apply d ∈ applyAndRebuild → d = ofClient "p" .active 1 := by
    intro d hd
    simpa [applyAndRebuild] using hd
  refine ⟨fun d _ p hp => ?_, fun d hd d' hd' _ => by rw [hcmd d hd, hcmd d' hd']⟩
  simp [Store.mem_list] at hp

theorem pendingTold_empty (reg : Registry) : PendingTold reg {} := by
  rintro - x ⟨⟨p, hp, -⟩, -⟩
  simp [Store.mem_list] at hp

/-- The rebuild lists the store, the command is applied up to its put, the rebuild ends, the put. -/
def putLast : List (ℕ × Env) :=
  (List.replicate 2 1 ++ List.replicate 5 0 ++ List.replicate 5 1 ++ [0]).map fun i => (i, default)

def putLastRun (reg : Registry) : List (Tagged ports) × List (Go Err) × World :=
  schedule world (applyAndRebuild.map (Job.prog reg)) putLast {}

theorem pool_putLastRun (reg : Registry) :
    Pool world (Env.Allowed false) (applyAndRebuild.map (Job.prog reg)) ({} : World)
      (putLastRun reg).1 (putLastRun reg).2.1 (putLastRun reg).2.2 := by
  refine pool_schedule putLast (fun x hx => ?_) _
  obtain ⟨i, -, rfl⟩ := List.mem_map.mp hx
  exact Env.allowed_default false

theorem deferred_route_told_registered : (putLastRun twoBackends).2.2.pending = false ∧
    (putLastRun twoBackends).2.2.store.LiveClient "c" ∧
    PendingTold twoBackends (putLastRun twoBackends).2.2 := by
  have hdone : (putLastRun twoBackends).2.1 = [.done none, .done none] := by rfl
  refine ⟨by decide +kernel, by decide +kernel, deferred_route_told ?_ (pendingTold_empty _)
    (pool_putLastRun twoBackends) ?_ (by decide) oneClient_applyAndRebuild ?_⟩
  · intro d hd
    obtain rfl : d = ofClient "p" .active 1 := by simpa [applyAndRebuild] using hd
    rfl
  · rw [hdone]
    simp
  · -- the flag is written only once
    rintro i j ⟨all, p, -, hsub⟩
    have honce : ((putLastRun twoBackends).1.filter fun y => isPending y.2).length = 1 := by
      decide +kernel
    have hlen := (hsub.filter fun y => isPending y.2).length_le
    rw [honce] at hlen
    exact Nat.not_succ_le_self 1 hlen

theorem rebuild_forgets_route : PendingTold .new {} ∧ OneClient applyAndRebuild Store.empty ∧
    ∃ tr w', Pool world (Env.Allowed false) (applyAndRebuild.map (Job.prog .new)) ({} : World) tr
      [.done none, .done none] w' ∧ w'.pending = false ∧ Stranded .new w'.store "c" := by
  have hdone : (putLastRun .new).2.1 = [.done none, .done none] := by rfl
  refine ⟨pendingTold_empty _, oneClient_applyAndRebuild, _, _, hdone ▸ pool_putLastRun .new,
    by decide +kernel, by decide +kernel, fun p _ _ _ => ?_⟩
  rfl

end NodeAgent.Entry
