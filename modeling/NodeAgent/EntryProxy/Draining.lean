import NodeAgent.EntryProxy.Connections

/-!
# Who gets a connection, and when a backend is drained

Routes change while goroutines dial, so a backend may be entered after the last route to it is gone. It is
entered only by goroutines that had found it before: their number bounds the connections that are left,
and once they are through the backend is drained for good.
-/

namespace NodeAgent.Conns

open Lib

variable {ts us ts' : List (Prog serving Unit)} {w w₁ w' : Live} {tr : List (Tagged serving)}
  {A : ConnEnv → Prop}

/-! ## Who gets a connection -/

/-- What a goroutine has seen is the reply to its lookup. -/
theorem exists_lookup {evs : List ConnEvent} {clientID : String} {ids : List String}
    (h : (conn.state {} evs).seen = some (clientID, ids)) :
    ∃ xs destHost cands ys, evs = xs ++ ⟨.connBackends clientID destHost, cands⟩ :: ys ∧
      ids = cands.map EntryBackend.id := by
  induction evs using List.reverseRecOn with
  | nil => cases h
  | append_singleton evs ev ih =>
    have hearlier : (conn.state {} evs).seen = some (clientID, ids) →
        ∃ xs destHost cands ys,
          evs ++ [ev] = xs ++ ⟨.connBackends clientID destHost, cands⟩ :: ys ∧
            ids = cands.map EntryBackend.id := by
      intro hseen
      obtain ⟨xs, destHost, cands, ys, rfl, hids⟩ := ih hseen
      exact ⟨xs, destHost, cands, ys ++ [ev], by simp, hids⟩
    rw [Protocol.state_snoc] at h
    obtain ⟨c, r⟩ := ev
    cases c with
    | connBackends clientID' destHost =>
      cases h
      exact ⟨evs, destHost, r, [], rfl, rfl⟩
    | closeConn id => cases h
    | _ => exact hearlier h

theorem routed_of_lookup {e : ConnEnv} {v : Live} {clientID destHost b : String}
    {cands : List EntryBackend} (hr : (exec (.connBackends clientID destHost) e v).1 = cands)
    (hb : b ∈ cands.map EntryBackend.id) : b ∈ v.proxy.routeOf clientID ∧ b ∈ v.proxy.backends := by
  obtain ⟨be, hbe, rfl⟩ := List.mem_map.mp hb
  rw [← hr] at hbe
  obtain ⟨hroute, hknown⟩ := Proxy.mem_connBackends.mp hbe
  exact ⟨hroute, Std.ExtTreeMap.mem_iff_isSome_getElem?.mpr (by rw [hknown]; rfl)⟩

/-- What is held was found for its client. -/
def Phase.Sound (ph : Phase) : Prop :=
  ∀ x, ph.held = some x → ∃ ids, ph.seen = some (x.clientID, ids) ∧ x.backendID ∈ ids

theorem Phase.Sound.next {ph : Phase} {ev : ConnEvent} (h : ph.Sound) (hok : conn.ok ph ev) :
    (conn.next ph ev).Sound := by
  obtain ⟨c, r⟩ := ev
  cases c with
  | connBackends clientID destHost =>
    obtain rfl := hok
    exact fun x hx => nomatch hx
  | openConn clientID backendID =>
    intro x hx
    cases hx
    exact hok.2
  | closeConn id => exact fun x hx => nomatch hx
  | _ => exact h

theorem sound_phase (hts : ∀ p ∈ ts, Goroutine p) (h : Pool live A ts w tr ts' w') (i : ℕ) :
    (phase i tr).Sound :=
  Protocol.state_of_interleave (fun _ p hp => goroutine_follows (hts p (List.mem_of_getElem? hp)))
    (fun _ _ hx => nomatch hx) (fun _ _ hok h => h.next hok) h.1 i

/-- Every connection of the table was entered by a goroutine that had looked its backend up: at that
moment the backend was known, and on the route of the connection's user. -/
theorem connection_was_routed (hts : ∀ p ∈ ts, Goroutine p) (hw : w.active = ∅)
    (h : Pool live A ts w tr ts' w') {x : Held} (hx : x ∈ entries w') :
    ∃ i pre destHost cands post us v,
      tr = pre ++ (i, ⟨.connBackends x.clientID destHost, cands⟩) :: post ∧
      (phase i tr).held = some x ∧ Pool live A ts w pre us v ∧
      x.backendID ∈ v.proxy.routeOf x.clientID ∧ x.backendID ∈ v.proxy.backends := by
  obtain ⟨i, hi⟩ := pool_covered hts hw h x hx
  obtain ⟨ids, hseen, hmem⟩ := sound_phase hts h i x hi
  obtain ⟨xs, destHost, cands, ys, hevs, rfl⟩ := exists_lookup hseen
  obtain ⟨pre, post, rfl, -, -⟩ := exists_of_eventsOf_eq hevs
  obtain ⟨us, v, hpre, -, hsteps⟩ := pool_append.mp h
  obtain ⟨e, -, hr, -⟩ := steps_cons.mp hsteps
  exact ⟨i, pre, destHost, cands, post, us, v, rfl, hi, hpre, routed_of_lookup hr hmem⟩

/-- Both connections that are there after the change, though the route is empty by then. -/
theorem connection_was_routed_afterChange :
    entries afterChange.2.2 = [⟨1, "u", "be1"⟩, ⟨2, "u", "be1"⟩] ∧
    afterChange.2.2.proxy.routeOf "u" = [] ∧
    ∀ x ∈ entries afterChange.2.2, ∃ pre us v,
      Pool live (fun _ => True) threeGoroutines (.idle Proxy.twoBackends) pre us v ∧
        x.backendID ∈ v.proxy.routeOf x.clientID := by
  refine ⟨by decide +kernel, by decide +kernel, fun x hx => ?_⟩
  obtain ⟨i, pre, destHost, cands, post, us, v, -, -, hpre, hroute, -⟩ :=
    connection_was_routed goroutine_threeGoroutines rfl (pool_append.mpr ⟨_, _, pool_beforeChange,
      pool_afterChange⟩) hx
  exact ⟨pre, us, v, hpre, hroute⟩

/-! ## Draining -/

/-- The call puts the backend on a route. -/
def RoutesTo (b : String) : Call → Prop
  | .control (.selectBackend _ backendID) => backendID = b
  | .control (.setUserBackends _ backendIDs) => b ∈ backendIDs
  | _ => False

instance (b : String) : DecidablePred (RoutesTo b) := fun c => by
  unfold RoutesTo
  split <;> infer_instance

/-- The backends that a goroutine has found. -/
def Phase.found (ph : Phase) : List String := (ph.seen.map Prod.snd).getD []

/-- The goroutines that have found the backend and have not returned. -/
def onTheWay (us : List (Prog serving Unit)) (b : String) (tr : List (Tagged serving)) : List ℕ :=
  (List.range us.length).filter fun i => us[i]?.bind Prog.value? = none ∧ b ∈ (phase i tr).found

/-- No call but those that say so puts a backend on a route. -/
theorem routeOf_exec {b : String} {c : Call} {e : ConnEnv} {v : Live} (hc : ¬ RoutesTo b c)
    (hv : ∀ clientID, b ∉ v.proxy.routeOf clientID) (clientID : String) :
    b ∉ (exec c e v).2.proxy.routeOf clientID := by
  cases c with
  | dialing d =>
    cases d with
    | markBackendSuccess id =>
      show b ∉ (v.proxy.markBackendSuccess id).routeOf clientID
      unfold Proxy.markBackendSuccess
      split
      · exact hv clientID
      · exact hv clientID
    | _ => exact hv clientID
  | control op =>
    -- a call that fails leaves the routes alone
    have hofProxy : ∀ r, (∀ p, r = Except.ok p → b ∉ p.routeOf clientID) →
        b ∉ (Control.ofProxy v r).2.proxy.routeOf clientID := by
      intro r hr
      cases r with
      | error err => exact hv clientID
      | ok p => exact hr p rfl
    cases op with
    | addUser x flow =>
      refine hofProxy _ fun p hp => ?_
      rw [Proxy.routeOf, (Proxy.addUser_ok hp).2.2.2]
      exact hv clientID
    | removeUser x =>
      show b ∉ (v.proxy.removeUser x).routeOf clientID
      rw [Proxy.routeOf_removeUser]
      split_ifs
      · exact List.not_mem_nil
      · exact hv clientID
    | selectBackend x backendID =>
      refine hofProxy _ fun p hp => ?_
      rw [(Proxy.selectBackend_ok hp).2.2.2 clientID b]
      rintro (hb | ⟨-, rfl⟩)
      · exact hv clientID hb
      · exact hc rfl
    | setUserBackends x backendIDs =>
      refine hofProxy _ fun p hp => ?_
      obtain ⟨-, -, -, hother, hmem⟩ := Proxy.setUserBackends_ok hp
      by_cases hx : clientID = x
      · subst hx
        rw [hmem]
        exact fun h => hc h.1
      · rw [hother clientID hx]
        exact hv clientID
    | _ => exact hv clientID
  | _ => exact hv clientID

/-- While no route leads to the backend, nobody finds it. -/
theorem found_of_found_later {b : String} {pre : List (Tagged serving)} {us' : List (Prog serving Unit)}
    {v : Live} (h : Pool live A us w₁ tr us' v) (hroute : ∀ clientID, b ∉ w₁.proxy.routeOf clientID)
    (hquiet : ∀ x ∈ tr, ¬ RoutesTo b x.2.call) (i : ℕ) (hb : b ∈ (phase i (pre ++ tr)).found) :
    b ∈ (phase i pre).found := by
  refine (h.history (I := fun mid v => (∀ clientID, b ∉ v.proxy.routeOf clientID) ∧
    (b ∈ (phase i (pre ++ mid)).found → b ∈ (phase i pre).found)) ⟨hroute, ?_⟩ ?_).2 hb
  · rw [List.append_nil]
    exact id
  · rintro mid j ⟨c, r⟩ post e v rfl - hr ⟨hv, hfound⟩
    have hc : ¬ RoutesTo b c := hquiet (j, ⟨c, r⟩) (by simp)
    refine ⟨routeOf_exec hc hv, ?_⟩
    rw [← List.append_assoc, phase_snoc]
    split_ifs with hj
    · cases c with
      | connBackends clientID destHost =>
        intro hmem
        exact absurd (routed_of_lookup hr hmem).1 (hv clientID)
      | closeConn id => exact fun hmem => absurd hmem List.not_mem_nil
      | _ => exact hfound
    · exact hfound

/-- From the moment at which no route leads to the backend any more, and while none is added, its
connections are at most the goroutines that had found it before and had not returned. If there were none,
the count that a drain waits for stays at zero. -/
theorem connections_bounded_by_earlier_lookups (hts : ∀ p ∈ ts, Goroutine p) (hw : w.active = ∅)
    {tr₁ tr₂ : List (Tagged serving)} (h₁ : Pool live A ts w tr₁ us w₁)
    (h₂ : Pool live A us w₁ tr₂ ts' w') {b : String}
    (hroute : ∀ clientID, b ∉ w₁.proxy.routeOf clientID)
    (hquiet : ∀ x ∈ tr₂, ¬ RoutesTo b x.2.call) :
    w'.backendConnections b ≤ (onTheWay us b tr₁).length := by
  have h := pool_append.mpr ⟨us, w₁, h₁, h₂⟩
  refine (backendConnections_le_heldBy hts hw h b).trans ?_
  rw [heldBy, List.filter_filterMap, List.length_filterMap_eq_countP, onTheWay,
    ← List.countP_eq_length_filter, h₁.1.length_eq]
  refine List.countP_mono_left fun i _ hi => ?_
  -- whoever holds a connection of the backend now has found it, and so had found it then
  obtain ⟨x, hx⟩ := Option.isSome_iff_exists.mp hi
  obtain ⟨hheld, hb⟩ := Option.filter_eq_some_iff.mp hx
  obtain ⟨ids, hseen, hmem⟩ := sound_phase hts h i x hheld
  have hfound : b ∈ (phase i (tr₁ ++ tr₂)).found := by
    rw [← of_decide_eq_true hb, Phase.found, hseen]
    exact hmem
  refine decide_eq_true ⟨?_, found_of_found_later h₂ hroute hquiet i hfound⟩
  -- and had not returned, since then it would hold nothing
  by_contra hreturned
  obtain ⟨_, hvalue⟩ := Option.ne_none_iff_exists'.mp hreturned
  rw [held_of_done hts h (h₂.1.done (getElem?_eq_done hvalue))] at hheld
  cases hheld

theorem connections_bounded_by_earlier_lookups_afterChange :
    onTheWay beforeChange.2.1 "be1" beforeChange.1 = [0, 1] ∧
      afterChange.2.2.backendConnections "be1" ≤ 2 := by
  have hway : onTheWay beforeChange.2.1 "be1" beforeChange.1 = [0, 1] := by decide +kernel
  have hlist : beforeChange.2.2.proxy.route.toList = [("u", [])] := by decide +kernel
  have hroute : ∀ clientID, "be1" ∉ beforeChange.2.2.proxy.routeOf clientID := by
    intro clientID
    unfold Proxy.routeOf
    cases hget : beforeChange.2.2.proxy.route[clientID]? with
    | none => exact List.not_mem_nil
    | some ids =>
      have hmem := Std.ExtTreeMap.mem_toList_iff_getElem?_eq_some.mpr hget
      rw [hlist, List.mem_singleton] at hmem
      cases hmem
      exact List.not_mem_nil
  have hquiet : ∀ x ∈ afterChange.1, ¬ RoutesTo "be1" x.2.call := by decide +kernel
  have h := connections_bounded_by_earlier_lookups goroutine_threeGoroutines rfl pool_beforeChange
    pool_afterChange hroute hquiet
  exact ⟨hway, h.trans_eq (congrArg List.length hway)⟩

end NodeAgent.Conns
