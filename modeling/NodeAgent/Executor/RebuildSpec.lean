import NodeAgent.Executor.EntryProxySpec

/-!
# What a rebuild does to the proxy

`RebuildFromStore` groups the live placements by client and pushes each group. For a client it
pushes, the routes become those of the group, unless no backend of the group is registered; nothing
is ever taken away. Whom it adds has a live placement in the listing that it got.
-/

namespace NodeAgent.EntryProxyActions

open Lib

variable {faults : Bool} {reg : Registry} {w : World}

/-! ## The grouping -/

/-- The placements the rebuild takes for a client. -/
def groupOf (placements : List Placement) (c : ClientID) : List Placement :=
  placements.filter fun p => p.live ∧ p.clientID ≠ "" ∧ p.clientID = c

theorem foldl_addToGroup (placements : List Placement) (m : GoMap (List Placement))
    (c : ClientID) :
    (placements.foldl addToGroup m)[c]?.getD [] = m[c]?.getD [] ++ groupOf placements c ∧
      (c ∈ placements.foldl addToGroup m ↔ c ∈ m ∨ groupOf placements c ≠ []) := by
  induction placements generalizing m with
  | nil => simp [groupOf]
  | cons p ps ih =>
    obtain ⟨hget, hmem⟩ := ih (addToGroup m p)
    rw [List.foldl_cons, hget, hmem]
    unfold addToGroup
    split_ifs with hskip
    · have hg : groupOf (p :: ps) c = groupOf ps c := by
        refine List.filter_cons_of_neg ?_
        rcases hskip with h | h
        · simp [h]
        · simp [h]
      rw [hg]
      exact ⟨rfl, Iff.rfl⟩
    · rw [not_or, Bool.not_eq_false] at hskip
      rw [GoMap.getElem?_insert, GoMap.mem_insert]
      by_cases hc : c = p.clientID
      · subst hc
        have hg : groupOf (p :: ps) p.clientID = p :: groupOf ps p.clientID :=
          List.filter_cons_of_pos (by simp [hskip.1, hskip.2])
        rw [hg]
        simp
      · have hg : groupOf (p :: ps) c = groupOf ps c :=
          List.filter_cons_of_neg (by simp [Ne.symm hc])
        rw [hg]
        simp [hc]

theorem byUser_getD (placements : List Placement) (c : ClientID) :
    (byUser placements)[c]?.getD [] = groupOf placements c := by
  simpa [byUser] using (foldl_addToGroup placements ∅ c).1

theorem mem_byUser (placements : List Placement) (c : ClientID) :
    c ∈ byUser placements ↔ groupOf placements c ≠ [] := by
  simpa [byUser] using (foldl_addToGroup placements ∅ c).2

theorem mem_eligibleBackendIDs {seen : List BackendID} {cands : List Placement} {b : BackendID} :
    b ∈ eligibleBackendIDs reg seen cands ↔
      b ∉ seen ∧ (reg.get b).isSome ∧ ∃ p ∈ cands, p.backendNodeID = b := by
  induction cands generalizing seen with
  | nil => simp [eligibleBackendIDs]
  | cons p ps ih =>
    unfold eligibleBackendIDs
    split_ifs with hs
    · rw [ih, List.exists_mem_cons_iff]
      constructor
      · rintro ⟨hb, hr, h⟩
        exact ⟨hb, hr, .inr h⟩
      · rintro ⟨hb, hr, rfl | h⟩
        · exact absurd hs hb
        · exact ⟨hb, hr, h⟩
    · cases hreg : reg.get p.backendNodeID with
      | none =>
        simp only
        rw [ih, List.exists_mem_cons_iff]
        constructor
        · rintro ⟨hb, hr, h⟩
          exact ⟨hb, hr, .inr h⟩
        · rintro ⟨hb, hr, rfl | h⟩
          · simp [hreg] at hr
          · exact ⟨hb, hr, h⟩
      | some spec =>
        simp only
        rw [List.mem_cons, ih, List.mem_cons, not_or, List.exists_mem_cons_iff]
        constructor
        · rintro (rfl | ⟨⟨-, hb⟩, hr, h⟩)
          · exact ⟨hs, by simp [hreg], .inl rfl⟩
          · exact ⟨hb, hr, .inr h⟩
        · rintro ⟨hb, hr, rfl | h⟩
          · exact .inl rfl
          · by_cases he : b = p.backendNodeID
            · exact .inl he
            · exact .inr ⟨⟨he, hb⟩, hr, h⟩

/-! ## The loop over the clients -/

/-- The proxy after the clients `cs` have been pushed, each with its eligible backends. -/
structure Pushed (elig : ClientID → List String) (cs : List ClientID) (p p' : Proxy) : Prop where
  users : ∀ x, x ∈ p'.users ↔ x ∈ cs ∨ x ∈ p.users
  backends : p'.backends = p.backends
  entry : ∀ x, x ∈ p'.route ↔ (x ∈ cs ∧ elig x ≠ []) ∨ x ∈ p.route
  routed : ∀ x ∈ cs, elig x ≠ [] → ∀ b, b ∈ p'.routeOf x ↔ b ∈ elig x
  kept : ∀ x, ¬ (x ∈ cs ∧ elig x ≠ []) → p'.routeOf x = p.routeOf x

theorem Pushed.nil (elig : ClientID → List String) (p : Proxy) : Pushed elig [] p p :=
  ⟨by simp, rfl, by simp, by simp, fun _ _ => rfl⟩

/-- One more client in front whose route is deferred. -/
theorem Pushed.cons_deferred {elig : ClientID → List String} {c : ClientID} {cs : List ClientID}
    {p p₁ p' : Proxy} {flow : String} (hadd : p.addUser c flow = .ok p₁) (hids : elig c = [])
    (h : Pushed elig cs p₁ p') : Pushed elig (c :: cs) p p' := by
  obtain ⟨-, hu, hb, hr⟩ := Proxy.addUser_ok hadd
  have hmem : ∀ x, x ∈ c :: cs ∧ elig x ≠ [] ↔ x ∈ cs ∧ elig x ≠ [] := by
    intro x
    rw [List.mem_cons]
    constructor
    · rintro ⟨rfl | hx, hne⟩
      · exact absurd hids hne
      · exact ⟨hx, hne⟩
    · rintro ⟨hx, hne⟩
      exact ⟨.inr hx, hne⟩
  refine ⟨fun x => ?_, h.backends.trans hb, fun x => ?_, fun x hx hne => ?_, fun x hx => ?_⟩
  · rw [h.users, hu, List.mem_cons]
    tauto
  · rw [h.entry, hmem, hr]
  · exact h.routed x ((hmem x).mp ⟨hx, hne⟩).1 hne
  · rw [h.kept x (mt (hmem x).mpr hx)]
    unfold Proxy.routeOf
    rw [hr]

/-- One more client in front whose route is set. -/
theorem Pushed.cons_routed {elig : ClientID → List String} {c : ClientID} {cs : List ClientID}
    {p p₁ p₂ p' : Proxy} {flow : String} (hadd : p.addUser c flow = .ok p₁)
    (hset : p₁.setUserBackends c (elig c) = .ok p₂) (hids : elig c ≠ [])
    (hne : ∀ b ∈ elig c, b ≠ "") (h : Pushed elig cs p₂ p') : Pushed elig (c :: cs) p p' := by
  obtain ⟨-, hu, hb, hr⟩ := Proxy.addUser_ok hadd
  obtain ⟨hu₂, hb₂, hent, hother, hroute⟩ := Proxy.setUserBackends_ok hset
  refine ⟨fun x => ?_, (h.backends.trans hb₂).trans hb, fun x => ?_, fun x hx hel b => ?_,
    fun x hx => ?_⟩
  · rw [h.users, hu₂, hu, List.mem_cons]
    tauto
  · rw [h.entry, hent, hr, List.mem_cons]
    constructor
    · rintro (⟨hx, hel⟩ | rfl | hx)
      · exact .inl ⟨.inr hx, hel⟩
      · exact .inl ⟨.inl rfl, hids⟩
      · exact .inr hx
    · rintro (⟨rfl | hx, hel⟩ | hx)
      · exact .inr (.inl rfl)
      · exact .inl ⟨hx, hel⟩
      · exact .inr (.inr hx)
  · by_cases hcs : x ∈ cs
    · exact h.routed x hcs hel b
    · obtain rfl : x = c := (List.mem_cons.mp hx).resolve_right hcs
      rw [h.kept x fun h => hcs h.1, hroute]
      exact ⟨And.left, fun hb => ⟨hb, hne b hb⟩⟩
  · have hxc : x ≠ c := by
      rintro rfl
      exact hx ⟨List.mem_cons_self, hids⟩
    rw [h.kept x fun h => hx ⟨List.mem_cons_of_mem _ h.1, h.2⟩, hother x hxc]
    unfold Proxy.routeOf
    rw [hr]

theorem ensures_rebuildUsers (users : GoMap (List Placement)) (cs : List ClientID)
    (pending : Bool) :
    Ensures faults (rebuildUsers reg users cs pending) (fun _ r w' => ∀ b, r = .ok b →
      w'.store = w.store ∧
        Pushed (fun c => eligibleBackendIDs reg [] (users[c]?.getD [])) cs w.proxy w'.proxy) w := by
  induction cs generalizing w pending with
  | nil => exact fun _ _ => ⟨rfl, .nil _ _⟩
  | cons c cs ih =>
    refine ensures_addUser (fun _ msg b h => by cases h) fun p₁ hp₁ => ?_
    dsimp only
    split_ifs with hids
    · refine wp_mono (ih true) fun _ r w' h b hr => ?_
      obtain ⟨hst, hpush⟩ := h b hr
      exact ⟨hst, hpush.cons_deferred hp₁ hids⟩
    · refine ensures_setUserBackends (fun err b h => by cases h) fun p₂ hp₂ => ?_
      refine wp_mono (ih pending) fun _ r w' h b hr => ?_
      obtain ⟨hst, hpush⟩ := h b hr
      refine ⟨hst, hpush.cons_routed hp₁ hp₂ hids fun b hb => ?_⟩
      exact reg.get_isSome_ne (mem_eligibleBackendIDs.mp hb).2.1

/-- A rebuild that returns nil has pushed every client with a live placement. -/
theorem ensures_rebuildFromStore :
    Ensures faults (rebuildFromStore reg) (fun _ r w' => r = none → w'.store = w.store ∧
      (∀ b, b ∈ w'.proxy.backends ↔ (reg.get b).isSome) ∧
      ∃ cs, (∀ x, x ∈ cs ↔ groupOf w.store.list x ≠ []) ∧
        Pushed (fun c => eligibleBackendIDs reg [] (groupOf w.store.list c)) cs
          (w.proxy.setBackends reg.entryBackends) w'.proxy) w := by
  refine ensures_syncBackends.bind fun _ r w₁ h => ?_
  obtain ⟨rfl, rfl⟩ | ⟨-, rfl, err, rfl, -⟩ := h
  · refine ensures_listPlacements (fun _ msg h => by cases h) ?_
    refine ensures_rangeOrder fun order => ?_
    refine (ensures_rebuildUsers _ order.val false).bind fun _ r w' h => ?_
    cases r with
    | error err => exact fun h => by cases h
    | ok b =>
      intro _ _ _ _ _
      obtain ⟨hst, hpush⟩ := h b rfl
      refine ⟨hst, fun b => ?_, order.val, fun x => ?_, ?_⟩
      · show b ∈ w'.proxy.backends ↔ _
        rw [hpush.backends]
        exact mem_backends_sync
      · rw [order.property.mem_iff, Std.ExtTreeMap.mem_keys, mem_byUser]
      · show Pushed _ _ _ w'.proxy
        simpa only [byUser_getD] using hpush
  · exact fun h => by cases h

/-! ## Its calls -/

/-- What a rebuild of the proxy calls. -/
def RebuildProxyCall : Call → Prop
  | .setBackends _ => True
  | .listPlacements => True
  | .rangeOrder _ => True
  | .addUser _ _ => True
  | .setUserBackends _ _ => True
  | .storePending _ => True
  | .storeUsers _ => True
  | _ => False

section Calls

variable {tr : List GoEvent}

theorem rebuildUsers_calls (users : GoMap (List Placement)) (cs : List ClientID) (pending : Bool) :
    (rebuildUsers reg users cs pending).All fun c : Call =>
      RebuildProxyCall c ∧ ∀ x flow, c = .addUser x flow → x ∈ cs := by
  induction cs generalizing pending with
  | nil => trivial
  | cons y cs ih =>
    have hrest : ∀ b, (rebuildUsers reg users cs b).All fun c : Call =>
        RebuildProxyCall c ∧ ∀ x flow, c = .addUser x flow → x ∈ y :: cs := fun b =>
      (ih b).mono fun c hc => ⟨hc.1, fun x flow h => List.mem_cons_of_mem _ (hc.2 x flow h)⟩
    refine Prog.all_invoke_bind.mpr ⟨⟨trivial, fun x flow h => ?_⟩, fun r => ?_⟩
    · cases h
      exact List.mem_cons_self
    · cases r with
      | some err => trivial
      | none =>
        dsimp only
        split_ifs
        · exact hrest true
        · refine Prog.all_invoke_bind.mpr ⟨⟨trivial, fun x flow h => by cases h⟩, fun r => ?_⟩
          cases r with
          | some err => trivial
          | none => exact hrest pending

/-- What is left of a rebuild once it has its listing. -/
theorem rebuild_listed_calls (all : List Placement) :
    (do
      let users := byUser all
      let order ← port (.rangeOrder users.keys)
      match ← rebuildUsers reg users order.val false with
      | .error err => return some err
      | .ok pending =>
        port (.storePending pending)
        port (.storeUsers users.size)
        return none : Go Err).All fun c : Call =>
      RebuildProxyCall c ∧
        ∀ x flow, c = .addUser x flow → ∃ p ∈ all, p.live = true ∧ p.clientID = x := by
  refine Prog.all_invoke_bind.mpr ⟨⟨trivial, fun x flow h => by cases h⟩, fun order => ?_⟩
  have hloop : (rebuildUsers reg (byUser all) order.val false).All fun c : Call =>
      RebuildProxyCall c ∧
        ∀ x flow, c = .addUser x flow → ∃ p ∈ all, p.live = true ∧ p.clientID = x := by
    refine (rebuildUsers_calls _ order.val false).mono fun c hc => ⟨hc.1, fun x flow h => ?_⟩
    have hx : groupOf all x ≠ [] := by
      rw [← mem_byUser, ← Std.ExtTreeMap.mem_keys, ← order.property.mem_iff]
      exact hc.2 x flow h
    obtain ⟨p, hp⟩ := List.exists_mem_of_ne_nil _ hx
    have hp' := List.mem_filter.mp hp
    simp only [decide_eq_true_eq] at hp'
    exact ⟨p, hp'.1, hp'.2.1, hp'.2.2.2⟩
  refine hloop.bind fun r => ?_
  cases r with
  | error err => trivial
  | ok pending =>
    refine Prog.all_invoke_bind.mpr ⟨⟨trivial, fun x flow h => by cases h⟩, fun _ => ?_⟩
    exact Prog.all_invoke_bind.mpr ⟨⟨trivial, fun x flow h => by cases h⟩, fun _ => trivial⟩

theorem syncBackends_events {q : Go Err} (h : (syncBackends reg).After tr q) :
    ∀ ev ∈ tr, ev.call = .setBackends reg.entryBackends := by
  refine Prog.All.of_mem (P := fun c : Call => c = .setBackends reg.entryBackends) ?_ h
  refine Prog.all_invoke_bind.mpr ⟨rfl, fun r => ?_⟩
  cases r <;> trivial

/-- A rebuild adds only clients with a live placement in a listing it got. -/
theorem rebuild_events {q : Go Err} (h : (rebuildFromStore reg).After tr q) :
    (∀ ev ∈ tr, RebuildProxyCall ev.call) ∧
      ∀ x flow, ∀ ev ∈ tr, ev.call = .addUser x flow →
        ∃ all, (⟨.listPlacements, .ok all⟩ : GoEvent) ∈ tr ∧
          ∃ p ∈ all, p.live = true ∧ p.clientID = x := by
  have hsync : ∀ {tr' : List GoEvent}, (∀ ev ∈ tr', ev.call = .setBackends reg.entryBackends) →
      (∀ ev ∈ tr', RebuildProxyCall ev.call) ∧ ∀ x flow, ∀ ev ∈ tr', ev.call ≠ .addUser x flow := by
    intro tr' hall
    refine ⟨fun ev hev => ?_, fun x flow ev hev hc => ?_⟩
    · rw [hall ev hev]
      trivial
    · rw [hall ev hev] at hc
      cases hc
  rcases Prog.after_bind_iff.mp h with ⟨p', hp, -⟩ | ⟨r, tr₁, tr₂, rfl, hp, hrest⟩
  · obtain ⟨hcalls, hadd⟩ := hsync (syncBackends_events hp)
    exact ⟨hcalls, fun x flow ev hev hc => absurd hc (hadd x flow ev hev)⟩
  · obtain ⟨hcalls, hadd⟩ := hsync (syncBackends_events hp)
    -- the events after the sync: none, or the listing first
    have hafter : (∀ ev ∈ tr₂, RebuildProxyCall ev.call) ∧ ∀ x flow, ∀ ev ∈ tr₂,
        ev.call = .addUser x flow → ∃ all, (⟨.listPlacements, .ok all⟩ : GoEvent) ∈ tr₂ ∧
          ∃ p ∈ all, p.live = true ∧ p.clientID = x := by
      cases r with
      | some err =>
        obtain ⟨rfl, -⟩ := Prog.after_done_iff.mp hrest
        simp
      | none =>
        rcases Prog.after_call_iff.mp hrest with ⟨rfl, -⟩ | ⟨r, tr₃, rfl, hlisted⟩
        · simp
        · cases r with
          | error err =>
            obtain ⟨rfl, -⟩ := Prog.after_done_iff.mp hlisted
            refine ⟨fun ev hev => ?_, fun x flow ev hev hc => ?_⟩
            · rw [List.mem_singleton.mp hev]
              trivial
            · rw [List.mem_singleton.mp hev] at hc
              cases hc
          | ok all =>
            have hmem := (rebuild_listed_calls all).of_mem hlisted
            refine ⟨fun ev hev => ?_, fun x flow ev hev hc => ⟨all, List.mem_cons_self, ?_⟩⟩
            · rcases List.mem_cons.mp hev with rfl | hev
              · trivial
              · exact (hmem ev hev).1
            · rcases List.mem_cons.mp hev with rfl | hev
              · cases hc
              · exact (hmem ev hev).2 x flow hc
    refine ⟨List.forall_mem_append.mpr ⟨hcalls, hafter.1⟩, fun x flow ev hev hc => ?_⟩
    rcases List.mem_append.mp hev with hev | hev
    · exact absurd hc (hadd x flow ev hev)
    · obtain ⟨all, hall, hp⟩ := hafter.2 x flow ev hev hc
      exact ⟨all, List.mem_append_right _ hall, hp⟩

end Calls

end NodeAgent.EntryProxyActions
