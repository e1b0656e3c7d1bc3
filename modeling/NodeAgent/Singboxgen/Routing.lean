import NodeAgent.Singboxgen.Absorb

/-!
# Where a configuration sends a user

The first rule for a user names an outbound or a selector. A build has one rule per user, to a selector
whose default is the backend of the last active placement; a merge has one rule per user and backend, in
the order of the backends.
-/

namespace NodeAgent.Singboxgen

open Lib

/-! ## Following the rules -/

/-- The outbound with a tag. -/
def outboundNamed (j : Json) (tag : String) : Option Json :=
  (outboundsOf j).find? fun o => o.getStr? "tag" = some tag

/-- The default of the selector of a user. -/
def selectorDefault [Lowering] (j : Json) (c : ClientID) : Option String :=
  (outboundNamed j (perUserSelectorTagFor c)).bind (·.getStr? "default")

/-! ## The placements that decide -/

/-- The backends of the active placements of a client, in the order of the placements. -/
def activeBackends (ps : List Placement) (c : ClientID) : List BackendID :=
  (ps.filter fun p => p.desired = .active ∧ p.clientID = c).map Placement.backendNodeID

/-- The least of the clients with an active placement whose id is that of the client up to case: the
one whose selector comes first. -/
def selectorOwner [Lowering] (ps : List Placement) (c : ClientID) : Option ClientID :=
  ((ps.filter fun p => p.desired = .active ∧ toLower p.clientID = toLower c).map
    Placement.clientID).min?

section Order

variable {α : Type*} {l : List α} {p : α → Bool} {a : α}

theorem le_of_find?_pairwise {r : α → α → Prop} [Std.Refl r] (hl : l.Pairwise r)
    (h : l.find? p = some a) : ∀ b ∈ l, p b = true → r a b := by
  obtain ⟨-, as, bs, rfl, has⟩ := List.find?_eq_some_iff_append.mp h
  intro b hb hp
  rcases List.mem_append.mp hb with hb | hb
  · have hnot := has b hb
    rw [hp] at hnot
    cases hnot
  · rcases List.mem_cons.mp hb with rfl | hb
    · exact Std.Refl.refl b
    · exact List.rel_of_pairwise_cons (List.pairwise_append.mp hl).2.1 hb

end Order

section State

variable {state : NodeState} {c : ClientID}

theorem routed_of_validate (h : validate state = .ok ()) {p : Placement} (hp : p ∈ state.placements) :
    routed state.backends p = true ↔ p.desired = .active := by
  rw [routed_iff]
  constructor
  · exact fun hrouted => hrouted.1
  · intro hactive
    exact ⟨hactive, (validate_ok_iff.mp h).2 p hp hactive⟩

theorem activeBackends_eq (h : validate state = .ok ()) :
    activeBackends state.placements c = ((state.placements.filter (routed state.backends)).filter
      fun p => p.clientID = c).map Placement.backendNodeID := by
  unfold activeBackends
  rw [List.filter_filter]
  congr 1
  refine List.filter_congr fun p hp => ?_
  have hrouted := routed_of_validate h hp
  by_cases hactive : p.desired = .active
  · rw [hrouted.mpr hactive]
    simp [hactive]
  · have hnot : routed state.backends p = false := by
      rw [Bool.eq_false_iff]
      exact fun hr => hactive (hrouted.mp hr)
    rw [hnot]
    simp [hactive]

theorem desiredBackendByUser_eq (h : validate state = .ok ()) :
    desiredBackendByUser state.placements state.backends c =
      (activeBackends state.placements c).getLastD "" := by
  rw [activeBackends_eq h]
  rfl

theorem mem_routedUsers_iff (h : validate state = .ok ()) :
    c ∈ routedUsers state.placements state.backends ↔
      ∃ p ∈ state.placements, p.desired = .active ∧ p.clientID = c := by
  rw [mem_routedUsers]
  constructor
  · rintro ⟨p, hp, hrouted, hc⟩
    exact ⟨p, hp, (routed_of_validate h hp).mp hrouted, hc⟩
  · rintro ⟨p, hp, hactive, hc⟩
    exact ⟨p, hp, (routed_of_validate h hp).mpr hactive, hc⟩

/-- The first of the users that differ from a client in case only. -/
theorem selectorOwner_eq [Lowering] (h : validate state = .ok ()) :
    selectorOwner state.placements c =
      (routedUsers state.placements state.backends).find? fun u => toLower u = toLower c := by
  have hmem : ∀ u, u ∈ (state.placements.filter fun p =>
      p.desired = .active ∧ toLower p.clientID = toLower c).map Placement.clientID ↔
      u ∈ routedUsers state.placements state.backends ∧ toLower u = toLower c := by
    intro u
    rw [mem_routedUsers_iff h, List.mem_map]
    simp only [List.mem_filter, decide_eq_true_eq]
    constructor
    · rintro ⟨p, ⟨hp, hactive, hlow⟩, rfl⟩
      exact ⟨⟨p, hp, hactive, rfl⟩, hlow⟩
    · rintro ⟨⟨p, hp, hactive, rfl⟩, hlow⟩
      exact ⟨p, ⟨hp, hactive, hlow⟩, rfl⟩
  unfold selectorOwner
  cases hfind : (routedUsers state.placements state.backends).find? fun u => toLower u = toLower c with
  | none =>
    rw [List.min?_eq_none_iff, List.eq_nil_iff_forall_not_mem]
    intro u hu
    obtain ⟨hrouted, hlow⟩ := (hmem u).mp hu
    exact List.find?_eq_none.mp hfind u hrouted (decide_eq_true hlow)
  | some u =>
    rw [List.min?_eq_some_iff]
    have hlow : toLower u = toLower c := by simpa using List.find?_some hfind
    refine ⟨(hmem u).mpr ⟨List.mem_of_find?_eq_some hfind, hlow⟩, fun v hv => ?_⟩
    obtain ⟨hrouted, hlow'⟩ := (hmem v).mp hv
    have hsorted : (routedUsers state.placements state.backends).Pairwise (· ≤ ·) :=
      List.pairwise_insertionSort _ _
    exact le_of_find?_pairwise hsorted hfind v hrouted (decide_eq_true hlow')

end State

/-! ## A build -/

theorem perUserSelectorTagFor_inj [Lowering] {u c : ClientID} :
    perUserSelectorTagFor u = perUserSelectorTagFor c ↔ toLower u = toLower c := by
  unfold perUserSelectorTagFor
  rw [String.append_right_inj]

theorem perUserOutboundTagFor_ne_selector [Lowering] (u c : ClientID) (b : BackendID) :
    perUserOutboundTagFor u b ≠ perUserSelectorTagFor c := by
  intro h
  have hlist := congrArg String.toList h
  unfold perUserOutboundTagFor perUserSelectorTagFor at hlist
  rw [String.toList_append, String.toList_append, String.toList_append, String.toList_append] at hlist
  exact absurd (List.cons_eq_cons.mp hlist).1 (by decide)

section Build

variable [Lowering] {ps : List Placement} {bs : List BackendSpec} {c : ClientID}

/-- Among the outbounds of one user, the selector tag is that of the selector. -/
theorem find?_userOutbounds (u : ClientID) :
    ((bs.insertionSort fun a b => a.id ≤ b.id).map (backendOutbound u) ++ [userSelector ps bs u]).find?
      (fun o => o.tag = perUserSelectorTagFor c) =
    if toLower u = toLower c then some (userSelector ps bs u) else none := by
  have hbackends : ((bs.insertionSort fun a b => a.id ≤ b.id).map (backendOutbound u)).find?
      (fun o => o.tag = perUserSelectorTagFor c) = none := by
    rw [List.find?_eq_none]
    intro o ho
    obtain ⟨b, -, rfl⟩ := List.mem_map.mp ho
    rw [decide_eq_true_eq]
    exact perUserOutboundTagFor_ne_selector u c b.id
  rw [List.find?_append, hbackends, Option.none_or, List.find?_singleton]
  have htag : (userSelector ps bs u).tag = perUserSelectorTagFor u := rfl
  simp only [htag, perUserSelectorTagFor_inj, decide_eq_true_eq]

/-- The selector of a client is that of the first user with its id up to case. -/
theorem find?_selector_buildOutbounds :
    (buildOutbounds ps bs).find? (fun o => o.tag = perUserSelectorTagFor c) =
      ((routedUsers ps bs).find? fun u => toLower u = toLower c).map (userSelector ps bs) := by
  have hne : ∀ o ∈ [directOutbound, blockOutbound],
      ¬ decide (o.tag = perUserSelectorTagFor c) = true := by
    intro o ho h
    have hlist := congrArg String.toList (of_decide_eq_true h)
    unfold perUserSelectorTagFor at hlist
    rw [String.toList_append] at hlist
    rcases List.mem_pair.mp ho with rfl | rfl
    · exact absurd (List.cons_eq_cons.mp hlist).1 (by decide)
    · exact absurd (List.cons_eq_cons.mp hlist).1 (by decide)
  have hdirect := hne directOutbound List.mem_cons_self
  have hblock := hne blockOutbound (List.mem_cons_of_mem _ List.mem_cons_self)
  rw [buildOutbounds_eq, List.find?_cons, List.find?_cons, Bool.eq_false_iff.mpr hdirect,
    Bool.eq_false_iff.mpr hblock, List.find?_flatMap]
  simp only [find?_userOutbounds]
  induction routedUsers ps bs with
  | nil => rfl
  | cons u us ih =>
    rw [List.findSome?_cons]
    by_cases hlow : toLower u = toLower c
    · simp [hlow]
    · simpa [hlow] using ih

end Build

section Rendered

variable [Lowering] {state : NodeState} {cfg : SingBoxConfig} {c : ClientID}

theorem validate_of_build (h : build state = .ok cfg) : validate state = .ok () :=
  validate_ok_iff.mpr (build_ok_iff.mp ⟨cfg, h⟩)

theorem outboundNamed_build (h : build state = .ok cfg) (tag : String) :
    outboundNamed cfg.toJson tag = ((buildOutbounds state.placements state.backends).find?
      fun o => o.tag = tag).map Outbound.toJson := by
  unfold outboundNamed
  rw [outboundsOf_toJson, (build_eq h).1, List.find?_map]
  congr 2
  funext o
  simp [getStr?_tag_toJson]

/-- The selector of a client, and its default. -/
theorem selector_build (h : build state = .ok cfg)
    (hc : c ∈ routedUsers state.placements state.backends) :
    ∃ u, selectorOwner state.placements c = some u ∧ toLower u = toLower c ∧
      u ∈ routedUsers state.placements state.backends ∧
      outboundNamed cfg.toJson (perUserSelectorTagFor c) =
        some (userSelector state.placements state.backends u).toJson := by
  have hv := validate_of_build h
  cases hfind : (routedUsers state.placements state.backends).find? fun u => toLower u = toLower c with
  | none => exact absurd (decide_eq_true rfl) (List.find?_eq_none.mp hfind c hc)
  | some u =>
    refine ⟨u, (selectorOwner_eq hv).trans hfind, by simpa using List.find?_some hfind,
      List.mem_of_find?_eq_some hfind, ?_⟩
    rw [outboundNamed_build h, find?_selector_buildOutbounds, hfind]
    rfl

theorem default_userSelector_ne (ps : List Placement) (bs : List BackendSpec) (u : ClientID) :
    (userSelector ps bs u).default ≠ "" := by
  intro h
  have hlist := congrArg String.toList h
  unfold userSelector perUserOutboundTagFor at hlist
  rw [String.toList_append, String.toList_append, String.toList_append] at hlist
  cases hlist

theorem getStr?_default_userSelector (h : validate state = .ok ()) (u : ClientID) :
    (userSelector state.placements state.backends u).toJson.getStr? "default" =
      some (perUserOutboundTagFor u ((activeBackends state.placements u).getLastD "")) := by
  rw [getStr?_default_toJson, if_neg (default_userSelector_ne _ _ _), ← desiredBackendByUser_eq h]
  rfl

theorem selectorDefault_build (h : build state = .ok cfg)
    (hc : c ∈ routedUsers state.placements state.backends) :
    ∃ u, selectorOwner state.placements c = some u ∧ toLower u = toLower c ∧
      u ∈ routedUsers state.placements state.backends ∧
      selectorDefault cfg.toJson c =
        some (perUserOutboundTagFor u ((activeBackends state.placements u).getLastD "")) := by
  obtain ⟨u, howner, hlow, hu, hsel⟩ := selector_build h hc
  refine ⟨u, howner, hlow, hu, ?_⟩
  unfold selectorDefault
  rw [hsel]
  exact getStr?_default_userSelector (validate_of_build h) u

end Rendered

/-! ## A merge -/

/-- The order of the pairs: by backend, then by client. -/
abbrev pairLe (x y : ClientID × BackendID) : Prop := if x.2 ≠ y.2 then x.2 < y.2 else x.1 ≤ y.1

theorem pairLe_iff {x y : ClientID × BackendID} :
    pairLe x y ↔ x.2 < y.2 ∨ x.2 = y.2 ∧ x.1 ≤ y.1 := by
  unfold pairLe
  by_cases h : x.2 = y.2
  · simp [h]
  · simp [h]

instance : Std.Total pairLe where
  total x y := by
    rw [pairLe_iff, pairLe_iff]
    rcases lt_trichotomy x.2 y.2 with h | h | h
    · exact .inl (.inl h)
    · rcases le_total x.1 y.1 with h' | h'
      · exact .inl (.inr ⟨h, h'⟩)
      · exact .inr (.inr ⟨h.symm, h'⟩)
    · exact .inr (.inl h)

instance : IsTrans (ClientID × BackendID) pairLe where
  trans x y z hxy hyz := by
    rw [pairLe_iff] at hxy hyz ⊢
    rcases hxy with hxy | ⟨hxy, hxy'⟩
    · rcases hyz with hyz | ⟨hyz, -⟩
      · exact .inl (hxy.trans hyz)
      · exact .inl (hyz ▸ hxy)
    · rcases hyz with hyz | ⟨hyz, hyz'⟩
      · exact .inl (hxy ▸ hyz)
      · exact .inr ⟨hxy.trans hyz, hxy'.trans hyz'⟩

theorem pairwise_routedPairs (ps : List Placement) (bs : List BackendSpec) :
    (routedPairs ps bs).Pairwise pairLe :=
  List.pairwise_insertionSort pairLe _

section Merged

variable {root : Json} {state : NodeState} {r : Rendered} {c : ClientID}

end Merged

/-! ## The two renderers -/

section Fixed

open Eval

/-- A client with one active placement on each of the given backends. -/
def homedOn (ids : List BackendID) : NodeState where
  inbound := { tag := "entry", listen := { port := 443 } }
  backends := ids.map fun id => { id := id, address := "198.51.100.7", port := 443 }
  placements := ids.map fun id =>
    { id := "p-" ++ id, clientID := "c", backendNodeID := id, desired := .active }

end Fixed

end NodeAgent.Singboxgen
