import NodeAgent.Singboxgen.View

/-!
# What a merge takes away, keeps and adds

A merge writes three members of the base: the users of its own inbounds, the outbounds and the rules with a
dynamic tag. What an earlier merge has put there it takes away first, so only the last merge counts; the
users are the exception if there are none to put.
-/

namespace NodeAgent.Singboxgen

open Lib

/-! ## Users -/

theorem mem_activeUsers {seen : List ClientID} {ps : List Placement} {c : ClientID} :
    c ∈ (activeUsers seen ps).map VlessUser.uuid ↔
      c ≠ "" ∧ c ∉ seen ∧ ∃ p ∈ ps, p.desired = .active ∧ p.clientID = c := by
  induction ps generalizing seen with
  | nil => simp [activeUsers]
  | cons p ps ih =>
    unfold activeUsers
    split_ifs with hskip
    · rw [ih]
      refine and_congr_right fun hc => and_congr_right fun hseen => ?_
      simp only [List.mem_cons, exists_eq_or_imp]
      refine ⟨.inr, fun h => h.resolve_left ?_⟩
      rintro ⟨hd, rfl⟩
      rcases hskip with h | h | h
      · exact h hd
      · exact hc h
      · exact hseen h
    · rw [not_or, not_or, not_not] at hskip
      obtain ⟨hd, hne, hseen⟩ := hskip
      rw [List.map_cons, List.mem_cons, ih]
      simp only [List.mem_cons, exists_eq_or_imp]
      by_cases hc : c = p.clientID
      · subst hc
        simp [hd, hne, hseen]
      · simp [hc, Ne.symm hc]

theorem nodup_activeUsers (seen : List ClientID) (ps : List Placement) :
    ((activeUsers seen ps).map VlessUser.uuid).Nodup := by
  induction ps generalizing seen with
  | nil => exact List.nodup_nil
  | cons p ps ih =>
    unfold activeUsers
    split_ifs
    · exact ih seen
    · rw [List.map_cons, List.nodup_cons]
      refine ⟨fun hmem => ?_, ih _⟩
      exact (mem_activeUsers.mp hmem).2.1 List.mem_cons_self

theorem sorted_collectActiveUsers (ps : List Placement) :
    ((collectActiveUsers ps).map VlessUser.uuid).Pairwise (· < ·) := by
  have hperm : ((collectActiveUsers ps).map VlessUser.uuid).Perm ((activeUsers [] ps).map VlessUser.uuid) :=
    (List.perm_insertionSort _ _).map _
  have hle : ((collectActiveUsers ps).map VlessUser.uuid).Pairwise (· ≤ ·) := by
    rw [List.pairwise_map]
    exact List.pairwise_insertionSort _ _
  have hnodup : ((collectActiveUsers ps).map VlessUser.uuid).Nodup :=
    hperm.nodup_iff.mpr (nodup_activeUsers [] ps)
  exact (hle.and hnodup).imp fun h => lt_of_le_of_ne h.1 h.2

theorem mem_collectActiveUsers {ps : List Placement} {c : ClientID} :
    c ∈ (collectActiveUsers ps).map VlessUser.uuid ↔
      c ≠ "" ∧ ∃ p ∈ ps, p.desired = .active ∧ p.clientID = c := by
  unfold collectActiveUsers
  rw [((List.perm_insertionSort _ _).map VlessUser.uuid).mem_iff, mem_activeUsers]
  simp

/-! ## The parts of a merge -/

section Merge

variable {root : Json} {members merged : List (String × Json)} {state : NodeState} {r : Rendered}

/-- The users that a merge puts into its own inbounds. -/
def mergedUsers (state : NodeState) : List Json := (collectActiveUsers state.placements).map mergedUser

theorem mergeInbounds_eq_ok : mergeInbounds members state = .ok merged ↔ ∃ inbounds,
    members.lookup "inbounds" = some (.arr inbounds) ∧ inbounds.any (isOwnInbound state) = true ∧
      merged = Json.setMember "inbounds"
        (.arr (inbounds.map (mergeInbound state (mergedUsers state)))) members := by
  unfold mergeInbounds
  constructor
  · intro h
    split at h
    · cases h
    · rename_i inbounds heq
      dsimp only at h
      split_ifs at h with hany
      cases h
      exact ⟨inbounds, heq, hany, rfl⟩
    · cases h
  · rintro ⟨inbounds, heq, hany, rfl⟩
    rw [heq]
    dsimp only
    rw [if_pos hany]
    rfl

theorem mergeBase_empty [Lowering] (h : mergeBase .empty state = .ok r) :
    ∃ cfg, build state = .ok cfg ∧ r = .built cfg := by
  rw [mergeBase] at h
  cases hb : build state with
  | error err =>
    rw [hb] at h
    cases h
  | ok cfg =>
    rw [hb] at h
    cases h
    exact ⟨cfg, rfl, rfl⟩

/-- A merge, once the base is decoded. -/
theorem mergeBase_eq_ok [Lowering] : mergeBase (.json root) state = .ok r ↔ validate state = .ok () ∧
    ∃ members merged, root = .obj members ∧ mergeInbounds members state = .ok merged ∧
      r = .merged (.obj (mergeRoute (mergeOutbounds merged state) state)) := by
  constructor
  · intro h
    unfold mergeBase at h
    obtain ⟨⟨⟩, hv, h⟩ := except_bind_ok h
    refine ⟨hv, ?_⟩
    obtain ⟨members, hd, h⟩ := except_bind_ok h
    obtain ⟨merged, hm, h⟩ := except_bind_ok h
    cases h
    cases root with
    | obj m =>
      cases hd
      exact ⟨members, merged, rfl, hm, rfl⟩
    | null =>
      cases hd
      cases hm
    | bool b => cases hd
    | num n => cases hd
    | str t => cases hd
    | arr elems => cases hd
  · rintro ⟨hv, members, merged, rfl, hm, rfl⟩
    simp [mergeBase, hv, decodeObject, hm, Except.mapError, bind, Except.bind, pure, Except.pure]

/-- The outbounds that a merge writes. -/
def mergedOutbounds [Lowering] (members : List (String × Json)) (s : NodeState) : List Json :=
  (((Json.obj members).getArr? "outbounds").getD []).filter (keeps "tag") ++
    (routedPairs s.placements s.backends).map (pairOutbound s.backends)

/-- The route that a merge writes. -/
def mergedRoute [Lowering] (members : List (String × Json)) (s : NodeState) : List (String × Json) :=
  let route := (((Json.obj members).get? "route").bind Json.obj?).getD []
  Json.setMember "rules" (.arr (buildDynamicRouteRules s ++
    (((Json.obj route).getArr? "rules").getD []).filter (keeps "outbound"))) route

/-- The members that a merge writes. -/
def mergedMembers [Lowering] (members : List (String × Json)) (inbounds : List Json) (s : NodeState) :
    List (String × Json) :=
  Json.setMember "route" (.obj (mergedRoute members s))
    (Json.setMember "outbounds" (.arr (mergedOutbounds members s))
      (Json.setMember "inbounds" (.arr (inbounds.map (mergeInbound s (mergedUsers s)))) members))

theorem mergedOutbounds_setMember [Lowering] (name : String) (hname : "outbounds" ≠ name) (v : Json) :
    mergedOutbounds (Json.setMember name v members) state = mergedOutbounds members state := by
  unfold mergedOutbounds Json.getArr?
  rw [Json.get?_setMember_of_ne hname]

theorem mergedRoute_setMember [Lowering] (name : String) (hname : "route" ≠ name) (v : Json) :
    mergedRoute (Json.setMember name v members) state = mergedRoute members state := by
  unfold mergedRoute
  rw [Json.get?_setMember_of_ne hname]

/-- A merge succeeds on an object with an inbound of its own, and this is what it writes. -/
theorem mergeBase_json_iff [Lowering] : mergeBase (.json root) state = .ok r ↔ validate state = .ok () ∧
    ∃ members inbounds, root = .obj members ∧ members.lookup "inbounds" = some (.arr inbounds) ∧
      inbounds.any (isOwnInbound state) = true ∧
      r = .merged (.obj (mergedMembers members inbounds state)) := by
  -- the outbounds and the route are read from what the step before has written
  have hwrites : ∀ (members : List (String × Json)) (v : Json),
      mergeRoute (mergeOutbounds (Json.setMember "inbounds" v members) state) state =
        Json.setMember "route" (.obj (mergedRoute members state))
          (Json.setMember "outbounds" (.arr (mergedOutbounds members state))
            (Json.setMember "inbounds" v members)) := by
    intro members v
    rw [← mergedRoute_setMember "inbounds" (by decide) v,
      ← mergedRoute_setMember "outbounds" (by decide) (.arr (mergedOutbounds members state)),
      ← mergedOutbounds_setMember "inbounds" (by decide) v]
    rfl
  rw [mergeBase_eq_ok]
  refine and_congr_right fun _ => ⟨?_, ?_⟩
  · rintro ⟨members, merged, hroot, hm, rfl⟩
    obtain ⟨inbounds, hin, hany, rfl⟩ := mergeInbounds_eq_ok.mp hm
    exact ⟨members, inbounds, hroot, hin, hany, by rw [hwrites]; rfl⟩
  · rintro ⟨members, inbounds, hroot, hin, hany, rfl⟩
    exact ⟨members, _, hroot, mergeInbounds_eq_ok.mpr ⟨inbounds, hin, hany, rfl⟩, by rw [hwrites]; rfl⟩

theorem lookup_mergedMembers [Lowering] (inbounds : List Json) (x : String) :
    (mergedMembers members inbounds state).lookup x =
      if x = "route" then some (.obj (mergedRoute members state))
      else if x = "outbounds" then some (.arr (mergedOutbounds members state))
      else if x = "inbounds" then some (.arr (inbounds.map (mergeInbound state (mergedUsers state))))
      else members.lookup x := by
  unfold mergedMembers
  rw [Json.lookup_setMember, Json.lookup_setMember, Json.lookup_setMember]

/-- What a merge makes of the outbounds and of the rules. -/
theorem mergeBase_json [Lowering] (h : mergeBase (.json root) state = .ok r) :
    outboundsOf r.toJson = (outboundsOf root).filter (keeps "tag") ++
        (routedPairs state.placements state.backends).map (pairOutbound state.backends) ∧
      rulesOf r.toJson = buildDynamicRouteRules state ++ (rulesOf root).filter (keeps "outbound") := by
  obtain ⟨-, members, inbounds, rfl, -, -, rfl⟩ := mergeBase_json_iff.mp h
  constructor
  · unfold outboundsOf Json.getArr?
    rw [Rendered.toJson, Json.get?_obj, lookup_mergedMembers]
    rfl
  · -- a route that is not an object is read as an empty one
    have hroute : ∀ j : Option Json, ((Json.obj ((j.bind Json.obj?).getD [])).getArr? "rules").getD [] =
        ((j.getD .null).getArr? "rules").getD [] := by
      intro j
      rcases j with _ | (_ | _ | _ | _ | _ | _) <;> rfl
    rw [rulesOf, Rendered.toJson, Json.get?_obj, lookup_mergedMembers, if_pos rfl, Option.getD_some,
      mergedRoute, Json.getArr?, Json.get?_setMember_self]
    show buildDynamicRouteRules state ++ List.filter _ _ = _
    rw [hroute]
    rfl

end Merge

/-! ## Only the last merge counts -/

section Absorb

variable {members : List (String × Json)} {s s₁ s₂ : NodeState}

theorem isOwnInbound_congr (htag : s₁.inbound.tag = s₂.inbound.tag) (inb : Json) :
    isOwnInbound s₁ inb = isOwnInbound s₂ inb := by
  unfold isOwnInbound
  rw [htag]

theorem isOwnInbound_mergeInbound (s s' : NodeState) (users : List Json) (inb : Json) :
    isOwnInbound s' (mergeInbound s users inb) = isOwnInbound s' inb := by
  unfold mergeInbound
  split
  · split_ifs
    · unfold isOwnInbound
      rw [Json.get?_setMember_of_ne (by decide)]
    · rfl
  · rfl

/-- Users that are put replace those put before. -/
theorem mergeInbound_absorbs (htag : s₁.inbound.tag = s₂.inbound.tag) (us₁ : List Json) {us₂ : List Json}
    (hne : us₂ ≠ []) (inb : Json) :
    mergeInbound s₂ us₂ (mergeInbound s₁ us₁ inb) = mergeInbound s₂ us₂ inb := by
  cases inb with
  | obj m =>
    by_cases hown : isOwnInbound s₂ (.obj m) = true
    · have hown₁ : isOwnInbound s₁ (.obj m) = true := (isOwnInbound_congr htag _).trans hown
      by_cases hus : us₁ = []
      · rw [show mergeInbound s₁ us₁ (.obj m) = .obj m from if_neg fun h => h.2 hus]
      · have hfirst : mergeInbound s₁ us₁ (.obj m) = .obj (Json.setMember "users" (.arr us₁) m) :=
          if_pos ⟨hown₁, hus⟩
        have hown' : isOwnInbound s₂ (.obj (Json.setMember "users" (.arr us₁) m)) = true := by
          rw [← hfirst, isOwnInbound_mergeInbound]
          exact hown
        rw [hfirst, mergeInbound, mergeInbound, if_pos ⟨hown', hne⟩, if_pos ⟨hown, hne⟩,
          Json.setMember_setMember]
    · have hown₁ : ¬ isOwnInbound s₁ (.obj m) = true := (isOwnInbound_congr htag _).symm ▸ hown
      rw [show mergeInbound s₁ us₁ (.obj m) = .obj m from if_neg fun h => hown₁ h.1]
  | _ => rfl

theorem mergedOutbounds_absorbs [Lowering] (inbounds : List Json) :
    mergedOutbounds (mergedMembers members inbounds s₁) s₂ = mergedOutbounds members s₂ := by
  have hget : (Json.obj (mergedMembers members inbounds s₁)).getArr? "outbounds" =
      some (mergedOutbounds members s₁) := by
    rw [Json.getArr?, Json.get?_obj, lookup_mergedMembers]
    rfl
  unfold mergedOutbounds
  rw [hget, Option.getD_some, mergedOutbounds, List.filter_append, filter_keeps_pairOutbounds,
    List.append_nil, List.filter_filter]
  simp

/-- And so is what it has added to the rules. -/
theorem mergedRoute_absorbs [Lowering] (inbounds : List Json) :
    mergedRoute (mergedMembers members inbounds s₁) s₂ = mergedRoute members s₂ := by
  have hroute : (((Json.obj (mergedMembers members inbounds s₁)).get? "route").bind Json.obj?).getD [] =
      mergedRoute members s₁ := by
    rw [Json.get?_obj, lookup_mergedMembers]
    rfl
  have hrules : ∀ v, ((Json.obj (Json.setMember "rules" (.arr v)
      ((((Json.obj members).get? "route").bind Json.obj?).getD []))).getArr? "rules").getD [] = v := by
    intro v
    rw [Json.getArr?, Json.get?_setMember_self]
    rfl
  rw [mergedRoute, hroute, mergedRoute, hrules, List.filter_append, filter_keeps_dynamicRules,
    List.nil_append, List.filter_filter, Json.setMember_setMember]
  simp [mergedRoute]

theorem mergedMembers_absorbs [Lowering] (htag : s₁.inbound.tag = s₂.inbound.tag) (hne : mergedUsers s₂ ≠ [])
    (inbounds : List Json) :
    mergedMembers (mergedMembers members inbounds s₁)
      (inbounds.map (mergeInbound s₁ (mergedUsers s₁))) s₂ = mergedMembers members inbounds s₂ := by
  have hinbounds : (inbounds.map (mergeInbound s₁ (mergedUsers s₁))).map
      (mergeInbound s₂ (mergedUsers s₂)) = inbounds.map (mergeInbound s₂ (mergedUsers s₂)) := by
    rw [List.map_map]
    exact List.map_congr_left fun inb _ => mergeInbound_absorbs htag _ hne inb
  -- what is there already is written where it stands, and then once more
  have hover : ∀ i₁ i₂ o₁ o₂ r₁ r₂ : Json,
      Json.setMember "route" r₂ (Json.setMember "outbounds" o₂ (Json.setMember "inbounds" i₂
        (Json.setMember "route" r₁ (Json.setMember "outbounds" o₁ (Json.setMember "inbounds" i₁ members))))) =
      Json.setMember "route" r₂ (Json.setMember "outbounds" o₂ (Json.setMember "inbounds" i₂ members)) := by
    intro i₁ i₂ o₁ o₂ r₁ r₂
    have hi : (Json.setMember "inbounds" i₁ members).lookup "inbounds" = some i₁ := by
      rw [Json.lookup_setMember, if_pos rfl]
    have hio : (Json.setMember "outbounds" o₁ (Json.setMember "inbounds" i₁ members)).lookup "inbounds" =
        some i₁ := by
      rw [Json.lookup_setMember, if_neg (by decide), hi]
    have ho : (Json.setMember "outbounds" o₁ (Json.setMember "inbounds" i₂ members)).lookup "outbounds" =
        some o₁ := by
      rw [Json.lookup_setMember, if_pos rfl]
    rw [Json.setMember_comm hio (by decide), Json.setMember_comm hi (by decide), Json.setMember_setMember,
      Json.setMember_comm ho (by decide), Json.setMember_setMember, Json.setMember_setMember]
  rw [mergedMembers, mergedOutbounds_absorbs, mergedRoute_absorbs, hinbounds]
  exact hover _ _ _ _ _ _

theorem mergedUsers_ne_nil (hv : validate s = .ok ()) (hact : ∃ p ∈ s.placements, p.desired = .active) :
    mergedUsers s ≠ [] := by
  obtain ⟨p, hp, hd⟩ := hact
  have hne : p.clientID ≠ "" := ((validate_ok_iff.mp hv).2 p hp hd).1
  have hmem : p.clientID ∈ (collectActiveUsers s.placements).map VlessUser.uuid :=
    mem_collectActiveUsers.mpr ⟨hne, p, hp, hd, rfl⟩
  obtain ⟨u, hu, -⟩ := List.mem_map.mp hmem
  exact List.ne_nil_of_mem (List.mem_map_of_mem hu)

/-- A merge of a state with an active placement makes the same of a base and of what an earlier merge has
made of it. -/
theorem mergeBase_absorbs [Lowering] {root : Json} {r₁ : Rendered} (h₁ : mergeBase (.json root) s₁ = .ok r₁)
    (hv : validate s₂ = .ok ()) (htag : s₁.inbound.tag = s₂.inbound.tag)
    (hact : ∃ p ∈ s₂.placements, p.desired = .active) :
    ∃ r₂, mergeBase (.json r₁.toJson) s₂ = .ok r₂ ∧ mergeBase (.json root) s₂ = .ok r₂ ∧
      (s₁ = s₂ → r₂ = r₁) := by
  obtain ⟨-, members, inbounds, rfl, hin, hany, rfl⟩ := mergeBase_json_iff.mp h₁
  have hown : isOwnInbound s₁ = isOwnInbound s₂ := funext (isOwnInbound_congr htag)
  have hdirect : mergeBase (.json (.obj members)) s₂ =
      .ok (.merged (.obj (mergedMembers members inbounds s₂))) :=
    mergeBase_json_iff.mpr ⟨hv, members, inbounds, rfl, hin, hown ▸ hany, rfl⟩
  refine ⟨_, ?_, hdirect, ?_⟩
  · refine mergeBase_json_iff.mpr ⟨hv, mergedMembers members inbounds s₁, _, rfl, ?_, ?_,
      by rw [mergedMembers_absorbs htag (mergedUsers_ne_nil hv hact)]⟩
    · rw [lookup_mergedMembers]
      rfl
    · rw [List.any_map, ← hany, hown]
      exact congrArg _ (funext fun inb => isOwnInbound_mergeInbound s₁ s₂ _ inb)
  · rintro rfl
    rfl

end Absorb

section Fixed

open Eval

/-- An inbound of the agent and one of the operator. -/
def operatorInbounds : List Json :=
  [.obj [("tag", .str "in"), ("tls", .str "reality")], .obj [("tag", .str "ssh")]]

def operatorBase : List (String × Json) :=
  [("dns", .bool true), ("inbounds", .arr operatorInbounds),
    ("outbounds", .arr [.obj [("tag", .str "direct")]])]

/-- A node with the backend "n" and these clients on it. -/
def serving (clients : List ClientID) : NodeState where
  inbound := { tag := "in", listen := { port := 443 } }
  backends := [{ id := "n", address := "10.0.0.1", port := 443 }]
  placements := clients.map fun c => { id := c, clientID := c, backendNodeID := "n", desired := .active }

theorem mergeBase_absorbs_other_client : ∃ r₁ r₂,
    mergeBase (.json (.obj operatorBase)) (serving ["c"]) = .ok r₁ ∧
      mergeBase (.json r₁.toJson) (serving ["d"]) = .ok r₂ ∧
      mergeBase (.json (.obj operatorBase)) (serving ["d"]) = .ok r₂ := by
  obtain ⟨r₁, h₁⟩ : ∃ r₁, mergeBase (.json (.obj operatorBase)) (serving ["c"]) = .ok r₁ :=
    ⟨_, mergeBase_json_iff.mpr ⟨by decide, _, _, rfl, rfl, by decide, rfl⟩⟩
  have hv : validate (serving ["d"]) = .ok () := by decide
  obtain ⟨r₂, htwice, honce, -⟩ := mergeBase_absorbs h₁ hv rfl (by decide)
  exact ⟨r₁, r₂, h₁, htwice, honce⟩

end Fixed

end NodeAgent.Singboxgen
