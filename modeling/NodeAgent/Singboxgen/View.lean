import NodeAgent.Singboxgen.Merge

/-!
# What a configuration says

The outbounds, the route rules and the selectors of a configuration file, whichever renderer wrote it.
-/

namespace NodeAgent.Singboxgen

open Lib

/-! ## Views of a file -/

/-- The outbounds of a configuration. -/
def outboundsOf (j : Json) : List Json := (j.getArr? "outbounds").getD []

/-- The rules of its route. -/
def rulesOf (j : Json) : List Json := (((j.get? "route").getD .null).getArr? "rules").getD []

/-- The tags of the outbounds. -/
def outboundTags (j : Json) : List String := (outboundsOf j).filterMap (·.getStr? "tag")

/-- The outbounds that the rules name. -/
def ruleTargets (j : Json) : List String := (rulesOf j).filterMap (·.getStr? "outbound")

/-- The outbound is a selector. -/
def isSelector (o : Json) : Bool := o.getStr? "type" = some selectorType

/-- The members and the default of a selector. -/
def selectorTargets (o : Json) : List String := o.getStrs "outbounds" ++ (o.getStr? "default").toList

/-! ## A built configuration -/

section Members

variable (x name s : String)

theorem lookup_strMember :
    (strMember name s).lookup x = if x = name ∧ s ≠ "" then some (.str s) else none := by
  unfold strMember
  by_cases hs : s = ""
  · simp [hs]
  · by_cases hx : x = name
    · simp [hs, hx]
    · simp [hs, hx, Json.lookup_cons]

theorem lookup_strsMember (l : List String) :
    (strsMember name l).lookup x = if x = name ∧ l ≠ [] then some (.arr (l.map .str)) else none := by
  unfold strsMember
  by_cases hs : l = []
  · simp [hs]
  · by_cases hx : x = name
    · simp [hs, hx]
    · simp [hs, hx, Json.lookup_cons]

theorem lookup_numMember_of_ne (n : ℕ) (h : x ≠ name) : (numMember name n).lookup x = none := by
  unfold numMember
  split_ifs
  · rfl
  · simp [h, Json.lookup_cons]

theorem lookup_flagMember_of_ne (b : Bool) (h : x ≠ name) : (flagMember name b).lookup x = none := by
  unfold flagMember
  split_ifs
  · simp [h, Json.lookup_cons]
  · rfl

end Members

theorem outboundsOf_toJson (c : SingBoxConfig) : outboundsOf c.toJson = c.outbounds.map Outbound.toJson := by
  obtain ⟨log, inbounds, outbounds, route, experimental⟩ := c
  cases log <;> rfl

theorem rulesOf_toJson (c : SingBoxConfig) : rulesOf c.toJson = c.route.rules.map RouteRule.toJson := by
  obtain ⟨log, inbounds, outbounds, route, experimental⟩ := c
  cases log <;> rfl

theorem filterMap_str (l : List String) : (l.map Json.str).filterMap Json.str? = l := by
  rw [List.filterMap_map]
  exact List.filterMap_some

section Outbound

variable (o : Outbound)

theorem getStr?_tag_toJson : o.toJson.getStr? "tag" = some o.tag := rfl

theorem getStr?_type_toJson : o.toJson.getStr? "type" = some o.type := rfl

theorem get?_outbounds_toJson :
    o.toJson.get? "outbounds" = (strsMember "outbounds" o.outbounds).lookup "outbounds" := by
  show (_ : List (String × Json)).lookup "outbounds" = _
  cases o.tls <;>
    simp [List.lookup_append, lookup_strMember, lookup_numMember_of_ne, lookup_flagMember_of_ne,
      Json.lookup_cons]

theorem get?_default_toJson :
    o.toJson.get? "default" = (strMember "default" o.default).lookup "default" := by
  show (_ : List (String × Json)).lookup "default" = _
  cases o.tls <;>
    simp [List.lookup_append, lookup_strMember, lookup_strsMember, lookup_numMember_of_ne,
      lookup_flagMember_of_ne, Json.lookup_cons]

theorem getStrs_outbounds_toJson : o.toJson.getStrs "outbounds" = o.outbounds := by
  unfold Json.getStrs Json.getArr?
  rw [get?_outbounds_toJson, lookup_strsMember]
  by_cases h : o.outbounds = []
  · simp [h]
  · rw [if_pos ⟨rfl, h⟩]
    exact filterMap_str _

theorem getStr?_default_toJson :
    o.toJson.getStr? "default" = if o.default = "" then none else some o.default := by
  unfold Json.getStr?
  rw [get?_default_toJson, lookup_strMember]
  by_cases h : o.default = ""
  · simp [h]
  · simp [h, Json.str?]

end Outbound

section Rule

variable (r : RouteRule)

theorem getStr?_outbound_rule : r.toJson.getStr? "outbound" = some r.outbound := by
  unfold Json.getStr? RouteRule.toJson
  rw [Json.get?_obj, List.lookup_append, lookup_strsMember]
  simp [Json.str?]

theorem getStrs_authUser_rule : r.toJson.getStrs "auth_user" = r.authUser := by
  unfold Json.getStrs Json.getArr? RouteRule.toJson
  rw [Json.get?_obj, List.lookup_append, lookup_strsMember]
  by_cases h : r.authUser = []
  · simp [h, Json.lookup_cons]
  · rw [if_pos ⟨rfl, h⟩]
    exact filterMap_str _

end Rule

/-! ## The outbounds and rules of a state -/

section Build

variable {ps : List Placement} {bs : List BackendSpec} {u : ClientID}

theorem routed_iff {p : Placement} : routed bs p = true ↔
    p.desired = .active ∧ p.clientID ≠ "" ∧ p.backendNodeID ∈ bs.map BackendSpec.id := by
  unfold routed
  exact decide_eq_true_iff

theorem mem_routedUsers : u ∈ routedUsers ps bs ↔ ∃ p ∈ ps, routed bs p = true ∧ p.clientID = u := by
  unfold routedUsers
  rw [List.mem_insertionSort, List.mem_dedup, List.mem_map]
  simp only [List.mem_filter, and_assoc]

theorem mem_routedPairs {x : ClientID × BackendID} :
    x ∈ routedPairs ps bs ↔ ∃ p ∈ ps, routed bs p = true ∧ (p.clientID, p.backendNodeID) = x := by
  unfold routedPairs
  rw [List.mem_insertionSort, List.mem_dedup, List.mem_map]
  simp only [List.mem_filter, and_assoc]

/-- The backend of a user is that of one of its placements. -/
theorem exists_desiredBackendByUser (hu : u ∈ routedUsers ps bs) :
    ∃ p ∈ ps, routed bs p = true ∧ p.clientID = u ∧
      p.backendNodeID = desiredBackendByUser ps bs u := by
  obtain ⟨p, hp, hrouted, hc⟩ := mem_routedUsers.mp hu
  have hne : ((ps.filter (routed bs)).filter fun p => p.clientID = u) ≠ [] :=
    List.ne_nil_of_mem (List.mem_filter.mpr ⟨List.mem_filter.mpr ⟨hp, hrouted⟩, by simpa using hc⟩)
  have hlast := List.getLast_mem hne
  rw [List.mem_filter, List.mem_filter] at hlast
  refine ⟨_, hlast.1.1, hlast.1.2, by simpa using hlast.2, ?_⟩
  unfold desiredBackendByUser
  rw [List.getLastD_eq_getLast?, List.getLast?_map, List.getLast?_eq_getLast_of_ne_nil hne]
  rfl

/-- The outbound of a user to a backend. -/
def backendOutbound [Lowering] (u : ClientID) (b : BackendSpec) : Outbound where
  type := vlessType
  tag := perUserOutboundTagFor u b.id
  server := b.address
  serverPort := b.port
  uuid := u

/-- The selector of a user. -/
def userSelector [Lowering] (ps : List Placement) (bs : List BackendSpec) (u : ClientID) : Outbound where
  type := selectorType
  tag := perUserSelectorTagFor u
  outbounds := (bs.insertionSort fun a b => a.id ≤ b.id).map
    (fun b => perUserOutboundTagFor u b.id) ++ [blockOutboundTag]
  default := perUserOutboundTagFor u (desiredBackendByUser ps bs u)

def directOutbound : Outbound := { type := directOutboundTag, tag := directOutboundTag }

def blockOutbound : Outbound := { type := blockOutboundTag, tag := blockOutboundTag }

theorem buildOutbounds_eq [Lowering] : buildOutbounds ps bs = directOutbound :: blockOutbound ::
    (routedUsers ps bs).flatMap fun u =>
      (bs.insertionSort fun a b => a.id ≤ b.id).map (backendOutbound u) ++ [userSelector ps bs u] := rfl

theorem mem_buildOutbounds [Lowering] {o : Outbound} : o ∈ buildOutbounds ps bs ↔
    o = directOutbound ∨ o = blockOutbound ∨ ∃ u ∈ routedUsers ps bs,
      (∃ b ∈ bs, o = backendOutbound u b) ∨ o = userSelector ps bs u := by
  rw [buildOutbounds_eq, List.mem_cons, List.mem_cons, List.mem_flatMap]
  simp only [List.mem_append, List.mem_map, List.mem_insertionSort, List.mem_singleton, eq_comm]

theorem eq_userSelector [Lowering] {o : Outbound} (ho : o ∈ buildOutbounds ps bs)
    (hsel : o.type = selectorType) : ∃ u ∈ routedUsers ps bs, o = userSelector ps bs u := by
  rcases mem_buildOutbounds.mp ho with rfl | rfl | ⟨u, hu, ⟨b, -, rfl⟩ | rfl⟩
  · exact absurd hsel (by decide)
  · exact absurd hsel (by decide)
  · exact absurd hsel (by decide : vlessType ≠ selectorType)
  · exact ⟨u, hu, rfl⟩

theorem mem_rules_buildRoute [Lowering] {r : RouteRule} : r ∈ (buildRoute ps bs).rules ↔
    ∃ u ∈ routedUsers ps bs, r = ⟨[u], perUserSelectorTagFor u⟩ := by
  unfold buildRoute
  rw [List.mem_map]
  simp only [eq_comm]

theorem build_eq [Lowering] {state : NodeState} {cfg : SingBoxConfig} (h : build state = .ok cfg) :
    cfg.outbounds = buildOutbounds state.placements state.backends ∧
      cfg.route = buildRoute state.placements state.backends ∧
      cfg.inbounds = [buildInbound state.inbound state.placements] := by
  unfold build at h
  cases hv : validate state with
  | error err => simp [hv, bind, Except.bind] at h
  | ok u =>
    simp only [hv, bind, Except.bind, pure, Except.pure, Except.ok.injEq] at h
    subst h
    exact ⟨rfl, rfl, rfl⟩

end Build

/-! ## A merged configuration -/

theorem isDynamicTag_perUserOutboundTagFor [Lowering] (c b : String) :
    isDynamicTag (perUserOutboundTagFor c b) = true := by
  unfold isDynamicTag perUserOutboundTagFor dynamicTagPrefix
  rw [Bool.or_eq_true, List.isPrefixOf_iff_prefix, String.toList_append, String.toList_append,
    String.toList_append, List.append_assoc, List.append_assoc]
  exact .inl (List.prefix_append _ _)

theorem keeps_eq {name tag : String} {j : Json} (h : j.getStr? name = some tag) :
    keeps name j = !isDynamicTag tag := by
  unfold keeps
  rw [h, Option.getD_some]
  cases isDynamicTag tag <;> rfl

theorem getStr?_tag_pairOutbound [Lowering] (bs : List BackendSpec) (x : ClientID × BackendID) :
    (pairOutbound bs x).getStr? "tag" = some (perUserOutboundTagFor x.1 x.2) := rfl

theorem getStr?_outbound_pairRule [Lowering] (x : ClientID × BackendID) :
    (pairRule x).getStr? "outbound" = some (perUserOutboundTagFor x.1 x.2) := rfl

theorem keeps_pairOutbound [Lowering] (bs : List BackendSpec) (x : ClientID × BackendID) :
    keeps "tag" (pairOutbound bs x) = false := by
  rw [keeps_eq (getStr?_tag_pairOutbound bs x), isDynamicTag_perUserOutboundTagFor]
  rfl

theorem keeps_pairRule [Lowering] (x : ClientID × BackendID) : keeps "outbound" (pairRule x) = false := by
  rw [keeps_eq (getStr?_outbound_pairRule x), isDynamicTag_perUserOutboundTagFor]
  rfl

theorem filter_keeps_pairOutbounds [Lowering] (bs : List BackendSpec) (xs : List (ClientID × BackendID)) :
    (xs.map (pairOutbound bs)).filter (keeps "tag") = [] := by
  rw [List.filter_eq_nil_iff]
  intro o ho
  obtain ⟨x, -, rfl⟩ := List.mem_map.mp ho
  rw [keeps_pairOutbound]
  decide

theorem filter_keeps_dynamicRules [Lowering] (s : NodeState) :
    (buildDynamicRouteRules s).filter (keeps "outbound") = [] := by
  rw [List.filter_eq_nil_iff]
  intro o ho
  obtain ⟨x, -, rfl⟩ := List.mem_map.mp ho
  rw [keeps_pairRule]
  decide

end NodeAgent.Singboxgen
