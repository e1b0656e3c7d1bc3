import NodeAgent.Singboxgen.Absorb

/-!
# What a merge leaves to the operator

The base file is the operator's: of it a merge changes the users of its own inbounds, the outbounds and the
rules with a dynamic tag, and nothing else.
-/

namespace NodeAgent.Singboxgen

open Lib

/-! ## The frame -/

/-- No names are added but the given ones. -/
def AddsOnly (names : List String) (m m' : List (String × Json)) : Prop :=
  ∀ k ∈ m'.map Prod.fst, k ∈ m.map Prod.fst ∨ k ∈ names

/-- The elements of a member that is an array or not there. -/
def ElemsOf (j : Json) (name : String) (l : List Json) : Prop :=
  j.get? name = some (.arr l) ∨ j.get? name = none ∧ l = []

/-- One inbound: another's is left alone, and one's own may get other users. -/
def InboundKept (s : NodeState) (inb inb' : Json) : Prop :=
  (isOwnInbound s inb = false → inb' = inb) ∧
    (isOwnInbound s inb = true → ∃ m m', inb = .obj m ∧ inb' = .obj m' ∧
      (∀ k, k ≠ "users" → m'.lookup k = m.lookup k) ∧ AddsOnly ["users"] m m')

/-- The route section: only its rules change, and of these only those with a dynamic outbound. -/
def RouteKept [Lowering] (s : NodeState) (m m' : List (String × Json)) : Prop :=
  (∀ k, k ≠ "rules" → m'.lookup k = m.lookup k) ∧ AddsOnly ["rules"] m m' ∧
    ∃ rules, ElemsOf (.obj m) "rules" rules ∧
      m'.lookup "rules" = some (.arr (buildDynamicRouteRules s ++ rules.filter (keeps "outbound")))

/-- What is left of the base. -/
structure Framed [Lowering] (s : NodeState) (m m' : List (String × Json)) : Prop where
  others : ∀ k, k ∉ ["inbounds", "outbounds", "route"] → m'.lookup k = m.lookup k
  added : AddsOnly ["outbounds", "route"] m m'
  inbounds : ∃ l l', m.lookup "inbounds" = some (.arr l) ∧ m'.lookup "inbounds" = some (.arr l') ∧
    List.Forall₂ (InboundKept s) l l'
  outbounds : ∃ l, ElemsOf (.obj m) "outbounds" l ∧ m'.lookup "outbounds" =
    some (.arr (l.filter (keeps "tag") ++
      (routedPairs s.placements s.backends).map (pairOutbound s.backends)))
  route : ∃ route route', (m.lookup "route" = some (.obj route) ∨ m.lookup "route" = none ∧ route = []) ∧
    m'.lookup "route" = some (.obj route') ∧ RouteKept s route route'

section Frame

variable {s : NodeState} {m : List (String × Json)}

theorem addsOnly_setMember (name : String) (v : Json) (m : List (String × Json)) :
    AddsOnly [name] m (Json.setMember name v m) := by
  intro k hk
  rw [Json.names_setMember] at hk
  rcases List.mem_append.mp hk with hk | hk
  · exact .inl hk
  · split_ifs at hk
    · exact .inr hk
    · cases hk

theorem mem_names_of_lookup {name : String} {v : Json} (h : m.lookup name = some v) :
    name ∈ m.map Prod.fst := by
  induction m with
  | nil => cases h
  | cons x m ih =>
    obtain ⟨k, w⟩ := x
    rw [Json.lookup_cons] at h
    split_ifs at h with hk
    · exact hk ▸ List.mem_cons_self
    · exact List.mem_cons_of_mem _ (ih h)

theorem inboundKept_mergeInbound (users : List Json) (inb : Json) :
    InboundKept s inb (mergeInbound s users inb) := by
  constructor
  · intro hown
    unfold mergeInbound
    split
    · exact if_neg fun h => by simp [hown] at h
    · rfl
  · intro hown
    cases inb with
    | obj m =>
      unfold mergeInbound
      dsimp only
      split_ifs
      · refine ⟨m, _, rfl, rfl, fun k hk => ?_, addsOnly_setMember _ _ _⟩
        rw [Json.lookup_setMember, if_neg hk]
      · exact ⟨m, m, rfl, rfl, fun _ _ => rfl, fun _ hk => .inl hk⟩
    | _ => cases of_decide_eq_true hown

theorem elemsOf_getArr? {j : Json} {name : String} (h : ∀ v, j.get? name = some v → ∃ l, v = .arr l) :
    ElemsOf j name ((j.getArr? name).getD []) := by
  unfold ElemsOf Json.getArr?
  cases hget : j.get? name with
  | none => exact .inr ⟨rfl, rfl⟩
  | some v =>
    obtain ⟨l, rfl⟩ := h v hget
    exact .inl rfl

/-- A merge keeps what it does not make itself. The hypotheses are on the sections that it reads. -/
theorem mergeBase_frame [Lowering] {root : Json} {r : Rendered} (h : mergeBase (.json root) s = .ok r)
    (hout : ∀ v, root.get? "outbounds" = some v → ∃ l, v = .arr l)
    (hroute : ∀ v, root.get? "route" = some v → ∃ route, v = .obj route)
    (hrules : ∀ route v, root.get? "route" = some (.obj route) → (Json.obj route).get? "rules" = some v →
      ∃ l, v = .arr l) :
    ∃ m m', root = .obj m ∧ r = .merged (.obj m') ∧ Framed s m m' := by
  obtain ⟨-, m, inbounds, rfl, hin, -, rfl⟩ := mergeBase_json_iff.mp h
  refine ⟨m, _, rfl, rfl, ?_, ?_, ?_, ?_, ?_⟩
  · intro k hk
    simp only [List.mem_cons, List.not_mem_nil, or_false, not_or] at hk
    rw [lookup_mergedMembers, if_neg hk.2.2, if_neg hk.2.1, if_neg hk.1]
  · intro k hk
    -- the inbounds are there, so only the other two writes can add a name
    rcases addsOnly_setMember "route" _ _ k hk with hk | hk
    · rcases addsOnly_setMember "outbounds" _ _ k hk with hk | hk
      · rcases addsOnly_setMember "inbounds" _ _ k hk with hk | hk
        · exact .inl hk
        · rw [List.mem_singleton.mp hk]
          exact .inl (mem_names_of_lookup hin)
      · exact .inr (List.mem_cons.mpr (.inl (List.mem_singleton.mp hk)))
    · exact .inr (List.mem_cons_of_mem _ hk)
  · refine ⟨inbounds, _, hin, by rw [lookup_mergedMembers]; rfl, ?_⟩
    rw [List.forall₂_map_right_iff, List.forall₂_same]
    exact fun inb _ => inboundKept_mergeInbound _ inb
  · exact ⟨_, elemsOf_getArr? hout, by rw [lookup_mergedMembers]; rfl⟩
  · obtain ⟨route, hget, hread⟩ : ∃ route, (((Json.obj m).get? "route").bind Json.obj?).getD [] = route ∧
        (m.lookup "route" = some (.obj route) ∨ m.lookup "route" = none ∧ route = []) := by
      rw [Json.get?_obj]
      cases hr : m.lookup "route" with
      | none => exact ⟨[], rfl, .inr ⟨rfl, rfl⟩⟩
      | some v =>
        obtain ⟨route, rfl⟩ := hroute v hr
        exact ⟨route, rfl, .inl rfl⟩
    refine ⟨route, mergedRoute m s, hread, by rw [lookup_mergedMembers]; rfl, ?_⟩
    unfold mergedRoute
    rw [hget]
    refine ⟨fun k hk => by rw [Json.lookup_setMember, if_neg hk], addsOnly_setMember _ _ _, _, ?_,
      by rw [Json.lookup_setMember, if_pos rfl]⟩
    refine elemsOf_getArr? fun v hv => ?_
    rcases hread with hread | ⟨-, rfl⟩
    · exact hrules route v hread hv
    · cases hv

end Frame

section Fixed

open Eval

theorem mergeBase_frame_operatorBase : ∃ m',
    mergeBase (.json (.obj operatorBase)) (serving ["c"]) = .ok (.merged (.obj m')) ∧
      Framed (serving ["c"]) operatorBase m' := by
  obtain ⟨r, h⟩ : ∃ r, mergeBase (.json (.obj operatorBase)) (serving ["c"]) = .ok r :=
    ⟨_, mergeBase_json_iff.mpr ⟨by decide, _, _, rfl, rfl, by decide, rfl⟩⟩
  obtain ⟨m, m', hm, rfl, hframed⟩ := mergeBase_frame h
    (fun v hv => by cases hv; exact ⟨_, rfl⟩) (fun v hv => by cases hv) (fun route v hr => by cases hr)
  cases hm
  exact ⟨m', h, hframed⟩

end Fixed

/-! ## The users of one's own inbounds -/

/-- The inbounds of a configuration. -/
def inboundsOf (j : Json) : List Json := (j.getArr? "inbounds").getD []

/-- The users of an inbound. -/
def usersOf (inb : Json) : List Json := (inb.getArr? "users").getD []

/-- The users of the inbound are the clients with an active placement, each once and sorted. -/
def Installed (ps : List Placement) (inb : Json) : Prop :=
  ∃ ids : List ClientID, (usersOf inb).map (·.getStr? "uuid") = ids.map some ∧ ids.Pairwise (· < ·) ∧
    ∀ c, c ∈ ids ↔ ∃ p ∈ ps, p.desired = .active ∧ p.clientID = c

section Users

variable {s : NodeState} {inb : Json}

theorem installed_merged (hv : validate s = .ok ()) (h : usersOf inb = mergedUsers s) :
    Installed s.placements inb := by
  refine ⟨(collectActiveUsers s.placements).map VlessUser.uuid, ?_, sorted_collectActiveUsers _, fun c => ?_⟩
  · rw [h, mergedUsers, List.map_map, List.map_map]
    exact List.map_congr_left fun u _ => rfl
  · rw [mem_collectActiveUsers]
    refine ⟨fun hc => hc.2, fun ⟨p, hp, hd, hc⟩ => ⟨?_, p, hp, hd, hc⟩⟩
    rw [← hc]
    exact ((validate_ok_iff.mp hv).2 p hp hd).1

theorem installed_iff_of_inactive (hno : ¬ ∃ p ∈ s.placements, p.desired = .active) :
    Installed s.placements inb ↔ usersOf inb = [] := by
  constructor
  · rintro ⟨ids, hids, -, hmem⟩
    have hnil : ids = [] := List.eq_nil_iff_forall_not_mem.mpr fun c hc => by
      obtain ⟨p, hp, hd, -⟩ := (hmem c).mp hc
      exact hno ⟨p, hp, hd⟩
    rw [hnil] at hids
    exact List.map_eq_nil_iff.mp hids
  · intro hnil
    refine ⟨[], by rw [hnil]; rfl, .nil, fun c => ?_⟩
    simp only [List.not_mem_nil, false_iff]
    rintro ⟨p, hp, hd, -⟩
    exact hno ⟨p, hp, hd⟩

theorem mergeInbound_own (users : List Json) (hown : isOwnInbound s inb = true) :
    mergeInbound s users inb = inb ∧ users = [] ∨ usersOf (mergeInbound s users inb) = users := by
  cases inb with
  | obj m =>
    by_cases hus : users = []
    · exact .inl ⟨if_neg fun h => h.2 hus, hus⟩
    · refine .inr ?_
      rw [show mergeInbound s users (.obj m) = .obj (Json.setMember "users" (.arr users) m) from
        if_pos ⟨hown, hus⟩, usersOf, Json.getArr?, Json.get?_setMember_self]
      rfl
  | _ => cases of_decide_eq_true hown

theorem inboundsOf_merged [Lowering] (m : List (String × Json)) (inbounds : List Json) :
    inboundsOf (Rendered.merged (.obj (mergedMembers m inbounds s))).toJson =
      inbounds.map (mergeInbound s (mergedUsers s)) := by
  unfold inboundsOf Json.getArr?
  rw [Rendered.toJson, Json.get?_obj, lookup_mergedMembers]
  rfl

theorem mergedUsers_eq_nil (hno : ¬ ∃ p ∈ s.placements, p.desired = .active) : mergedUsers s = [] := by
  refine List.map_eq_nil_iff.mpr (List.eq_nil_iff_forall_not_mem.mpr fun u hu => hno ?_)
  obtain ⟨-, p, hp, hd, -⟩ := mem_collectActiveUsers.mp (List.mem_map_of_mem hu)
  exact ⟨p, hp, hd⟩

theorem mergeInbound_nil (inb : Json) : mergeInbound s [] inb = inb := by
  unfold mergeInbound
  split
  · exact if_neg fun h => h.2 rfl
  · rfl

/-- A merge into a base with an inbound of its own installs the active users just if there are some, or if
no own inbound of the base has users. -/
theorem users_installed_iff [Lowering] {m : List (String × Json)} {inbounds : List Json}
    (hv : validate s = .ok ())
    (hin : m.lookup "inbounds" = some (.arr inbounds)) (hany : ∃ inb ∈ inbounds, isOwnInbound s inb = true) :
    ∃ r, mergeBase (.json (.obj m)) s = .ok r ∧
      ((∀ inb ∈ inboundsOf r.toJson, isOwnInbound s inb = true → Installed s.placements inb) ↔
        (∃ p ∈ s.placements, p.desired = .active) ∨
          ∀ inb ∈ inbounds, isOwnInbound s inb = true → usersOf inb = []) := by
  refine ⟨.merged (.obj (mergedMembers m inbounds s)),
    mergeBase_json_iff.mpr ⟨hv, m, inbounds, rfl, hin, List.any_eq_true.mpr hany, rfl⟩, ?_⟩
  rw [inboundsOf_merged, List.forall_mem_map]
  by_cases hact : ∃ p ∈ s.placements, p.desired = .active
  · refine iff_of_true (fun inb _ hown => ?_) (.inl hact)
    rw [isOwnInbound_mergeInbound] at hown
    rcases mergeInbound_own (mergedUsers s) hown with ⟨-, hnil⟩ | husers
    · exact absurd hnil (mergedUsers_ne_nil hv hact)
    · exact installed_merged hv husers
  · rw [or_iff_right hact, mergedUsers_eq_nil hact]
    refine forall₂_congr fun inb _ => ?_
    rw [mergeInbound_nil, installed_iff_of_inactive hact]

end Users

section Fixed

open Eval

theorem users_installed_operatorBase : ∃ r, mergeBase (.json (.obj operatorBase)) (serving ["c"]) = .ok r ∧
    ∀ inb ∈ inboundsOf r.toJson, isOwnInbound (serving ["c"]) inb = true →
      Installed (serving ["c"]).placements inb := by
  obtain ⟨r, hr, hiff⟩ := users_installed_iff (s := serving ["c"]) (m := operatorBase) (by decide) rfl
    (by decide)
  exact ⟨r, hr, hiff.mpr (.inl (by decide))⟩

/-- The last client of an earlier merge stays when no placement is active any more. -/
theorem stale_user_stays : ∃ r r', mergeBase (.json (.obj operatorBase)) (serving ["c"]) = .ok r ∧
    validate (serving []) = .ok () ∧ mergeBase (.json r.toJson) (serving []) = .ok r' ∧
      ∃ inb ∈ inboundsOf r'.toJson, isOwnInbound (serving []) inb = true ∧
        ¬ Installed (serving []).placements inb := by
  refine ⟨_, _, mergeBase_json_iff.mpr ⟨by decide, _, _, rfl, rfl, by decide, rfl⟩, by decide,
    mergeBase_json_iff.mpr ⟨by decide, _, _, rfl, rfl, by decide, rfl⟩, ?_⟩
  simp only [installed_iff_of_inactive (s := serving []) (by decide)]
  decide

end Fixed

end NodeAgent.Singboxgen
