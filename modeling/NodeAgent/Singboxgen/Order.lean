import NodeAgent.Singboxgen.Graph

/-!
# The order of the listings

Users, pairs and backends are sorted before they are written, so the order in which they are listed can
show in two places only: the flow of a user is that of its first active placement, and the default of its
selector the backend of its last one.
-/

namespace NodeAgent.Singboxgen

/-- The state with its placements and backends listed in another order. -/
def NodeState.listed (s : NodeState) (ps : List Placement) (bs : List BackendSpec) : NodeState :=
  { s with placements := ps, backends := bs }

/-- The active placements of a client agree in what a render takes from one of them. -/
def Agree [Lowering] (p q : Placement) : Prop :=
  flowForTransport p.transport = flowForTransport q.transport ∧
    perUserOutboundTagFor p.clientID p.backendNodeID = perUserOutboundTagFor q.clientID q.backendNodeID

/-- All active placements of a client have one flow and one outbound. -/
def SingleHomed [Lowering] (ps : List Placement) : Prop :=
  ∀ p ∈ ps, ∀ q ∈ ps, p.desired = .active → q.desired = .active → p.clientID = q.clientID → Agree p q

section Sorted

variable {α : Type*} {l : List α}

theorem flatMap_inj_of_length {β : Type*} {f g : α → List β} (hlen : ∀ x, (f x).length = (g x).length)
    (h : l.flatMap f = l.flatMap g) : ∀ x ∈ l, f x = g x := by
  induction l with
  | nil => simp
  | cons x l ih =>
    rw [List.flatMap_cons, List.flatMap_cons] at h
    obtain ⟨hx, hl⟩ := List.append_inj h (hlen x)
    exact List.forall_mem_cons.mpr ⟨hx, ih hl⟩

end Sorted

/-! ## What does not depend on the order -/

section Perm

variable {ps ps' : List Placement} {bs bs' : List BackendSpec} {s : NodeState}

theorem validate_listed (hv : validate s = .ok ()) (hps : ps.Perm s.placements)
    (hbs : bs.Perm s.backends) : validate (s.listed ps bs) = .ok () := by
  rw [validate_ok_iff] at hv ⊢
  obtain ⟨⟨htag, hport, hids⟩, hp⟩ := hv
  have hmap := hbs.map BackendSpec.id
  refine ⟨⟨htag, hport, ?_⟩, fun p hmem hd => ?_⟩
  · rw [validateBackends_ok_iff] at hids ⊢
    exact ⟨fun b hb => hids.1 b (hbs.mem_iff.mp hb), hmap.nodup_iff.mpr hids.2.1, by simp⟩
  · obtain ⟨hne, hin⟩ := hp p (hps.mem_iff.mp hmem) hd
    exact ⟨hne, hmap.mem_iff.mpr hin⟩

theorem routed_perm (hbs : bs.Perm bs') : routed bs = routed bs' := by
  funext p
  unfold routed
  simp only [(hbs.map BackendSpec.id).mem_iff]

theorem routedUsers_perm (hps : ps.Perm ps') (hbs : bs.Perm bs') :
    routedUsers ps bs = routedUsers ps' bs' := by
  refine List.Perm.eq_of_pairwise' (r := (· ≤ ·)) (List.pairwise_insertionSort _ _)
    (List.pairwise_insertionSort _ _) ?_
  rw [List.perm_ext_iff_of_nodup (nodup_routedUsers ps bs) (nodup_routedUsers ps' bs')]
  intro u
  rw [mem_routedUsers, mem_routedUsers, routed_perm hbs]
  simp only [hps.mem_iff]

theorem nodup_routedPairs (ps : List Placement) (bs : List BackendSpec) : (routedPairs ps bs).Nodup :=
  (List.perm_insertionSort _ _).nodup_iff.mpr (List.nodup_dedup _)

theorem routedPairs_perm (hps : ps.Perm ps') (hbs : bs.Perm bs') :
    routedPairs ps bs = routedPairs ps' bs' := by
  refine List.Perm.eq_of_pairwise (fun x y _ _ hxy hyx => ?_) (pairwise_routedPairs ps bs)
    (pairwise_routedPairs ps' bs') ?_
  · rw [pairLe_iff] at hxy hyx
    rcases hxy with hxy | ⟨hb, hc⟩
    · rcases hyx with hyx | ⟨hb, -⟩
      · exact absurd hxy (lt_asymm hyx)
      · exact absurd hb.symm hxy.ne
    · rcases hyx with hyx | ⟨-, hc'⟩
      · exact absurd hb.symm hyx.ne
      · exact Prod.ext (le_antisymm hc hc') hb
  · rw [List.perm_ext_iff_of_nodup (nodup_routedPairs ps bs) (nodup_routedPairs ps' bs')]
    intro x
    rw [mem_routedPairs, mem_routedPairs, routed_perm hbs]
    simp only [hps.mem_iff]

theorem sortedBackends_perm (hnodup : (bs.map BackendSpec.id).Nodup) (hbs : bs.Perm bs') :
    (bs.insertionSort fun a b => a.id ≤ b.id) = bs'.insertionSort fun a b => a.id ≤ b.id := by
  have hperm := List.perm_insertionSort (fun a b : BackendSpec => a.id ≤ b.id)
  refine List.Perm.eq_of_pairwise (fun a b ha hb hab hba => ?_) (List.pairwise_insertionSort _ bs)
    (List.pairwise_insertionSort _ bs') (((hperm bs).trans hbs).trans (hperm bs').symm)
  have hb' : b ∈ bs := hbs.mem_iff.mpr ((List.mem_insertionSort _).mp hb)
  exact List.inj_on_of_nodup_map hnodup ((List.mem_insertionSort _).mp ha) hb' (le_antisymm hab hba)

theorem backendByID_perm (hnodup : (bs.map BackendSpec.id).Nodup) (hbs : bs.Perm bs') (id : BackendID) :
    backendByID bs id = backendByID bs' id := by
  have hfilter : bs.filter (fun b => b.id = id) = bs'.filter fun b => b.id = id := by
    have hperm := hbs.filter fun b => b.id = id
    by_cases hex : ∃ b ∈ bs, b.id = id
    · obtain ⟨b, hb, rfl⟩ := hex
      rw [filter_key_eq hnodup hb] at hperm ⊢
      exact (List.perm_singleton.mp hperm.symm).symm
    · have hnil : bs.filter (fun b => b.id = id) = [] := by
        rw [List.filter_eq_nil_iff]
        exact fun b hb h => hex ⟨b, hb, of_decide_eq_true h⟩
      rw [hnil] at hperm ⊢
      exact hperm.nil_eq
  unfold backendByID
  rw [hfilter]

end Perm

/-! ## What depends on it -/

/-- The user of a placement. -/
def userOf (p : Placement) : VlessUser := ⟨p.clientID, p.clientID, flowForTransport p.transport⟩

section Users

variable {ps ps' : List Placement} {bs : List BackendSpec}

theorem exists_of_mem_activeUsers {seen : List ClientID} {u : VlessUser} (h : u ∈ activeUsers seen ps) :
    ∃ p ∈ ps, p.desired = .active ∧ u = userOf p := by
  induction ps generalizing seen with
  | nil => cases h
  | cons p ps ih =>
    unfold activeUsers at h
    split_ifs at h with hskip
    · obtain ⟨q, hq, hd, hu⟩ := ih h
      exact ⟨q, List.mem_cons_of_mem _ hq, hd, hu⟩
    · rcases List.mem_cons.mp h with rfl | h
      · exact ⟨p, List.mem_cons_self, not_not.mp (not_or.mp hskip).1, rfl⟩
      · obtain ⟨q, hq, hd, hu⟩ := ih h
        exact ⟨q, List.mem_cons_of_mem _ hq, hd, hu⟩

theorem mem_collectActiveUsers_of_singleHomed [Lowering] (hone : SingleHomed ps) {u : VlessUser} :
    u ∈ collectActiveUsers ps ↔ ∃ p ∈ ps, p.desired = .active ∧ p.clientID ≠ "" ∧ u = userOf p := by
  have hsort : ∀ v, v ∈ collectActiveUsers ps ↔ v ∈ activeUsers [] ps :=
    fun v => List.mem_insertionSort _
  constructor
  · intro hu
    obtain ⟨p, hp, hd, rfl⟩ := exists_of_mem_activeUsers ((hsort u).mp hu)
    exact ⟨p, hp, hd, (mem_collectActiveUsers.mp (List.mem_map_of_mem hu)).1, rfl⟩
  · rintro ⟨p, hp, hd, hne, rfl⟩
    -- the client has a user, made from a placement that may be another one
    obtain ⟨v, hv, huuid⟩ := List.mem_map.mp (mem_collectActiveUsers.mpr ⟨hne, p, hp, hd, rfl⟩)
    obtain ⟨q, hq, hdq, rfl⟩ := exists_of_mem_activeUsers ((hsort v).mp hv)
    have hsame : userOf p = userOf q := by
      have hflow := (hone p hp q hq hd hdq huuid.symm).1
      have hclient : q.clientID = p.clientID := huuid
      unfold userOf
      rw [hflow, hclient]
    rw [hsame]
    exact hv

theorem pairwise_collectActiveUsers (ps : List Placement) :
    (collectActiveUsers ps).Pairwise fun a b => a.uuid < b.uuid :=
  List.pairwise_map.mp (sorted_collectActiveUsers ps)

theorem collectActiveUsers_perm [Lowering] (hone : SingleHomed ps) (hone' : SingleHomed ps')
    (hps : ps.Perm ps') : collectActiveUsers ps = collectActiveUsers ps' := by
  have : Std.Antisymm fun a b : VlessUser => a.uuid < b.uuid := ⟨fun _ _ h h' => absurd h' (lt_asymm h)⟩
  have : Std.Irrefl fun a b : VlessUser => a.uuid < b.uuid := ⟨fun _ => lt_irrefl _⟩
  refine (pairwise_collectActiveUsers ps).eq_of_mem_iff (pairwise_collectActiveUsers ps') fun u => ?_
  rw [mem_collectActiveUsers_of_singleHomed hone, mem_collectActiveUsers_of_singleHomed hone']
  simp only [hps.mem_iff]

theorem singleHomed_perm [Lowering] (hps : ps.Perm ps') (hone : SingleHomed ps') : SingleHomed ps :=
  fun p hp q hq => hone p (hps.mem_iff.mp hp) q (hps.mem_iff.mp hq)

theorem desiredTag_perm [Lowering] {bs' : List BackendSpec} (hone : SingleHomed ps) (hps : ps.Perm ps')
    (hbs : bs.Perm bs') {u : ClientID} (hu : u ∈ routedUsers ps bs) :
    perUserOutboundTagFor u (desiredBackendByUser ps bs u) =
      perUserOutboundTagFor u (desiredBackendByUser ps' bs' u) := by
  obtain ⟨p, hp, hrp, hpu, hpb⟩ := exists_desiredBackendByUser hu
  obtain ⟨q, hq, hrq, hqu, hqb⟩ := exists_desiredBackendByUser (routedUsers_perm hps hbs ▸ hu)
  have htag := (hone p hp q (hps.mem_iff.mpr hq) (routed_iff.mp hrp).1 (routed_iff.mp hrq).1
    (hpu.trans hqu.symm)).2
  rw [hpu, hpb, hqu, hqb] at htag
  exact htag

theorem buildOutbounds_perm [Lowering] {bs' : List BackendSpec} (hnodup : (bs.map BackendSpec.id).Nodup)
    (hone : SingleHomed ps) (hps : ps.Perm ps') (hbs : bs.Perm bs') :
    buildOutbounds ps bs = buildOutbounds ps' bs' := by
  rw [buildOutbounds_eq, buildOutbounds_eq, ← routedUsers_perm hps hbs]
  congr 2
  refine List.flatMap_congr fun u hu => ?_
  rw [sortedBackends_perm hnodup hbs]
  congr 2
  unfold userSelector
  rw [sortedBackends_perm hnodup hbs, desiredTag_perm hone hps hbs hu]

end Users

/-! ## Rendering -/

section Render

variable {s : NodeState} {ps : List Placement} {bs : List BackendSpec}

theorem build_listed [Lowering] (hv : validate s = .ok ()) (hone : SingleHomed s.placements)
    (hps : ps.Perm s.placements) (hbs : bs.Perm s.backends) : build (s.listed ps bs) = build s := by
  have hone' := singleHomed_perm hps hone
  have hnodup : (bs.map BackendSpec.id).Nodup := (hbs.map _).nodup_iff.mpr (nodup_backends hv)
  unfold build
  rw [validate_listed hv hps hbs, hv]
  simp only [NodeState.listed, buildInbound, collectActiveUsers_perm hone' hone hps,
    buildOutbounds_perm hnodup hone' hps hbs, buildRoute, routedUsers_perm hps hbs]
  rfl

theorem mergeBase_listed [Lowering] (hv : validate s = .ok ()) (hone : SingleHomed s.placements)
    (hps : ps.Perm s.placements) (hbs : bs.Perm s.backends) (base : BaseFile) :
    mergeBase base (s.listed ps bs) = mergeBase base s := by
  have hnodup : (bs.map BackendSpec.id).Nodup := (hbs.map _).nodup_iff.mpr (nodup_backends hv)
  have hpairs : routedPairs ps bs = routedPairs s.placements s.backends := routedPairs_perm hps hbs
  have husers := collectActiveUsers_perm (singleHomed_perm hps hone) hone hps
  have hin : ∀ m, mergeInbounds m (s.listed ps bs) = mergeInbounds m s := by
    intro m
    unfold mergeInbounds
    simp only [NodeState.listed, husers]
    rfl
  have hout : ∀ m, mergeOutbounds m (s.listed ps bs) = mergeOutbounds m s := by
    intro m
    unfold mergeOutbounds
    have hpair : pairOutbound bs = pairOutbound s.backends := by
      funext x
      unfold pairOutbound
      rw [backendByID_perm hnodup hbs]
    simp only [NodeState.listed, hpairs, hpair]
  have hroute : ∀ m, mergeRoute m (s.listed ps bs) = mergeRoute m s := by
    intro m
    unfold mergeRoute buildDynamicRouteRules
    simp only [NodeState.listed, hpairs]
  cases base with
  | empty =>
    unfold mergeBase
    rw [build_listed hv hone hps hbs]
  | malformed err =>
    unfold mergeBase
    rw [validate_listed hv hps hbs, hv]
  | json root =>
    unfold mergeBase
    simp only [validate_listed hv hps hbs, hv, hin, hout, hroute]

theorem userOf_mem_collectActiveUsers {p : Placement} (hd : p.desired = .active) (hne : p.clientID ≠ "")
    (ps : List Placement) : userOf p ∈ collectActiveUsers (p :: ps) := by
  refine (List.mem_insertionSort _).mpr ?_
  unfold activeUsers
  rw [if_neg (by simp [hd, hne])]
  exact List.mem_cons_self

theorem desiredBackendByUser_concat {p : Placement} (hrouted : routed bs p = true) (ps : List Placement) :
    desiredBackendByUser (ps ++ [p]) bs p.clientID = p.backendNodeID := by
  unfold desiredBackendByUser
  rw [List.filter_append, List.filter_append, List.map_append, List.filter_singleton, hrouted]
  simp

/-- If every order gives the same build, the users and the defaults do not say which it was. -/
theorem singleHomed_of_build [Lowering] (hv : validate s = .ok ())
    (h : ∀ ps, ps.Perm s.placements → build (s.listed ps s.backends) = build s) :
    SingleHomed s.placements := by
  obtain ⟨cfg, hcfg⟩ := build_ok_iff.mpr (validate_ok_iff.mp hv)
  obtain ⟨hout, -, hin⟩ := build_eq hcfg
  have hparts : ∀ ps, ps.Perm s.placements →
      collectActiveUsers ps = collectActiveUsers s.placements ∧
        buildOutbounds ps s.backends = buildOutbounds s.placements s.backends := by
    intro ps hps
    obtain ⟨hout', -, hin'⟩ := build_eq ((h ps hps).trans hcfg)
    have hinbound : buildInbound s.inbound ps = buildInbound s.inbound s.placements :=
      (List.cons_eq_cons.mp (hin'.symm.trans hin)).1
    exact ⟨congrArg Inbound.users hinbound, hout'.symm.trans hout⟩
  have huser : ∀ p ∈ s.placements, p.desired = .active → userOf p ∈ collectActiveUsers s.placements := by
    intro p hp hd
    have hne : p.clientID ≠ "" := ((validate_ok_iff.mp hv).2 p hp hd).1
    rw [← (hparts _ (List.perm_cons_erase hp).symm).1]
    exact userOf_mem_collectActiveUsers hd hne _
  have hdefault : ∀ p ∈ s.placements, p.desired = .active →
      perUserOutboundTagFor p.clientID p.backendNodeID =
        (userSelector s.placements s.backends p.clientID).default := by
    intro p hp hd
    have hrouted := (routed_of_validate hv hp).mpr hd
    have hperm : (s.placements.erase p ++ [p]).Perm s.placements :=
      List.perm_append_comm.trans (List.perm_cons_erase hp).symm
    have hlists := (hparts _ hperm).2
    rw [buildOutbounds_eq, buildOutbounds_eq, routedUsers_perm hperm (.refl _)] at hlists
    have hblock := flatMap_inj_of_length (fun u => by simp)
      (List.cons_eq_cons.mp (List.cons_eq_cons.mp hlists).2).2 p.clientID
      (mem_routedUsers.mpr ⟨p, hp, hrouted, rfl⟩)
    have hsel := List.append_cancel_left hblock
    rw [← (List.cons_eq_cons.mp hsel).1]
    show _ = perUserOutboundTagFor _ _
    rw [desiredBackendByUser_concat hrouted]
  intro p hp q hq hdp hdq hclient
  constructor
  · have hnodup : ((collectActiveUsers s.placements).map VlessUser.uuid).Nodup :=
      (sorted_collectActiveUsers _).imp ne_of_lt
    exact congrArg VlessUser.flow
      (List.inj_on_of_nodup_map hnodup (huser p hp hdp) (huser q hq hdq) hclient)
  · rw [hdefault p hp hdp, hdefault q hq hdq, hclient]

/-- What is rendered does not depend on the order of the listings just if the active placements of each
client agree in their flow and in their outbound tag. -/
theorem render_listed_iff [Lowering] (hv : validate s = .ok ()) :
    (∀ ps bs, ps.Perm s.placements → bs.Perm s.backends → build (s.listed ps bs) = build s ∧
      ∀ base, mergeBase base (s.listed ps bs) = mergeBase base s) ↔
    ∀ p ∈ s.placements, ∀ q ∈ s.placements, p.desired = .active → q.desired = .active →
      p.clientID = q.clientID →
        flowForTransport p.transport = flowForTransport q.transport ∧
          perUserOutboundTagFor p.clientID p.backendNodeID =
            perUserOutboundTagFor q.clientID q.backendNodeID := by
  constructor
  · intro h
    exact singleHomed_of_build hv fun ps hps => (h ps s.backends hps (.refl _)).1
  · intro hone ps bs hps hbs
    exact ⟨build_listed hv hone hps hbs, mergeBase_listed hv hone hps hbs⟩

end Render

section Fixed

open Eval

theorem render_listed_two_clients : validate (serving ["c", "d"]) = .ok () ∧
    ∀ base, mergeBase base ((serving ["c", "d"]).listed (serving ["d", "c"]).placements
      (serving ["c", "d"]).backends) = mergeBase base (serving ["c", "d"]) :=
  ⟨by decide, ((render_listed_iff (by decide)).mpr (by decide) _ _ (.swap _ _ _) (.refl _)).2⟩

/-- A client with placements on two backends gets the one that is listed last. -/
theorem build_listed_differ :
    validate (homedOn ["n1", "n2"]) = .ok () ∧
      ∃ ps, ps.Perm (homedOn ["n1", "n2"]).placements ∧
        build ((homedOn ["n1", "n2"]).listed ps (homedOn ["n1", "n2"]).backends) ≠
          build (homedOn ["n1", "n2"]) := by
  have hv : validate (homedOn ["n1", "n2"]) = .ok () := by decide
  refine ⟨hv, (homedOn ["n1", "n2"]).placements.reverse, List.reverse_perm _, fun h => ?_⟩
  obtain ⟨cfg, hcfg⟩ := build_ok_iff.mpr (validate_ok_iff.mp hv)
  have hout := (build_eq (h.trans hcfg)).1.symm.trans (build_eq hcfg).1
  revert hout
  decide

end Fixed

end NodeAgent.Singboxgen
