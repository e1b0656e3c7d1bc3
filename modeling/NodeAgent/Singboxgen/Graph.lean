import NodeAgent.Singboxgen.Routing
import NodeAgent.Singboxgen.Absorb

/-!
# The routing graph of a build

A rule leads to the selector of its user, and a selector to one outbound per backend. Tags are made by
concatenation, so that they tell the pairs apart rests on the shape of the ids: with the same number of
dashes in every client id, a tag has one reading only.
-/

namespace NodeAgent.Singboxgen

/-! ## Lists -/

section Lists

variable {α β : Type*} [DecidableEq α]

/-- What comes before a separator is known by how many separators it has itself. -/
theorem append_cons_inj {x : α} {a a' b b' : List α} (h : a ++ x :: b = a' ++ x :: b')
    (hcount : a.count x = a'.count x) : a = a' ∧ b = b' := by
  induction a generalizing a' with
  | nil =>
    cases a' with
    | nil => exact ⟨rfl, (List.cons_eq_cons.mp h).2⟩
    | cons y a' =>
      obtain ⟨rfl, -⟩ := List.cons_eq_cons.mp h
      simp at hcount
  | cons z a ih =>
    cases a' with
    | nil =>
      obtain ⟨rfl, -⟩ := List.cons_eq_cons.mp h
      simp at hcount
    | cons y a' =>
      obtain ⟨rfl, htail⟩ := List.cons_eq_cons.mp h
      rw [List.count_cons, List.count_cons, Nat.add_right_cancel_iff] at hcount
      obtain ⟨rfl, rfl⟩ := ih htail hcount
      exact ⟨rfl, rfl⟩

/-- Where keys are distinct, one element has the key. -/
theorem filter_key_eq {f : β → α} {l : List β} (hl : (l.map f).Nodup) {y : β} (hy : y ∈ l) :
    l.filter (fun z => f z = f y) = [y] := by
  induction l with
  | nil => cases hy
  | cons z l ih =>
    rw [List.map_cons, List.nodup_cons] at hl
    rcases List.mem_cons.mp hy with rfl | hmem
    · rw [List.filter_cons_of_pos (by simp), List.filter_eq_nil_iff.mpr]
      intro w hw hkey
      exact hl.1 (of_decide_eq_true hkey ▸ List.mem_map_of_mem hw)
    · have hne : f z ≠ f y := fun h => hl.1 (h ▸ List.mem_map_of_mem hmem)
      rw [List.filter_cons_of_neg (by simpa using hne), ih hl.2 hmem]

end Lists

/-! ## Distinct tags -/

/-- Lower case, with four dashes: the shape of a UUID. -/
def IdShaped [Lowering] (s : String) : Prop := toLower s = s ∧ s.toList.count '-' = 4

instance [Lowering] (s : String) : Decidable (IdShaped s) := by
  unfold IdShaped
  infer_instance

section Tags

variable [Lowering] {c c' : ClientID} {b b' : BackendID}

theorem perUserOutboundTagFor_inj (hc : IdShaped c) (hc' : IdShaped c') (hb : IdShaped b)
    (hb' : IdShaped b') (h : perUserOutboundTagFor c b = perUserOutboundTagFor c' b') :
    c = c' ∧ b = b' := by
  unfold perUserOutboundTagFor at h
  rw [hc.1, hc'.1, hb.1, hb'.1, String.append_assoc, String.append_assoc, String.append_assoc,
    String.append_assoc, String.append_right_inj, ← String.toList_inj, String.toList_append,
    String.toList_append, String.toList_append, String.toList_append] at h
  obtain ⟨hclient, hbackend⟩ := append_cons_inj h (hc.2.trans hc'.2.symm)
  exact ⟨String.toList_inj.mp hclient, String.toList_inj.mp hbackend⟩

theorem perUserSelectorTagFor_inj_of_shaped (hc : IdShaped c) (hc' : IdShaped c')
    (h : perUserSelectorTagFor c = perUserSelectorTagFor c') : c = c' := by
  rw [perUserSelectorTagFor_inj, hc.1, hc'.1] at h
  exact h

/-- The two outbounds that every build has are told by their first two characters. -/
theorem perUserOutboundTagFor_ne_fixed : ∀ t ∈ [directOutboundTag, blockOutboundTag],
    perUserOutboundTagFor c b ≠ t ∧ perUserSelectorTagFor c ≠ t := by
  have hout : (perUserOutboundTagFor c b).toList.take 2 = ['b', '-'] := by
    unfold perUserOutboundTagFor
    rw [String.toList_append, String.toList_append, String.toList_append]
    rfl
  have hsel : (perUserSelectorTagFor c).toList.take 2 = ['u', '-'] := by
    unfold perUserSelectorTagFor
    rw [String.toList_append]
    rfl
  intro t ht
  refine ⟨fun h => ?_, fun h => ?_⟩
  · rw [h] at hout
    rcases List.mem_pair.mp ht with rfl | rfl
    · exact absurd hout (by decide)
    · exact absurd hout (by decide)
  · rw [h] at hsel
    rcases List.mem_pair.mp ht with rfl | rfl
    · exact absurd hsel (by decide)
    · exact absurd hsel (by decide)

end Tags

theorem nodup_backends {state : NodeState} (h : validate state = .ok ()) :
    (state.backends.map BackendSpec.id).Nodup :=
  (validateBackends_ok_iff.mp (validate_ok_iff.mp h).1.2.2).2.1

theorem nodup_routedUsers (ps : List Placement) (bs : List BackendSpec) : (routedUsers ps bs).Nodup :=
  (List.perm_insertionSort _ _).nodup_iff.mpr (List.nodup_dedup _)

section Outbounds

variable [Lowering] {ps : List Placement} {bs : List BackendSpec}

/-- The tags of one user. -/
def userTags (bs : List BackendSpec) (u : ClientID) : List String :=
  (bs.insertionSort fun a b => a.id ≤ b.id).map (fun b => perUserOutboundTagFor u b.id) ++
    [perUserSelectorTagFor u]

theorem mem_userTags {u : ClientID} {t : String} : t ∈ userTags bs u ↔
    (∃ b ∈ bs, perUserOutboundTagFor u b.id = t) ∨ t = perUserSelectorTagFor u := by
  unfold userTags
  rw [List.mem_append, List.mem_map, List.mem_singleton]
  simp only [List.mem_insertionSort]

theorem tags_buildOutbounds : (buildOutbounds ps bs).map Outbound.tag =
    directOutboundTag :: blockOutboundTag :: (routedUsers ps bs).flatMap (userTags bs) := by
  rw [buildOutbounds_eq, List.map_cons, List.map_cons, List.map_flatMap]
  congr 2
  refine List.flatMap_congr fun u _ => ?_
  rw [List.map_append, List.map_map]
  rfl

theorem nodup_userTags (hbs : (bs.map BackendSpec.id).Nodup) (hshaped : ∀ b ∈ bs, IdShaped b.id)
    {u : ClientID} (hu : IdShaped u) : (userTags bs u).Nodup := by
  have hperm : ((bs.insertionSort fun a b => a.id ≤ b.id).map fun b => perUserOutboundTagFor u b.id).Perm
      (bs.map fun b => perUserOutboundTagFor u b.id) := (List.perm_insertionSort _ _).map _
  refine List.nodup_append.mpr ⟨hperm.nodup_iff.mpr ?_, List.nodup_singleton _, ?_⟩
  · rw [show (fun b : BackendSpec => perUserOutboundTagFor u b.id) =
      perUserOutboundTagFor u ∘ BackendSpec.id from rfl, ← List.map_map]
    refine hbs.map_on fun x hx y hy h => ?_
    obtain ⟨b, hb, rfl⟩ := List.mem_map.mp hx
    obtain ⟨b', hb', rfl⟩ := List.mem_map.mp hy
    exact (perUserOutboundTagFor_inj hu hu (hshaped b hb) (hshaped b' hb') h).2
  · intro t ht t' ht' h
    obtain ⟨b, -, rfl⟩ := List.mem_map.mp ht
    rw [List.mem_singleton.mp ht'] at h
    exact perUserOutboundTagFor_ne_selector u u b.id h

theorem disjoint_userTags (hshaped : ∀ b ∈ bs, IdShaped b.id) {u v : ClientID} (hu : IdShaped u)
    (hv : IdShaped v) (hne : u ≠ v) : (userTags bs u).Disjoint (userTags bs v) := by
  intro t ht ht'
  rcases mem_userTags.mp ht with ⟨b, hb, rfl⟩ | rfl
  · rcases mem_userTags.mp ht' with ⟨b', hb', h⟩ | h
    · exact hne (perUserOutboundTagFor_inj hv hu (hshaped b' hb') (hshaped b hb) h).1.symm
    · exact perUserOutboundTagFor_ne_selector u v b.id h
  · rcases mem_userTags.mp ht' with ⟨b', -, h⟩ | h
    · exact perUserOutboundTagFor_ne_selector v u b'.id h
    · exact hne (perUserSelectorTagFor_inj_of_shaped hu hv h)

theorem nodup_tags_buildOutbounds (hbs : (bs.map BackendSpec.id).Nodup)
    (hshaped : ∀ b ∈ bs, IdShaped b.id) (husers : ∀ u ∈ routedUsers ps bs, IdShaped u) :
    ((buildOutbounds ps bs).map Outbound.tag).Nodup := by
  have hfixed : ∀ t ∈ [directOutboundTag, blockOutboundTag],
      t ∉ (routedUsers ps bs).flatMap (userTags bs) := by
    intro t ht hmem
    obtain ⟨u, -, hu⟩ := List.mem_flatMap.mp hmem
    rcases mem_userTags.mp hu with ⟨b, -, h⟩ | h
    · exact (perUserOutboundTagFor_ne_fixed t ht).1 h
    · exact (perUserOutboundTagFor_ne_fixed (b := "") t ht).2 h.symm
  rw [tags_buildOutbounds, List.nodup_cons, List.nodup_cons]
  refine ⟨fun hmem => ?_, hfixed _ (List.mem_cons_of_mem _ List.mem_cons_self), ?_⟩
  · rcases List.mem_cons.mp hmem with h | hmem
    · exact absurd h (by decide)
    · exact hfixed _ List.mem_cons_self hmem
  · refine List.nodup_flatMap.mpr ⟨fun u hu => nodup_userTags hbs hshaped (husers u hu), ?_⟩
    refine (nodup_routedUsers ps bs).imp_of_mem fun hu hv hne => ?_
    exact disjoint_userTags hshaped (husers _ hu) (husers _ hv) hne

end Outbounds

/-! ## The graph -/

/-- A selector that offers the user every backend, and first the one of a placement. -/
structure Offers [Lowering] (state : NodeState) (c : ClientID) (o : Outbound) : Prop where
  type : o.type = selectorType
  tag : o.tag = perUserSelectorTagFor c
  options : o.outbounds.Perm
    (state.backends.map (fun b => perUserOutboundTagFor c b.id) ++ [blockOutboundTag])
  default : ∃ p ∈ state.placements, p.desired = .active ∧ p.clientID = c ∧
    o.default = perUserOutboundTagFor c p.backendNodeID

/-- Tags are unique, and what names an outbound names one that is there. -/
structure WellFormed [Lowering] (state : NodeState) (cfg : SingBoxConfig) : Prop where
  distinct : (cfg.outbounds.map Outbound.tag).Nodup
  rules : ∀ r ∈ cfg.route.rules, r.outbound ∈ cfg.outbounds.map Outbound.tag
  selectors : ∀ o ∈ cfg.outbounds, o.type = selectorType →
    (∀ t ∈ o.outbounds, t ∈ cfg.outbounds.map Outbound.tag) ∧ o.default ∈ cfg.outbounds.map Outbound.tag ∧
      ∃ c, Offers state c o
  backends : ∀ p ∈ state.placements, p.desired = .active → ∀ b ∈ state.backends,
    backendOutbound p.clientID b ∈ cfg.outbounds
  user : ∀ p ∈ state.placements, p.desired = .active →
    ∃ u, (cfg.inbounds.flatMap Inbound.users).filter (fun u => u.uuid = p.clientID) = [u]
  selector : ∀ p ∈ state.placements, p.desired = .active →
    ∃ o, cfg.outbounds.filter (fun o => o.tag = perUserSelectorTagFor p.clientID) = [o] ∧
      Offers state p.clientID o
  rule : ∀ p ∈ state.placements, p.desired = .active →
    cfg.route.rules.filter (fun r => p.clientID ∈ r.authUser) =
      [⟨[p.clientID], perUserSelectorTagFor p.clientID⟩]

section Graph

variable [Lowering] {state : NodeState} {c : ClientID}

theorem offers_userSelector (hv : validate state = .ok ())
    (hc : c ∈ routedUsers state.placements state.backends) :
    Offers state c (userSelector state.placements state.backends c) where
  type := rfl
  tag := rfl
  options := ((List.perm_insertionSort _ _).map _).append_right _
  default := by
    obtain ⟨p, hp, hrouted, hpc, hb⟩ := exists_desiredBackendByUser hc
    exact ⟨p, hp, (routed_of_validate hv hp).mp hrouted, hpc, by rw [hb]; rfl⟩

theorem option_mem_tags {ps : List Placement} {bs : List BackendSpec} (hc : c ∈ routedUsers ps bs)
    {t : String} (ht : t ∈ (userSelector ps bs c).outbounds) :
    t ∈ (buildOutbounds ps bs).map Outbound.tag := by
  rw [tags_buildOutbounds]
  rcases List.mem_append.mp ht with ht | ht
  · refine List.mem_cons_of_mem _ (List.mem_cons_of_mem _ (List.mem_flatMap.mpr ⟨c, hc, ?_⟩))
    exact List.mem_append_left _ ht
  · rw [List.mem_singleton.mp ht]
    exact List.mem_cons_of_mem _ List.mem_cons_self

theorem default_mem_options {ps : List Placement} {bs : List BackendSpec} (hc : c ∈ routedUsers ps bs) :
    (userSelector ps bs c).default ∈ (userSelector ps bs c).outbounds := by
  obtain ⟨p, -, hrouted, -, hp⟩ := exists_desiredBackendByUser hc
  obtain ⟨b, hb, hid⟩ := List.mem_map.mp (routed_iff.mp hrouted).2.2
  refine List.mem_append_left _ (List.mem_map.mpr ⟨b, (List.mem_insertionSort _).mpr hb, ?_⟩)
  rw [hid, hp]
  rfl

theorem filter_rules_buildRoute {ps : List Placement} {bs : List BackendSpec} (hc : c ∈ routedUsers ps bs) :
    (buildRoute ps bs).rules.filter (fun r => c ∈ r.authUser) = [⟨[c], perUserSelectorTagFor c⟩] := by
  unfold buildRoute
  dsimp only
  rw [List.filter_map, ← List.map_singleton (f := fun u => (⟨[u], perUserSelectorTagFor u⟩ : RouteRule)),
    ← filter_key_eq (f := id) (by rw [List.map_id]; exact nodup_routedUsers ps bs) hc]
  congr 1
  refine List.filter_congr fun u _ => ?_
  simp [eq_comm]

/-- A build makes a well-formed graph. -/
theorem build_wellFormed (hv : validate state = .ok ())
    (hclients : ∀ p ∈ state.placements, p.desired = .active → IdShaped p.clientID)
    (hbackends : ∀ b ∈ state.backends, IdShaped b.id) :
    ∃ cfg, build state = .ok cfg ∧ WellFormed state cfg := by
  obtain ⟨cfg, hbuild⟩ := build_ok_iff.mpr (validate_ok_iff.mp hv)
  obtain ⟨hout, hroute, hin⟩ := build_eq hbuild
  have husers : ∀ u ∈ routedUsers state.placements state.backends, IdShaped u := by
    intro u hu
    obtain ⟨p, hp, hd, rfl⟩ := (mem_routedUsers_iff hv).mp hu
    exact hclients p hp hd
  have hmem : ∀ p ∈ state.placements, p.desired = .active →
      p.clientID ∈ routedUsers state.placements state.backends :=
    fun p hp hd => (mem_routedUsers_iff hv).mpr ⟨p, hp, hd, rfl⟩
  have hdistinct := nodup_tags_buildOutbounds (nodup_backends hv) hbackends husers
  refine ⟨cfg, hbuild, ?_, ?_, ?_, ?_, ?_, ?_, ?_⟩
  · rw [hout]
    exact hdistinct
  · intro r hr
    rw [hroute] at hr
    obtain ⟨u, hu, rfl⟩ := mem_rules_buildRoute.mp hr
    rw [hout, List.mem_map]
    exact ⟨_, mem_buildOutbounds.mpr (.inr (.inr ⟨u, hu, .inr rfl⟩)), rfl⟩
  · intro o ho htype
    rw [hout] at ho ⊢
    obtain ⟨u, hu, rfl⟩ := eq_userSelector ho htype
    exact ⟨fun t => option_mem_tags hu, option_mem_tags hu (default_mem_options hu), u,
      offers_userSelector hv hu⟩
  · intro p hp hd b hb
    rw [hout]
    exact mem_buildOutbounds.mpr (.inr (.inr ⟨_, hmem p hp hd, .inl ⟨b, hb, rfl⟩⟩))
  · intro p hp hd
    have hne : p.clientID ≠ "" := ((validate_ok_iff.mp hv).2 p hp hd).1
    obtain ⟨u, hu, huuid⟩ := List.mem_map.mp (mem_collectActiveUsers.mpr ⟨hne, p, hp, hd, rfl⟩)
    refine ⟨u, ?_⟩
    rw [hin, List.flatMap_singleton, ← huuid]
    exact filter_key_eq ((sorted_collectActiveUsers _).imp ne_of_lt) hu
  · intro p hp hd
    refine ⟨_, ?_, offers_userSelector hv (hmem p hp hd)⟩
    rw [hout]
    exact filter_key_eq hdistinct (mem_buildOutbounds.mpr (.inr (.inr ⟨_, hmem p hp hd, .inr rfl⟩)))
  · intro p hp hd
    rw [hroute]
    exact filter_rules_buildRoute (hmem p hp hd)

end Graph

section Fixed

open Eval

/-- Two clients, one of them on both backends. -/
def twoHomed : NodeState where
  inbound := { tag := "in", listen := { port := 443 } }
  backends := ["b-0-0-0-2", "b-0-0-0-1"].map fun id => { id := id, address := "10.0.0.1", port := 443 }
  placements :=
    [{ id := "p1", clientID := "c-0-0-0-1", backendNodeID := "b-0-0-0-1", desired := .active },
     { id := "p2", clientID := "c-0-0-0-2", backendNodeID := "b-0-0-0-1", desired := .active },
     { id := "p3", clientID := "c-0-0-0-1", backendNodeID := "b-0-0-0-2", desired := .active }]

theorem build_wellFormed_twoHomed : ∃ cfg, build twoHomed = .ok cfg ∧ WellFormed twoHomed cfg :=
  build_wellFormed (by decide) (by decide) (by decide)

end Fixed

end NodeAgent.Singboxgen
