import NodeAgent.Executor.EntryActions
import NodeAgent.Singboxgen.Absorb

/-!
# Dangling references after repeated renders

What a render writes is the base of the next one. A merge strips and makes anew the outbounds and rules
with a dynamic tag and keeps all else, the static part, as it is; so whether the result is closed
depends on the static part and on the pairs of the state that is merged in.
-/

namespace NodeAgent.External

open Lib Singboxgen

/-! ## The static part -/

/-- Every outbound that a rule or a selector names is there. -/
def Closed (j : Json) : Prop :=
  (∀ t ∈ ruleTargets j, t ∈ outboundTags j) ∧
    ∀ o ∈ outboundsOf j, isSelector o = true → ∀ t ∈ selectorTargets o, t ∈ outboundTags j

/-- The outbounds that were not rendered by the agent. -/
def staticOutbounds (j : Json) : List Json := (outboundsOf j).filter (keeps "tag")

/-- The rules that do not lead to a rendered outbound. -/
def staticRules (j : Json) : List Json := (rulesOf j).filter (keeps "outbound")

/-- No selector of the static part names a dynamic tag. -/
def SelectorsStatic (j : Json) : Prop :=
  ∀ o ∈ staticOutbounds j, isSelector o = true → ∀ t ∈ selectorTargets o, isDynamicTag t = false

/-- The tags of the outbounds that a state brings with it. -/
def pairTags [Lowering] (state : NodeState) : List String :=
  (routedPairs state.placements state.backends).map fun x => perUserOutboundTagFor x.1 x.2

/-- What the static part names is in it or among the given tags. -/
def Fits (j : Json) (tags : List String) : Prop :=
  (∀ t ∈ (staticRules j).filterMap (·.getStr? "outbound"),
    t ∈ (staticOutbounds j).filterMap (·.getStr? "tag")) ∧
  ∀ o ∈ staticOutbounds j, isSelector o = true → ∀ t ∈ selectorTargets o,
    t ∈ (staticOutbounds j).filterMap (·.getStr? "tag") ∨ t ∈ tags

section Merge

variable {root : Json} {state : NodeState} {r : Rendered}

theorem isSelector_pairOutbound [Lowering] (bs : List BackendSpec) (x : ClientID × BackendID) :
    isSelector (pairOutbound bs x) = false := rfl

theorem staticOutbounds_merge [Lowering] (h : mergeBase (.json root) state = .ok r) :
    staticOutbounds r.toJson = staticOutbounds root := by
  unfold staticOutbounds
  rw [(mergeBase_json h).1, List.filter_append, filter_keeps_pairOutbounds, List.append_nil,
    List.filter_filter]
  simp

theorem staticRules_merge [Lowering] (h : mergeBase (.json root) state = .ok r) :
    staticRules r.toJson = staticRules root := by
  unfold staticRules
  rw [(mergeBase_json h).2, List.filter_append, filter_keeps_dynamicRules, List.nil_append,
    List.filter_filter]
  simp

theorem outboundTags_merge [Lowering] (h : mergeBase (.json root) state = .ok r) :
    outboundTags r.toJson = (staticOutbounds root).filterMap (·.getStr? "tag") ++ pairTags state := by
  unfold outboundTags pairTags
  rw [(mergeBase_json h).1, List.filterMap_append, List.filterMap_map]
  refine congrArg _ ?_
  rw [← List.filterMap_eq_map]
  rfl

theorem ruleTargets_merge [Lowering] (h : mergeBase (.json root) state = .ok r) :
    ruleTargets r.toJson = pairTags state ++ (staticRules root).filterMap (·.getStr? "outbound") := by
  unfold ruleTargets pairTags
  rw [(mergeBase_json h).2, List.filterMap_append, buildDynamicRouteRules, List.filterMap_map]
  refine congrArg (· ++ _) ?_
  rw [← List.filterMap_eq_map]
  rfl

theorem not_dynamic_of_staticRule {t : String}
    (h : t ∈ (staticRules root).filterMap (·.getStr? "outbound")) : isDynamicTag t = false := by
  obtain ⟨rule, hrule, htag⟩ := List.mem_filterMap.mp h
  have hkeep := (List.mem_filter.mp hrule).2
  rw [keeps_eq htag] at hkeep
  simpa using hkeep

theorem dynamic_of_mem_pairTags [Lowering] {t : String} (h : t ∈ pairTags state) : isDynamicTag t = true := by
  obtain ⟨x, -, rfl⟩ := List.mem_map.mp h
  exact isDynamicTag_perUserOutboundTagFor _ _

/-- When the result of a merge is closed. -/
theorem closed_merge_iff [Lowering] (h : mergeBase (.json root) state = .ok r) :
    Closed r.toJson ↔ Fits root (pairTags state) := by
  have hout : outboundsOf r.toJson = staticOutbounds root ++
      (routedPairs state.placements state.backends).map (pairOutbound state.backends) :=
    (mergeBase_json h).1
  unfold Closed Fits
  rw [outboundTags_merge h, ruleTargets_merge h, hout]
  simp only [List.mem_append]
  constructor
  · rintro ⟨hrules, hsel⟩
    constructor
    · intro t ht
      rcases hrules t (.inr ht) with hin | hin
      · exact hin
      · have hdyn := dynamic_of_mem_pairTags hin
        rw [not_dynamic_of_staticRule ht] at hdyn
        cases hdyn
    · exact fun o ho => hsel o (.inl ho)
  · rintro ⟨hrules, hsel⟩
    constructor
    · rintro t (ht | ht)
      · exact .inr ht
      · exact .inl (hrules t ht)
    · rintro o (ho | ho) hselector
      · exact hsel o ho hselector
      · obtain ⟨x, -, rfl⟩ := List.mem_map.mp ho
        rw [isSelector_pairOutbound] at hselector
        cases hselector

/-- A closed file whose selectors are static fits with any pairs. -/
theorem fits_of_closed (hclosed : Closed root) (hstatic : SelectorsStatic root) (tags : List String) :
    Fits root tags := by
  have hkept : ∀ t ∈ outboundTags root, isDynamicTag t = false →
      t ∈ (staticOutbounds root).filterMap (·.getStr? "tag") := by
    intro t ht hdyn
    obtain ⟨o, ho, htag⟩ := List.mem_filterMap.mp ht
    refine List.mem_filterMap.mpr ⟨o, List.mem_filter.mpr ⟨ho, ?_⟩, htag⟩
    rw [keeps_eq htag, hdyn]
    rfl
  constructor
  · intro t ht
    obtain ⟨rule, hrule, htag⟩ := List.mem_filterMap.mp ht
    refine hkept t (hclosed.1 t ?_) (not_dynamic_of_staticRule ht)
    exact List.mem_filterMap.mpr ⟨rule, (List.mem_filter.mp hrule).1, htag⟩
  · intro o ho hsel t ht
    have hmem := (List.mem_filter.mp ho).1
    exact .inl (hkept t (hclosed.2 o hmem hsel t ht) (hstatic o ho hsel t ht))

end Merge

/-! ## A built configuration -/

section Build

theorem mem_outboundTags_toJson {c : SingBoxConfig} {t : String} :
    t ∈ outboundTags c.toJson ↔ ∃ o ∈ c.outbounds, o.tag = t := by
  unfold outboundTags
  rw [outboundsOf_toJson, List.filterMap_map, List.mem_filterMap]
  simp only [Function.comp_apply, getStr?_tag_toJson, Option.some.injEq]

theorem mem_ruleTargets_toJson {c : SingBoxConfig} {t : String} :
    t ∈ ruleTargets c.toJson ↔ ∃ r ∈ c.route.rules, r.outbound = t := by
  unfold ruleTargets
  rw [rulesOf_toJson, List.filterMap_map, List.mem_filterMap]
  simp only [Function.comp_apply, getStr?_outbound_rule, Option.some.injEq]

theorem mem_selectorTargets_toJson {o : Outbound} {t : String} :
    t ∈ selectorTargets o.toJson ↔ t ∈ o.outbounds ∨ (o.default ≠ "" ∧ t = o.default) := by
  unfold selectorTargets
  rw [getStrs_outbounds_toJson, getStr?_default_toJson, List.mem_append]
  by_cases h : o.default = ""
  · simp [h]
  · simp [h]

theorem isSelector_toJson {o : Outbound} : isSelector o.toJson = true ↔ o.type = selectorType := by
  unfold isSelector
  rw [getStr?_type_toJson, decide_eq_true_eq, Option.some.injEq]

theorem isDynamicTag_perUserSelectorTagFor [Lowering] (u : ClientID) :
    isDynamicTag (perUserSelectorTagFor u) = false := by
  unfold isDynamicTag perUserSelectorTagFor
  rw [String.toList_append]
  rfl

variable {ps : List Placement} {bs : List BackendSpec} {u : ClientID} {t : String}

/-- What the selector of a user names. -/
theorem mem_selectorTargets_userSelector [Lowering] (hu : u ∈ routedUsers ps bs) :
    t ∈ selectorTargets (userSelector ps bs u).toJson ↔
      t = blockOutboundTag ∨ ∃ b ∈ bs, t = perUserOutboundTagFor u b.id := by
  rw [mem_selectorTargets_toJson]
  constructor
  · rintro (ht | ⟨-, rfl⟩)
    · rcases List.mem_append.mp ht with ht | ht
      · obtain ⟨b, hb, rfl⟩ := List.mem_map.mp ht
        exact .inr ⟨b, (List.mem_insertionSort _).mp hb, rfl⟩
      · exact .inl (List.mem_singleton.mp ht)
    · obtain ⟨p, -, hrouted, -, hp⟩ := exists_desiredBackendByUser hu
      obtain ⟨b, hb, hid⟩ := List.mem_map.mp (routed_iff.mp hrouted).2.2
      exact .inr ⟨b, hb, by rw [hid, hp]; rfl⟩
  · rintro (rfl | ⟨b, hb, rfl⟩)
    · exact .inl (List.mem_append_right _ (List.mem_singleton.mpr rfl))
    · refine .inl (List.mem_append_left _ (List.mem_map.mpr ⟨b, ?_, rfl⟩))
      exact (List.mem_insertionSort _).mpr hb

variable {state : NodeState} {cfg : SingBoxConfig}

theorem closed_build [Lowering] (h : build state = .ok cfg) : Closed cfg.toJson := by
  obtain ⟨hout, hroute, -⟩ := build_eq h
  constructor
  · intro t ht
    obtain ⟨r, hr, rfl⟩ := mem_ruleTargets_toJson.mp ht
    rw [hroute] at hr
    obtain ⟨u, hu, rfl⟩ := mem_rules_buildRoute.mp hr
    rw [mem_outboundTags_toJson, hout]
    exact ⟨_, mem_buildOutbounds.mpr (.inr (.inr ⟨u, hu, .inr rfl⟩)), rfl⟩
  · intro j hj hsel t ht
    rw [outboundsOf_toJson, hout] at hj
    obtain ⟨o, ho, rfl⟩ := List.mem_map.mp hj
    obtain ⟨u, hu, rfl⟩ := eq_userSelector ho (isSelector_toJson.mp hsel)
    rw [mem_outboundTags_toJson, hout]
    rcases (mem_selectorTargets_userSelector hu).mp ht with rfl | ⟨b, hb, rfl⟩
    · exact ⟨_, mem_buildOutbounds.mpr (.inr (.inl rfl)), rfl⟩
    · exact ⟨_, mem_buildOutbounds.mpr (.inr (.inr ⟨u, hu, .inl ⟨b, hb, rfl⟩⟩)), rfl⟩

/-- The static outbounds of a built file are those that are built under a tag of another kind. -/
theorem mem_staticOutbounds_build [Lowering] (h : build state = .ok cfg) (j : Json) :
    j ∈ staticOutbounds cfg.toJson ↔
      ∃ o ∈ buildOutbounds state.placements state.backends, isDynamicTag o.tag = false ∧
        o.toJson = j := by
  unfold staticOutbounds
  rw [outboundsOf_toJson, (build_eq h).1, List.mem_filter, List.mem_map]
  constructor
  · rintro ⟨⟨o, ho, rfl⟩, hkeep⟩
    rw [keeps_eq (getStr?_tag_toJson o)] at hkeep
    exact ⟨o, ho, by simpa using hkeep, rfl⟩
  · rintro ⟨o, ho, hdyn, rfl⟩
    refine ⟨⟨o, ho, rfl⟩, ?_⟩
    rw [keeps_eq (getStr?_tag_toJson o), hdyn]
    rfl

theorem mem_staticTags_build [Lowering] (h : build state = .ok cfg) (t : String) :
    t ∈ (staticOutbounds cfg.toJson).filterMap (·.getStr? "tag") ↔
      ∃ o ∈ buildOutbounds state.placements state.backends, isDynamicTag o.tag = false ∧
        o.tag = t := by
  rw [List.mem_filterMap]
  constructor
  · rintro ⟨j, hj, htag⟩
    obtain ⟨o, ho, hdyn, rfl⟩ := (mem_staticOutbounds_build h j).mp hj
    exact ⟨o, ho, hdyn, Option.some.inj htag⟩
  · rintro ⟨o, ho, hdyn, rfl⟩
    exact ⟨_, (mem_staticOutbounds_build h _).mpr ⟨o, ho, hdyn, rfl⟩, rfl⟩

/-- The selectors of a built file name a backend outbound for every backend of its state. -/
theorem fits_build_iff [Lowering] (h : build state = .ok cfg) (tags : List String) :
    Fits cfg.toJson tags ↔ ∀ u ∈ routedUsers state.placements state.backends,
      ∀ b ∈ state.backends, perUserOutboundTagFor u b.id ∈ tags := by
  obtain ⟨-, hroute, -⟩ := build_eq h
  have hstatic := mem_staticOutbounds_build h
  have htags := mem_staticTags_build h
  have hselector : ∀ u ∈ routedUsers state.placements state.backends,
      userSelector state.placements state.backends u ∈
        buildOutbounds state.placements state.backends := fun u hu =>
    mem_buildOutbounds.mpr (.inr (.inr ⟨u, hu, .inr rfl⟩))
  constructor
  · rintro ⟨-, hsel⟩ u hu b hb
    have hmem := (hstatic _).mpr ⟨_, hselector u hu, isDynamicTag_perUserSelectorTagFor u, rfl⟩
    rcases hsel _ hmem (isSelector_toJson.mpr rfl) _
      ((mem_selectorTargets_userSelector hu).mpr (.inr ⟨b, hb, rfl⟩)) with hin | hin
    · obtain ⟨o, -, hdyn, heq⟩ := (htags _).mp hin
      rw [heq, isDynamicTag_perUserOutboundTagFor] at hdyn
      cases hdyn
    · exact hin
  · intro hall
    constructor
    · intro t ht
      obtain ⟨rule, hrule, htag⟩ := List.mem_filterMap.mp ht
      have ht' : t ∈ ruleTargets cfg.toJson :=
        List.mem_filterMap.mpr ⟨rule, (List.mem_filter.mp hrule).1, htag⟩
      obtain ⟨r, hr, rfl⟩ := mem_ruleTargets_toJson.mp ht'
      rw [hroute] at hr
      obtain ⟨u, hu, rfl⟩ := mem_rules_buildRoute.mp hr
      exact (htags _).mpr ⟨_, hselector u hu, isDynamicTag_perUserSelectorTagFor u, rfl⟩
    · intro j hj hsel t ht
      obtain ⟨o, ho, -, rfl⟩ := (hstatic j).mp hj
      obtain ⟨u, hu, rfl⟩ := eq_userSelector ho (isSelector_toJson.mp hsel)
      rcases (mem_selectorTargets_userSelector hu).mp ht with rfl | ⟨b, hb, rfl⟩
      · exact .inl ((htags _).mpr ⟨_, mem_buildOutbounds.mpr (.inr (.inl rfl)), by decide, rfl⟩)
      · exact .inr (hall u hu b hb)

end Build

/-! ## Sequences of renders -/

/-- Every state is rendered over what the render before it has written. -/
inductive Renders [Lowering] (a : EntryActions) : BaseFile → List NodeState → List Json → Prop
  | nil (base : BaseFile) : Renders a base [] []
  | cons {base : BaseFile} {state : NodeState} {r : Rendered} {states : List NodeState}
      {outs : List Json} (h : a.renderOver base state = .ok r)
      (hrest : Renders a (.json r.toJson) states outs) :
      Renders a base (state :: states) (r.toJson :: outs)

section Renders

variable [Lowering] {a : EntryActions} {states : List NodeState} {outs : List Json}

/-- From a file on, the renders are closed as far as its static part fits with their states. -/
theorem renders_json_iff {j : Json} (h : Renders a (.json j) states outs) :
    (∀ out ∈ outs, Closed out) ↔ ∀ s ∈ states, Fits j (pairTags s) := by
  generalize hbase : BaseFile.json j = base at h
  induction h generalizing j with
  | nil => simp
  | @cons base state r states outs h hrest ih =>
    subst hbase
    have hmerge := EntryActions.mergeBase_of_renderOver h
    have hfits : ∀ tags, Fits r.toJson tags ↔ Fits j tags := by
      intro tags
      unfold Fits
      rw [staticOutbounds_merge hmerge, staticRules_merge hmerge]
    rw [List.forall_mem_cons, List.forall_mem_cons, closed_merge_iff hmerge, ih rfl]
    simp only [hfits]

/-- The first render of an empty file is a build, whose selectors stay as they are from then on. -/
theorem renders_empty_iff {first : NodeState} {rest : List NodeState}
    (h : Renders a .empty (first :: rest) outs) :
    (∀ out ∈ outs, Closed out) ↔ ∀ s ∈ rest,
      ∀ u ∈ routedUsers first.placements first.backends, ∀ b ∈ first.backends,
        perUserOutboundTagFor u b.id ∈ pairTags s := by
  cases h with
  | @cons _ _ r _ outs h hrest =>
    have hmerge := EntryActions.mergeBase_of_renderOver h
    obtain ⟨cfg, hbuild, rfl⟩ : ∃ cfg, build first = .ok cfg ∧ r = .built cfg := by
      cases hb : build first with
      | error err => simp [mergeBase, hb, Except.map] at hmerge
      | ok cfg =>
        simp only [mergeBase, hb, Except.map, Except.ok.injEq] at hmerge
        exact ⟨cfg, rfl, hmerge.symm⟩
    rw [List.forall_mem_cons, renders_json_iff hrest]
    have hfits := fits_build_iff hbuild
    constructor
    · rintro ⟨-, hall⟩ s hs
      exact (hfits _).mp (hall s hs)
    · intro hall
      exact ⟨closed_build hbuild, fun s hs => (hfits _).mpr (hall s hs)⟩

/-- Renders over a closed file stay closed. Renders that begin with an empty file stay closed exactly
as long as every later state has, for each user of the first and each backend of the first, a placement
that brings their outbound. -/
theorem renders_closed_iff {base : BaseFile}
    (hbase : ∀ j, base = .json j → Closed j ∧ SelectorsStatic j) (h : Renders a base states outs) :
    (∀ out ∈ outs, Closed out) ↔
      (base = .empty → ∀ first rest, states = first :: rest → ∀ s ∈ rest,
        ∀ u ∈ routedUsers first.placements first.backends, ∀ b ∈ first.backends,
          perUserOutboundTagFor u b.id ∈ pairTags s) := by
  cases base with
  | json j =>
    obtain ⟨hclosed, hstatic⟩ := hbase j rfl
    rw [renders_json_iff h]
    constructor
    · intro _ hempty
      cases hempty
    · exact fun _ s _ => fits_of_closed hclosed hstatic _
  | malformed err =>
    cases h with
    | nil => simp
    | cons h hrest =>
      have hmerge := EntryActions.mergeBase_of_renderOver h
      simp only [mergeBase, bind, Except.bind] at hmerge
      split at hmerge <;> cases hmerge
  | empty =>
    cases states with
    | nil =>
      cases h
      simp
    | cons first rest =>
      rw [renders_empty_iff h]
      constructor
      · rintro hall - first' rest' heq
        obtain ⟨rfl, rfl⟩ := List.cons_eq_cons.mp heq
        exact hall
      · exact fun hall => hall rfl first rest rfl

end Renders

section Fixed

open Eval

/-! ## One user, one backend and two -/

def sampleBackend (id : BackendID) : BackendSpec where
  id := id
  address := "198.51.100.7"
  port := 443

/-- One user on the first backend. -/
def sampleState (ids : List BackendID) : NodeState where
  inbound := { tag := "entry", listen := { port := 443 } }
  backends := ids.map sampleBackend
  placements := [{ id := "p", clientID := "c", backendNodeID := "n1", desired := .active }]

def sampleActions : EntryActions := { EntryActions.bare with configPath := "sing-box.json" }

theorem renders_closed_one_backend : ∃ outs,
    Renders sampleActions .empty [sampleState ["n1"], sampleState ["n1"]] outs ∧
      ∀ out ∈ outs, Closed out := by
  have h : Renders sampleActions .empty [sampleState ["n1"], sampleState ["n1"]] _ :=
    .cons rfl (.cons rfl (.nil _))
  refine ⟨_, h, (renders_closed_iff (fun j hj => by cases hj) h).mpr ?_⟩
  rintro - first rest heq s hs
  obtain ⟨rfl, rfl⟩ := List.cons_eq_cons.mp heq
  rw [List.mem_singleton.mp hs]
  decide +kernel

/-- The selector of the user keeps the outbound of the second backend, which nothing brings back. -/
theorem renders_dangling : ∃ outs,
    Renders sampleActions .empty [sampleState ["n1", "n2"], sampleState ["n1", "n2"]] outs ∧
      ∃ out ∈ outs, ¬ Closed out := by
  have h : Renders sampleActions .empty [sampleState ["n1", "n2"], sampleState ["n1", "n2"]] _ :=
    .cons rfl (.cons rfl (.nil _))
  refine ⟨_, h, ?_⟩
  by_contra hall
  push Not at hall
  have hbring := (renders_empty_iff h).mp hall _ List.mem_cons_self
  exact absurd hbring (by decide +kernel)

end Fixed

end NodeAgent.External
