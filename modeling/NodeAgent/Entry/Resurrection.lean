import NodeAgent.Entry.Users
import NodeAgent.Executor.RebuildSpec
import NodeAgent.Lib.Pool

/-!
# A rebuild next to a removal

`RebuildFromStore` and `SimpleApply` of a placement that is not live, interleaved call by call. The
rebuild adds the clients of a listing that may be older than the removal; which schedules bring a
removed client back?
-/

namespace NodeAgent.Entry

open Lib EntryProxyActions

/-! ## Events on the proxy's users -/

/-- The client is now among the users. -/
def userAdded (x : ClientID) : GoEvent → Bool
  | ⟨.addUser c _, none⟩ => c = x
  | _ => false

/-- The client has been taken off. -/
def userRemoved (x : ClientID) : GoEvent → Bool
  | ⟨.removeUser c, none⟩ => c = x
  | ⟨.restart _, _⟩ => true
  | _ => false

def isListing : GoEvent → Bool
  | ⟨.listPlacements, _⟩ => true
  | _ => false

def isPut : GoEvent → Bool
  | ⟨.putPlacement _, _⟩ => true
  | _ => false

section Users

variable {A : Env → Prop} {w w' : World} {tr : List GoEvent} {x : ClientID}

theorem mem_users_exec (c : Call) (e : Env) (w : World)
    (hno : userRemoved x ⟨c, (World.exec c e w).1⟩ = false) :
    x ∈ (World.exec c e w).2.proxy.users ↔
      x ∈ w.proxy.users ∨ userAdded x ⟨c, (World.exec c e w).1⟩ = true := by
  obtain ⟨fail, time, count, per, id, flag, order⟩ := e
  cases c with
  | addUser y flow =>
    cases fail with
    | some msg => simp [World.exec, Env.guarded, userAdded]
    | none =>
      cases h : w.proxy.addUser y flow with
      | error err => simp [World.exec, Env.guarded, World.ofProxy, userAdded, h]
      | ok p =>
        obtain ⟨-, hu, -, -⟩ := Proxy.addUser_ok h
        simp only [World.exec, Env.guarded, World.ofProxy, userAdded, h, hu, decide_eq_true_eq]
        rw [or_comm, eq_comm]
  | removeUser y =>
    cases fail with
    | some msg => simp [World.exec, Env.guarded, userAdded]
    | none =>
      have hne : x ≠ y := by
        simpa [World.exec, Env.guarded, userRemoved, eq_comm] using hno
      simp [World.exec, Env.guarded, userAdded, Proxy.mem_users_removeUser, hne]
  | selectBackend y b =>
    cases fail with
    | some msg => simp [World.exec, Env.guarded, userAdded]
    | none =>
      cases h : w.proxy.selectBackend y b with
      | error err => simp [World.exec, Env.guarded, World.ofProxy, userAdded, h]
      | ok p =>
        obtain ⟨-, hu, -, -⟩ := Proxy.selectBackend_ok h
        simp [World.exec, Env.guarded, World.ofProxy, userAdded, h, hu]
  | setUserBackends y ids =>
    cases fail with
    | some msg => simp [World.exec, Env.guarded, userAdded]
    | none =>
      cases h : w.proxy.setUserBackends y ids with
      | error err => simp [World.exec, Env.guarded, World.ofProxy, userAdded, h]
      | ok p =>
        obtain ⟨hu, -⟩ := Proxy.setUserBackends_ok h
        simp [World.exec, Env.guarded, World.ofProxy, userAdded, h, hu]
  | setBackends specs =>
    cases fail <;> simp [World.exec, Env.guarded, userAdded]
  | restart epoch => cases hno
  | _ =>
    rw [proxy_exec rfl]
    simp [userAdded]

/-- Without a removal the users are those from before and those added. -/
theorem steps_mem_users (h : Steps world A w tr w') (hno : tr.any (userRemoved x) = false) :
    x ∈ w'.proxy.users ↔ x ∈ w.proxy.users ∨ tr.any (userAdded x) = true := by
  induction tr generalizing w with
  | nil =>
    rw [steps_nil.mp h]
    simp
  | cons ev tr ih =>
    obtain ⟨c, r⟩ := ev
    obtain ⟨e, -, hr, hs⟩ := steps_cons.mp h
    rw [List.any_cons, Bool.or_eq_false_iff] at hno
    obtain rfl : (World.exec c e w).1 = r := hr
    rw [ih hs hno.2, List.any_cons, Bool.or_eq_true, ← or_assoc]
    exact or_congr_left (mem_users_exec c e w hno.1)

theorem not_mem_users_of_removed {e : Env} (h : (World.exec (.removeUser x) e w).1 = none) :
    x ∉ (World.exec (.removeUser x) e w).2.proxy.users := by
  obtain ⟨fail, _, _, _, _, _, _⟩ := e
  cases fail with
  | some msg => cases h
  | none => simp [World.exec, Env.guarded, Proxy.mem_users_removeUser]

end Users

/-! ## The events of the two -/

section Programs

variable {reg : Registry} {d : Placement} {tr : List GoEvent}

theorem exists_of_any_userAdded {x : ClientID} (h : tr.any (userAdded x) = true) :
    ∃ ev ∈ tr, ∃ flow, ev.call = .addUser x flow := by
  obtain ⟨ev, hev, hx⟩ := List.any_eq_true.mp h
  unfold userAdded at hx
  split at hx
  · rw [decide_eq_true_eq] at hx
    subst hx
    exact ⟨_, hev, _, rfl⟩
  · cases hx

/-- The events of a `SimpleApply` that takes a client off: it is stale, or it removes and stores. -/
theorem simpleApply_events (hd : d.live = false) (h : (simpleApply reg d).After tr (.done none)) :
    ∃ found, (tr = [⟨.getPlacement d.id, .ok found⟩] ∧
        d.opVersion ≠ 0 ∧ (found.getD {}).opVersion ≥ d.opVersion) ∨
      ∃ t, tr = [⟨.getPlacement d.id, .ok found⟩, ⟨.now, t⟩, ⟨.removeUser d.clientID, none⟩,
          ⟨.putPlacement (d.stamp .ok t), none⟩] ∧
        ¬ (d.opVersion ≠ 0 ∧ (found.getD {}).opVersion ≥ d.opVersion) := by
  obtain ⟨found, hstale | ⟨t, mid, rfl, hfresh, hmid⟩⟩ := simpleApply_done h
  · exact ⟨found, .inl hstale⟩
  · refine ⟨found, .inr ⟨t, ?_, hfresh⟩⟩
    rw [if_neg (by simp [hd])] at hmid
    obtain ⟨r, tr₁, rfl, h₁⟩ := Prog.after_invoke_done_iff.mp hmid
    cases r with
    | some err => simp at h₁
    | none =>
      obtain ⟨rfl, -⟩ := Prog.after_done_iff.mp h₁
      rfl

end Programs

/-! ## Both of them -/

/-- An event that neither stores nor deletes a record nor takes off a user. -/
def Calm (ev : GoEvent) : Prop :=
  ev.call.writesStore = false ∧ isPut ev = false ∧ ∀ x, userRemoved x ev = false

theorem calm_of_rebuild {ev : GoEvent} (h : RebuildProxyCall ev.call) : Calm ev := by
  obtain ⟨c, r⟩ := ev
  cases c <;> first | exact absurd h id | exact ⟨rfl, rfl, fun _ => rfl⟩

section Pool

variable {A : Env → Prop} {reg : Registry} {d : Placement} {w w' : World} {tr : List GoEvent}

theorem any_eq_false_of_calm (h : ∀ ev ∈ tr, Calm ev) :
    tr.any isPut = false ∧ ∀ x, tr.any (userRemoved x) = false := by
  refine ⟨List.any_eq_false.mpr fun ev hev => ?_, fun x => List.any_eq_false.mpr fun ev hev => ?_⟩
  · rw [(h ev hev).2.1]
    exact Bool.false_ne_true
  · rw [(h ev hev).2.2 x]
    exact Bool.false_ne_true

theorem listing_of_mem (h : Steps world A w tr w') (hcalm : ∀ ev ∈ tr, Calm ev)
    {all : List Placement} (hmem : (⟨.listPlacements, .ok all⟩ : GoEvent) ∈ tr) :
    all = w.store.list :=
  listing_of_steps h (fun ev hev => (hcalm ev hev).1) hmem

theorem read_of_mem (h : Steps world A w tr w') (hcalm : ∀ ev ∈ tr, Calm ev) {id : PlacementID}
    {found : Option Placement} (hmem : (⟨.getPlacement id, .ok found⟩ : GoEvent) ∈ tr) :
    found = w.store.get id := by
  obtain ⟨tr₁, tr₂, w₁, e, rfl, h₁, -, hr, -⟩ := h.split_mem hmem
  have hst : w₁.store = w.store :=
    steps_store h₁ fun ev hev => (hcalm ev (List.mem_append_left _ hev)).1
  rw [← hst]
  exact exec_getPlacement hr

/-- A rebuild next to a `SimpleApply`. -/
def rebuildNextTo (reg : Registry) (d : Placement) : List (Go Err) :=
  [rebuildFromStore reg, simpleApply reg d]

/-- The listing is taken before the removal is stored, and the client is added after it was taken
off. -/
def Resurrects (x : ClientID) (tr : List GoEvent) : Prop :=
  before isListing isPut tr = true ∧ before (userRemoved x) (userAdded x) tr = true

theorem calm_part {trs part : List (Tagged ports)} {ts' : List (Go Err)}
    (h : Interleave (rebuildNextTo reg d) trs ts') (hsub : part ⊆ trs)
    (hone : ∀ ev ∈ eventsOf 1 part, Calm ev) : ∀ ev ∈ part.map Prod.snd, Calm ev := by
  obtain ⟨q, -, hafter⟩ := h.after (i := 0) rfl
  intro ev hev
  obtain ⟨⟨i, ev'⟩, hmem, rfl⟩ := List.mem_map.mp hev
  have hi := h.lt_of_mem (hsub hmem)
  rcases i with _ | _ | i
  · exact calm_of_rebuild ((rebuild_events hafter).1 ev' (mem_eventsOf.mpr (hsub hmem)))
  · exact hone ev' (mem_eventsOf.mpr hmem)
  · simp [rebuildNextTo] at hi

/-- Whom the rebuild adds has a live placement in a listing of the trace. -/
theorem listing_of_userAdded {trs : List (Tagged ports)} {ts' : List (Go Err)}
    (h : Interleave (rebuildNextTo reg d) trs ts') (hd : d.live = false)
    (hdone : ts'[1]? = some (.done none)) {x : ClientID}
    (hx : (trs.map Prod.snd).any (userAdded x) = true) :
    ∃ all, (⟨.listPlacements, .ok all⟩ : GoEvent) ∈ trs.map Prod.snd ∧
      ∃ p ∈ all, p.live = true ∧ p.clientID = x := by
  obtain ⟨ev, hev, flow, hc⟩ := exists_of_any_userAdded hx
  obtain ⟨⟨i, ev'⟩, hmem, rfl⟩ := List.mem_map.mp hev
  have hi := h.lt_of_mem hmem
  rcases i with _ | _ | i
  · obtain ⟨q, -, hafter⟩ := h.after (i := 0) rfl
    obtain ⟨all, hall, hp⟩ := (rebuild_events hafter).2 x flow ev' (mem_eventsOf.mpr hmem) hc
    exact ⟨all, List.mem_map.mpr ⟨(0, _), mem_eventsOf.mp hall, rfl⟩, hp⟩
  · -- the other one adds nobody
    obtain ⟨q, hq, hafter⟩ := h.after (i := 1) rfl
    rw [hdone] at hq
    cases hq
    have hev' : ev' ∈ eventsOf 1 trs := mem_eventsOf.mpr hmem
    obtain ⟨found, ⟨heq, -⟩ | ⟨t, heq, -⟩⟩ := simpleApply_events hd hafter
    · rw [heq, List.mem_singleton] at hev'
      rw [hev'] at hc
      cases hc
    · rw [heq] at hev'
      simp only [List.mem_cons, List.not_mem_nil, or_false] at hev'
      rcases hev' with rfl | rfl | rfl | rfl <;> cases hc
  · simp [rebuildNextTo] at hi

/-- A stale command changes nothing, and the rebuild adds only clients that are live. -/
theorem users_live_of_calm {trs : List (Tagged ports)} {ts' : List (Go Err)} (hd : d.live = false)
    (hw : UsersAgree w) (h : Pool world A (rebuildNextTo reg d) w trs ts' w')
    (hdone : ts'[1]? = some (.done none)) (hcalm : ∀ ev ∈ trs.map Prod.snd, Calm ev) :
    ∀ x ∈ w'.proxy.users, w'.store.LiveClient x := by
  intro x hx
  rw [steps_store h.2 fun ev hev => (hcalm ev hev).1]
  rw [steps_mem_users h.2 ((any_eq_false_of_calm hcalm).2 x)] at hx
  rcases hx with hx | hx
  · exact (hw x).mp hx
  · obtain ⟨all, hall, p, hp, hlive⟩ := listing_of_userAdded h.1 hd hdone hx
    rw [listing_of_mem h.2 hcalm hall] at hp
    exact ⟨p, hp, hlive⟩

theorem liveClient_put_iff (hd : d.live = false) (s : Store) (t : Time) (x : ClientID) :
    (s.put (d.stamp .ok t)).LiveClient x ↔ LiveElsewhere s d.id x := by
  unfold Store.LiveClient LiveElsewhere
  rw [s.exists_mem_list_put (d.stamp .ok t)]
  simp [hd]

/-- What the run of a fresh command, cut at its two effects, makes of the store and of the users. -/
structure FreshRun (d : Placement) (w w' : World) (a b c : List GoEvent) : Prop where
  live : ∀ x, w'.store.LiveClient x ↔ LiveElsewhere w.store d.id x
  other : ∀ x, x ≠ d.clientID →
    (x ∈ w'.proxy.users ↔ x ∈ w.proxy.users ∨ (a ++ b ++ c).any (userAdded x) = true)
  own : d.clientID ∈ w'.proxy.users ↔ (b ++ c).any (userAdded d.clientID) = true
  added : ∀ x, (a ++ b ++ c).any (userAdded x) = true →
    ((a ++ b).any isListing = true ∧ w.store.LiveClient x) ∨ LiveElsewhere w.store d.id x

theorem freshRun_of_steps {a b c : List GoEvent} {t : Time} (hd : d.live = false)
    (ha : ∀ ev ∈ a, Calm ev) (hb : ∀ ev ∈ b, Calm ev) (hc : ∀ ev ∈ c, Calm ev)
    (h : Steps world A w (a ++ ⟨.removeUser d.clientID, none⟩ :: (b ++
      ⟨.putPlacement (d.stamp .ok t), none⟩ :: c)) w')
    (hadd : ∀ x, (a ++ b ++ c).any (userAdded x) = true →
      ∃ all, (⟨.listPlacements, .ok all⟩ : GoEvent) ∈ a ++ b ++ c ∧
        ∃ p ∈ all, p.live = true ∧ p.clientID = x) : FreshRun d w w' a b c := by
  obtain ⟨w₁, h₁, e₁, -, hr₁, h₂⟩ := steps_append.mp h
  obtain ⟨w₃, h₃, e₃, -, hr₃, h₄⟩ := steps_append.mp h₂
  have hput := exec_putPlacement hr₃
  change Steps world A (World.exec (.removeUser d.clientID) e₁ w₁).2 _ w' at h₂
  -- the store: as at the start up to the put
  have hs₂ : (World.exec (.removeUser d.clientID) e₁ w₁).2.store = w.store := by
    rw [store_exec rfl]
    exact steps_store h₁ fun ev hev => (ha ev hev).1
  have hs₃ : w₃.store = w.store := by
    rw [← hs₂]
    exact steps_store h₃ fun ev hev => (hb ev hev).1
  have hs₄ : (World.exec (.putPlacement (d.stamp .ok t)) e₃ w₃).2.store =
      w.store.put (d.stamp .ok t) := by
    rw [hput, ← hs₃]
  refine ⟨?_, ?_, ?_, ?_⟩
  · intro x
    rw [steps_store h₄ fun ev hev => (hc ev hev).1]
    show Store.LiveClient (World.exec (.putPlacement (d.stamp .ok t)) e₃ w₃).2.store x ↔ _
    rw [hs₄]
    exact liveClient_put_iff hd w.store t x
  · -- nobody but the client of the command is taken off
    intro x hx
    have hrem : userRemoved x ⟨.removeUser d.clientID, none⟩ = false := by
      simpa [userRemoved] using Ne.symm hx
    rw [steps_mem_users h]
    · simp [userAdded]
    · simp only [List.any_append, List.any_cons, (any_eq_false_of_calm ha).2,
        (any_eq_false_of_calm hb).2, (any_eq_false_of_calm hc).2, hrem]
      rfl
  · rw [steps_mem_users h₂]
    · rw [or_iff_right (not_mem_users_of_removed hr₁)]
      simp [userAdded]
    · simp only [List.any_append, List.any_cons, (any_eq_false_of_calm hb).2,
        (any_eq_false_of_calm hc).2]
      rfl
  · -- whom the rebuild adds was live in the store before the put, or is live elsewhere
    intro x hx
    obtain ⟨all, hall, hp⟩ := hadd x hx
    rcases List.mem_append.mp hall with hab | hmem
    · refine .inl ⟨List.any_eq_true.mpr ⟨_, hab, rfl⟩, ?_⟩
      rcases List.mem_append.mp hab with hmem | hmem
      · rw [listing_of_mem h₁ ha hmem] at hp
        exact hp
      · rw [listing_of_mem h₃ hb hmem] at hp
        rw [← hs₂]
        exact hp
    · rw [listing_of_mem h₄ hc hmem] at hp
      change ∃ p ∈ (World.exec (.putPlacement (d.stamp .ok t)) e₃ w₃).2.store.list, _ at hp
      rw [hs₄] at hp
      exact .inr ((liveClient_put_iff hd w.store t x).mp hp)

theorem FreshRun.users_live_iff {a b c : List GoEvent} (h : FreshRun d w w' a b c) (hw : UsersAgree w) :
    (∀ x ∈ w'.proxy.users, w'.store.LiveClient x) ↔
      ∀ e, w.store.get d.id = some e → e.live = true →
        ¬ LiveElsewhere w.store d.id e.clientID →
        e.clientID = d.clientID ∧ ¬ ((a ++ b).any isListing = true ∧
          (b ++ c).any (userAdded d.clientID) = true) := by
  constructor
  · intro hall e he hel hnot
    have hin : e.clientID ∈ w.proxy.users :=
      (mem_users_iff hw d.id _).mpr (.inl ⟨e, he, hel, rfl⟩)
    have hcl : e.clientID = d.clientID := by
      by_contra hne
      exact hnot ((h.live _).mp (hall _ ((h.other _ hne).mpr (.inl hin))))
    refine ⟨hcl, fun ⟨_, hback⟩ => hnot ?_⟩
    rw [hcl]
    exact (h.live _).mp (hall _ (h.own.mpr hback))
  · intro hcond x hx
    rw [h.live]
    by_contra hnot
    -- such a client was live through the record that the command replaces
    have hrec : w.store.LiveClient x →
        ∃ e, w.store.get d.id = some e ∧ e.live = true ∧ e.clientID = x := fun hl =>
      ((mem_users_iff hw d.id x).mp ((hw x).mpr hl)).resolve_right hnot
    by_cases hxd : x = d.clientID
    · rw [hxd] at hx
      have hback := h.own.mp hx
      have hmem : (a ++ b ++ c).any (userAdded x) = true := by
        rw [hxd, List.append_assoc, List.any_append, hback, Bool.or_true]
      obtain ⟨hlisted, hl⟩ := (h.added x hmem).resolve_right hnot
      obtain ⟨e, he, hel, rfl⟩ := hrec hl
      exact (hcond e he hel hnot).2 ⟨hlisted, hback⟩
    · have hl : w.store.LiveClient x := by
        rcases (h.other x hxd).mp hx with hx | hx
        · exact (hw x).mp hx
        · exact ((h.added x hx).resolve_right hnot).2
      obtain ⟨e, he, hel, rfl⟩ := hrec hl
      exact hxd (hcond e he hel hnot).1

/-- What the cut says about the order of the calls. -/
theorem resurrects_cut_iff {a b c : List GoEvent} {y : ClientID} {p : Placement}
    (ha : ∀ ev ∈ a, Calm ev) (hb : ∀ ev ∈ b, Calm ev) (hc : ∀ ev ∈ c, Calm ev) :
    Resurrects y (a ++ ⟨.removeUser y, none⟩ :: (b ++ ⟨.putPlacement p, none⟩ :: c)) ↔
      (a ++ b).any isListing = true ∧ (b ++ c).any (userAdded y) = true := by
  have hlist : before isListing isPut
      ((a ++ ⟨.removeUser y, none⟩ :: b) ++ ⟨.putPlacement p, none⟩ :: c) =
      (a ++ ⟨.removeUser y, none⟩ :: b).any isListing :=
    before_of_unique_right rfl (any_eq_false_of_calm hc).1
  have hnone : (b ++ ⟨.putPlacement p, none⟩ :: c).any (userRemoved y) = false := by
    rw [List.any_append, List.any_cons, (any_eq_false_of_calm hb).2, (any_eq_false_of_calm hc).2]
    rfl
  have hback : before (userRemoved y) (userAdded y)
      (a ++ ⟨.removeUser y, none⟩ :: (b ++ ⟨.putPlacement p, none⟩ :: c)) =
      (b ++ ⟨.putPlacement p, none⟩ :: c).any (userAdded y) :=
    before_of_unique_left ((any_eq_false_of_calm ha).2 y) (decide_eq_true rfl) hnone
  unfold Resurrects
  rw [hback, ← List.cons_append, ← List.append_assoc, hlist]
  simp [isListing, userAdded]

/-- The trace cut at the removal and at the put of a command that is not skipped. -/
theorem exists_freshRun {trs : List (Tagged ports)} {found : Option Placement} {t : Time}
    (hd : d.live = false)
    (h : Pool world (Env.Allowed true) (rebuildNextTo reg d) w trs [.done none, .done none] w')
    (hev : eventsOf 1 trs = [⟨.getPlacement d.id, .ok found⟩, ⟨.now, t⟩,
      ⟨.removeUser d.clientID, none⟩, ⟨.putPlacement (d.stamp .ok t), none⟩]) :
    ∃ a b c, trs.map Prod.snd = a ++ ⟨.removeUser d.clientID, none⟩ ::
        (b ++ ⟨.putPlacement (d.stamp .ok t), none⟩ :: c) ∧
      (∀ ev ∈ a, Calm ev) ∧ (∀ ev ∈ b, Calm ev) ∧ (∀ ev ∈ c, Calm ev) ∧
      found = w.store.get d.id ∧ FreshRun d w w' a b c := by
  have hcut : eventsOf 1 trs = [⟨.getPlacement d.id, .ok found⟩, ⟨.now, t⟩] ++
      ⟨.removeUser d.clientID, none⟩ :: ([] ++ ⟨.putPlacement (d.stamp .ok t), none⟩ :: []) := hev
  obtain ⟨a, b, c, rfl, hea, heb, hec⟩ := exists_cuts_of_eventsOf_eq hcut
  have ha : ∀ ev ∈ a.map Prod.snd, Calm ev := by
    refine calm_part h.1 (List.subset_append_left _ _) fun ev hmem => ?_
    rw [hea] at hmem
    simp only [List.mem_cons, List.not_mem_nil, or_false] at hmem
    rcases hmem with rfl | rfl <;> exact ⟨rfl, rfl, fun _ => rfl⟩
  have hb : ∀ ev ∈ b.map Prod.snd, Calm ev := by
    refine calm_part h.1 (fun x hx => by simp [hx]) fun ev hmem => ?_
    rw [heb] at hmem
    cases hmem
  have hc : ∀ ev ∈ c.map Prod.snd, Calm ev := by
    refine calm_part h.1 (fun x hx => by simp [hx]) fun ev hmem => ?_
    rw [hec] at hmem
    cases hmem
  have hsteps : Steps world (Env.Allowed true) w (a.map Prod.snd ++
      ⟨.removeUser d.clientID, none⟩ :: (b.map Prod.snd ++
        ⟨.putPlacement (d.stamp .ok t), none⟩ :: c.map Prod.snd)) w' := by
    simpa using h.2
  obtain ⟨us, w₁, ⟨-, h₁⟩, -⟩ := pool_append.mp h
  have hget : (⟨.getPlacement d.id, .ok found⟩ : GoEvent) ∈ a.map Prod.snd :=
    List.mem_map.mpr ⟨(1, _), mem_eventsOf.mp (by rw [hea]; exact List.mem_cons_self), rfl⟩
  have hadd : ∀ x, (a.map Prod.snd ++ b.map Prod.snd ++ c.map Prod.snd).any (userAdded x) = true →
      ∃ all, (⟨.listPlacements, .ok all⟩ : GoEvent) ∈
        a.map Prod.snd ++ b.map Prod.snd ++ c.map Prod.snd ∧
        ∃ p ∈ all, p.live = true ∧ p.clientID = x := by
    intro x hx
    obtain ⟨all, hall, hp⟩ := listing_of_userAdded h.1 hd rfl (x := x) (by
      simp only [List.any_append, Bool.or_eq_true] at hx
      simp only [List.map_append, List.map_cons, List.any_append, List.any_cons, Bool.or_eq_true]
      tauto)
    refine ⟨all, ?_, hp⟩
    simp only [List.map_append, List.map_cons, List.mem_append, List.mem_cons, Event.mk.injEq,
      reduceCtorEq, false_and, false_or] at hall
    simp only [List.mem_append]
    tauto
  exact ⟨a.map Prod.snd, b.map Prod.snd, c.map Prod.snd, by simp, ha, hb, hc,
    read_of_mem h₁ ha hget, freshRun_of_steps hd ha hb hc hsteps hadd⟩

/-- Once both have returned nil, no client without a live placement is among the users, exactly
unless the command replaces the only live placement of a client and either names another client or
the rebuild brings its client back. -/
theorem no_resurrection_iff {trs : List (Tagged ports)} (hd : d.live = false) (hw : UsersAgree w)
    (h : Pool world (Env.Allowed true) (rebuildNextTo reg d) w trs [.done none, .done none] w') :
    (∀ x ∈ w'.proxy.users, w'.store.LiveClient x) ↔
      ∀ e, w.store.get d.id = some e → e.live = true → ¬ Stale w.store d →
        ¬ LiveElsewhere w.store d.id e.clientID →
        e.clientID = d.clientID ∧ ¬ Resurrects d.clientID (trs.map Prod.snd) := by
  obtain ⟨q, hq, hafter⟩ := h.1.after (i := 1) rfl
  cases hq
  obtain ⟨found, ⟨hev, hstale⟩ | ⟨t, hev, hfresh⟩⟩ := simpleApply_events hd hafter
  · have hcalm : ∀ ev ∈ trs.map Prod.snd, Calm ev := calm_part h.1 (List.Subset.refl _) fun ev hmem => by
      rw [hev, List.mem_singleton] at hmem
      rw [hmem]
      exact ⟨rfl, rfl, fun _ => rfl⟩
    have hget : (⟨.getPlacement d.id, .ok found⟩ : GoEvent) ∈ trs.map Prod.snd :=
      List.mem_map.mpr ⟨(1, _), mem_eventsOf.mp (by rw [hev]; exact List.mem_cons_self), rfl⟩
    rw [read_of_mem h.2 hcalm hget] at hstale
    exact iff_of_true (users_live_of_calm hd hw h rfl hcalm) fun e _ _ hns => absurd hstale hns
  · obtain ⟨a, b, c, hmap, ha, hb, hc, rfl, hrun⟩ := exists_freshRun hd h hev
    rw [hrun.users_live_iff hw, hmap]
    simp only [resurrects_cut_iff ha hb hc]
    exact forall_congr' fun e => forall₂_congr fun _ _ =>
      ⟨fun hx _ => hx, fun hx => hx hfresh⟩

end Pool

/-- Client `c` is served, through its only placement. -/
def oneUser : World where
  store := Store.empty.put (ofClient "p" .active 1)
  proxy := servingOne

theorem usersAgree_oneUser : UsersAgree oneUser := by
  intro x
  have hlist : oneUser.store.list = [ofClient "p" .active 1] := by rfl
  unfold Store.LiveClient
  rw [hlist]
  show x ∈ (∅ : GoMap String).insert "c" "" ↔ _
  rw [GoMap.mem_insert]
  constructor
  · rintro (rfl | hx)
    · exact ⟨_, List.mem_singleton.mpr rfl, rfl, rfl⟩
    · simp at hx
  · rintro ⟨p, hp, -, rfl⟩
    rw [List.mem_singleton.mp hp]
    exact .inl rfl

/-- The rebuild is over before the placement is taken back. -/
def rebuildFirst : List (ℕ × Env) := List.replicate 6 (0, default) ++ List.replicate 4 (1, default)

theorem no_resurrection_rebuild_first : ∃ trs w',
    Pool world (Env.Allowed true) (rebuildNextTo .new (ofClient "p" .inactive 2)) oneUser trs
      [.done none, .done none] w' ∧
    ∀ x ∈ w'.proxy.users, w'.store.LiveClient x := by
  have hpool : Pool world (Env.Allowed true) (rebuildNextTo .new (ofClient "p" .inactive 2)) oneUser
      (schedule world (rebuildNextTo .new (ofClient "p" .inactive 2)) rebuildFirst oneUser).1
      [.done none, .done none] _ :=
    pool_schedule rebuildFirst (fun x _ => x.2.allowed_true) oneUser
  refine ⟨_, _, hpool, (no_resurrection_iff rfl usersAgree_oneUser hpool).mpr ?_⟩
  intro e he _ _ _
  cases he
  refine ⟨rfl, fun hres => absurd hres.2 ?_⟩
  decide

/-- The placement is taken back between the listing and the rest of the rebuild. -/
def listedBefore : List (ℕ × Env) :=
  List.replicate 2 (0, default) ++ List.replicate 4 (1, default) ++ List.replicate 4 (0, default)

theorem rebuild_resurrects_user : UsersAgree oneUser ∧ ∃ trs w',
    Pool world (Env.Allowed true) (rebuildNextTo .new (ofClient "p" .inactive 2)) oneUser trs
      [.done none, .done none] w' ∧
    "c" ∈ w'.proxy.users ∧ ¬ w'.store.LiveClient "c" := by
  refine ⟨usersAgree_oneUser, _, _,
    pool_schedule listedBefore (fun x _ => x.2.allowed_true) oneUser, ?_, ?_⟩
  · decide
  · decide

end NodeAgent.Entry
