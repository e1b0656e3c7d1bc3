import NodeAgent.ApplierEvents
import NodeAgent.Executor.BackendExecutor
import NodeAgent.Xray.Memberships

/-!
# The users of a backend's inbounds

The backend executor over the xray client: it looks at one placement and calls xray when that placement
becomes live or ceases to be. Which users an inbound should have also depends on the client, on the
transport and on the other placements of the client.

1. `Node.exec` runs the client's programs where the agent calls xray.
2. `ensures_handle_members`: what one command does to the store and to xray, `Moved`.
3. `Follows` is kept by every step that `Fits`; it also says who is in the mirror.
-/

namespace NodeAgent.Backend

open Lib

/-! ## A node with its xray -/

/-- What the environment chooses for one call: also the orders in which the client ranges over its tags. -/
structure Choice where
  env : Env := {}
  orders : List Xray.Order := []

instance : Inhabited Choice := ⟨{}⟩

/-- A backend node: the world of the agent, and its xray server. -/
structure Node where
  world : World := {}
  xray : Xray.Server := Xray.Client.noUsers

def Node.exec (c : Xray.Client) : (call : Call) → Choice → Node → Reply call × Node
  | .xrayAddUser user, e, n =>
    let o := replay Xray.server (c.addUser user) e.orders n.xray
    (o.2.1, { n with xray := o.2.2 })
  | .xrayRemoveUser clientID, e, n =>
    let o := replay Xray.server (c.removeUser clientID) e.orders n.xray
    (o.2.1, { n with xray := o.2.2 })
  | call, e, n =>
    let o := World.exec call e.env n.world
    (o.1, { n with world := o.2 })

/-- The node as an environment of the agent's calls. -/
def node (c : Xray.Client) : Handler ports Choice Node where
  exec := Node.exec c

/-- The store and the bus do not fail. -/
def NoFault (e : Choice) : Prop := e.env.fail = none

theorem node_exec {c : Xray.Client} {call : Call} (h : call.writesXray = false) (e : Choice) (n : Node) :
    Node.exec c call e n =
      ((World.exec call e.env n.world).1, { n with world := (World.exec call e.env n.world).2 }) := by
  cases call with
  | xrayAddUser user => cases h
  | xrayRemoveUser clientID => cases h
  | _ => rfl

/-- Whatever the environment chooses, the program ends with `Q` of the store and of xray. -/
abbrev Leaves {α : Type} (c : Xray.Client) (p : Go α) (Q : α → Store → Xray.Server → Prop) (n : Node) :
    Prop :=
  wp (node c) NoFault p (fun _ r n' => Q r n'.world.store n'.xray) n

section Rules

variable {α : Type} {c : Xray.Client} {Q : α → Store → Xray.Server → Prop} {n : Node}

/-- The call touches neither the store nor xray. -/
def Idle (call : Call) : Prop := call.writesXray = false ∧ call.writesStore = false

theorem leaves_idle {call : Call} {k : Reply call → Go α} (hcall : Idle call)
    (h : ∀ r n', n'.world.store = n.world.store → n'.xray = n.xray → Leaves c (k r) Q n') :
    Leaves c (port call >>= k) Q n := by
  intro e _
  refine h _ _ ?_ ?_
  · show (Node.exec c call e n).2.world.store = _
    rw [node_exec hcall.1]
    exact store_exec hcall.2 e.env n.world
  · show (Node.exec c call e n).2.xray = _
    rw [node_exec hcall.1]

theorem leaves_all_idle {p : Go α} (hp : p.All Idle) :
    Leaves c p (fun _ st s => st = n.world.store ∧ s = n.xray) n := by
  refine wp_iff_run.mpr fun tr r n' hr => ?_
  have hall := hp.of_mem hr.1
  refine hr.2.invariant (I := fun m => m.world.store = n.world.store ∧ m.xray = n.xray)
    (fun ev hev e m _ _ hm => ?_) ⟨rfl, rfl⟩
  show (Node.exec c ev.call e m).2.world.store = _ ∧ (Node.exec c ev.call e m).2.xray = _
  rw [node_exec (hall ev hev).1]
  exact ⟨(store_exec (hall ev hev).2 e.env m.world).trans hm.1, hm.2⟩

theorem leaves_get {id : PlacementID} {k : Reply (.getPlacement id) → Go α}
    (h : Leaves c (k (.ok (n.world.store.get id))) Q n) : Leaves c (port (.getPlacement id) >>= k) Q n := by
  rintro ⟨⟨fail, _, _, _, _, _, _⟩, orders⟩ he
  cases he
  exact h

theorem leaves_put {p : Placement} {k : Reply (.putPlacement p) → Go α}
    (h : ∀ n', n'.world.store = n.world.store.put p → n'.xray = n.xray → Leaves c (k none) Q n') :
    Leaves c (port (.putPlacement p) >>= k) Q n := by
  rintro ⟨⟨fail, _, _, _, _, _, _⟩, orders⟩ he
  cases he
  exact h _ rfl rfl

theorem leaves_client {call : Call} {k : Reply call → Go α} {p : Xray.XGo (Reply call)} {r : Reply call}
    {s' : Xray.Server}
    (hexec : ∀ e, Node.exec c call e n = ((replay Xray.server p e.orders n.xray).2.1,
      { n with xray := (replay Xray.server p e.orders n.xray).2.2 }))
    (hp : Xray.Client.Ensures p (fun r' s'' => r' = r ∧ s'' = s') n.xray)
    (h : Leaves c (k r) Q { n with xray := s' }) : Leaves c (port call >>= k) Q n := by
  intro e _
  obtain ⟨hr, hs⟩ := wp_iff_run.mp hp _ _ _
    (run_replay (A := fun _ => True) trivial e.orders (fun _ _ => trivial) n.xray)
  show wp (node c) NoFault (k (Node.exec c call e n).1) _ (Node.exec c call e n).2
  rw [hexec, hr, hs]
  exact h

end Rules

/-! ## One command -/

/-- The stored record under the id of `d` is live. -/
def Was (st : Store) (d e : Placement) : Prop := st.get d.id = some e ∧ e.live = true

/-- What a command makes of the store and of xray. -/
inductive Moved (c : Xray.Client) (d : Placement) (st : Store) (s : Xray.Server) :
    Store → Xray.Server → Prop
  | skipped : Moved c d st s st s
  | stayed (t : Time) (same : d.live = true ↔ ∃ e, Was st d e) :
      Moved c d st s (st.put (d.stamp .ok t)) s
  | added (t : Time) (live : d.live = true) (new : ¬ ∃ e, Was st d e) :
      Moved c d st s (st.put (d.stamp .ok t)) (c.added ⟨d.clientID, d.transport⟩ s)
  | removed (t : Time) (dead : d.live = false) (e : Placement) (was : Was st d e) :
      Moved c d st s (st.put (d.stamp .ok t)) (s.without c.knownTags e.clientID)

/-- Who is in an inbound because of a placement. -/
def Serves (c : Xray.Client) (p : Placement) (tag : String) (u : ClientID) : Prop :=
  p.live = true ∧ p.clientID = u ∧ (c.tagFor p.transport = tag ∨ tag = c.mirrorTag ∧ tag ≠ "")

/-- Xray has the users that the store asks for, and the store has no record of a failure. -/
structure Follows (c : Xray.Client) (st : Store) (s : Xray.Server) : Prop where
  members : ∀ tag u, s.Has tag u ↔ ∃ p ∈ st.list, Serves c p tag u
  recorded : ∀ p ∈ st.list, p.applied = .ok ∧ p.clientID ≠ "" ∧ c.tagFor p.transport ≠ ""

/-- What is asked of a command's placement. -/
def Tagged (c : Xray.Client) (d : Placement) : Prop :=
  d.clientID ≠ "" ∧ d.transport.valid = true ∧ c.tagFor d.transport ≠ ""

instance (c : Xray.Client) (d : Placement) : Decidable (Tagged c d) := by
  unfold Tagged
  infer_instance

section Handle

variable {c : Xray.Client} {d : Placement} {st : Store} {s : Xray.Server} {n : Node}

theorem put_stamp_stamp (st : Store) (d : Placement) (a a' : AppliedState) (t t' : Time) :
    (st.put (d.stamp a t)).put (d.stamp a' t') = st.put (d.stamp a' t') := by
  refine Store.ext_get fun id => ?_
  rw [Store.get_put, Store.get_put, Store.get_put, Placement.stamp_id, Placement.stamp_id]
  split_ifs <;> rfl

theorem wasActive_iff (h : Follows c st s) :
    BackendExecutor.wasActive ((st.get d.id).getD {}) (st.get d.id).isSome = true ↔ ∃ e, Was st d e := by
  unfold BackendExecutor.wasActive Was
  cases hget : st.get d.id with
  | none => simp
  | some e =>
    have hok := (h.recorded e (Store.mem_list_of_get hget)).1
    simp [hok]

theorem Follows.exists_tag {e : Placement} (h : Follows c st s) (hw : Was st d e) :
    e.clientID ≠ "" ∧ c.tagFor e.transport ∈ c.knownTags ∧ s.Has (c.tagFor e.transport) e.clientID := by
  have hmem := Store.mem_list_of_get hw.1
  obtain ⟨-, hne, htag⟩ := h.recorded e hmem
  exact ⟨hne, Xray.Client.tagFor_mem htag, (h.members _ _).mpr ⟨e, hmem, hw.2, rfl, .inl rfl⟩⟩

theorem publishReport_idle {nodeID : NodeID} {cmd : Command} (state : AppliedState) (status : ReportStatus)
    (errStr : String) : (Applier.publishReport nodeID cmd state status errStr).All Idle := by
  refine Prog.All.mono (Applier.publishReport_reportCalls state status errStr) fun call hcall => ?_
  cases call <;> first | exact ⟨rfl, rfl⟩ | cases hcall

/-- The end of `Apply` and of `Handle`: the record is written twice. -/
theorem leaves_recorded {nodeID : NodeID} {cmd : Command} {k : Time → Err → Go (Bool × Err)}
    (hk : ∀ t, k t none = .done (false, none))
    (h : ∀ t, Moved c cmd.placement st s (n.world.store.put (cmd.placement.stamp .ok t)) n.xray) :
    Leaves c ((port .now >>= fun t => port (.putPlacement (cmd.placement.stamp .ok t)) >>= k t) >>=
      Applier.finish nodeID cmd) (fun _ st' s' => Moved c cmd.placement st s st' s') n := by
  refine leaves_idle ⟨rfl, rfl⟩ fun t n₁ hst₁ hs₁ => leaves_put fun n₂ hst₂ hs₂ => ?_
  show Leaves c (k t none >>= Applier.finish nodeID cmd) _ _
  rw [hk]
  refine leaves_idle ⟨rfl, rfl⟩ fun t' n₃ hst₃ hs₃ => leaves_put fun n₄ hst₄ hs₄ => ?_
  refine leaves_idle ⟨rfl, rfl⟩ fun _ n₅ hst₅ hs₅ => ?_
  refine wp_mono (leaves_all_idle (publishReport_idle _ _ _)) fun _ r n₆ h₆ => ?_
  rw [h₆.1, h₆.2, hst₅, hs₅, hst₄, hs₄, hst₃, hs₃, hst₂, hs₂, hst₁, hs₁, put_stamp_stamp]
  exact h t'

/-- What one command does, from a node whose xray follows its store. -/
theorem leaves_handle {nodeID : NodeID} {cmd : Command} (hfollows : Follows c n.world.store n.xray)
    (htagged : Tagged c cmd.placement) :
    Leaves c (Applier.handle nodeID BackendExecutor.executor (.ok cmd)) (fun _ st' s' =>
      Moved c cmd.placement n.world.store n.xray st' s' ∧
        (cmd.val.nodeID ≠ nodeID → st' = n.world.store ∧ s' = n.xray)) n := by
  unfold Applier.handle Applier.handleBy Applier.handleOwn
  dsimp only
  split_ifs with hnode
  · exact ⟨.skipped, fun _ => ⟨rfl, rfl⟩⟩
  rw [not_not] at hnode
  simp only [hnode, ne_eq, not_true_eq_false, false_imp_iff, and_true]
  refine leaves_idle ⟨rfl, rfl⟩ fun _ n₁ hst₁ hs₁ => leaves_get ?_
  rw [← hst₁, ← hs₁] at hfollows ⊢
  dsimp only
  have hskip : ∀ status, Leaves c (Applier.publishReport nodeID cmd
      ((n₁.world.store.get cmd.placement.id).getD {}).applied status "") (fun _ st' s' =>
        Moved c cmd.placement n₁.world.store n₁.xray st' s') n₁ := by
    intro status
    refine wp_mono (leaves_all_idle (publishReport_idle _ _ _)) fun _ _ n₂ h => ?_
    rw [h.1, h.2]
    exact .skipped
  split_ifs with hstale hdone
  · exact hskip _
  · exact hskip _
  show Leaves c (BackendExecutor.apply _ _ _ >>= _) _ _
  unfold BackendExecutor.apply
  rw [if_neg (not_or.mpr ⟨cmd.id_ne, htagged.1⟩), Prog.bind_assoc]
  have hwas := wasActive_iff (d := cmd.placement) hfollows
  unfold BackendExecutor.updateXray
  split_ifs with hadd hrem
  · refine leaves_client (fun _ => rfl)
      (Xray.Client.ensures_addUser_ok htagged.1 htagged.2.1 htagged.2.2) ?_
    refine leaves_recorded (fun _ => rfl) fun t => .added t hadd.1 fun hex => ?_
    rw [hwas.mpr hex] at hadd
    cases hadd.2
  · obtain ⟨e, he⟩ := hwas.mp hrem.2
    obtain ⟨hne, hknown, hhas⟩ := hfollows.exists_tag he
    rw [show (n₁.world.store.get cmd.placement.id).getD {} = e by rw [he.1]; rfl]
    refine leaves_client (fun _ => rfl) (Xray.Client.ensures_removeUser hne hknown hhas) ?_
    exact leaves_recorded (fun _ => rfl) fun t => .removed t hrem.1 e he
  · refine leaves_recorded (fun _ => rfl) fun t => .stayed t ?_
    rw [← hwas]
    cases hlive : cmd.placement.live <;> simp_all

end Handle

/-! ## What adding a user leaves -/

section Added

variable {c : Xray.Client} {s : Xray.Server} {tag : String} {v : ClientID} (user : XrayUser)

theorem tagFor_eq_of_unmirrored {t : TransportKind} (hm : ¬ (c.mirrorTag ≠ "" ∧ c.mirrorTag ≠ c.tagFor t))
    (tag : String) : tag = c.mirrorTag → tag ≠ "" → c.tagFor t = tag := by
  rintro rfl hne
  exact (not_not.mp fun h => hm ⟨hne, fun h' => h h'.symm⟩)

/-- A user who is neither in its inbound nor in the mirror gets into both. -/
theorem has_added_of_fresh (hfresh : ¬ s.Has (c.tagFor user.transport) user.clientID)
    (hmirror : c.mirrorTag ≠ "" → ¬ s.Has c.mirrorTag user.clientID) :
    (c.added user s).Has tag v ↔ (v = user.clientID ∧ (c.tagFor user.transport = tag ∨
      tag = c.mirrorTag ∧ tag ≠ "")) ∨ s.Has tag v := by
  unfold Xray.Client.added
  dsimp only
  split_ifs with hm
  · have hnot : ¬ (s.readd (c.tagFor user.transport) user.clientID c.knownTags
        (Xray.vlessFlowFor user.transport)).Has c.mirrorTag user.clientID := by
      rw [Xray.Server.has_readd]
      simp [hm.2, hmirror hm.1]
    rw [Xray.Server.has_readd, Xray.Server.has_readd]
    simp only [hnot, hfresh, false_and, not_false_eq_true, and_true]
    have htag : tag = c.mirrorTag → tag ≠ "" := fun h => h ▸ hm.1
    grind
  · rw [Xray.Server.has_readd]
    simp only [hfresh, false_and, not_false_eq_true, and_true]
    have hsame := tagFor_eq_of_unmirrored hm tag
    grind

/-- A user who is in its inbound is left in it and in the mirror only. -/
theorem has_added_of_there (hthere : s.Has (c.tagFor user.transport) user.clientID)
    (hknown : s.Has tag user.clientID → tag ∈ c.knownTags) :
    (c.added user s).Has tag v ↔ (v = user.clientID ∧ (c.tagFor user.transport = tag ∨
      tag = c.mirrorTag ∧ tag ≠ "")) ∨ v ≠ user.clientID ∧ s.Has tag v := by
  by_cases hv : v = user.clientID
  swap
  · unfold Xray.Client.added
    dsimp only
    split_ifs
    · rw [Xray.Server.has_readd, Xray.Server.has_readd]
      simp [hv]
    · rw [Xray.Server.has_readd]
      simp [hv]
  subst hv
  unfold Xray.Client.added
  dsimp only
  split_ifs with hm
  · have hnot : ¬ (s.readd (c.tagFor user.transport) user.clientID c.knownTags
        (Xray.vlessFlowFor user.transport)).Has c.mirrorTag user.clientID := by
      rw [Xray.Server.has_readd]
      simp [hm.2, hthere, Xray.Client.mirrorTag_mem hm.1]
    rw [Xray.Server.has_readd, Xray.Server.has_readd]
    simp only [hnot, hthere, false_and, not_false_eq_true, and_true, true_and]
    have hmir : tag = c.mirrorTag → tag ≠ "" := fun h => h ▸ hm.1
    grind
  · rw [Xray.Server.has_readd]
    simp only [hthere, and_true, true_and]
    have hsame := tagFor_eq_of_unmirrored hm tag
    grind

end Added

/-! ## Steps that fit -/

/-- The other live placements of a client. -/
def Others (st : Store) (d : Placement) (u : ClientID) (q : Placement) : Prop :=
  q ∈ st.list ∧ q.id ≠ d.id ∧ q.live = true ∧ q.clientID = u

/-- What the executor leaves out of account does not matter for the placement. -/
structure Fits (c : Xray.Client) (st : Store) (d : Placement) : Prop where
  /-- a placement that stays live keeps its client and its tag -/
  stays : ∀ e, Was st d e → d.live = true →
    e.clientID = d.clientID ∧ c.tagFor e.transport = c.tagFor d.transport
  /-- one that becomes live has the tag of the client's other ones, or, without a mirror, a tag that
  none of them has -/
  joins : d.live = true → (¬ ∃ e, Was st d e) →
    (∀ q, Others st d d.clientID q → c.tagFor q.transport = c.tagFor d.transport) ∨
      c.mirrorTag = "" ∧ ∀ q, Others st d d.clientID q → c.tagFor q.transport ≠ c.tagFor d.transport
  /-- one that ceases to be live is the last one of its client -/
  leaves : ∀ e, Was st d e → d.live = false → ∀ q, ¬ Others st d e.clientID q

section Step

variable {c : Xray.Client} {d : Placement} {st : Store} {s : Xray.Server}

/-- Who is in an inbound because of a placement with another id. -/
def ServesOther (c : Xray.Client) (st : Store) (d : Placement) (tag : String) (u : ClientID) : Prop :=
  ∃ p ∈ st.list, p.id ≠ d.id ∧ Serves c p tag u

theorem exists_serves_put (t : Time) (tag : String) (u : ClientID) :
    (∃ p ∈ (st.put (d.stamp .ok t)).list, Serves c p tag u) ↔ Serves c d tag u ∨ ServesOther c st d tag u :=
  Store.exists_mem_list_put st (d.stamp .ok t) fun p => Serves c p tag u

theorem Follows.has_iff (h : Follows c st s) (d : Placement) (tag : String) (u : ClientID) :
    s.Has tag u ↔ (∃ e, Was st d e ∧ Serves c e tag u) ∨ ServesOther c st d tag u := by
  rw [h.members, Store.exists_mem_list_iff st d.id]
  refine or_congr_left (exists_congr fun e => ?_)
  unfold Was
  exact ⟨fun ⟨he, hs⟩ => ⟨⟨he, hs.1⟩, hs⟩, fun ⟨he, hs⟩ => ⟨he.1, hs⟩⟩

theorem Follows.known (h : Follows c st s) {tag : String} {u : ClientID} (hhas : s.Has tag u) :
    tag ∈ c.knownTags := by
  obtain ⟨p, hp, -, -, rfl | ⟨rfl, hne⟩⟩ := (h.members tag u).mp hhas
  · exact Xray.Client.tagFor_mem (h.recorded p hp).2.2
  · exact Xray.Client.mirrorTag_mem hne

theorem recorded_put (h : Follows c st s) (htagged : Tagged c d) (t : Time) :
    ∀ p ∈ (st.put (d.stamp .ok t)).list, p.applied = .ok ∧ p.clientID ≠ "" ∧ c.tagFor p.transport ≠ "" := by
  intro p hp
  rw [Store.mem_list, Store.get_put] at hp
  split_ifs at hp
  · cases hp
    exact ⟨rfl, htagged.1, htagged.2.2⟩
  · exact h.recorded p (Store.mem_list.mpr hp)

/-- A user that joins. -/
theorem has_added (h : Follows c st s) (hfits : Fits c st d) (hlive : d.live = true)
    (hnew : ¬ ∃ e, Was st d e) (tag : String) (u : ClientID) :
    (c.added ⟨d.clientID, d.transport⟩ s).Has tag u ↔ Serves c d tag u ∨ ServesOther c st d tag u := by
  have hhas : ∀ tag u, s.Has tag u ↔ ServesOther c st d tag u := by
    intro tag u
    rw [h.has_iff d, or_iff_right]
    rintro ⟨e, he, -⟩
    exact hnew ⟨e, he⟩
  have hserves : Serves c d tag u ↔ u = d.clientID ∧
      (c.tagFor d.transport = tag ∨ tag = c.mirrorTag ∧ tag ≠ "") := by
    unfold Serves
    rw [hlive, eq_comm (a := u)]
    simp
  by_cases hthere : s.Has (c.tagFor d.transport) d.clientID
  · rw [has_added_of_there ⟨d.clientID, d.transport⟩ hthere h.known, hserves, ← hhas]
    dsimp only
    by_cases hu : u = d.clientID
    swap
    · simp [hu]
    subst hu
    simp only [ne_eq, not_true_eq_false, false_and, or_false, true_and]
    refine (or_iff_left_of_imp fun hin => ?_).symm
    -- the other placements of the client have this tag
    obtain ⟨q, hq, hid, hql, hqc, htag⟩ := (hhas tag d.clientID).mp hin
    rcases hfits.joins hlive hnew with hall | ⟨hmirror, hnone⟩
    · rw [← hall q ⟨hq, hid, hql, hqc⟩]
      exact htag
    · obtain ⟨q', hq', hid', hql', hqc', htag'⟩ := (hhas _ _).mp hthere
      rcases htag' with htag' | ⟨htag', hne⟩
      · exact absurd htag' (hnone q' ⟨hq', hid', hql', hqc'⟩)
      · exact absurd (htag'.trans hmirror) hne
  · have hfresh : c.mirrorTag ≠ "" → ¬ s.Has c.mirrorTag d.clientID := by
      intro hm hin
      obtain ⟨q, hq, hid, hql, hqc, -⟩ := (hhas _ _).mp hin
      rcases hfits.joins hlive hnew with hall | ⟨hmirror, -⟩
      · refine hthere ((hhas _ _).mpr ⟨q, hq, hid, hql, hqc, .inl ?_⟩)
        exact hall q ⟨hq, hid, hql, hqc⟩
      · exact hm hmirror
    rw [has_added_of_fresh ⟨d.clientID, d.transport⟩ hthere hfresh, hserves, hhas]

/-- Every way a command can go keeps xray in step with the store, if the command fits. -/
theorem Follows.moved {st' : Store} {s' : Xray.Server} (h : Follows c st s) (htagged : Tagged c d)
    (hfits : Fits c st d) (hmoved : Moved c d st s st' s') : Follows c st' s' := by
  cases hmoved with
  | skipped => exact h
  | stayed t same =>
    refine ⟨fun tag u => ?_, recorded_put h htagged t⟩
    rw [exists_serves_put, h.has_iff d]
    refine or_congr_left ⟨?_, fun hs => ?_⟩
    · rintro ⟨e, he, -, hc, htag⟩
      have hlive := same.mpr ⟨e, he⟩
      obtain ⟨hclient, htags⟩ := hfits.stays e he hlive
      exact ⟨hlive, hclient ▸ hc, htags ▸ htag⟩
    · obtain ⟨e, he⟩ := same.mp hs.1
      obtain ⟨hclient, htags⟩ := hfits.stays e he hs.1
      exact ⟨e, he, he.2, hclient.trans hs.2.1, htags ▸ hs.2.2⟩
  | added t live new =>
    refine ⟨fun tag u => ?_, recorded_put h htagged t⟩
    rw [exists_serves_put]
    exact has_added h hfits live new tag u
  | removed t dead e was =>
    refine ⟨fun tag u => ?_, recorded_put h htagged t⟩
    have hdead : ¬ Serves c d tag u := fun hs => Bool.false_ne_true (dead.symm.trans hs.1)
    rw [exists_serves_put, or_iff_right hdead, Xray.Server.has_without]
    constructor
    · rintro ⟨hin, hout⟩
      rcases (h.has_iff d tag u).mp hin with ⟨e', he', hs⟩ | hother
      · have heq : e' = e := Option.some.inj (he'.1.symm.trans was.1)
        exact absurd ⟨h.known hin, heq ▸ hs.2.1.symm⟩ hout
      · exact hother
    · intro hother
      refine ⟨(h.has_iff d tag u).mpr (.inr hother), ?_⟩
      rintro ⟨-, rfl⟩
      obtain ⟨q, hq, hid, hql, hqc, -⟩ := hother
      exact hfits.leaves e was dead q ⟨hq, hid, hql, hqc⟩

end Step

/-! ## Runs -/

/-- The placement puts its client into the inbound. -/
def Wants (c : Xray.Client) (p : Placement) (tag : String) (u : ClientID) : Prop :=
  p.desired = .active ∧ p.isRevoked = false ∧ p.clientID = u ∧ c.tagFor p.transport = tag

instance (c : Xray.Client) (p : Placement) (tag : String) (u : ClientID) : Decidable (Wants c p tag u) := by
  unfold Wants
  infer_instance

theorem Follows.wants {c : Xray.Client} {st : Store} {s : Xray.Server} (h : Follows c st s) {tag : String}
    (htag : tag ≠ c.mirrorTag) (u : ClientID) : s.Has tag u ↔ ∃ p ∈ st.list, Wants c p tag u := by
  rw [h.members]
  refine exists_congr fun p => and_congr_right fun _ => ?_
  unfold Serves Wants
  rw [Placement.live_iff, and_assoc]
  simp [htag]

/-- From an empty store and an empty xray, the users of every inbound but the mirror are those that the
store asks for, after each command of a run whose commands all fit. -/
theorem members_follow_store {c : Xray.Client} {nodeID : NodeID} {n' : Node}
    {ts : List (Turn ports Node Command Err)}
    (h : Session (node c) NoFault (fun cmd => Applier.handle nodeID BackendExecutor.executor (.ok cmd)) {}
      ts n')
    (htagged : ∀ t ∈ ts, Tagged c t.input.placement)
    (hfits : ∀ t ∈ ts, t.input.val.nodeID = nodeID → Fits c t.before.world.store t.input.placement) :
    ∀ t ∈ ts, ∀ tag, tag ≠ c.mirrorTag → ∀ u,
      t.after.xray.Has tag u ↔ ∃ p ∈ t.after.world.store.list, Wants c p tag u := by
  have hempty : Follows c (Node.world {}).store (Node.xray {}) := by
    refine ⟨fun tag u => iff_of_false Bool.false_ne_true ?_, ?_⟩
    · rintro ⟨p, hp, -⟩
      cases (Store.get_empty p.id).symm.trans (Store.mem_list.mp hp)
    · intro p hp
      cases (Store.get_empty p.id).symm.trans (Store.mem_list.mp hp)
  have hall := h.invariant (I := fun n => Follows c n.world.store n.xray)
    (C := fun t => Tagged c t.input.placement ∧
      (t.input.val.nodeID = nodeID → Fits c t.before.world.store t.input.placement))
    hempty (fun t ht => ⟨htagged t ht, hfits t ht⟩) fun t hrun hI hC => by
      obtain ⟨hmoved, hother⟩ := wp_iff_run.mp (leaves_handle hI hC.1) _ _ _ hrun
      by_cases hnode : t.input.val.nodeID = nodeID
      · exact hI.moved hC.1 (hC.2 hnode) hmoved
      · obtain ⟨hst, hs⟩ := hother hnode
        rw [hst, hs]
        exact hI
  intro t ht tag htag u
  exact (hall.2 t ht).2.1.wants htag u

theorem nodup_no_tags : (([] : List (TransportKind × String)).map Prod.fst).Nodup := List.nodup_nil

theorem no_tags_ne : ∀ x ∈ ([] : List (TransportKind × String)), x.2 ≠ "" :=
  fun _ h => absurd h List.not_mem_nil

/-- One inbound for all transports, and no mirror. -/
def oneInbound : Xray.Client where
  inboundTag := "in"
  tagByXport := []
  mirrorTag := ""
  nodup := nodup_no_tags
  tag_ne := no_tags_ne

/-- A placement of client `c` on this node. -/
def ofClient (id : PlacementID) (desired : DesiredState) (opVersion : OpVersion) : Placement :=
  { id := id, nodeID := "n", clientID := "c", desired := desired, transport := .ws, opVersion := opVersion }

def membersRun (cmds : List Command) : List (Turn ports Node Command Err) × Node :=
  replaySession (node oneInbound) (fun cmd => Applier.handle "n" BackendExecutor.executor (.ok cmd))
    (cmds.map fun cmd => (cmd, [])) {}

theorem session_membersRun (cmds : List Command) : Session (node oneInbound) NoFault
    (fun cmd => Applier.handle "n" BackendExecutor.executor (.ok cmd)) {} (membersRun cmds).1
      (membersRun cmds).2 := by
  have hes : ∀ x ∈ cmds.map fun cmd => (cmd, ([] : List Choice)), ∀ e ∈ x.2, NoFault e := by
    intro x hx e he
    obtain ⟨cmd, -, rfl⟩ := List.mem_map.mp hx
    cases he
  exact session_replay (A := NoFault) rfl _ hes _

theorem fits_of_alone {c : Xray.Client} {st : Store} {d : Placement}
    (h : ∀ q ∈ st.list, q.id = d.id ∧ q.clientID = d.clientID ∧ q.transport = d.transport) : Fits c st d where
  stays e he _ := by
    obtain ⟨-, hclient, htransport⟩ := h e (Store.mem_list_of_get he.1)
    exact ⟨hclient, congrArg c.tagFor htransport⟩
  joins _ _ := .inl fun q hq => absurd (h q hq.1).1 hq.2.1
  leaves _ _ _ q hq := hq.2.1 (h q hq.1).1

/-- A placement comes and goes. -/
def comesAndGoes : List Command :=
  [.carrying (ofClient "p" .active 1), .carrying (ofClient "p" .inactive 2)]

theorem members_follow_comesAndGoes : (membersRun comesAndGoes).1.length = 2 ∧
    ∀ t ∈ (membersRun comesAndGoes).1, ∀ tag, tag ≠ "" → ∀ u,
      t.after.xray.Has tag u ↔ ∃ p ∈ t.after.world.store.list, Wants oneInbound p tag u := by
  refine ⟨by decide +kernel, members_follow_store (session_membersRun comesAndGoes) (by decide +kernel) ?_⟩
  intro t ht _
  refine fits_of_alone ?_
  revert t
  decide +kernel

/-- Two placements of one client; the first one goes. -/
def sharedClient : List Command :=
  [.carrying (ofClient "p" .active 1), .carrying (ofClient "q" .active 1),
   .carrying (ofClient "p" .inactive 2)]

/-- The user is removed although the other placement of the client is live. -/
theorem shared_client_removed : ∃ ts n', Session (node oneInbound) NoFault
    (fun cmd => Applier.handle "n" BackendExecutor.executor (.ok cmd)) {} ts n' ∧
      (∀ t ∈ ts, Tagged oneInbound t.input.placement) ∧
      ts.Pairwise (fun t t' => t.input.placement.id = t'.input.placement.id →
        t.input.placement.opVersion < t'.input.placement.opVersion) ∧
      "in" ≠ oneInbound.mirrorTag ∧ (∃ p ∈ n'.world.store.list, Wants oneInbound p "in" "c") ∧
      ¬ n'.xray.Has "in" "c" := by
  refine ⟨_, _, session_membersRun sharedClient, ?_, ?_, ?_, ?_, ?_⟩ <;> decide +kernel

end NodeAgent.Backend
