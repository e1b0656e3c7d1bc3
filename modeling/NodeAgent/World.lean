import NodeAgent.Lib.Exec
import NodeAgent.Ports
import NodeAgent.Store

/-!
# The world behind the ports

The state that the calls read and write, and what each call does to it. A call that can fail does
so when the environment says so, and then changes nothing.
-/

namespace NodeAgent

open Lib

/-! ## The world -/

/-- The external sing-box: the file, the running configuration, the selected outbounds. -/
structure SingBox where
  file : Singboxgen.BaseFile := .empty
  running : Singboxgen.BaseFile := .empty
  selected : GoMap String := ∅

/-- The outside of the agent: store, proxy, xray, sing-box, and what the agent keeps in memory. -/
structure World where
  store : Store := .empty
  proxy : Proxy := .new
  /-- `EntryProxyActions.pending` -/
  pending : Bool := false
  /-- `EntryProxyActions.users` -/
  users : ℕ := 0
  /-- `int64`: when the proxy's process was started, and `lastEpoch` of `runEntryProxyResync` -/
  epoch : ℤ := 1
  lastEpoch : ℤ := 0
  singbox : SingBox := {}
  /-- the coalescer's channel, the next ticket, the answered tickets -/
  queue : List RenderReq := []
  nextTicket : ℕ := 0
  answers : List (ℕ × Err) := []
  xray : GoMap TransportKind := ∅
  seen : Seen := {}
  /-- each an `atomic.Uint32` -/
  counters : Counter → ℕ := fun _ => 0
  completed : Bool := false

instance : Inhabited World := ⟨{}⟩

/-- What the environment chooses for one call; a failure is a plain error with some text. -/
structure Env where
  fail : Option String := none
  time : Time := 0
  count : ℕ := 0
  perOutbound : List (String × ℕ) := []
  id : String := "id"
  flag : Bool := false
  order : (l : List String) → {l' : List String // l'.Perm l} := fun l => ⟨l, List.Perm.refl l⟩

instance : Inhabited Env := ⟨{}⟩

/-- The error a call reports that returns nothing else. -/
def Env.err (e : Env) : Err := e.fail.map .new

/-- With `faults` off, no call fails. -/
def Env.Allowed (faults : Bool) (e : Env) : Prop := faults = false → e.fail = none

theorem Env.allowed_true (e : Env) : Env.Allowed true e := fun h => by cases h

theorem Env.allowed_default (faults : Bool) : Env.Allowed faults default := fun _ => rfl

/-! ## What a call does -/

/-- A call that fails if the environment says so and otherwise ends as given. -/
def Env.guarded (e : Env) (w : World) (ok : Err × World) : Err × World :=
  match e.fail with
  | some msg => (some (.new msg), w)
  | none => ok

/-- The outcome of a proxy call that checks its arguments. -/
def World.ofProxy (w : World) : Except GoError Proxy → Err × World
  | .error err => (some err, w)
  | .ok p => (none, { w with proxy := p })

/-- The critical section of `trackSeen`; writing to the nil map panics, reported as `false`. -/
def Seen.track (s : Seen) (snapshotID : String) (ids : List PlacementID) : Bool × Seen :=
  let cur : Seen := if s.snap ≠ snapshotID then ⟨some [], snapshotID⟩ else s
  match cur.ids, ids with
  | some seen, _ => (true, { cur with ids := some (seen ++ ids) })
  | none, [] => (true, cur)
  | none, _ :: _ => (false, cur)

/-- What a call does. The environment decides whether it fails, and what the clock and the maps say. -/
def World.exec : (c : Call) → Env → World → Reply c × World
  | .getPlacement id, e, w =>
    (match e.fail with
      | some msg => .error (.new msg)
      | none => .ok (w.store.get id), w)
  | .putPlacement p, e, w => e.guarded w (none, { w with store := w.store.put p })
  | .deletePlacement id, e, w => e.guarded w (none, { w with store := w.store.delete id })
  | .listPlacements, e, w =>
    (match e.fail with
      | some msg => .error (.new msg)
      | none => .ok w.store.list, w)
  | .now, e, w => (e.time, w)
  | .sleep _, e, w => (e.err, w)
  | .ctxErr, e, w => (e.err, w)
  | .newID, e, w => (e.id, w)
  | .publish _, e, w => (e.err, w)
  | .rangeOrder keys, e, w => (e.order keys, w)
  | .setBackends specs, e, w => e.guarded w (none, { w with proxy := w.proxy.setBackends specs })
  | .addUser clientID flow, e, w => e.guarded w (w.ofProxy (w.proxy.addUser clientID flow))
  | .removeUser clientID, e, w =>
    e.guarded w (none, { w with proxy := w.proxy.removeUser clientID })
  | .selectBackend clientID backendID, e, w =>
    e.guarded w (w.ofProxy (w.proxy.selectBackend clientID backendID))
  | .setUserBackends clientID backendIDs, e, w =>
    e.guarded w (w.ofProxy (w.proxy.setUserBackends clientID backendIDs))
  | .backendConnections _, e, w =>
    (match e.fail with
      | some msg => .error (.new msg)
      | none => .ok e.count, w)
  | .dial _ _, e, w => (e.flag, w)
  | .loadPending, _, w => (w.pending, w)
  | .storePending b, _, w => ((), { w with pending := b })
  | .storeUsers n, _, w => ((), { w with users := n })
  | .epoch, e, w =>
    (match e.fail with
      | some msg => .error (.new msg)
      | none => .ok w.epoch, w)
  | .restart epoch, _, w => ((), { w with proxy := .new, epoch := epoch })
  | .storeEpoch epoch, _, w => ((), { w with lastEpoch := epoch })
  | .validateBackend _, e, w => (e.err, w)
  | .swapRoute _, e, w => (e.err, w)
  | .oldBackendConnections _, e, w =>
    (match e.fail with
      | some msg => .error (.new msg)
      | none => .ok e.count, w)
  | .oldBackendReachable _, e, w => (e.flag, w)
  | .coolOldBackend _, e, w => (e.err, w)
  | .readConfig, e, w =>
    (match e.fail with
      | some msg => .error (.new msg)
      | none => .ok w.singbox.file, w)
  | .writeConfig cfg, e, w =>
    e.guarded w (none, { w with singbox := { w.singbox with file := .json cfg.toJson } })
  | .reload, e, w =>
    e.guarded w (none, { w with singbox := { w.singbox with running := w.singbox.file } })
  | .selectOutbound tag target, e, w =>
    e.guarded w (none,
      { w with singbox := { w.singbox with selected := w.singbox.selected.insert tag target } })
  | .connections, e, w =>
    (match e.fail with
      | some msg => .error (.new msg)
      | none => .ok e.perOutbound, w)
  | .submit overlay, e, w =>
    match e.fail with
    | some msg => (.error (.new msg), w)
    | none => (.ok w.nextTicket,
        { w with queue := w.queue ++ [⟨w.nextTicket, overlay⟩], nextTicket := w.nextTicket + 1 })
  | .poll ticket, _, w => (w.answers.lookup ticket, w)
  | .receive timer, e, w =>
    match e.fail with
    | some msg => (.cancelled (.new msg), w)
    | none =>
      if timer && e.flag then (.flushTimer, w)
      else match w.queue with
        | req :: rest => (.request req, { w with queue := rest })
        | [] => (.idle, w)
  | .answer ticket err, _, w => ((), { w with answers := (ticket, err) :: w.answers })
  | .xrayAddUser user, e, w =>
    e.guarded w (none, { w with xray := w.xray.insert user.clientID user.transport })
  | .xrayRemoveUser clientID, e, w =>
    e.guarded w (none, { w with xray := w.xray.erase clientID })
  | .trackSeen snapshotID ids, _, w =>
    ((w.seen.track snapshotID ids).1, { w with seen := (w.seen.track snapshotID ids).2 })
  | .takeSeen, _, w => (w.seen, { w with seen := {} })
  | .loadSyncedItems, _, w => (w.counters .syncedItems, w)
  | .storeCompleted, _, w => ((), { w with completed := true })
  | .count c n, _, w =>
    ((), { w with counters := fun d => if d = c then (w.counters d + n) % 2 ^ 32 else w.counters d })

/-- The outside as the environment of the agent's programs. -/
def world : Handler ports Env World where
  exec := World.exec

/-! ## What a call leaves alone -/

/-- The calls that change the store, and below those that change the other parts. -/
def Call.writesStore : Call → Bool
  | .putPlacement _ => true
  | .deletePlacement _ => true
  | _ => false

def Call.writesSeen : Call → Bool
  | .trackSeen _ _ => true
  | .takeSeen => true
  | _ => false

def Call.writesProxy : Call → Bool
  | .setBackends _ => true
  | .addUser _ _ => true
  | .removeUser _ => true
  | .selectBackend _ _ => true
  | .setUserBackends _ _ => true
  | .restart _ => true
  | _ => false

def Call.writesXray : Call → Bool
  | .xrayAddUser _ => true
  | .xrayRemoveUser _ => true
  | _ => false

theorem Env.guarded_keeps {X : Type} (f : World → X) (e : Env) {w : World} {ok : Err × World}
    (h : f ok.2 = f w) : f (e.guarded w ok).2 = f w := by
  unfold Env.guarded
  split
  · rfl
  · exact h

theorem store_exec {c : Call} (h : c.writesStore = false) (e : Env) (w : World) :
    (World.exec c e w).2.store = w.store := by
  have hproxy : ∀ x, (w.ofProxy x).2.store = w.store := fun x => by cases x <;> rfl
  cases c with
  | putPlacement p => cases h
  | deletePlacement x => cases h
  | submit overlay => simp only [World.exec]; split <;> rfl
  | receive timer => simp only [World.exec]; split <;> (try split_ifs) <;> (try split) <;> rfl
  | _ => first
    | rfl
    | exact e.guarded_keeps World.store rfl
    | exact e.guarded_keeps World.store (hproxy _)

theorem seen_exec {c : Call} (h : c.writesSeen = false) (e : Env) (w : World) :
    (World.exec c e w).2.seen = w.seen := by
  have hproxy : ∀ x, (w.ofProxy x).2.seen = w.seen := fun x => by cases x <;> rfl
  cases c with
  | trackSeen s l => cases h
  | takeSeen => cases h
  | submit overlay => simp only [World.exec]; split <;> rfl
  | receive timer => simp only [World.exec]; split <;> (try split_ifs) <;> (try split) <;> rfl
  | _ => first
    | rfl
    | exact e.guarded_keeps World.seen rfl
    | exact e.guarded_keeps World.seen (hproxy _)

theorem proxy_exec {c : Call} (h : c.writesProxy = false) (e : Env) (w : World) :
    (World.exec c e w).2.proxy = w.proxy := by
  cases c with
  | setBackends specs => cases h
  | addUser c flow => cases h
  | removeUser c => cases h
  | selectBackend c b => cases h
  | setUserBackends c l => cases h
  | restart epoch => cases h
  | submit overlay => simp only [World.exec]; split <;> rfl
  | receive timer => simp only [World.exec]; split <;> (try split_ifs) <;> (try split) <;> rfl
  | _ => first
    | rfl
    | exact e.guarded_keeps World.proxy rfl

theorem xray_exec {c : Call} (h : c.writesXray = false) (e : Env) (w : World) :
    (World.exec c e w).2.xray = w.xray := by
  have hproxy : ∀ x, (w.ofProxy x).2.xray = w.xray := fun x => by cases x <;> rfl
  cases c with
  | xrayAddUser user => cases h
  | xrayRemoveUser c => cases h
  | submit overlay => simp only [World.exec]; split <;> rfl
  | receive timer => simp only [World.exec]; split <;> (try split_ifs) <;> (try split) <;> rfl
  | _ => first
    | rfl
    | exact e.guarded_keeps World.xray rfl
    | exact e.guarded_keeps World.xray (hproxy _)

section Steps

variable {A : Env → Prop} {w w' : World} {tr : List GoEvent}

theorem steps_store (h : Steps world A w tr w') (hno : ∀ ev ∈ tr, ev.call.writesStore = false) :
    w'.store = w.store := by
  refine h.invariant (I := fun v => v.store = w.store) (fun ev hev e v _ _ hv => ?_) rfl
  rw [← hv]
  exact store_exec (hno ev hev) e v

theorem exec_putPlacement {p : Placement} {e : Env} (h : (World.exec (.putPlacement p) e w).1 = none) :
    (World.exec (.putPlacement p) e w).2 = { w with store := w.store.put p } := by
  obtain ⟨fail, _, _, _, _, _, _⟩ := e
  cases fail with
  | none => rfl
  | some msg => cases h

/-- One event does nothing to the store, or stores a record, or deletes one. -/
theorem store_step {ev : GoEvent} {e : Env} (h : (World.exec ev.call e w).1 = ev.reply) :
    (World.exec ev.call e w).2.store = w.store ∨
      (∃ p, ev = ⟨.putPlacement p, none⟩ ∧
        (World.exec ev.call e w).2.store = w.store.put p) ∨
      ∃ id, ev = ⟨.deletePlacement id, none⟩ ∧
        (World.exec ev.call e w).2.store = w.store.delete id := by
  obtain ⟨c, r⟩ := ev
  by_cases hc : c.writesStore = false
  · exact .inl (store_exec hc e w)
  · obtain ⟨fail, _, _, _, _, _, _⟩ := e
    cases c <;> first | exact absurd rfl hc | skip
    · cases fail with
      | none =>
        cases h
        exact .inr (.inl ⟨_, rfl, rfl⟩)
      | some msg => exact .inl rfl
    · cases fail with
      | none =>
        cases h
        exact .inr (.inr ⟨_, rfl, rfl⟩)
      | some msg => exact .inl rfl

/-- What the puts and deletes of a list of events keep of the store, the list keeps. -/
theorem steps_store_invariant {I : Store → Prop} (h : Steps world A w tr w')
    (hput : ∀ p, (⟨.putPlacement p, none⟩ : GoEvent) ∈ tr → ∀ s, I s → I (s.put p))
    (hdel : ∀ id, (⟨.deletePlacement id, none⟩ : GoEvent) ∈ tr → ∀ s, I s → I (s.delete id))
    (hw : I w.store) : I w'.store := by
  refine h.invariant (I := fun v => I v.store) (fun ev hev e v _ hr hv => ?_) hw
  show I (World.exec ev.call e v).2.store
  rcases store_step hr with heq | ⟨p, rfl, heq⟩ | ⟨id, rfl, heq⟩
  · rw [heq]
    exact hv
  · rw [heq]
    exact hput p hev _ hv
  · rw [heq]
    exact hdel id hev _ hv

/-- The record of a placement. -/
abbrev record (id : PlacementID) (w : World) : Option Placement := w.store.get id

/-- A call that leaves the record alone. -/
def Keeps (id : PlacementID) : Call → Prop
  | .putPlacement p => p.id ≠ id
  | .deletePlacement x => x ≠ id
  | _ => True

/-- What an event makes of the record, if it writes it. -/
def wrote (id : PlacementID) : GoEvent → Option (Option Placement)
  | ⟨.putPlacement p, none⟩ => if p.id = id then some (some p) else none
  | ⟨.deletePlacement x, none⟩ => if x = id then some none else none
  | _ => none

theorem wrote_of_keeps {id : PlacementID} {ev : GoEvent} (h : Keeps id ev.call) : wrote id ev = none := by
  obtain ⟨c, r⟩ := ev
  cases c with
  | putPlacement p =>
    cases r with
    | none => exact if_neg h
    | some err => rfl
  | deletePlacement x =>
    cases r with
    | none => exact if_neg h
    | some err => rfl
  | _ => rfl

theorem record_step {id : PlacementID} (ev : GoEvent) {e : Env}
    (h : (World.exec ev.call e w).1 = ev.reply) :
    record id (World.exec ev.call e w).2 = (wrote id ev).getD (record id w) := by
  by_cases hc : ev.call.writesStore = false
  · have hnone : wrote id ev = none := by
      obtain ⟨c, r⟩ := ev
      cases c <;> first | rfl | cases hc
    rw [hnone, record, store_exec hc]
    rfl
  · obtain ⟨c, r⟩ := ev
    obtain ⟨fail, _, _, _, _, _, _⟩ := e
    cases c with
    | putPlacement p =>
      cases fail with
      | some msg =>
        cases h
        rfl
      | none =>
        cases h
        show (w.store.put p).get id = _
        rw [Store.get_put]
        by_cases hid : p.id = id
        · rw [if_pos hid.symm, wrote, if_pos hid]
          rfl
        · rw [if_neg (Ne.symm hid), wrote, if_neg hid]
          rfl
    | deletePlacement x =>
      cases fail with
      | some msg =>
        cases h
        rfl
      | none =>
        cases h
        show (w.store.delete x).get id = _
        rw [Store.get_delete]
        by_cases hid : x = id
        · rw [if_pos hid.symm, wrote, if_pos hid]
          rfl
        · rw [if_neg (Ne.symm hid), wrote, if_neg hid]
          rfl
    | _ => exact absurd rfl hc

theorem record_exec {id : PlacementID} (c : Call) (e : Env) (w : World) (h : Keeps id c) :
    (World.exec c e w).2.store.get id = w.store.get id := by
  have hstep : record id (World.exec c e w).2 =
      (wrote id ⟨c, (World.exec c e w).1⟩).getD (record id w) :=
    record_step ⟨c, _⟩ rfl
  rw [wrote_of_keeps h] at hstep
  exact hstep

theorem steps_record {id : PlacementID} (h : Steps world A w tr w')
    (hkeeps : ∀ ev ∈ tr, Keeps id ev.call) : w'.store.get id = w.store.get id := by
  refine h.invariant (I := fun v => v.store.get id = w.store.get id) (fun ev hev e v _ _ hv => ?_) rfl
  rw [← hv]
  exact record_exec ev.call e v (hkeeps ev hev)

/-- The file is changed by writing it. -/
theorem file_exec (c : Call) (e : Env) (w : World) :
    (World.exec c e w).2.singbox.file = w.singbox.file ∨
      ∃ cfg, c = .writeConfig cfg ∧ (World.exec c e w).2.singbox.file = .json cfg.toJson := by
  have hproxy : ∀ x, (w.ofProxy x).2.singbox.file = w.singbox.file := fun x => by cases x <;> rfl
  cases c with
  | writeConfig cfg =>
    obtain ⟨fail, _, _, _, _, _, _⟩ := e
    cases fail with
    | some msg => exact .inl rfl
    | none => exact .inr ⟨cfg, rfl, rfl⟩
  | submit overlay => exact .inl (by simp only [World.exec]; split <;> rfl)
  | receive timer =>
    exact .inl (by simp only [World.exec]; split <;> (try split_ifs) <;> (try split) <;> rfl)
  | _ => first
    | exact .inl rfl
    | exact .inl (e.guarded_keeps (fun v => v.singbox.file) rfl)
    | exact .inl (e.guarded_keeps (fun v => v.singbox.file) (hproxy _))

/-- What the writes of a list of events keep of the file, a read in it sees. -/
theorem steps_file_read {I : Singboxgen.BaseFile → Prop} (h : Steps world A w tr w')
    (hwrite : ∀ ev ∈ tr, ∀ cfg, ev.call = .writeConfig cfg → I (.json cfg.toJson))
    (hw : I w.singbox.file) {base : Singboxgen.BaseFile}
    (hmem : (⟨.readConfig, .ok base⟩ : GoEvent) ∈ tr) : I base := by
  obtain ⟨tr₁, tr₂, w₁, e, rfl, h₁, -, hr, -⟩ := h.split_mem hmem
  have hfile : I w₁.singbox.file := by
    refine h₁.invariant (I := fun v => I v.singbox.file) (fun ev hev e v _ _ hv => ?_) hw
    rcases file_exec ev.call e v with heq | ⟨cfg, hc, heq⟩
    · exact heq ▸ hv
    · exact heq ▸ hwrite ev (List.mem_append_left _ hev) cfg hc
  obtain ⟨fail, _, _, _, _, _, _⟩ := e
  cases fail with
  | some msg => cases hr
  | none =>
    cases hr
    exact hfile

/-! ## The coalescer's channel -/

theorem queue_exec (c : Call) (e : Env) (w : World) :
    ∀ req ∈ (World.exec c e w).2.queue, req ∈ w.queue ∨ c = .submit req.overlay := by
  intro req hreq
  have hproxy : ∀ x, (w.ofProxy x).2.queue = w.queue := fun x => by cases x <;> rfl
  have hsame : (World.exec c e w).2.queue = w.queue → req ∈ w.queue ∨ c = .submit req.overlay :=
    fun heq => .inl (heq ▸ hreq)
  cases c with
  | submit overlay =>
    obtain ⟨fail, _, _, _, _, _, _⟩ := e
    cases fail with
    | some msg => exact .inl hreq
    | none =>
      rcases List.mem_append.mp hreq with hreq | hreq
      · exact .inl hreq
      · rw [List.mem_singleton.mp hreq]
        exact .inr rfl
  | receive timer =>
    refine .inl ?_
    simp only [World.exec] at hreq
    split at hreq
    · exact hreq
    · split_ifs at hreq
      · exact hreq
      · split at hreq
        · rename_i rest heq
          rw [heq]
          exact List.mem_cons_of_mem _ hreq
        · exact hreq
  | _ => first
    | exact hsame rfl
    | exact hsame (e.guarded_keeps World.queue rfl)
    | exact hsame (e.guarded_keeps World.queue (hproxy _))

theorem steps_queue (h : Steps world A w tr w') :
    ∀ req ∈ w'.queue, req ∈ w.queue ∨ ∃ ev ∈ tr, ev.call = .submit req.overlay := by
  refine h.invariant (I := fun v => ∀ req ∈ v.queue, req ∈ w.queue ∨
    ∃ ev ∈ tr, ev.call = .submit req.overlay) (fun ev hev e v _ _ hv req hreq => ?_)
    fun req hreq => .inl hreq
  rcases queue_exec ev.call e v req hreq with hreq | hc
  · exact hv req hreq
  · exact .inr ⟨ev, hev, hc⟩

/-- A request that is received is in the channel. -/
theorem mem_queue_of_received {timer : Bool} {e : Env} {req : RenderReq}
    (h : (World.exec (.receive timer) e w).1 = .request req) : req ∈ w.queue := by
  simp only [World.exec] at h
  split at h
  · cases h
  · split_ifs at h
    split at h
    · rename_i heq
      cases h
      rw [heq]
      exact List.mem_cons_self
    · cases h

theorem submitted_of_received {a b : List GoEvent} {timer : Bool} {req : RenderReq}
    (h : Steps world A w (a ++ ⟨.receive timer, .request req⟩ :: b) w') (hq : w.queue = []) :
    ∃ ev ∈ a, ev.call = .submit req.overlay := by
  obtain ⟨w₁, h₁, e, -, hr, -⟩ := steps_append.mp h
  refine (steps_queue h₁ req (mem_queue_of_received hr)).resolve_left ?_
  rw [hq]
  exact List.not_mem_nil

/-- An answer that is there was there at the start, or was given. -/
theorem answers_exec (c : Call) (e : Env) (w : World) :
    ∀ x ∈ (World.exec c e w).2.answers, x ∈ w.answers ∨ c = .answer x.1 x.2 := by
  intro x hx
  have hproxy : ∀ y, (w.ofProxy y).2.answers = w.answers := fun y => by cases y <;> rfl
  have hsame : (World.exec c e w).2.answers = w.answers → x ∈ w.answers ∨ c = .answer x.1 x.2 :=
    fun heq => .inl (heq ▸ hx)
  cases c with
  | answer ticket err =>
    rcases List.mem_cons.mp hx with rfl | hx
    · exact .inr rfl
    · exact .inl hx
  | submit overlay => exact hsame (by simp only [World.exec]; split <;> rfl)
  | receive timer =>
    exact hsame (by simp only [World.exec]; split <;> (try split_ifs) <;> (try split) <;> rfl)
  | _ => first
    | exact hsame rfl
    | exact hsame (e.guarded_keeps World.answers rfl)
    | exact hsame (e.guarded_keeps World.answers (hproxy _))

theorem steps_answers (h : Steps world A w tr w') :
    ∀ x ∈ w'.answers, x ∈ w.answers ∨ ∃ ev ∈ tr, ev.call = .answer x.1 x.2 := by
  refine h.invariant (I := fun v => ∀ x ∈ v.answers, x ∈ w.answers ∨
    ∃ ev ∈ tr, ev.call = .answer x.1 x.2) (fun ev hev e v _ _ hv x hx => ?_) fun x hx => .inl hx
  rcases answers_exec ev.call e v x hx with hx | hc
  · exact hv x hx
  · exact .inr ⟨ev, hev, hc⟩

theorem nextTicket_exec (c : Call) (e : Env) (w : World) :
    w.nextTicket ≤ (World.exec c e w).2.nextTicket := by
  have hproxy : ∀ y, (w.ofProxy y).2.nextTicket = w.nextTicket := fun y => by cases y <;> rfl
  have hsame : (World.exec c e w).2.nextTicket = w.nextTicket →
      w.nextTicket ≤ (World.exec c e w).2.nextTicket := fun heq => heq.ge
  cases c with
  | submit overlay =>
    simp only [World.exec]
    split
    · exact le_rfl
    · exact Nat.le_succ _
  | receive timer =>
    exact hsame (by simp only [World.exec]; split <;> (try split_ifs) <;> (try split) <;> rfl)
  | _ => first
    | exact hsame rfl
    | exact hsame (e.guarded_keeps World.nextTicket rfl)
    | exact hsame (e.guarded_keeps World.nextTicket (hproxy _))

/-- The ticket of a submission is a new one. -/
theorem ticket_of_submitted (h : Steps world A w tr w') {overlay : Option Placement} {ticket : ℕ}
    (hmem : (⟨.submit overlay, .ok ticket⟩ : GoEvent) ∈ tr) : w.nextTicket ≤ ticket := by
  obtain ⟨tr₁, tr₂, w₁, e, rfl, h₁, -, hr, -⟩ := h.split_mem hmem
  have hle : w.nextTicket ≤ w₁.nextTicket :=
    h₁.invariant (I := fun v => w.nextTicket ≤ v.nextTicket)
      (fun ev _ e v _ _ hv => hv.trans (nextTicket_exec ev.call e v)) le_rfl
  obtain ⟨fail, _, _, _, _, _, _⟩ := e
  cases fail with
  | some msg => cases hr
  | none =>
    cases hr
    exact hle

/-- A caller that has its answer was answered after it had submitted. -/
theorem answered_of_polled (h : Steps world A w tr w') (hold : ∀ x ∈ w.answers, x.1 < w.nextTicket)
    {overlay : Option Placement} {ticket : ℕ} {err : Err}
    (hsub : (⟨.submit overlay, .ok ticket⟩ : GoEvent) ∈ tr)
    (hpoll : (⟨.poll ticket, some err⟩ : GoEvent) ∈ tr) :
    ∃ ev ∈ tr, ev.call = .answer ticket err := by
  obtain ⟨tr₁, tr₂, w₁, e, rfl, h₁, -, hr, -⟩ := h.split_mem hpoll
  have hlookup : w₁.answers.lookup ticket = some err := hr
  have hmem : (ticket, err) ∈ w₁.answers := by
    obtain ⟨l₁, l₂, heq, -⟩ := List.lookup_eq_some_iff.mp hlookup
    rw [heq]
    exact List.mem_append_right _ List.mem_cons_self
  rcases steps_answers h₁ _ hmem with hin | ⟨ev, hev, hc⟩
  · exact absurd (hold _ hin) (ticket_of_submitted h hsub).not_gt
  · exact ⟨ev, List.mem_append_left _ hev, hc⟩

/-! ## Replies -/

theorem exec_listPlacements {e : Env} {all : List Placement}
    (h : (World.exec .listPlacements e w).1 = .ok all) : all = w.store.list := by
  obtain ⟨fail, _, _, _, _, _, _⟩ := e
  cases fail with
  | none =>
    cases h
    rfl
  | some msg => cases h

theorem listing_of_steps (h : Steps world A w tr w') (hno : ∀ ev ∈ tr, ev.call.writesStore = false)
    {all : List Placement} (hmem : (⟨.listPlacements, .ok all⟩ : GoEvent) ∈ tr) :
    all = w.store.list := by
  obtain ⟨tr₁, tr₂, w₁, e, rfl, h₁, -, hr, -⟩ := h.split_mem hmem
  rw [← steps_store h₁ fun ev hev => hno ev (List.mem_append_left _ hev)]
  exact exec_listPlacements hr

theorem exec_getPlacement {id : PlacementID} {e : Env} {found : Option Placement}
    (h : (World.exec (.getPlacement id) e w).1 = .ok found) : found = w.store.get id := by
  obtain ⟨fail, _, _, _, _, _, _⟩ := e
  cases fail with
  | none =>
    cases h
    rfl
  | some msg => cases h

end Steps

/-! ## Rules for the calls

One rule per call, for proving what a program ensures: the call fails, which needs faults to be on
or a bad argument, or it takes its effect. -/

section Rules

variable {α : Type} {faults : Bool} {Q : List GoEvent → α → World → Prop} {w : World}

/-- `p` ensures `Q` from `w`, with or without faults. -/
abbrev Ensures (faults : Bool) (p : Go α) (Q : List GoEvent → α → World → Prop) (w : World) : Prop :=
  wp world (Env.Allowed faults) p Q w

theorem Ensures.bind {β : Type} {p : Go α} {f : α → Go β} {R : List GoEvent → α → World → Prop}
    {Q : List GoEvent → β → World → Prop} (hp : Ensures faults p R w)
    (hf : ∀ tr a w', R tr a w' → Ensures faults (f a) (fun tr' => Q (tr ++ tr')) w') :
    Ensures faults (p >>= f) Q w :=
  wp_bind.mpr (wp_mono hp hf)

/-- The call leaves the world alone. -/
def Quiet (c : Call) : Prop := ∀ e w, (World.exec c e w).2 = w

theorem ensures_quiet {p : Go α} (hp : p.All Quiet) : Ensures faults p (fun _ _ w' => w' = w) w :=
  wp_iff_run.mpr fun _ _ _ hr => hr.world_eq hp fun _ e w hc => hc e w

theorem ensures_keeps {X : Type} (f : World → X) {P : Call → Prop} {p : Go α} (hp : p.All P)
    (hP : ∀ c e w, P c → f (World.exec c e w).2 = f w) :
    Ensures faults p (fun tr _ w' => (∀ ev ∈ tr, P ev.call) ∧ f w' = f w) w :=
  wp_iff_run.mpr fun _ _ _ hr => by
    have hall := hp.of_mem hr.1
    refine ⟨hall, hr.2.invariant (I := fun v => f v = f w) (fun ev hev e v _ _ hv => ?_) rfl⟩
    rw [← hv]
    exact hP ev.call e v (hall ev hev)

theorem Ensures.bind_calls {β : Type} {P : Call → Prop} {p : Go α} {f : α → Go β}
    {R : α → World → Prop} {Q : β → World → Prop}
    (hp : Ensures faults p (fun tr a w' => (∀ ev ∈ tr, P ev.call) ∧ R a w') w)
    (hf : ∀ a w', R a w' →
      Ensures faults (f a) (fun tr b w'' => (∀ ev ∈ tr, P ev.call) ∧ Q b w'') w') :
    Ensures faults (p >>= f) (fun tr b w' => (∀ ev ∈ tr, P ev.call) ∧ Q b w') w :=
  hp.bind fun _ a w' h => wp_mono (hf a w' h.2) fun _ _ _ h' =>
    ⟨List.forall_mem_append.mpr ⟨h.1, h'.1⟩, h'.2⟩

theorem ensures_port_calls {c : Call} {P : Call → Prop} {R : Reply c → World → Prop} (hc : P c)
    (h : ∀ e, R (World.exec c e w).1 (World.exec c e w).2) :
    Ensures faults (port c) (fun tr r w' => (∀ ev ∈ tr, P ev.call) ∧ R r w') w :=
  fun e _ => ⟨List.forall_mem_singleton.mpr hc, h e⟩

/-- A call that fails if the environment says so, then without an effect, and otherwise ends as
given. -/
theorem ensures_port_of_fail {c : Call} {k : Reply c → Go α} {err : GoError → Reply c}
    {ok : Reply c} {w' : World} (hexec : ∀ e : Env, World.exec c e w =
      match e.fail with
      | some msg => (err (.new msg), w)
      | none => (ok, w'))
    (hfail : faults = true → ∀ msg, Ensures faults (k (err (.new msg)))
      (fun tr => Q (⟨c, err (.new msg)⟩ :: tr)) w)
    (hok : Ensures faults (k ok) (fun tr => Q (⟨c, ok⟩ :: tr)) w') :
    Ensures faults (port c >>= k) Q w := by
  intro e he
  change Ensures faults (k (World.exec c e w).1) (fun tr => Q (⟨c, (World.exec c e w).1⟩ :: tr))
    (World.exec c e w).2
  rw [hexec e]
  cases hf : e.fail with
  | none => exact hok
  | some msg => exact hfail (by simpa [Env.Allowed, hf] using he) msg

theorem ensures_getPlacement {id : PlacementID} {k : Reply (.getPlacement id) → Go α}
    (hfail : faults = true → ∀ msg, Ensures faults (k (.error (.new msg)))
      (fun tr => Q (⟨.getPlacement id, .error (.new msg)⟩ :: tr)) w)
    (hok : Ensures faults (k (.ok (w.store.get id)))
      (fun tr => Q (⟨.getPlacement id, .ok (w.store.get id)⟩ :: tr)) w) :
    Ensures faults (port (.getPlacement id) >>= k) Q w :=
  ensures_port_of_fail (fun e => by cases h : e.fail <;> simp [World.exec, h]) hfail hok

theorem ensures_listPlacements {k : Reply .listPlacements → Go α}
    (hfail : faults = true → ∀ msg, Ensures faults (k (.error (.new msg)))
      (fun tr => Q (⟨.listPlacements, .error (.new msg)⟩ :: tr)) w)
    (hok : Ensures faults (k (.ok w.store.list))
      (fun tr => Q (⟨.listPlacements, .ok w.store.list⟩ :: tr)) w) :
    Ensures faults (port .listPlacements >>= k) Q w :=
  ensures_port_of_fail (fun e => by cases h : e.fail <;> simp [World.exec, h]) hfail hok

theorem ensures_putPlacement {p : Placement} {k : Reply (.putPlacement p) → Go α}
    (hfail : faults = true → ∀ msg, Ensures faults (k (some (.new msg)))
      (fun tr => Q (⟨.putPlacement p, some (.new msg)⟩ :: tr)) w)
    (hok : Ensures faults (k none) (fun tr => Q (⟨.putPlacement p, none⟩ :: tr))
      { w with store := w.store.put p }) :
    Ensures faults (port (.putPlacement p) >>= k) Q w :=
  ensures_port_of_fail (fun _ => rfl) hfail hok

theorem ensures_deletePlacement {id : PlacementID} {k : Reply (.deletePlacement id) → Go α}
    (hfail : faults = true → ∀ msg, Ensures faults (k (some (.new msg)))
      (fun tr => Q (⟨.deletePlacement id, some (.new msg)⟩ :: tr)) w)
    (hok : Ensures faults (k none) (fun tr => Q (⟨.deletePlacement id, none⟩ :: tr))
      { w with store := w.store.delete id }) :
    Ensures faults (port (.deletePlacement id) >>= k) Q w :=
  ensures_port_of_fail (fun _ => rfl) hfail hok

theorem ensures_now {k : Reply .now → Go α}
    (h : ∀ t, Ensures faults (k t) (fun tr => Q (⟨.now, t⟩ :: tr)) w) :
    Ensures faults (port .now >>= k) Q w := fun e _ => h e.time

theorem ensures_newID {k : Reply .newID → Go α}
    (h : ∀ id, Ensures faults (k id) (fun tr => Q (⟨.newID, id⟩ :: tr)) w) :
    Ensures faults (port .newID >>= k) Q w := fun e _ => h e.id

theorem ensures_publish {m : Message} {k : Reply (.publish m) → Go α}
    (h : ∀ r, Ensures faults (k r) (fun tr => Q (⟨.publish m, r⟩ :: tr)) w) :
    Ensures faults (port (.publish m) >>= k) Q w := fun e _ => h e.err

theorem ensures_count {c : Counter} {n : ℕ} {k : Reply (.count c n) → Go α}
    (h : ∀ counters, Ensures faults (k ()) (fun tr => Q (⟨.count c n, ()⟩ :: tr))
      { w with counters := counters }) :
    Ensures faults (port (.count c n) >>= k) Q w := fun _ _ => h _

theorem ensures_setBackends {specs : List EntryBackend} {k : Reply (.setBackends specs) → Go α}
    (hfail : faults = true → ∀ msg, Ensures faults (k (some (.new msg)))
      (fun tr => Q (⟨.setBackends specs, some (.new msg)⟩ :: tr)) w)
    (hok : Ensures faults (k none) (fun tr => Q (⟨.setBackends specs, none⟩ :: tr))
      { w with proxy := w.proxy.setBackends specs }) :
    Ensures faults (port (.setBackends specs) >>= k) Q w :=
  ensures_port_of_fail (fun _ => rfl) hfail hok

theorem ensures_removeUser {c : String} {k : Reply (.removeUser c) → Go α}
    (hfail : faults = true → ∀ msg, Ensures faults (k (some (.new msg)))
      (fun tr => Q (⟨.removeUser c, some (.new msg)⟩ :: tr)) w)
    (hok : Ensures faults (k none) (fun tr => Q (⟨.removeUser c, none⟩ :: tr))
      { w with proxy := w.proxy.removeUser c }) :
    Ensures faults (port (.removeUser c) >>= k) Q w :=
  ensures_port_of_fail (fun _ => rfl) hfail hok

theorem ensures_addUser {c flow : String} {k : Reply (.addUser c flow) → Go α}
    (hfail : faults = true ∨ c = "" → ∀ msg, Ensures faults (k (some (.new msg)))
      (fun tr => Q (⟨.addUser c flow, some (.new msg)⟩ :: tr)) w)
    (hok : ∀ p, w.proxy.addUser c flow = .ok p → Ensures faults (k none)
      (fun tr => Q (⟨.addUser c flow, none⟩ :: tr)) { w with proxy := p }) :
    Ensures faults (port (.addUser c flow) >>= k) Q w := by
  refine ensures_port_of_fail (fun _ => rfl) (fun hf => hfail (.inl hf)) ?_
  cases h : w.proxy.addUser c flow with
  | ok p => exact hok p h
  | error err =>
    obtain ⟨hc, msg, rfl⟩ := Proxy.addUser_error h
    exact hfail (.inr hc) msg

theorem ensures_selectBackend {c b : String} {k : Reply (.selectBackend c b) → Go α}
    (hfail : faults = true ∨ b ∉ w.proxy.backends → ∀ msg, Ensures faults (k (some (.new msg)))
      (fun tr => Q (⟨.selectBackend c b, some (.new msg)⟩ :: tr)) w)
    (hok : ∀ p, w.proxy.selectBackend c b = .ok p → Ensures faults (k none)
      (fun tr => Q (⟨.selectBackend c b, none⟩ :: tr)) { w with proxy := p }) :
    Ensures faults (port (.selectBackend c b) >>= k) Q w := by
  refine ensures_port_of_fail (fun _ => rfl) (fun hf => hfail (.inl hf)) ?_
  cases h : w.proxy.selectBackend c b with
  | ok p => exact hok p h
  | error err =>
    obtain ⟨hb, msg, rfl⟩ := Proxy.selectBackend_error h
    exact hfail (.inr hb) msg

theorem ensures_setUserBackends {c : String} {ids : List String}
    {k : Reply (.setUserBackends c ids) → Go α}
    (hfail : ∀ err, Ensures faults (k (some err))
      (fun tr => Q (⟨.setUserBackends c ids, some err⟩ :: tr)) w)
    (hok : ∀ p, w.proxy.setUserBackends c ids = .ok p → Ensures faults (k none)
      (fun tr => Q (⟨.setUserBackends c ids, none⟩ :: tr)) { w with proxy := p }) :
    Ensures faults (port (.setUserBackends c ids) >>= k) Q w := by
  refine ensures_port_of_fail (fun _ => rfl) (fun _ _ => hfail _) ?_
  cases h : w.proxy.setUserBackends c ids with
  | ok p => exact hok p h
  | error err => exact hfail err

theorem ensures_rangeOrder {keys : List String} {k : Reply (.rangeOrder keys) → Go α}
    (h : ∀ order, Ensures faults (k order) (fun tr => Q (⟨.rangeOrder keys, order⟩ :: tr)) w) :
    Ensures faults (port (.rangeOrder keys) >>= k) Q w := fun e _ => h (e.order keys)

end Rules

end NodeAgent
