import NodeAgent.EntryProxy.Controller
import NodeAgent.EntryProxy.Dial
import NodeAgent.Lib.Typestate

/-!
# The goroutines of the entry proxy

`handleConn` and `handlePacket` of `internal/entryproxy/proxy.go`, any number of them, next to calls of
the control surface. Between the lookup of its candidates and the entry in the table a goroutine dials,
which takes time, and the routes may change meanwhile.

Each goroutine follows a protocol (`conn`): it looks up once, enters a connection only on a backend that
it has found, and takes out only what it has entered. So the table holds exactly what the goroutines hold
(`Table`), whatever their order, and the number of connections that a drain waits for is the number of
goroutines that serve one of the backend.
-/

namespace NodeAgent.Conns

open Lib

/-! ## Calls -/

/-- What the handler of a connection asks of the outside. -/
inductive Call
  | connBackends (clientID destHost : String)
  | dialing (c : Dial.Call)
  /-- `vless.NewClient`, and `DialEarlyConn` or `DialEarlyXUDPPacketConn` -/
  | upstream (clientID : String)
  | openConn (clientID backendID : String)
  /-- one round of the copying; false at its end -/
  | copy (id : ℕ)
  | closeConn (id : ℕ)
  | control (op : Control.Op)

abbrev Reply : Call → Type
  | .connBackends _ _ => List EntryBackend
  | .dialing c => Dial.Reply c
  | .upstream _ => Option GoError
  | .openConn _ _ => ℕ
  | .copy _ => Bool
  | .closeConn _ => Unit
  | .control op => Except GoError op.Value

/-- The programs of the handlers. -/
abbrev serving : Sig where
  Call := Call
  Reply := Reply

abbrev ConnEvent := Event serving

abbrev port (c : Call) : Prog serving (Reply c) := Prog.invoke (S := serving) c

/-! ## The handlers -/

/-- `M.Socksaddr` -/
structure Socksaddr where
  fqdn : String
  /-- absent if it is not valid -/
  addr : Option String

/-- `destHostKey`: the destination as the hash sees it. -/
def destHostKey (d : Socksaddr) : String :=
  if d.fqdn ≠ "" then d.fqdn else d.addr.getD ""

/-- The timeouts, and bounds on the loops: passes over the candidates, rounds of copying. -/
structure Limits where
  timeouts : Dial.Timeouts
  passes : ℕ
  rounds : ℕ

/-- `dialAnyBackend` with the limits of the proxy. -/
def dialAnyBackend (l : Limits) (cands : List EntryBackend) : Prog serving (Option EntryBackend) :=
  (Dial.dialAnyBackend l.timeouts cands l.passes).lift (T := serving) Call.dialing fun _ r => r

/-- `relay` and `CopyPacketConn`: the counters grow until the copying ends. -/
def relay (id : ℕ) : ℕ → Prog serving Unit
  | 0 => return ()
  | rounds + 1 => do
    let more : Bool ← port (.copy id)
    if more then relay id rounds else return ()

/-- `Proxy.handleConn`: look up, dial, enter the connection, relay, and take it out again. -/
def handleConn (l : Limits) (user : Option String) (dest : Socksaddr) : Prog serving Unit :=
  match user with
  | none => return ()
  | some clientID => do
    let cands : List EntryBackend ← port (.connBackends clientID (destHostKey dest))
    if cands.length = 0 then return ()
    else
      match ← dialAnyBackend l cands with
      | none => return ()
      | some be =>
        match ← port (.upstream clientID) with
        | some _ => return ()
        | none =>
          let id : ℕ ← port (.openConn clientID be.id)
          relay id l.rounds
          port (.closeConn id)

/-- Here the connection is entered before the upstream is set up. -/
def handlePacket (l : Limits) (user : Option String) (dest : Socksaddr) : Prog serving Unit :=
  match user with
  | none => return ()
  | some clientID => do
    let cands : List EntryBackend ← port (.connBackends clientID (destHostKey dest))
    if cands.length = 0 then return ()
    else
      match ← dialAnyBackend l cands with
      | none => return ()
      | some be =>
        let id : ℕ ← port (.openConn clientID be.id)
        match ← port (.upstream clientID) with
        | some _ => port (.closeConn id)
        | none =>
          relay id l.rounds
          port (.closeConn id)

/-! ## The proxy under them -/

/-- What the environment chooses for one call. -/
structure ConnEnv where
  time : Time := 0
  err : Option GoError := none
  more : Bool := false
  up : UInt64 := 0
  down : UInt64 := 0
  order : Live.Order := fun l => ⟨l, List.Perm.refl l⟩

instance : Inhabited ConnEnv := ⟨{}⟩

/-- What a call of the dialer does to the proxy. -/
def dialed : (c : Dial.Call) → ConnEnv → Live → Dial.Reply c × Live
  | .now, e, w => (e.time, w)
  | .ctxErr, e, w => (e.err, w)
  | .dial _ _, e, w => (e.err, w)
  | .markBackendSuccess id, _, w => ((), { w with proxy := w.proxy.markBackendSuccess id })
  | .markBackendFailure id, e, w => ((), { w with proxy := w.proxy.markBackendFailure id e.time })

/-- What a call of a handler does to the proxy. -/
def exec : (c : Call) → ConnEnv → Live → Reply c × Live
  | .connBackends clientID destHost, e, w => (w.proxy.connBackends clientID destHost e.time, w)
  | .dialing c, e, w => dialed c e w
  | .upstream _, e, w => (e.err, w)
  | .openConn clientID backendID, _, w => w.openConn clientID backendID
  | .copy id, e, w => (e.more, w.addBytes id e.up e.down)
  | .closeConn id, _, w => ((), w.closeConn id)
  | .control op, e, w => Control.exec e.order w op

/-- The proxy as the environment of its handlers. -/
def live : Handler serving ConnEnv Live where
  exec := exec

/-! ## The protocol of a goroutine -/

/-- An entry of the table without its counters. -/
structure Held where
  id : ℕ
  clientID : String
  backendID : String
  deriving DecidableEq, Repr

/-- Where a goroutine is. -/
structure Phase where
  /-- the client, and the backends that were found for it -/
  seen : Option (String × List String) := none
  /-- the connection that is entered -/
  held : Option Held := none
  deriving DecidableEq, Repr

/-- The protocol of one connection. -/
def conn : Protocol serving Phase where
  ok ph
    | ⟨.connBackends _ _, _⟩ => ph = {}
    | ⟨.openConn clientID backendID, _⟩ =>
      ph.held = none ∧ ∃ ids, ph.seen = some (clientID, ids) ∧ backendID ∈ ids
    | ⟨.closeConn id, _⟩ => ∃ x, ph.held = some x ∧ x.id = id
    | _ => True
  next ph
    | ⟨.connBackends clientID _, cands⟩ =>
      { ph with seen := some (clientID, cands.map EntryBackend.id) }
    | ⟨.openConn clientID backendID, id⟩ => { ph with held := some ⟨id, clientID, backendID⟩ }
    | ⟨.closeConn _, _⟩ => {}
    | _ => ph

/-- The phase of goroutine `i`. -/
def phase (i : ℕ) (tr : List (Tagged serving)) : Phase := conn.state {} (eventsOf i tr)

/-- What the first `n` goroutines hold. -/
def heldBy (n : ℕ) (tr : List (Tagged serving)) : List Held :=
  (List.range n).filterMap fun i => (phase i tr).held

/-- A call of the control surface, which no handler makes. -/
def IsControl : Call → Prop
  | .control _ => True
  | _ => False

/-- The goroutines of the proxy's process: connections, packet connections, and handlers of the control
API, which make calls of the surface only. -/
def Goroutine (p : Prog serving Unit) : Prop :=
  (∃ l user dest, p = handleConn l user dest) ∨ (∃ l user dest, p = handlePacket l user dest) ∨
    p.All IsControl

/-! ## Every goroutine follows it -/

section Follows

variable {l : Limits} {user : Option String} {dest : Socksaddr} {ph : Phase}

theorem dialPass_ends (c : Dial.Timeouts) (deadline : ℤ) (cands : List EntryBackend) :
    (Dial.dialPass c deadline cands).Ends fun r => ∀ be, r = some (some be) → be ∈ cands := by
  induction cands with
  | nil => exact fun be h => nomatch h
  | cons be cands ih =>
    rw [Dial.dialPass, Prog.ends_invoke_bind]
    intro err
    cases err with
    | some err => exact fun be h => nomatch h
    | none =>
      dsimp only
      rw [Prog.ends_invoke_bind]
      intro t
      by_cases ht : t > deadline
      · rw [if_pos ht]
        exact fun be h => nomatch h
      · rw [if_neg ht, Prog.ends_invoke_bind]
        intro t'
        rw [Prog.ends_invoke_bind]
        intro err
        cases err with
        | none =>
          intro _ be' h
          cases h
          exact List.mem_cons_self
        | some err => exact fun _ => ih.mono fun r h be' hr => List.mem_cons_of_mem _ (h be' hr)

theorem dialPasses_ends (c : Dial.Timeouts) (deadline : ℤ) (cands : List EntryBackend) (passes : ℕ) :
    (Dial.dialPasses c deadline cands passes).Ends fun r => ∀ be, r = some be → be ∈ cands := by
  induction passes with
  | zero => exact fun be h => nomatch h
  | succ passes ih =>
    rw [Dial.dialPasses, Prog.ends_invoke_bind]
    intro t
    by_cases ht : t < deadline
    · rw [if_pos ht]
      refine (dialPass_ends c deadline cands).bind fun r hr => ?_
      cases r with
      | some r => exact fun be h => hr be (congrArg some h)
      | none =>
        by_cases hcands : cands = []
        · dsimp only
          rw [if_pos hcands]
          exact fun be h => nomatch h
        · dsimp only
          rw [if_neg hcands]
          exact ih
    · rw [if_neg ht]
      exact fun be h => nomatch h

theorem dialAnyBackend_follows (cands : List EntryBackend) :
    conn.Follows (fun y r => y = ph ∧ ∀ be, r = some be → be ∈ cands) ph (dialAnyBackend l cands) := by
  refine Protocol.follows_of_all (C := fun c => ∃ d, c = Call.dialing d)
    (Prog.lift_all (fun c => ⟨c, rfl⟩) _) (Prog.Ends.lift fun t => dialPasses_ends _ _ _ _) ?_
  rintro ⟨c, r⟩ ⟨d, rfl⟩
  exact ⟨trivial, rfl⟩

theorem relay_follows (id rounds : ℕ) :
    conn.Follows (fun y _ => y = ph) ph (relay id rounds) := by
  induction rounds with
  | zero => rfl
  | succ rounds ih =>
    intro more
    cases more with
    | false => exact ⟨trivial, rfl⟩
    | true => exact ⟨trivial, ih⟩

theorem relay_close_follows {x : Held} (hx : ph.held = some x) (rounds : ℕ) :
    conn.Follows (fun y _ => y.held = none) ph (do relay x.id rounds; port (.closeConn x.id)) := by
  refine (relay_follows x.id rounds).bind fun y _ hy => ?_
  subst hy
  exact fun r => ⟨⟨x, hx, rfl⟩, rfl⟩

theorem handleConn_follows :
    conn.Follows (fun y _ => y.held = none) {} (handleConn l user dest) := by
  cases user with
  | none => rfl
  | some clientID =>
    refine Protocol.follows_invoke.mpr fun cands => ⟨rfl, ?_⟩
    by_cases hlen : cands.length = 0
    · rw [if_pos hlen]
      rfl
    · rw [if_neg hlen]
      refine (dialAnyBackend_follows cands).bind ?_
      rintro y r ⟨rfl, hr⟩
      cases r with
      | none => rfl
      | some be =>
        intro err
        refine ⟨trivial, ?_⟩
        cases err with
        | some err => rfl
        | none =>
          intro id
          have hseen : be.id ∈ cands.map EntryBackend.id := List.mem_map_of_mem (hr be rfl)
          exact ⟨⟨rfl, _, rfl, hseen⟩, relay_close_follows (x := ⟨id, clientID, be.id⟩) rfl l.rounds⟩

theorem handlePacket_follows :
    conn.Follows (fun y _ => y.held = none) {} (handlePacket l user dest) := by
  cases user with
  | none => rfl
  | some clientID =>
    refine Protocol.follows_invoke.mpr fun cands => ⟨rfl, ?_⟩
    by_cases hlen : cands.length = 0
    · rw [if_pos hlen]
      rfl
    · rw [if_neg hlen]
      refine (dialAnyBackend_follows cands).bind ?_
      rintro y r ⟨rfl, hr⟩
      cases r with
      | none => rfl
      | some be =>
        intro id
        have hseen : be.id ∈ cands.map EntryBackend.id := List.mem_map_of_mem (hr be rfl)
        refine ⟨⟨rfl, _, rfl, hseen⟩, fun err => ⟨trivial, ?_⟩⟩
        cases err with
        | some err => exact fun r => ⟨⟨⟨id, clientID, be.id⟩, rfl, rfl⟩, rfl⟩
        | none => exact relay_close_follows (x := ⟨id, clientID, be.id⟩) rfl l.rounds

theorem goroutine_follows {p : Prog serving Unit} (hp : Goroutine p) :
    conn.Follows (fun y _ => y.held = none) {} p := by
  rcases hp with ⟨l, user, dest, rfl⟩ | ⟨l, user, dest, rfl⟩ | hcontrol
  · exact handleConn_follows
  · exact handlePacket_follows
  · refine (Protocol.follows_of_all hcontrol (Prog.ends_true p) ?_).mono ?_
    · rintro ⟨c, r⟩ hc
      cases c with
      | control op => exact ⟨trivial, rfl⟩
      | _ => cases hc
    · rintro y a ⟨rfl, -⟩
      rfl

end Follows

/-! ## The entries of the table -/

def heldOf (s : ConnStat) : Held := ⟨s.id, s.clientID, s.backendID⟩

/-- The entries, in the order of their ids. -/
def entries (w : Live) : List Held := w.stats.map heldOf

section Entries

variable {w : Live} {x : Held}

theorem mem_entries : x ∈ entries w ↔ ∃ s, w.active[x.id]? = some s ∧ heldOf s = x := by
  unfold entries Live.stats
  simp only [List.mem_map, Prod.exists, Std.ExtTreeMap.mem_toList_iff_getElem?_eq_some]
  constructor
  · rintro ⟨s, ⟨id, s', hs, rfl⟩, rfl⟩
    have hid : s'.id = id := w.keyed id s' hs
    exact ⟨s', by rw [← hs, ← hid]; rfl, rfl⟩
  · rintro ⟨s, hs, rfl⟩
    exact ⟨s, ⟨_, s, hs, rfl⟩, rfl⟩

theorem nodup_ids (w : Live) : ((entries w).map Held.id).Nodup := by
  have hkeys : (entries w).map Held.id = w.active.toList.map Prod.fst := by
    unfold entries Live.stats
    rw [List.map_map, List.map_map]
    refine List.map_congr_left fun y hy => ?_
    exact w.keyed y.1 y.2 (Std.ExtTreeMap.mem_toList_iff_getElem?_eq_some.mp hy)
  rw [hkeys, Std.ExtTreeMap.map_fst_toList_eq_keys]
  exact Std.ExtTreeMap.nodup_keys

/-- A new entry replaces one that lies under the same id. -/
theorem mem_entries_openConn {clientID backendID : String} :
    x ∈ entries (w.openConn clientID backendID).2 ↔
      x = ⟨(w.openConn clientID backendID).1, clientID, backendID⟩ ∨
        (x ∈ entries w ∧ x.id ≠ (w.openConn clientID backendID).1) := by
  rw [mem_entries, mem_entries, Live.openConn, Std.ExtTreeMap.getElem?_insert]
  by_cases hid : (w.nextID + 1) % 2 ^ 64 = x.id
  · rw [if_pos (compare_eq_iff_eq.mpr hid)]
    constructor
    · rintro ⟨s, hs, rfl⟩
      cases hs
      exact .inl rfl
    · rintro (rfl | ⟨-, hne⟩)
      · exact ⟨_, rfl, rfl⟩
      · exact absurd hid.symm hne
  · rw [if_neg (mt compare_eq_iff_eq.mp hid)]
    constructor
    · intro h
      exact .inr ⟨h, Ne.symm hid⟩
    · rintro (h | ⟨h, -⟩)
      · exact absurd (by rw [h]) hid
      · exact h

theorem mem_entries_closeConn {id : ℕ} : x ∈ entries (w.closeConn id) ↔ x ∈ entries w ∧ x.id ≠ id := by
  rw [mem_entries, mem_entries, Live.closeConn, Std.ExtTreeMap.getElem?_erase]
  by_cases hid : id = x.id
  · rw [if_pos (compare_eq_iff_eq.mpr hid)]
    exact iff_of_false (fun ⟨s, hs, _⟩ => nomatch hs) fun h => h.2 hid.symm
  · rw [if_neg (mt compare_eq_iff_eq.mp hid)]
    exact (and_iff_left fun h => hid h.symm).symm

theorem mem_entries_addBytes {id : ℕ} {up down : UInt64} :
    x ∈ entries (w.addBytes id up down) ↔ x ∈ entries w := by
  rw [mem_entries, mem_entries, Live.addBytes, Std.ExtTreeMap.getElem?_modify]
  split_ifs with hid
  · rw [compare_eq_iff_eq.mp hid]
    constructor
    · rintro ⟨s, hs, rfl⟩
      obtain ⟨s₀, hs₀, rfl⟩ := Option.map_eq_some_iff.mp hs
      exact ⟨s₀, hs₀, rfl⟩
    · rintro ⟨s, hs, rfl⟩
      exact ⟨{ s with up := s.up + up, down := s.down + down }, by rw [hs]; rfl, rfl⟩
  · exact Iff.rfl

theorem active_control (order : Live.Order) (w : Live) (op : Control.Op) :
    (Control.exec order w op).2.active = w.active := by
  have hproxy : ∀ r, (Control.ofProxy w r).2.active = w.active := fun r => by cases r <;> rfl
  cases op with
  | addUser clientID flow => exact hproxy _
  | selectBackend clientID backendID => exact hproxy _
  | setUserBackends clientID backendIDs => exact hproxy _
  | _ => rfl

end Entries

/-! ## The table against the goroutines -/

theorem phase_snoc (i j : ℕ) (ev : ConnEvent) (tr : List (Tagged serving)) :
    phase i (tr ++ [(j, ev)]) = if j = i then conn.next (phase i tr) ev else phase i tr := by
  unfold phase
  rw [eventsOf_append, eventsOf_cons]
  split_ifs
  · exact Protocol.state_snoc _ _
  · rw [eventsOf_nil, List.append_nil]

/-- A call that neither enters a connection nor takes one out. -/
def Quiet : Call → Prop
  | .openConn _ _ => False
  | .closeConn _ => False
  | _ => True

theorem held_next {ev : ConnEvent} (h : Quiet ev.call) (ph : Phase) :
    (conn.next ph ev).held = ph.held := by
  obtain ⟨c, r⟩ := ev
  cases c with
  | openConn clientID backendID => cases h
  | closeConn id => cases h
  | _ => rfl

theorem entries_congr {w w' : Live} (h : w'.active = w.active) : entries w' = entries w := by
  unfold entries Live.stats
  rw [h]

theorem mem_entries_exec {c : Call} (h : Quiet c) (e : ConnEnv) (w : Live) (x : Held) :
    x ∈ entries (exec c e w).2 ↔ x ∈ entries w := by
  cases c with
  | openConn clientID backendID => cases h
  | closeConn id => cases h
  | copy id => exact mem_entries_addBytes
  | control op => exact iff_of_eq (congrArg (x ∈ ·) (entries_congr (active_control e.order w op)))
  | dialing d => cases d <;> exact Iff.rfl
  | _ => exact Iff.rfl

theorem nextID_exec {c : Call} (h : Quiet c) (e : ConnEnv) (w : Live) : (exec c e w).2.nextID = w.nextID := by
  have hproxy : ∀ r, (Control.ofProxy w r).2.nextID = w.nextID := fun r => by cases r <;> rfl
  cases c with
  | openConn clientID backendID => cases h
  | closeConn id => cases h
  | dialing d => cases d <;> rfl
  | control op =>
    cases op with
    | addUser clientID flow => exact hproxy _
    | selectBackend clientID backendID => exact hproxy _
    | setUserBackends clientID backendIDs => exact hproxy _
    | _ => rfl
  | _ => rfl

/-- Every entry of the table is held. -/
def Covered (tr : List (Tagged serving)) (w : Live) : Prop :=
  ∀ x ∈ entries w, ∃ i, (phase i tr).held = some x

def isOpen : Call → Bool
  | .openConn _ _ => true
  | _ => false

/-- How many connections were entered. -/
def opened (tr : List (Tagged serving)) : ℕ := tr.countP fun x => isOpen x.2.call

/-- What is held is in the table, and no two goroutines hold the same: ids are handed out one after the
other, beginning after `n`. -/
structure Table (n : ℕ) (tr : List (Tagged serving)) (w : Live) : Prop where
  mem : ∀ i x, (phase i tr).held = some x → x ∈ entries w
  unique : ∀ i j x y, (phase i tr).held = some x → (phase j tr).held = some y → x.id = y.id → i = j
  next : w.nextID = (n + opened tr) % 2 ^ 64
  issued : ∀ i x, (phase i tr).held = some x → ∃ k < opened tr, x.id = (n + k + 1) % 2 ^ 64

section Table

variable {n : ℕ} {tr : List (Tagged serving)} {w : Live} {i : ℕ} {ev : ConnEvent} {e : ConnEnv}

theorem held_quiet (hev : Quiet ev.call) (j : ℕ) :
    (phase j (tr ++ [(i, ev)])).held = (phase j tr).held := by
  rw [phase_snoc]
  split_ifs
  · exact held_next hev _
  · rfl

theorem held_openConn {clientID backendID : String} {id j : ℕ} {x : Held}
    (hi : (phase i tr).held = none) :
    (phase j (tr ++ [(i, ⟨.openConn clientID backendID, id⟩)])).held = some x ↔
      (j = i ∧ x = ⟨id, clientID, backendID⟩) ∨ (phase j tr).held = some x := by
  rw [phase_snoc]
  split_ifs with hij
  · subst hij
    rw [hi]
    show some _ = some x ↔ _
    simp [eq_comm]
  · simp [Ne.symm hij]

theorem held_closeConn {y : Held} {id j : ℕ} :
    (phase j (tr ++ [(i, ⟨.closeConn id, ()⟩)])).held = some y ↔ (phase j tr).held = some y ∧ j ≠ i := by
  rw [phase_snoc]
  split_ifs with hij
  · exact iff_of_false (fun h => nomatch h) fun h => h.2 hij.symm
  · exact (and_iff_left (Ne.symm hij)).symm

theorem opened_snoc (x : Tagged serving) :
    opened (tr ++ [x]) = opened tr + if isOpen x.2.call then 1 else 0 := by
  rw [opened, List.countP_append, List.countP_singleton]
  rfl

theorem opened_quiet (hev : Quiet ev.call) : opened (tr ++ [(i, ev)]) = opened tr := by
  obtain ⟨c, r⟩ := ev
  rw [opened_snoc]
  cases c with
  | openConn clientID backendID => cases hev
  | _ => rfl

/-- An entry goes when its goroutine takes it out, or when another one is entered under its id. -/
theorem Covered.step (h : Covered tr w) (hok : conn.ok (phase i tr) ev)
    (hr : (exec ev.call e w).1 = ev.reply) : Covered (tr ++ [(i, ev)]) (exec ev.call e w).2 := by
  have hquiet : Quiet ev.call → Covered (tr ++ [(i, ev)]) (exec ev.call e w).2 := by
    intro hev x hx
    obtain ⟨j, hj⟩ := h x ((mem_entries_exec hev e w x).mp hx)
    exact ⟨j, (held_quiet hev j).trans hj⟩
  obtain ⟨c, r⟩ := ev
  cases c with
  | openConn clientID backendID =>
    cases hr
    intro x hx
    rcases mem_entries_openConn.mp hx with rfl | ⟨hx, -⟩
    · exact ⟨i, (held_openConn hok.1).mpr (.inl ⟨rfl, rfl⟩)⟩
    · obtain ⟨j, hj⟩ := h x hx
      exact ⟨j, (held_openConn hok.1).mpr (.inr hj)⟩
  | closeConn id =>
    obtain ⟨y, hy, rfl⟩ := hok
    intro x hx
    obtain ⟨hx, hne⟩ := mem_entries_closeConn.mp hx
    obtain ⟨j, hj⟩ := h x hx
    refine ⟨j, held_closeConn.mpr ⟨hj, ?_⟩⟩
    rintro rfl
    rw [hj] at hy
    exact hne (by rw [Option.some.inj hy])
  | _ => exact hquiet trivial

theorem Table.quiet (h : Table n tr w) (hev : Quiet ev.call) :
    Table n (tr ++ [(i, ev)]) (exec ev.call e w).2 where
  mem j x hj := by
    rw [held_quiet hev] at hj
    exact (mem_entries_exec hev e w x).mpr (h.mem j x hj)
  unique j k x y hx hy := by
    rw [held_quiet hev] at hx hy
    exact h.unique j k x y hx hy
  next := by rw [nextID_exec hev, opened_quiet hev, h.next]
  issued j x hj := by
    rw [held_quiet hev] at hj
    rw [opened_quiet hev]
    exact h.issued j x hj

theorem Table.openConn {clientID backendID : String} (h : Table n tr w) (hi : (phase i tr).held = none)
    (hids : opened tr < 2 ^ 64) :
    Table n (tr ++ [(i, ⟨.openConn clientID backendID, (w.openConn clientID backendID).1⟩)])
      (w.openConn clientID backendID).2 := by
  have hid : (w.openConn clientID backendID).1 = (n + opened tr + 1) % 2 ^ 64 := by
    show (w.nextID + 1) % 2 ^ 64 = _
    rw [h.next, Nat.mod_add_mod]
  have hopened : opened (tr ++ [(i, ⟨.openConn clientID backendID, (w.openConn clientID backendID).1⟩)]) =
      opened tr + 1 := opened_snoc _
  -- the ids that are held were handed out less than 2⁶⁴ connections ago
  have hfresh : ∀ j y, (phase j tr).held = some y → y.id ≠ (w.openConn clientID backendID).1 := by
    intro j y hy
    obtain ⟨k, hk, hy⟩ := h.issued j y hy
    omega
  refine ⟨fun j x hj => ?_, fun j k x y hx hy heq => ?_, ?_, fun j x hj => ?_⟩
  · rw [mem_entries_openConn]
    rcases (held_openConn hi).mp hj with ⟨-, rfl⟩ | hj
    · exact .inl rfl
    · exact .inr ⟨h.mem j x hj, hfresh j x hj⟩
  · rcases (held_openConn hi).mp hx with ⟨rfl, rfl⟩ | hx
    · rcases (held_openConn hi).mp hy with ⟨rfl, -⟩ | hy
      · rfl
      · exact absurd heq.symm (hfresh k y hy)
    · rcases (held_openConn hi).mp hy with ⟨-, rfl⟩ | hy
      · exact absurd heq (hfresh j x hx)
      · exact h.unique j k x y hx hy heq
  · rw [hopened]
    exact hid
  · rw [hopened]
    rcases (held_openConn hi).mp hj with ⟨-, rfl⟩ | hj
    · exact ⟨opened tr, Nat.lt_succ_self _, hid⟩
    · obtain ⟨k, hk, hx⟩ := h.issued j x hj
      exact ⟨k, Nat.lt_succ_of_lt hk, hx⟩

theorem Table.closeConn {x : Held} (h : Table n tr w) (hi : (phase i tr).held = some x) :
    Table n (tr ++ [(i, ⟨.closeConn x.id, ()⟩)]) (w.closeConn x.id) where
  mem j y hj := by
    obtain ⟨hj, hne⟩ := held_closeConn.mp hj
    exact mem_entries_closeConn.mpr ⟨h.mem j y hj, fun hid => hne (h.unique j i y x hj hi hid)⟩
  unique j k y z hy hz :=
    h.unique j k y z (held_closeConn.mp hy).1 (held_closeConn.mp hz).1
  next := by
    rw [opened_snoc]
    exact h.next
  issued j y hj := by
    rw [opened_snoc]
    exact h.issued j y (held_closeConn.mp hj).1

/-- Every allowed event keeps the two together. -/
theorem Table.step (h : Table n tr w) (hok : conn.ok (phase i tr) ev)
    (hr : (exec ev.call e w).1 = ev.reply) (hids : opened (tr ++ [(i, ev)]) ≤ 2 ^ 64) :
    Table n (tr ++ [(i, ev)]) (exec ev.call e w).2 := by
  obtain ⟨c, r⟩ := ev
  cases c with
  | openConn clientID backendID =>
    cases hr
    rw [opened_snoc] at hids
    exact h.openConn hok.1 hids
  | closeConn id =>
    obtain ⟨x, hx, rfl⟩ := hok
    exact h.closeConn hx
  | _ => exact h.quiet trivial

end Table

section Pool

variable {ts ts' : List (Prog serving Unit)} {w w' : Live} {tr : List (Tagged serving)}
  {A : ConnEnv → Prop}

theorem ok_of_pool (hts : ∀ p ∈ ts, Goroutine p) {pre post : List (Tagged serving)} {i : ℕ}
    {ev : ConnEvent} (h : Pool live A ts w (pre ++ (i, ev) :: post) ts' w') :
    conn.ok (phase i pre) ev :=
  Protocol.ok_of_interleave (fun _ p hp => goroutine_follows (hts p (List.mem_of_getElem? hp))) h.1

theorem pool_covered (hts : ∀ p ∈ ts, Goroutine p) (hw : w.active = ∅) (h : Pool live A ts w tr ts' w') :
    Covered tr w' := by
  refine h.history (fun x hx => ?_) fun pre i ev post e v heq _ hr hcovered => hcovered.step ?_ hr
  · obtain ⟨s, hs, -⟩ := mem_entries.mp hx
    rw [hw] at hs
    simp at hs
  · subst heq
    exact ok_of_pool hts h

theorem pool_table (hts : ∀ p ∈ ts, Goroutine p) (h : Pool live A ts w tr ts' w')
    (hids : opened tr ≤ 2 ^ 64) : Table w.nextID tr w' := by
  have hnone : ∀ i x, (phase i []).held ≠ some x := fun i x hi => by cases hi
  have hstart : Table w.nextID [] w :=
    ⟨fun i x hi => absurd hi (hnone i x), fun i j x y hi => absurd hi (hnone i x),
      (Nat.mod_eq_of_lt w.nextID_lt).symm, fun i x hi => absurd hi (hnone i x)⟩
  refine h.history hstart fun pre i ev post e v heq _ hr htable => htable.step ?_ hr ?_
  · subst heq
    exact ok_of_pool hts h
  · rw [heq, List.append_cons, opened, List.countP_append] at hids
    exact (Nat.le_add_right _ _).trans hids

theorem lt_of_held (h : Pool live A ts w tr ts' w') {i : ℕ} {x : Held}
    (hi : (phase i tr).held = some x) : i < ts.length := by
  by_contra hlt
  have hnone : eventsOf i tr = [] := by
    refine List.eq_nil_iff_forall_not_mem.mpr fun ev hev => hlt ?_
    exact h.1.lt_of_mem (mem_eventsOf.mp hev)
  rw [phase, hnone] at hi
  cases hi

theorem held_of_done (hts : ∀ p ∈ ts, Goroutine p) (h : Pool live A ts w tr ts' w') {i : ℕ}
    (hi : ts'[i]? = some (.done ())) : (phase i tr).held = none := by
  by_contra hne
  obtain ⟨x, hx⟩ := Option.ne_none_iff_exists'.mp hne
  have hlt := lt_of_held h hx
  have hp : ts[i]? = some ts[i] := List.getElem?_eq_getElem hlt
  exact hne (Protocol.end_of_interleave
    (fun _ p hp => goroutine_follows (hts p (List.mem_of_getElem? hp))) hp h.1 hi)

theorem nodup_entries (w : Live) : (entries w).Nodup := (nodup_ids w).of_map

theorem entries_subset_heldBy (hts : ∀ p ∈ ts, Goroutine p) (hw : w.active = ∅)
    (h : Pool live A ts w tr ts' w') : entries w' ⊆ heldBy ts.length tr := by
  intro x hx
  obtain ⟨i, hi⟩ := pool_covered hts hw h x hx
  exact List.mem_filterMap.mpr ⟨i, List.mem_range.mpr (lt_of_held h hi), hi⟩

theorem backendConnections_eq (w : Live) (backendID : String) :
    w.backendConnections backendID = ((entries w).filter fun x => x.backendID = backendID).length := by
  rw [entries, List.filter_map, List.length_map]
  rfl

theorem backendConnections_le_heldBy (hts : ∀ p ∈ ts, Goroutine p) (hw : w.active = ∅)
    (h : Pool live A ts w tr ts' w') (backendID : String) : w'.backendConnections backendID ≤
      ((heldBy ts.length tr).filter fun x => x.backendID = backendID).length := by
  rw [backendConnections_eq]
  exact ((List.subperm_of_subset (nodup_entries w') (entries_subset_heldBy hts hw h)).filter _).length_le

theorem entries_perm_heldBy (hts : ∀ p ∈ ts, Goroutine p) (hw : w.active = ∅)
    (h : Pool live A ts w tr ts' w') (hids : opened tr ≤ 2 ^ 64) :
    (entries w').Perm (heldBy ts.length tr) := by
  have htable := pool_table hts h hids
  refine (List.perm_ext_iff_of_nodup (nodup_entries w') ?_).mpr fun x =>
    ⟨fun hx => entries_subset_heldBy hts hw h hx, fun hx => ?_⟩
  · refine List.Nodup.filterMap (fun i j x hx hy => ?_) List.nodup_range
    exact htable.unique i j x x hx hy rfl
  · obtain ⟨i, -, hi⟩ := List.mem_filterMap.mp hx
    exact htable.mem i x hi

/-- Whatever the order in which the goroutines run, as long as at most 2⁶⁴ connections are entered: the
connections that are counted on a backend are those that goroutines hold on it, the list of connections is the
list of what they hold, and a goroutine that has returned, by whichever branch, has left nothing behind. -/
theorem connections_are_what_goroutines_hold (hts : ∀ p ∈ ts, Goroutine p) (hw : w.active = ∅)
    (h : Pool live A ts w tr ts' w') (hids : opened tr ≤ 2 ^ 64) :
    (∀ backendID, w'.backendConnections backendID =
      ((heldBy ts.length tr).filter fun x => x.backendID = backendID).length) ∧
    (∀ order, ((w'.activeConnections order).map fun c => (c.id, c.clientID, c.backendID)).Perm
      ((heldBy ts.length tr).map fun x => (toString x.id, x.clientID, x.backendID))) ∧
    ((heldBy ts.length tr).map Held.id).Nodup ∧
    ∀ i, ts'[i]? = some (.done ()) → (phase i tr).held = none := by
  have hperm := entries_perm_heldBy hts hw h hids
  refine ⟨fun backendID => ?_, fun order => ?_, ?_, fun i => held_of_done hts h⟩
  · rw [backendConnections_eq]
    exact (hperm.filter _).length_eq
  · refine List.Perm.trans ?_ (hperm.map _)
    rw [Live.activeConnections, List.map_map, entries, List.map_map]
    exact (order w'.stats).property.map _
  · exact (hperm.map Held.id).nodup_iff.mp (nodup_ids w')

end Pool

/-! ## Two clients and a change of routes -/

def limits : Limits := { timeouts := .new 0, passes := 1, rounds := 3 }

def site : Socksaddr := { fqdn := "site.com", addr := none }

/-- A connection and a packet connection of one user, and a call that empties the user's route. -/
def threeGoroutines : List (Prog serving Unit) :=
  [handleConn limits (some "u") site, handlePacket limits (some "u") site,
    .call (.control (.setUserBackends "u" [])) fun _ => .done ()]

theorem goroutine_threeGoroutines : ∀ p ∈ threeGoroutines, Goroutine p := by
  intro p hp
  rcases List.mem_cons.mp hp with rfl | hp
  · exact .inl ⟨_, _, _, rfl⟩
  · rcases List.mem_cons.mp hp with rfl | hp
    · exact .inr (.inl ⟨_, _, _, rfl⟩)
    · rw [List.mem_singleton.mp hp]
      exact .inr (.inr ⟨trivial, fun _ => trivial⟩)

/-- The first one is entered, the second has found its candidates, and the route is emptied. -/
def beforeChange : List (Tagged serving) × List (Prog serving Unit) × Live :=
  schedule live threeGoroutines
    (List.replicate 10 (0, default) ++ [(1, default), (2, default)]) (.idle Proxy.twoBackends)

/-- Then the second one dials and is entered. -/
def afterChange : List (Tagged serving) × List (Prog serving Unit) × Live :=
  schedule live beforeChange.2.1 (List.replicate 8 (1, default)) beforeChange.2.2

theorem pool_beforeChange : Pool live (fun _ => True) threeGoroutines (.idle Proxy.twoBackends)
    beforeChange.1 beforeChange.2.1 beforeChange.2.2 :=
  pool_schedule _ (fun _ _ => trivial) _

theorem pool_afterChange : Pool live (fun _ => True) beforeChange.2.1 beforeChange.2.2
    afterChange.1 afterChange.2.1 afterChange.2.2 :=
  pool_schedule _ (fun _ _ => trivial) _

theorem connections_are_what_goroutines_hold_beforeChange :
    heldBy 3 beforeChange.1 = [⟨1, "u", "be1"⟩] ∧ beforeChange.2.2.backendConnections "be1" = 1 := by
  have hheld : heldBy 3 beforeChange.1 = [⟨1, "u", "be1"⟩] := by decide +kernel
  have h := connections_are_what_goroutines_hold goroutine_threeGoroutines rfl pool_beforeChange
    (by decide +kernel)
  refine ⟨hheld, (h.1 "be1").trans ?_⟩
  exact congrArg (fun l => (l.filter fun x => x.backendID = "be1").length) hheld

end NodeAgent.Conns
