import NodeAgent.Traffic.Tally
import NodeAgent.Lib.Exec

/-!
# No bytes are lost

What the ticks have obtained against what they have published. The publishers have no field for bytes
that are yet to be sent: a payload that cannot be published is gone, together with the counters from which
it was computed. A sum that does not fit into 64 bits loses bytes too.
-/

namespace NodeAgent.Traffic

open Lib

/-! ## What a trace has obtained and published -/

/-- The rows that a read has returned. -/
def readsOf : TrafficEvent → List (List UserStat)
  | ⟨.queryUserStats, .ok statsList⟩ => [statsList]
  | _ => []

/-- The lists of rows that the queries of a trace have read. -/
def reads (tr : List TrafficEvent) : List (List UserStat) := tr.flatMap readsOf

/-- The bytes that the queries of a trace have obtained, over both links and without the probes. -/
def obtained (p : BackendPublisher) (tr : List TrafficEvent) : ℕ :=
  ((reads tr).map fun rows => linkSum p linkUplink rows + linkSum p linkDownlink rows).sum

/-- The bytes in a payload of the node stream. -/
def nodeBytes : Payload → ℕ
  | .node entries => (entries.map fun e => e.bytesIn + e.bytesOut).sum
  | .users _ => 0

/-- The bytes in a payload of the user stream. -/
def userBytes : Payload → ℕ
  | .node _ => 0
  | .users deltas => (deltas.map UserTrafficDelta.deltaBytes).sum

def sentOf (f : Payload → ℕ) : TrafficEvent → ℕ
  | ⟨.publish _ m, none⟩ => f m
  | _ => 0

/-- The bytes in the payloads that were published with success. -/
def sent (f : Payload → ℕ) (tr : List TrafficEvent) : ℕ := (tr.map (sentOf f)).sum

/-- Every payload with `C` was published with success. -/
def AllSent (C : Payload → Prop) (tr : List TrafficEvent) : Prop :=
  ∀ subject m r, (⟨.publish subject m, r⟩ : TrafficEvent) ∈ tr → C m → r = none

/-- Never more is published than was obtained, and all of it exactly if every payload with `C` is and the
sums fit. -/
structure Accounted (C : Payload → Prop) (f : Payload → ℕ) (Fits : Prop) (got : ℕ)
    (tr : List TrafficEvent) : Prop where
  le : sent f tr ≤ got
  all_iff : got = sent f tr ↔ AllSent C tr ∧ Fits

section Traces

variable {C : Payload → Prop} {f : Payload → ℕ} {Fits Fits' : Prop} {got got' held : ℕ}
  {tr tr' : List TrafficEvent}

theorem sent_append : sent f (tr ++ tr') = sent f tr + sent f tr' := by
  rw [sent, List.map_append, List.sum_append]
  rfl

theorem reads_append : reads (tr ++ tr') = reads tr ++ reads tr' := List.flatMap_append

theorem obtained_append (p : BackendPublisher) :
    obtained p (tr ++ tr') = obtained p tr + obtained p tr' := by
  rw [obtained, reads_append, List.map_append, List.sum_append]
  rfl

theorem allSent_append : AllSent C (tr ++ tr') ↔ AllSent C tr ∧ AllSent C tr' := by
  constructor
  · intro h
    exact ⟨fun s m r hr => h s m r (List.mem_append_left _ hr),
      fun s m r hr => h s m r (List.mem_append_right _ hr)⟩
  · rintro ⟨h, h'⟩ s m r hr
    rcases List.mem_append.mp hr with hr | hr
    · exact h s m r hr
    · exact h' s m r hr

theorem Accounted.append (h : Accounted C f Fits got tr) (h' : Accounted C f Fits' got' tr') :
    Accounted C f (Fits ∧ Fits') (got + got') (tr ++ tr') := by
  have hle := h.le
  have hle' := h'.le
  refine ⟨?_, ?_⟩
  · rw [sent_append]
    omega
  · rw [sent_append, allSent_append, and_and_and_comm, ← h.all_iff, ← h'.all_iff]
    omega

theorem Accounted.congr (h : Accounted C f Fits got tr) (hfits : Fits ↔ Fits') (hgot : got = got') :
    Accounted C f Fits' got' tr := by
  subst hgot
  exact ⟨h.le, h.all_iff.trans (and_congr_right' hfits)⟩

theorem Accounted.within (h : Accounted C f True held tr) (hheld : held ≤ got ∧ (got = held ↔ Fits)) :
    Accounted C f Fits got tr := by
  have hle := h.le
  refine ⟨hle.trans hheld.1, ?_⟩
  have hiff := h.all_iff
  rw [and_true] at hiff
  rw [← hheld.2, ← hiff]
  omega

/-- The event is a publish, whether it succeeded or not. -/
def isPublish : TrafficEvent → Bool
  | ⟨.publish _ _, _⟩ => true
  | _ => false

theorem accounted_zero (h : ∀ ev ∈ tr, isPublish ev = false) : Accounted C f True 0 tr := by
  have hsent : sent f tr = 0 := by
    refine List.sum_eq_zero fun n hn => ?_
    obtain ⟨⟨c, r⟩, hev, rfl⟩ := List.mem_map.mp hn
    have hno := h _ hev
    cases c <;> first | rfl | cases hno
  refine ⟨hsent.le, iff_of_true hsent.symm ⟨fun s m r hr _ => ?_, trivial⟩⟩
  cases h _ hr

theorem Accounted.cons_quiet (h : Accounted C f True got tr') (hquiet : ∀ ev ∈ tr, isPublish ev = false) :
    Accounted C f True got (tr ++ tr') :=
  ((accounted_zero hquiet).append h).congr (iff_of_eq (true_and _)) (Nat.zero_add _)

theorem accounted_success {subject : String} {m : Payload} (hf : f m = got) :
    Accounted C f True got [⟨.publish subject m, none⟩] := by
  have hsent : sent f [⟨.publish subject m, none⟩] = got := hf
  refine ⟨hsent.le, iff_of_true hsent.symm ⟨fun s m' r hr _ => ?_, trivial⟩⟩
  cases List.mem_singleton.mp hr
  rfl

theorem accounted_failure {subject : String} {m : Payload} {err : GoError} (hm : C m)
    (hgot : got ≠ 0) : Accounted C f True got [⟨.publish subject m, some err⟩] := by
  refine ⟨Nat.zero_le got, iff_of_false hgot fun h => ?_⟩
  cases h.1 subject m (some err) List.mem_cons_self hm

theorem accounted_apart {subject : String} {m : Payload} (r : Option GoError) (hm : ¬ C m)
    (hf : f m = 0) : Accounted C f True 0 [⟨.publish subject m, r⟩] := by
  have hsent : sent f [⟨.publish subject m, r⟩] = 0 := by
    cases r with
    | none => exact hf
    | some err => rfl
  refine ⟨hsent.le, iff_of_true hsent.symm ⟨fun s m' r' hr hm' => ?_, trivial⟩⟩
  cases List.mem_singleton.mp hr
  exact absurd hm' hm

end Traces

/-! ## The backend's publisher -/

section Backend

variable {p : BackendPublisher} {rows : List UserStat} {tr : List TrafficEvent}

/-- The event neither publishes nor obtains anything. -/
def Silent (ev : TrafficEvent) : Prop := isPublish ev = false ∧ readsOf ev = []

theorem reads_of_silent (h : ∀ ev ∈ tr, Silent ev) : reads tr = [] :=
  List.flatMap_eq_nil_iff.mpr fun ev hev => (h ev hev).2

theorem publishLive_silent {ids : Option (List String)} (h : (publishLive p ids).After tr (.done ())) :
    ∀ ev ∈ tr, Silent ev := by
  unfold publishLive at h
  split at h
  · obtain ⟨rfl, -⟩ := Prog.after_done_iff.mp h
    simp
  · obtain ⟨ts, tr₁, rfl, h₁⟩ := Prog.after_invoke_done_iff.mp h
    obtain ⟨r, tr₂, rfl, h₂⟩ := Prog.after_invoke_done_iff.mp h₁
    obtain ⟨rfl, -⟩ := Prog.after_done_iff.mp h₂
    simp [Silent, isPublish, readsOf]

/-- What the end of a tick publishes: nothing, or the node's payload and maybe the users' one. -/
theorem publish_events {r : Option GoError} {t : Totals} (h : (p.publish t).After tr (.done r)) :
    (t.sumUp = 0 ∧ t.sumDown = 0 ∧ tr = []) ∨
      ¬ (t.sumUp = 0 ∧ t.sumDown = 0) ∧ ∃ r' rest,
        tr = ⟨.publish p.nodeTrafficSubject
          (.node [{ backendNodeID := p.nodeID, bytesIn := t.sumUp, bytesOut := t.sumDown }]), r'⟩ :: rest ∧
        (rest = [] ∨ ∃ r'', rest = [⟨.publish p.userTrafficSubject (.users t.deltas), r''⟩]) ∧
        (r' ≠ none → rest = []) ∧
        (r' = none → p.userTrafficSubject ≠ "" → t.deltas ≠ [] → rest ≠ []) := by
  unfold BackendPublisher.publish at h
  by_cases hzero : t.sumUp = 0 ∧ t.sumDown = 0
  · rw [if_pos hzero] at h
    exact .inl ⟨hzero.1, hzero.2, (Prog.after_done_iff.mp h).1⟩
  · rw [if_neg hzero] at h
    obtain ⟨r₁, tr₁, rfl, h₁⟩ := Prog.after_invoke_done_iff.mp h
    refine .inr ⟨hzero, r₁, tr₁, rfl, ?_⟩
    cases r₁ with
    | some err =>
      obtain ⟨rfl, -⟩ := Prog.after_done_iff.mp h₁
      exact ⟨.inl rfl, fun _ => rfl, fun h => by cases h⟩
    | none =>
      dsimp only at h₁
      split_ifs at h₁ with hsubject
      · obtain ⟨r₂, tr₂, rfl, h₂⟩ := Prog.after_invoke_done_iff.mp h₁
        obtain rfl : tr₂ = [] := by
          cases r₂ <;> exact (Prog.after_done_iff.mp h₂).1
        exact ⟨.inr ⟨r₂, rfl⟩, fun h => absurd rfl h, fun _ _ _ => List.cons_ne_nil _ _⟩
      · obtain ⟨rfl, -⟩ := Prog.after_done_iff.mp h₁
        exact ⟨.inl rfl, fun _ => rfl,
          fun _ hs hdeltas => absurd ⟨hs, List.length_pos_iff.mpr hdeltas⟩ hsubject⟩

/-- The payloads of the node stream. -/
def IsNode : Payload → Prop
  | .node _ => True
  | .users _ => False

/-- What a tick publishes that holds so many bytes for the node and for the users: the node's payload and
then, if there is a subject for it and the first one got through, the users' one. -/
inductive Publishes (p : BackendPublisher) (node users : ℕ) : List TrafficEvent → Prop
  | nothing (noneNode : node = 0) (noneUsers : users = 0) : Publishes p node users []
  | failed (someNode : node ≠ 0) (someUsers : users ≠ 0) (s : String) (m : List NodeTrafficPayload)
      (err : GoError) (bytes : nodeBytes (.node m) = node) :
      Publishes p node users [⟨.publish s (.node m), some err⟩]
  | nodeOnly (s : String) (m : List NodeTrafficPayload) (bytes : nodeBytes (.node m) = node)
      (noSubject : p.userTrafficSubject = "") : Publishes p node users [⟨.publish s (.node m), none⟩]
  | both (someUsers : users ≠ 0) (s s' : String) (m : List NodeTrafficPayload) (ds : List UserTrafficDelta)
      (r : Option GoError) (bytes : nodeBytes (.node m) = node) (userBytes : userBytes (.users ds) = users) :
      Publishes p node users [⟨.publish s (.node m), none⟩, ⟨.publish s' (.users ds), r⟩]

theorem Tallied.publishes {ks : List String} {r : Option GoError} {t : Totals} (ht : Tallied p rows ks t)
    (h : (p.publish t).After tr (.done r)) : Publishes p (t.sumUp + t.sumDown) t.billed tr := by
  rcases publish_events h with ⟨hup, hdown, rfl⟩ | ⟨hsome, r₁, rest, rfl, hrest, hfailed, hsent⟩
  · refine .nothing ?_ ?_
    · rw [hup, hdown]
    · rw [Totals.billed, if_pos ⟨hup, hdown⟩]
  · have hbilled := ht.billed_ne_zero hsome
    have husers : userBytes (.users t.deltas) = t.billed := (if_neg hsome).symm
    cases r₁ with
    | some err =>
      rw [hfailed (Option.some_ne_none err)]
      exact .failed (by omega) hbilled _ _ err rfl
    | none =>
      rcases hrest with rfl | ⟨r₂, rfl⟩
      · refine .nodeOnly _ _ rfl ?_
        by_contra hne
        have hdeltas : t.deltas ≠ [] := by
          intro hnil
          rw [hnil] at husers
          exact hbilled husers.symm
        exact hsent rfl hne hdeltas rfl
      · exact .both hbilled _ _ _ _ r₂ rfl husers

/-- Both streams are accounted for, against what the tick holds. -/
theorem Publishes.accounted {node users : ℕ} (h : Publishes p node users tr) :
    Accounted IsNode nodeBytes True node tr ∧
      (p.userTrafficSubject ≠ "" → Accounted (fun _ => True) userBytes True users tr) := by
  cases h with
  | nothing hnode husers =>
    rw [hnode, husers]
    exact ⟨accounted_zero (by simp), fun _ => accounted_zero (by simp)⟩
  | failed hnode husers s m err hbytes =>
    exact ⟨accounted_failure trivial hnode, fun _ => accounted_failure trivial husers⟩
  | nodeOnly s m hbytes hsubject =>
    exact ⟨accounted_success hbytes, fun hs => absurd hsubject hs⟩
  | both husers s s' m ds r hbytes husersBytes =>
    refine ⟨?_, fun _ => ?_⟩
    · have hnode : Accounted IsNode nodeBytes True node [⟨.publish s (.node m), none⟩] :=
        accounted_success hbytes
      exact (hnode.append (accounted_apart r id rfl)).congr (iff_of_eq (and_true _)) (Nat.add_zero _)
    · have hzero : Accounted (fun _ => True) userBytes True 0 [⟨.publish s (.node m), none⟩] :=
        accounted_success rfl
      have hsecond : Accounted (fun _ => True) userBytes True users [⟨.publish s' (.users ds), r⟩] := by
        cases r with
        | none => exact accounted_success husersBytes
        | some err => exact accounted_failure trivial husers
      exact (hzero.append hsecond).congr (iff_of_eq (true_and _)) (Nat.zero_add _)

/-- The stages of a tick that gets its rows: the order of the users, the live list, the payloads. -/
theorem backend_tick_stages {r : Option GoError} (h : p.tick.After tr (.done r)) :
    (∃ err, tr = [⟨.queryUserStats, .error err⟩]) ∨
      ∃ rows ks t ids range live pubs, tr = ⟨.queryUserStats, .ok rows⟩ :: (range ++ (live ++ pubs)) ∧
        (∀ ev ∈ range, ∃ keys, ev.call = .rangeOrder keys) ∧ Tallied p rows ks t ∧
        ids.getD [] = t.activeIDs ∧ (publishLive p ids).After live (.done ()) ∧
        (p.publish t).After pubs (.done r) := by
  obtain ⟨stats, tr₁, rfl, h₁⟩ := Prog.after_invoke_done_iff.mp h
  cases stats with
  | error err =>
    obtain ⟨rfl, -⟩ := Prog.after_done_iff.mp h₁
    exact .inl ⟨err, rfl⟩
  | ok rows =>
    refine .inr ⟨rows, ?_⟩
    dsimp only at h₁
    split_ifs at h₁ with hsize
    · obtain ⟨_, tr₂, tr₃, rfl, hlive, h₃⟩ := Prog.after_bind_done_iff.mp h₁
      obtain ⟨rfl, heq⟩ := Prog.after_done_iff.mp h₃
      cases heq
      have hkeys : (rows.foldl addStat ∅).keys = [] := by
        rw [← List.length_eq_zero_iff, Std.ExtTreeMap.length_keys]
        exact hsize
      exact ⟨_, {}, none, [], tr₂, [], rfl, by simp, tallied_foldl (by rw [hkeys]), rfl, hlive, .nil _⟩
    · obtain ⟨order, tr₂, rfl, h₂⟩ := Prog.after_invoke_done_iff.mp h₁
      obtain ⟨_, tr₃, tr₄, rfl, hlive, h₄⟩ := Prog.after_bind_done_iff.mp h₂
      exact ⟨_, _, _, [⟨.rangeOrder _, order⟩], tr₃, tr₄, rfl, by simp, tallied_foldl order.property, rfl,
        hlive, h₄⟩

/-- What a tick has read, and what it publishes of it after everything else. -/
theorem backend_tick_events {r : Option GoError} (h : p.tick.After tr (.done r)) :
    (reads tr = [] ∧ ∀ ev ∈ tr, isPublish ev = false) ∨
      ∃ rows ks t pre pubs, reads tr = [rows] ∧ Tallied p rows ks t ∧ tr = pre ++ pubs ∧
        (∀ ev ∈ pre, isPublish ev = false) ∧ Publishes p (t.sumUp + t.sumDown) t.billed pubs := by
  rcases backend_tick_stages h with ⟨err, rfl⟩ |
    ⟨rows, ks, t, ids, range, live, pubs, rfl, hrange, ht, -, hlive, hpub⟩
  · exact .inl ⟨rfl, by simp [isPublish]⟩
  · have hsilent : ∀ ev ∈ range ++ live, Silent ev := by
      intro ev hev
      rcases List.mem_append.mp hev with hev | hev
      · obtain ⟨c, r⟩ := ev
        obtain ⟨keys, rfl⟩ := hrange _ hev
        exact ⟨rfl, rfl⟩
      · exact publishLive_silent hlive ev hev
    have hpubs := ht.publishes hpub
    have hnone : reads pubs = [] := by cases hpubs <;> rfl
    refine .inr ⟨rows, ks, t, ⟨.queryUserStats, .ok rows⟩ :: (range ++ live), pubs, ?_, ht, by simp, ?_,
      hpubs⟩
    · rw [← List.append_assoc, ← List.singleton_append, reads_append, reads_append,
        reads_of_silent hsilent, hnone]
      rfl
    · exact List.forall_mem_cons.mpr ⟨rfl, fun ev hev => (hsilent ev hev).1⟩

/-- A tick is accounted for, in both streams. -/
theorem backend_tick {r : Option GoError} (h : p.tick.After tr (.done r)) :
    Accounted IsNode nodeBytes (∀ rows ∈ reads tr, NodeFits p rows) (obtained p tr) tr ∧
      (p.userTrafficSubject ≠ "" →
        Accounted (fun _ => True) userBytes (∀ rows ∈ reads tr, UsersFit p rows) (obtained p tr) tr) := by
  rcases backend_tick_events h with ⟨hreads, hquiet⟩ | ⟨rows, ks, t, pre, pubs, hreads, ht, heq, hpre, hpubs⟩
  · have hnone : obtained p tr = 0 := by
      rw [obtained, hreads]
      rfl
    rw [hnone, hreads]
    have hvacuous : ∀ {P : List UserStat → Prop}, True ↔ ∀ rows ∈ ([] : List (List UserStat)), P rows := by
      simp
    exact ⟨(accounted_zero hquiet).congr hvacuous rfl, fun _ => (accounted_zero hquiet).congr hvacuous rfl⟩
  · have hgot : obtained p tr = linkSum p linkUplink rows + linkSum p linkDownlink rows := by
      rw [obtained, hreads]
      exact Nat.add_zero _
    obtain ⟨hnode, husers⟩ := hpubs.accounted
    rw [hgot, hreads, heq]
    have hone : ∀ {P : List UserStat → Prop}, P rows ↔ ∀ rows' ∈ [rows], P rows' := by simp
    exact ⟨((hnode.cons_quiet hpre).within ht.node_held).congr hone rfl,
      fun hs => (((husers hs).cons_quiet hpre).within ht.users_held).congr hone rfl⟩

theorem backend_run {n : ℕ} (h : (p.run n).After tr (.done ())) :
    Accounted IsNode nodeBytes (∀ rows ∈ reads tr, NodeFits p rows) (obtained p tr) tr ∧
      (p.userTrafficSubject ≠ "" →
        Accounted (fun _ => True) userBytes (∀ rows ∈ reads tr, UsersFit p rows) (obtained p tr) tr) := by
  induction n generalizing tr with
  | zero =>
    obtain ⟨rfl, -⟩ := Prog.after_done_iff.mp h
    have hvacuous : ∀ {P : List UserStat → Prop}, True ↔ ∀ rows ∈ reads [], P rows := by simp [reads]
    exact ⟨(accounted_zero (by simp)).congr hvacuous rfl,
      fun _ => (accounted_zero (by simp)).congr hvacuous rfl⟩
  | succ n ih =>
    obtain ⟨r, tr₁, tr₂, rfl, h₁, h₂⟩ := Prog.after_bind_done_iff.mp h
    obtain ⟨hnode, husers⟩ := backend_tick h₁
    obtain ⟨hnode', husers'⟩ := ih h₂
    rw [obtained_append, reads_append]
    have hboth : ∀ {P : List UserStat → Prop}, ((∀ rows ∈ reads tr₁, P rows) ∧ ∀ rows ∈ reads tr₂, P rows) ↔
        ∀ rows ∈ reads tr₁ ++ reads tr₂, P rows := List.forall_mem_append.symm
    exact ⟨(hnode.append hnode').congr hboth rfl,
      fun hs => ((husers hs).append (husers' hs)).congr hboth rfl⟩

end Backend

/-! ## The entry's publisher -/

/-- The two counters of a connection. What it uploads is the backend's outgoing traffic. -/
inductive Direction
  | upload
  | download
  deriving DecidableEq, Repr

namespace Direction

/-- What is read in a direction: of a connection, of the last reading, of an entry, and of a tick's sums. -/
def ofConn : Direction → Singbox.Connection → ℕ
  | .upload, c => c.upload
  | .download, c => c.download

def ofState : Direction → ConnState → ℕ
  | .upload, st => st.upload
  | .download, st => st.download

def ofEntry : Direction → NodeTrafficPayload → ℕ
  | .upload, e => e.bytesOut
  | .download, e => e.bytesIn

def ofTick : Direction → PerBackend → GoMap ℕ
  | .upload, t => t.bytesOut
  | .download, t => t.bytesIn

end Direction

/-- By how much a counter has grown since it was noted. -/
def increment (d : Direction) (last : GoMap ConnState) (c : Singbox.Connection) : ℕ :=
  deltaSince (last[c.id]?.map d.ofState) (d.ofConn c)

/-- The connections that go through a backend. -/
def connsFor (b : String) (conns : List Singbox.Connection) : List Singbox.Connection :=
  conns.filter fun c => pickBackendID c.chains = b

section Entry

variable {p : Publisher} {conns : List Singbox.Connection} {last seen : GoMap ConnState}
  {tr : List TrafficEvent}

/-- By how much a connection has grown since it was observed. -/
def growth (seen : GoMap ConnState) (c : Singbox.Connection) : ℕ :=
  if pickBackendID c.chains = "" then 0 else increment .upload seen c + increment .download seen c

/-- Note the connections of a snapshot that go through a backend. -/
def observe (m : GoMap ConnState) (conns : List Singbox.Connection) : GoMap ConnState :=
  conns.foldl (fun m c => if pickBackendID c.chains = "" then m
    else m.insert c.id { upload := c.upload, download := c.download }) m

/-- The increments between successive observations of the connections. -/
def grown : GoMap ConnState → List (List Singbox.Connection) → ℕ
  | _, [] => 0
  | seen, conns :: rest => (conns.map (growth seen)).sum + grown (observe seen conns) rest

/-- A connection that has dropped out of a snapshot does not come back with more bytes. -/
def Unbroken : GoMap ConnState → GoMap ConnState → List (List Singbox.Connection) → Prop
  | _, _, [] => True
  | seen, last, conns :: rest => (∀ c ∈ conns, c.id ∉ last → growth seen c = 0) ∧
      Unbroken (observe seen conns) (observe ∅ conns) rest

/-- The sums of every backend fit into 64 bits. -/
def BackendsFit (last : GoMap ConnState) (conns : List Singbox.Connection) : Prop :=
  ∀ d b, b ≠ "" → ((connsFor b conns).map (increment d last)).sum < 2 ^ 64

/-- The sums of every tick fit. -/
def TicksFit : GoMap ConnState → List (List Singbox.Connection) → Prop
  | _, [] => True
  | last, conns :: rest => BackendsFit last conns ∧ TicksFit (observe ∅ conns) rest

def snapshotsOf : TrafficEvent → List (List Singbox.Connection)
  | ⟨.connections, .ok conns⟩ => [conns]
  | _ => []

/-- The lists of connections that were fetched. -/
def snapshots (tr : List TrafficEvent) : List (List Singbox.Connection) := tr.flatMap snapshotsOf

theorem getD_bump64 (m : GoMap ℕ) (k x : String) (v n : ℕ) (h : m[x]?.getD 0 = n % 2 ^ 64) :
    (if v > 0 then bump64 m k v else m)[x]?.getD 0 = (n + if k = x then v else 0) % 2 ^ 64 := by
  split_ifs with hv hk hk
  · rw [bump64, GoMap.getElem?_insert, if_pos hk.symm, Option.getD_some, hk, h, add64, Nat.mod_add_mod]
  · rw [bump64, GoMap.getElem?_insert, if_neg (Ne.symm hk)]
    exact h
  · rw [Nat.eq_zero_of_not_pos hv]
    exact h
  · exact h

theorem getD_addConn {d : Direction} {b : String} (hb : b ≠ "") (t : PerBackend) (c : Singbox.Connection)
    (n : ℕ) (h : (d.ofTick t)[b]?.getD 0 = n % 2 ^ 64) : (d.ofTick (addConn last t c))[b]?.getD 0 =
      (n + if pickBackendID c.chains = b then increment d last c else 0) % 2 ^ 64 := by
  unfold addConn
  by_cases hnone : pickBackendID c.chains = ""
  · rw [if_pos hnone, if_neg fun hpick => hb (hpick.symm.trans hnone)]
    exact h
  · rw [if_neg hnone]
    cases d with
    | upload => exact getD_bump64 _ _ _ _ _ h
    | download => exact getD_bump64 _ _ _ _ _ h

theorem getD_foldl_addConn (d : Direction) {b : String} (hb : b ≠ "") :
    (d.ofTick (conns.foldl (addConn last) {}))[b]?.getD 0 =
      ((connsFor b conns).map (increment d last)).sum % 2 ^ 64 := by
  have hstart : (d.ofTick {})[b]?.getD 0 = 0 % 2 ^ 64 := by cases d <;> rfl
  have hstep : ∀ t c n, (d.ofTick t)[b]?.getD 0 = n % 2 ^ 64 → (d.ofTick (addConn last t c))[b]?.getD 0 =
      (n + if pickBackendID c.chains = b then increment d last c else 0) % 2 ^ 64 := getD_addConn hb
  have hfold := foldl_mod_by_key (fun t => (d.ofTick t)[b]?.getD 0) hstep conns hstart
  rw [Nat.zero_add] at hfold
  exact hfold

theorem mem_active (t : PerBackend) (k : String) :
    k ∈ (conns.foldl (addConn last) t).active ↔
      k ∈ t.active ∨ ∃ c ∈ conns, pickBackendID c.chains = k ∧ k ≠ "" := by
  induction conns generalizing t with
  | nil => simp
  | cons c conns ih =>
    have hstep : k ∈ (addConn last t c).active ↔
        k ∈ t.active ∨ (pickBackendID c.chains = k ∧ k ≠ "") := by
      unfold addConn
      by_cases hb : pickBackendID c.chains = ""
      · rw [if_pos hb]
        refine (or_iff_left ?_).symm
        rintro ⟨rfl, hne⟩
        exact hne hb
      · rw [if_neg hb]
        show k ∈ bump t.active _ 1 ↔ _
        rw [bump, GoMap.mem_insert, or_comm, eq_comm]
        refine or_congr_right (and_iff_left_of_imp ?_).symm
        rintro rfl
        exact hb
    rw [List.foldl_cons, ih, hstep, List.exists_mem_cons_iff, or_assoc]

theorem cur_foldl_addConn (t : PerBackend) :
    (conns.foldl (addConn last) t).cur = observe t.cur conns := by
  induction conns generalizing t with
  | nil => rfl
  | cons c conns ih =>
    rw [List.foldl_cons, ih, observe, observe, List.foldl_cons]
    congr 1
    unfold addConn
    by_cases hb : pickBackendID c.chains = ""
    · rw [if_pos hb, if_pos hb]
    · rw [if_neg hb, if_neg hb]

theorem mem_keys_active (b : String) : b ∈ (conns.foldl (addConn last) {}).active.keys ↔
    b ≠ "" ∧ connsFor b conns ≠ [] := by
  rw [Std.ExtTreeMap.mem_keys, mem_active, or_iff_right Std.ExtTreeMap.not_mem_empty]
  constructor
  · rintro ⟨c, hc, hpick, hb⟩
    exact ⟨hb, List.ne_nil_of_mem (List.mem_filter.mpr ⟨hc, decide_eq_true hpick⟩)⟩
  · rintro ⟨hb, hsome⟩
    obtain ⟨c, hc⟩ := List.exists_mem_of_ne_nil _ hsome
    obtain ⟨hc, hpick⟩ := List.mem_filter.mp hc
    exact ⟨c, hc, of_decide_eq_true hpick, hb⟩

theorem growth_of_connsFor {b : String} (hb : b ≠ "") :
    ((connsFor b conns).map (growth last)).sum = ((connsFor b conns).map (increment .download last)).sum +
      ((connsFor b conns).map (increment .upload last)).sum := by
  rw [← List.sum_map_add]
  refine congrArg List.sum (List.map_congr_left fun c hc => ?_)
  have hpick : pickBackendID c.chains = b := of_decide_eq_true (List.mem_filter.mp hc).2
  rw [growth, hpick, if_neg hb, Nat.add_comm]

/-- Backend by backend, a payload has the growth of all connections exactly if the sums fit. -/
theorem entries_held {order : List String}
    (horder : order.Perm (conns.foldl (addConn last) {}).active.keys) :
    nodeBytes (.node (order.map (p.entry (conns.foldl (addConn last) {})))) ≤
        (conns.map (growth last)).sum ∧
      ((conns.map (growth last)).sum =
          nodeBytes (.node (order.map (p.entry (conns.foldl (addConn last) {})))) ↔
        BackendsFit last conns) := by
  have hnodup : order.Nodup := horder.nodup_iff.mpr Std.ExtTreeMap.nodup_keys
  have hmem : ∀ b, b ∈ order ↔ b ≠ "" ∧ connsFor b conns ≠ [] := fun b =>
    horder.mem_iff.trans (mem_keys_active b)
  have hgrowth : (conns.map (growth last)).sum = (order.map fun b =>
      ((connsFor b conns).map (increment .download last)).sum +
        ((connsFor b conns).map (increment .upload last)).sum).sum := by
    have hin : ∀ c ∈ conns, growth last c ≠ 0 → pickBackendID c.chains ∈ order := fun c hc hne =>
      (hmem _).mpr ⟨fun hb => hne (if_pos hb),
        List.ne_nil_of_mem (List.mem_filter.mpr ⟨hc, decide_eq_true rfl⟩)⟩
    rw [← sum_by_key hnodup hin]
    exact congrArg List.sum (List.map_congr_left fun b hb => growth_of_connsFor ((hmem b).mp hb).1)
  have hbytes : nodeBytes (.node (order.map (p.entry (conns.foldl (addConn last) {})))) = (order.map fun b =>
      ((connsFor b conns).map (increment .download last)).sum % 2 ^ 64 +
        ((connsFor b conns).map (increment .upload last)).sum % 2 ^ 64).sum := by
    rw [nodeBytes, List.map_map]
    refine congrArg List.sum (List.map_congr_left fun b hb => ?_)
    rw [← getD_foldl_addConn _ ((hmem b).mp hb).1, ← getD_foldl_addConn _ ((hmem b).mp hb).1]
    rfl
  obtain ⟨hle, hiff⟩ := sum_map_eq_iff fun b (_ : b ∈ order) => Nat.add_le_add
    (Nat.mod_le ((connsFor b conns).map (increment .download last)).sum (2 ^ 64))
    (Nat.mod_le ((connsFor b conns).map (increment .upload last)).sum (2 ^ 64))
  rw [hgrowth, hbytes]
  refine ⟨hle, hiff.trans ⟨fun heq d b hb => ?_, fun hfits b hb => ?_⟩⟩
  · by_cases hin : b ∈ order
    · have hboth := heq b hin
      cases d <;> omega
    · have hnone : connsFor b conns = [] := by
        by_contra hne
        exact hin ((hmem b).mpr ⟨hb, hne⟩)
      rw [hnone]
      exact Nat.two_pow_pos 64
  · rw [Nat.mod_eq_of_lt (hfits .download b ((hmem b).mp hb).1),
      Nat.mod_eq_of_lt (hfits .upload b ((hmem b).mp hb).1)]

theorem backendsFit_of_lt (h : (conns.map (growth last)).sum < 2 ^ 64) : BackendsFit last conns := by
  intro d b hb
  have hle : ((connsFor b conns).map (growth last)).sum ≤ (conns.map (growth last)).sum :=
    (sum_filter_eq_iff _).1
  rw [growth_of_connsFor hb] at hle
  cases d <;> omega

/-- A payload that carries bytes. -/
def Carries (m : Payload) : Prop := nodeBytes m ≠ 0

/-- The stages of a tick: without a snapshot nothing happens; with one, the backends are ranged over and the
payload is published, unless there are none. -/
theorem publisher_tick_stages {r : GoMap ConnState × Option GoError}
    (h : (p.tick last).After tr (.done r)) :
    (snapshots tr = [] ∧ r.1 = last ∧ ∀ ev ∈ tr, isPublish ev = false) ∨
      ∃ conns rest, tr = ⟨.connections, .ok conns⟩ :: rest ∧ r.1 = observe ∅ conns ∧
        ((rest = [] ∧ (conns.foldl (addConn last) {}).active.keys = []) ∨ ∃ keys order res,
          order.val.Perm (conns.foldl (addConn last) {}).active.keys ∧
          rest = [⟨.rangeOrder keys, order⟩, ⟨.publish p.subject
            (.node (order.val.map (p.entry (conns.foldl (addConn last) {})))), res⟩]) := by
  unfold Publisher.tick at h
  split_ifs at h with hconns
  · obtain ⟨rfl, hr⟩ := Prog.after_done_iff.mp h
    cases hr
    exact .inl ⟨rfl, rfl, by simp⟩
  obtain ⟨snap, tr₁, rfl, h₁⟩ := Prog.after_invoke_done_iff.mp h
  cases snap with
  | error err =>
    obtain ⟨rfl, hr⟩ := Prog.after_done_iff.mp h₁
    cases hr
    exact .inl ⟨rfl, rfl, by simp [isPublish]⟩
  | ok conns =>
    refine .inr ⟨conns, tr₁, rfl, ?_⟩
    dsimp only at h₁
    split_ifs at h₁ with hsize
    · obtain ⟨rfl, hr⟩ := Prog.after_done_iff.mp h₁
      cases hr
      refine ⟨cur_foldl_addConn {}, .inl ⟨rfl, ?_⟩⟩
      rw [← List.length_eq_zero_iff, Std.ExtTreeMap.length_keys]
      exact hsize
    · obtain ⟨order, tr₂, rfl, h₂⟩ := Prog.after_invoke_done_iff.mp h₁
      obtain ⟨res, tr₃, rfl, h₃⟩ := Prog.after_invoke_done_iff.mp h₂
      obtain ⟨rfl, hr⟩ : tr₃ = [] ∧ r.1 = (conns.foldl (addConn last) {}).cur := by
        cases res <;>
        · obtain ⟨rfl, hr⟩ := Prog.after_done_iff.mp h₃
          cases hr
          exact ⟨rfl, rfl⟩
      exact ⟨hr.trans (cur_foldl_addConn {}), .inr ⟨_, order, res, order.property, rfl⟩⟩

/-- With a snapshot, the growth since the last one is published. -/
theorem publisher_tick {r : GoMap ConnState × Option GoError}
    (h : (p.tick last).After tr (.done r)) :
    (snapshots tr = [] ∧ r.1 = last ∧ ∀ ev ∈ tr, isPublish ev = false) ∨
      ∃ conns, snapshots tr = [conns] ∧ r.1 = observe ∅ conns ∧
        Accounted Carries nodeBytes (BackendsFit last conns) (conns.map (growth last)).sum tr := by
  refine (publisher_tick_stages h).imp_right ?_
  rintro ⟨conns, rest, rfl, hr, ⟨rfl, hkeys⟩ | ⟨keys, order, res, horder, rfl⟩⟩
  · refine ⟨conns, rfl, hr, (accounted_zero (by simp [isPublish])).within ?_⟩
    have hnone : ([] : List String).Perm (conns.foldl (addConn last) {}).active.keys := by rw [hkeys]
    exact entries_held (p := p) hnone
  · refine ⟨conns, rfl, hr, Accounted.within ?_ (entries_held (p := p) horder)⟩
    generalize order.val.map (p.entry (conns.foldl (addConn last) {})) = entries
    have hpub : Accounted Carries nodeBytes True (nodeBytes (.node entries))
        [⟨.publish p.subject (.node entries), res⟩] := by
      cases res with
      | none => exact accounted_success rfl
      | some err =>
        by_cases hzero : nodeBytes (.node entries) = 0
        · rw [hzero]
          exact accounted_apart _ (not_not.mpr hzero) hzero
        · exact accounted_failure hzero hzero
    have hquiet : ∀ ev ∈ ([⟨.connections, .ok conns⟩, ⟨.rangeOrder keys, order⟩] : List TrafficEvent),
        isPublish ev = false := by
      simp [isPublish]
    exact hpub.cons_quiet hquiet

/-- What was observed last was observed. -/
def Extends (last seen : GoMap ConnState) : Prop :=
  ∀ (id : String) (st : ConnState), last[id]? = some st → seen[id]? = some st

theorem Extends.observe (h : Extends last seen) : Extends (observe last conns) (observe seen conns) := by
  induction conns generalizing last seen with
  | nil => exact h
  | cons c conns ih =>
    rw [Traffic.observe, Traffic.observe, List.foldl_cons, List.foldl_cons]
    refine ih ?_
    split_ifs
    · exact h
    · intro id st hid
      rw [GoMap.getElem?_insert] at hid ⊢
      split_ifs at hid ⊢
      · exact hid
      · exact h id st hid

theorem extends_empty (seen : GoMap ConnState) : Extends ∅ seen := by
  intro id st h
  simp at h

theorem growth_of_not_mem {c : Singbox.Connection} (h : c.id ∉ last) : growth last c = 0 := by
  have hnone : last[c.id]? = none := Std.ExtTreeMap.getElem?_eq_none h
  rw [growth, increment, increment, hnone]
  exact ite_self 0

theorem growth_eq_iff (h : Extends last seen) (c : Singbox.Connection) :
    growth last c ≤ growth seen c ∧
      (growth seen c = growth last c ↔ (c.id ∉ last → growth seen c = 0)) := by
  by_cases hmem : c.id ∈ last
  · obtain ⟨st, hst⟩ : ∃ st, last[c.id]? = some st := ⟨_, Std.ExtTreeMap.getElem?_eq_some_getElem hmem⟩
    have heq : growth seen c = growth last c := by
      rw [growth, growth, increment, increment, increment, increment, hst, h c.id st hst]
    exact ⟨heq.ge, iff_of_true heq fun hno => absurd hmem hno⟩
  · rw [growth_of_not_mem hmem]
    exact ⟨Nat.zero_le _, fun heq _ => heq, fun himp => himp hmem⟩

theorem sum_growth_eq_iff (h : Extends last seen) :
    (conns.map (growth last)).sum ≤ (conns.map (growth seen)).sum ∧
      ((conns.map (growth seen)).sum = (conns.map (growth last)).sum ↔
        ∀ c ∈ conns, c.id ∉ last → growth seen c = 0) := by
  obtain ⟨hle, hiff⟩ := sum_map_eq_iff fun c (_ : c ∈ conns) => (growth_eq_iff h c).1
  exact ⟨hle, hiff.trans (forall₂_congr fun c _ => eq_comm.trans (growth_eq_iff h c).2)⟩

/-- Along the ticks: all growth is published exactly if every payload with bytes is, no connection drops out
and comes back with more bytes, and the sums fit. -/
theorem publisher_run {n : ℕ} (hext : Extends last seen)
    (h : (p.run n last).After tr (.done ())) :
    sent nodeBytes tr ≤ grown seen (snapshots tr) ∧
      (grown seen (snapshots tr) = sent nodeBytes tr ↔
        AllSent Carries tr ∧ Unbroken seen last (snapshots tr) ∧ TicksFit last (snapshots tr)) := by
  induction n generalizing last seen tr with
  | zero =>
    obtain ⟨rfl, -⟩ := Prog.after_done_iff.mp h
    exact ⟨Nat.le_refl 0, iff_of_true rfl ⟨fun _ _ _ hr => by simp at hr, trivial, trivial⟩⟩
  | succ n ih =>
    obtain ⟨r, tr₁, tr₂, rfl, h₁, h₂⟩ := Prog.after_bind_done_iff.mp h
    have hsnaps : snapshots (tr₁ ++ tr₂) = snapshots tr₁ ++ snapshots tr₂ := List.flatMap_append
    rw [sent_append, allSent_append, hsnaps]
    rcases publisher_tick h₁ with ⟨hnone, hr, hquiet⟩ | ⟨conns, hsnap, hr, hacc⟩
    · rw [hr] at h₂
      have hzero : Accounted Carries nodeBytes True 0 tr₁ := accounted_zero hquiet
      have hsent : sent nodeBytes tr₁ = 0 := Nat.le_zero.mp hzero.le
      rw [hnone, hsent, Nat.zero_add, List.nil_append, and_assoc,
        and_iff_right (hzero.all_iff.mp hsent.symm).1]
      exact ih hext h₂
    · rw [hr] at h₂
      obtain ⟨hle, hiff⟩ := ih (extends_empty seen).observe h₂
      obtain ⟨hle', hiff'⟩ : _ ∧ (_ ↔ ∀ c ∈ conns, _) := sum_growth_eq_iff hext
      have hsent := hacc.le
      rw [hsnap, List.singleton_append]
      show _ ≤ (conns.map (growth seen)).sum + _ ∧
        ((conns.map (growth seen)).sum + _ = _ ↔ _ ∧ (_ ∧ _) ∧ (_ ∧ _))
      have hparts : (conns.map (growth last)).sum = sent nodeBytes tr₁ ∧
          grown (observe seen conns) (snapshots tr₂) = sent nodeBytes tr₂ ∧
          (conns.map (growth seen)).sum = (conns.map (growth last)).sum ↔
          (AllSent Carries tr₁ ∧ AllSent Carries tr₂) ∧
            ((∀ c ∈ conns, c.id ∉ last → growth seen c = 0) ∧
              Unbroken (observe seen conns) (observe ∅ conns) (snapshots tr₂)) ∧
            BackendsFit last conns ∧ TicksFit (observe ∅ conns) (snapshots tr₂) := by
        rw [hacc.all_iff, hiff, hiff']
        tauto
      refine ⟨by omega, Iff.trans ?_ hparts⟩
      omega

end Entry

/-! ## Both publishers -/

/-- The bytes obtained are the bytes published, in each stream, exactly if the payloads get through and the
sums fit into 64 bits; for the entry's connections also no connection may drop out of a snapshot and come back
with more bytes. -/
theorem traffic_conserved_iff (b : BackendPublisher) (p : Publisher) {n m : ℕ}
    {tr tr' : List TrafficEvent} (hb : (b.run n).After tr (.done ()))
    (hp : (p.run m ∅).After tr' (.done ())) :
    (obtained b tr = sent nodeBytes tr ↔ AllSent IsNode tr ∧ ∀ rows ∈ reads tr, NodeFits b rows) ∧
      (b.userTrafficSubject ≠ "" → (obtained b tr = sent userBytes tr ↔
        AllSent (fun _ => True) tr ∧ ∀ rows ∈ reads tr, UsersFit b rows)) ∧
      (grown ∅ (snapshots tr') = sent nodeBytes tr' ↔
        AllSent Carries tr' ∧ Unbroken ∅ ∅ (snapshots tr') ∧ TicksFit ∅ (snapshots tr')) := by
  obtain ⟨hnode, husers⟩ := backend_run hb
  exact ⟨hnode.all_iff, fun hs => (husers hs).all_iff, (publisher_run (extends_empty ∅) hp).2⟩

/-! ## Two ticks -/

/-- What the outside answers to one call. -/
structure Answer where
  stats : List UserStat := []
  conns : List Singbox.Connection := []
  fail : Option GoError := none

instance : Inhabited Answer := ⟨{}⟩

/-- The environment answers what it is told to. -/
def outside : Handler traffic Answer Unit where
  exec
    | .queryUserStats, e, _ => (.ok e.stats, ())
    | .connections, e, _ => (.ok e.conns, ())
    | .now, _, _ => (0, ())
    | .rangeOrder keys, _, _ => (⟨keys, .refl keys⟩, ())
    | .kvPut _ _ _, e, _ => (e.fail, ())
    | .publish _ _, e, _ => (e.fail, ())

theorem allSent_of_noFault {C : Payload → Prop} {tr : List TrafficEvent}
    (h : Steps outside (fun e => e.fail = none) () tr ()) : AllSent C tr := by
  intro subject m r hmem _
  obtain ⟨-, -, w, e, -, -, he, hr, -⟩ := h.split_mem hmem
  exact hr.symm.trans he

section Fixed

open Eval

def backendNode : BackendPublisher where
  nodeID := "n"
  userTrafficSubject := "users.traffic"

def entryNode : Publisher where
  nodeID := "e"
  nodeRole := "entry"

/-- A client has moved twelve bytes; then there is nothing more. -/
def userTicks (fail : Option GoError) : List TrafficEvent × Unit × Unit :=
  replay outside (backendNode.run 2)
    [{ stats := [⟨"c", "uplink", 5⟩, ⟨"c", "downlink", 7⟩] }, {}, { fail := fail }, { fail := fail }] ()

def uploaded (bytes : ℕ) : Singbox.Connection where
  id := "x"
  chains := direct.chains
  upload := bytes

/-- A connection moves fifteen bytes between two snapshots. -/
def connTicks (fail : Option GoError) : List TrafficEvent × Unit × Unit :=
  replay outside (entryNode.run 2 ∅)
    [{ conns := [uploaded 10] }, {}, {}, { conns := [uploaded 25] }, {}, { fail := fail }] ()

theorem after_userTicks (fail : Option GoError) :
    (backendNode.run 2).After (userTicks fail).1 (.done ()) :=
  (run_replay (A := fun _ => True) trivial _ (fun _ _ => trivial) ()).1

theorem after_connTicks (fail : Option GoError) :
    (entryNode.run 2 ∅).After (connTicks fail).1 (.done ()) :=
  (run_replay (A := fun _ => True) trivial _ (fun _ _ => trivial) ()).1

theorem traffic_conserved_delivered : obtained backendNode (userTicks none).1 = 12 ∧
    grown ∅ (snapshots (connTicks none).1) = 15 ∧
    obtained backendNode (userTicks none).1 = sent nodeBytes (userTicks none).1 ∧
    obtained backendNode (userTicks none).1 = sent userBytes (userTicks none).1 ∧
    grown ∅ (snapshots (connTicks none).1) = sent nodeBytes (connTicks none).1 := by
  have hsent : ∀ C, AllSent C (userTicks none).1 := fun C => allSent_of_noFault
    (run_replay (A := fun e : Answer => e.fail = none) rfl _ (by simp) ()).2
  have hsent' : ∀ C, AllSent C (connTicks none).1 := fun C => allSent_of_noFault
    (run_replay (A := fun e : Answer => e.fail = none) rfl _ (by simp) ()).2
  obtain ⟨hnode, husers, hconns⟩ := traffic_conserved_iff backendNode entryNode (after_userTicks none)
    (after_connTicks none)
  have hfits : ∀ rows ∈ reads (userTicks none).1, NodeFits backendNode rows ∧ UsersFit backendNode rows := by
    have hreads : reads (userTicks none).1 = [[⟨"c", "uplink", 5⟩, ⟨"c", "downlink", 7⟩], []] := by rfl
    rw [hreads]
    exact List.forall_mem_cons.mpr ⟨fits_of_lt (by decide +kernel),
      List.forall_mem_singleton.mpr (fits_of_lt (by decide +kernel))⟩
  refine ⟨by decide +kernel, by decide +kernel, hnode.mpr ⟨hsent _, fun rows h => (hfits rows h).1⟩,
    (husers (by decide)).mpr ⟨hsent _, fun rows h => (hfits rows h).2⟩, hconns.mpr ⟨hsent' _, ?_⟩⟩
  -- the connection is in both snapshots
  have hsnaps : snapshots (connTicks none).1 = [[uploaded 10], [uploaded 25]] := by rfl
  have hb : pickBackendID direct.chains ≠ "" := by decide +kernel
  have hin : "x" ∈ observe ∅ [uploaded 10] := by
    simp [observe, uploaded, hb]
  rw [hsnaps]
  refine ⟨⟨fun c _ hno => growth_of_not_mem hno, fun c hc hno => absurd hin ?_, trivial⟩,
    backendsFit_of_lt (by decide +kernel), backendsFit_of_lt (by decide +kernel), trivial⟩
  rw [List.mem_singleton.mp hc] at hno
  exact hno

/-- Three clients with the largest value there is: the node's sum wraps around. -/
example : ((replay outside (backendNode.run 1) [{ stats := ["a", "b", "c"].map (⟨·, "uplink", 2 ^ 63 - 1⟩) }]
    ()).1.map (sentOf nodeBytes)).sum = 2 ^ 63 - 3 := by
  decide +kernel

/-- The payloads are not published, and the bytes are never sent. -/
theorem failed_publish_loses_bytes :
    (backendNode.run 2).After (userTicks (some (.new "nats: timeout"))).1 (.done ()) ∧
      obtained backendNode (userTicks (some (.new "nats: timeout"))).1 = 12 ∧
      sent nodeBytes (userTicks (some (.new "nats: timeout"))).1 = 0 ∧
      sent userBytes (userTicks (some (.new "nats: timeout"))).1 = 0 ∧
    (entryNode.run 2 ∅).After (connTicks (some (.new "nats: timeout"))).1 (.done ()) ∧
      grown ∅ (snapshots (connTicks (some (.new "nats: timeout"))).1) = 15 ∧
      sent nodeBytes (connTicks (some (.new "nats: timeout"))).1 = 0 :=
  ⟨after_userTicks _, by decide +kernel, by decide +kernel, by decide +kernel, after_connTicks _,
    by decide +kernel, by decide +kernel⟩

end Fixed

end NodeAgent.Traffic
