import NodeAgent.EntryProxy.Relay

/-!
# What arrives through a relay

1. Whatever fails, each end gets a beginning of what the other has sent, and the counters say how much.
2. If nothing fails and both ends can be half closed, each end gets all of it before anything is closed.
-/

namespace NodeAgent.Relay

open Lib

/-! ## Every interleaving -/

/-- The calls that move the bytes on their way to an end. -/
def Moves (dst : End) : Call → Prop
  | .read src => src = dst.other
  | .write d _ => d = dst
  | .count d _ => d = dst
  | _ => False

section Steps

variable {half : End → Bool} {rounds i : ℕ} {dst : End} {ph : Phase} {ev : SpliceEvent}
  {tr : List (Tagged splicing)} {w : Wire} {e : SpliceEnv}

theorem End.other_ne (e : End) : e.other ≠ e := by cases e <;> decide

/-- They are made by the goroutine that writes to it. -/
theorem role_of_moves (hok : (splice half rounds).ok ph ev) (h : Moves dst ev.call) :
    ph.role = some dst := by
  obtain ⟨c, r⟩ := ev
  cases c with
  | read src =>
    obtain rfl : src = dst.other := h
    exact hok.1.trans (by rw [End.other_other])
  | write d bytes =>
    obtain rfl : d = dst := h
    exact hok.1
  | count d n =>
    obtain rfl : d = dst := h
    exact hok.1
  | _ => cases h

theorem exec_frame {c : Call} (h : ¬ Moves dst c) (e : SpliceEnv) (w : Wire) :
    ((exec c e w).2.side dst.other).incoming = (w.side dst.other).incoming ∧
    ((exec c e w).2.side dst).outgoing = (w.side dst).outgoing ∧
    (exec c e w).2.counted dst = w.counted dst := by
  cases c with
  | read src =>
    have hside : (w.setSide src (readFrom (w.side src) e).2).side dst.other = w.side dst.other := by
      rw [Wire.side_setSide, if_neg fun heq => h heq.symm]
    exact ⟨congrArg Side.incoming hside, Wire.field_setSide Side.outgoing (readFrom_frame _ e).1,
      Wire.counted_setSide src⟩
  | write d bytes =>
    have hside : (w.setSide d (writeTo (w.side d) bytes e).2).side dst = w.side dst := by
      rw [Wire.side_setSide, if_neg fun heq => h heq.symm]
    exact ⟨Wire.field_setSide Side.incoming (writeTo_frame _ bytes e).1, congrArg Side.outgoing hside,
      Wire.counted_setSide d⟩
  | count d n =>
    refine ⟨by rw [exec, Wire.side_addCounted], by rw [exec, Wire.side_addCounted], ?_⟩
    show (w.addCounted d n).counted dst = _
    rw [Wire.counted_addCounted, if_neg fun heq => h heq.symm]
  | closeWrite d =>
    rw [exec]
    split_ifs
    · exact ⟨rfl, rfl, rfl⟩
    · exact ⟨Wire.field_setSide Side.incoming rfl, Wire.field_setSide Side.outgoing rfl,
        Wire.counted_setSide d⟩
  | close d =>
    exact ⟨Wire.field_setSide Side.incoming rfl, Wire.field_setSide Side.outgoing rfl,
      Wire.counted_setSide d⟩
  | _ => cases dst <;> exact ⟨rfl, rfl, rfl⟩

theorem phase_snoc (j : ℕ) : phase half rounds i (tr ++ [(j, ev)]) =
    if j = i then (splice half rounds).next (phase half rounds i tr) ev else phase half rounds i tr := by
  unfold phase
  rw [eventsOf_append, eventsOf_cons]
  split_ifs
  · exact Protocol.state_snoc _ _
  · rw [eventsOf_nil, List.append_nil]

theorem role_phase (half : End → Bool) (rounds i : ℕ) (tr : List (Tagged splicing)) :
    (phase half rounds i tr).role = (start i).role := by
  induction tr using List.reverseRecOn with
  | nil => rfl
  | append_singleton tr x ih =>
    obtain ⟨j, c, r⟩ := x
    rw [phase_snoc]
    split_ifs
    · cases c <;> exact ih
    · exact ih

theorem eq_writer_of_role (h : (start i).role = some dst) : i = dst.writer := by
  match i with
  | 0 =>
    cases h
    rfl
  | 1 =>
    cases h
    rfl
  | i + 2 => cases h

theorem role_writer (dst : End) : (start dst.writer).role = some dst := by cases dst <;> rfl

/-- The state of one direction. -/
def Flows (half : End → Bool) (rounds : ℕ) (sent : List UInt8) (dst : End) (tr : List (Tagged splicing))
    (w : Wire) : Prop :=
  Flow sent (phase half rounds dst.writer tr) (w.side dst.other).incoming (w.side dst).outgoing
    (w.counted dst)

/-- A call that moves nothing towards an end leaves its direction as it is. -/
theorem flows_of_not_moves {sent : List UInt8} (h : Flows half rounds sent dst tr w)
    (hok : (splice half rounds).ok (phase half rounds i tr) ev) (hm : ¬ Moves dst ev.call) :
    Flows half rounds sent dst (tr ++ [(i, ev)]) (exec ev.call e w).2 := by
  obtain ⟨hin, hout, hcount⟩ := exec_frame hm e w
  unfold Flows
  rw [hin, hout, hcount, phase_snoc]
  split_ifs with hi
  · subst hi
    have hrole := (role_phase half rounds dst.writer tr).trans (role_writer dst)
    obtain ⟨c, r⟩ := ev
    cases c with
    | read src =>
      refine absurd ?_ hm
      have hsrc : some src.other = some dst := hok.1.symm.trans hrole
      show src = dst.other
      rw [← Option.some.inj hsrc, End.other_other]
    | write d bytes => exact absurd (Option.some.inj (hok.1.symm.trans hrole)) hm
    | count d n => exact absurd (Option.some.inj (hok.1.symm.trans hrole)) hm
    | _ => exact ⟨h.part, h.whole, h.last, h.reads, h.counted⟩
  · exact h

theorem flows_step {sent : List UInt8} (h : Flows half rounds sent dst tr w)
    (hok : (splice half rounds).ok (phase half rounds i tr) ev) (hr : (exec ev.call e w).1 = ev.reply) :
    Flows half rounds sent dst (tr ++ [(i, ev)]) (exec ev.call e w).2 := by
  by_cases hm : Moves dst ev.call
  · have hi : i = dst.writer :=
      eq_writer_of_role ((role_phase half rounds i tr).symm.trans (role_of_moves hok hm))
    unfold Flows at h ⊢
    rw [phase_snoc, if_pos hi]
    subst hi
    obtain ⟨c, r⟩ := ev
    cases c with
    | read src =>
      obtain rfl : src = dst.other := hm
      cases hr
      show Flow _ _ ((w.setSide dst.other _).side dst.other).incoming ((w.setSide dst.other _).side dst).outgoing
        ((w.setSide dst.other _).counted dst)
      rw [Wire.counted_setSide, Wire.side_setSide, if_pos rfl, Wire.side_setSide,
        if_neg (End.other_ne dst).symm]
      exact h.read hok.2.1 hok.2.2.1 hok.2.2.2.1
    | write d bytes =>
      obtain rfl : d = dst := hm
      cases hr
      show Flow _ _ ((w.setSide d _).side d.other).incoming ((w.setSide d _).side d).outgoing
        ((w.setSide d _).counted d)
      rw [Wire.counted_setSide, Wire.side_setSide, if_neg (End.other_ne d), Wire.side_setSide, if_pos rfl]
      exact h.write hok.2.1 hok.2.2.1
    | count d n =>
      obtain rfl : d = dst := hm
      show Flow _ _ ((w.addCounted d n).side d.other).incoming ((w.addCounted d n).side d).outgoing
        ((w.addCounted d n).counted d)
      rw [Wire.side_addCounted, Wire.side_addCounted, Wire.counted_addCounted, if_pos rfl]
      exact h.count hok.2.1
    | _ => cases hm
  · exact flows_of_not_moves h hok hm

theorem closed_exec_of_ne {c : Call} (hc : ∀ d, c ≠ .close d) (d : End) :
    ((exec c e w).2.side d).closed = (w.side d).closed := by
  cases c with
  | read src => exact Wire.field_setSide Side.closed (readFrom_frame _ e).2.2
  | write dst bytes => exact Wire.field_setSide Side.closed (writeTo_frame _ bytes e).2.2
  | count dst n => rw [exec, Wire.side_addCounted]
  | closeWrite dst =>
    rw [exec]
    split_ifs
    · rfl
    · exact Wire.field_setSide Side.closed rfl
  | close d => exact absurd rfl (hc d)
  | _ => cases d <;> rfl

theorem writeClosed_exec_of_ne {c : Call} (hc : ∀ d, c ≠ .closeWrite d) (d : End) :
    ((exec c e w).2.side d).writeClosed = (w.side d).writeClosed := by
  cases c with
  | read src => exact Wire.field_setSide Side.writeClosed (readFrom_frame _ e).2.1
  | write dst bytes => exact Wire.field_setSide Side.writeClosed (writeTo_frame _ bytes e).2.1
  | count dst n => rw [exec, Wire.side_addCounted]
  | closeWrite dst => exact absurd rfl (hc dst)
  | close d => exact Wire.field_setSide Side.writeClosed rfl
  | _ => cases d <;> rfl

theorem closed_exec {d : End} (h : (w.side d).closed = true) (c : Call) :
    ((exec c e w).2.side d).closed = true := by
  by_cases hc : ∃ d', c = .close d'
  · obtain ⟨d', rfl⟩ := hc
    show ((w.setSide d' _).side d).closed = true
    rw [Wire.side_setSide]
    split_ifs
    · rfl
    · exact h
  · rw [closed_exec_of_ne fun d' hd' => hc ⟨d', hd'⟩]
    exact h

/-- The bytes of a goroutine that has called `Done` are all written, or lost, and counted. -/
def Phase.Settled (rounds : ℕ) (ph : Phase) : Prop :=
  ph.role ≠ none → ph.ended = true → ph.pending = [] ∧ ph.uncounted = 0 ∧ ph.Through rounds

theorem Phase.Settled.next (h : ph.Settled rounds) (hok : (splice half rounds).ok ph ev) :
    ((splice half rounds).next ph ev).Settled rounds := by
  obtain ⟨c, r⟩ := ev
  intro hrole hended
  cases c with
  | read src => exact absurd (hok.2.1.ended.symm.trans hended) nofun
  | write dst bytes => exact absurd (hok.2.2.2.1.symm.trans hended) nofun
  | count dst n => exact absurd (hok.2.2.symm.trans hended) nofun
  | closeWrite dst => exact absurd (hok.2.ended.symm.trans hended) nofun
  | close d => exact h hrole hended
  | once => exact h hrole hended
  | done => exact ⟨hok.2.1.pending, hok.2.1.uncounted, hok.2.2⟩
  | wait => exact absurd hok hrole

end Steps

/-- Fresh connections, whose peers send these bytes. -/
def Wire.new (sent : End → List UInt8) : Wire where
  client := { incoming := sent .client }
  backend := { incoming := sent .backend }

section Run

variable {half : End → Bool} {rounds : ℕ} {sent : End → List UInt8} {A : SpliceEnv → Prop}
  {tr : List (Tagged splicing)} {ts' : List (Prog splicing Unit)} {w' : Wire}

theorem ok_of_pool {pre post : List (Tagged splicing)} {i : ℕ} {ev : SpliceEvent} {w : Wire}
    (h : Pool wire A (relay half rounds) w (pre ++ (i, ev) :: post) ts' w') :
    (splice half rounds).ok (phase half rounds i pre) ev :=
  Protocol.ok_of_interleave relay_follows h.1

theorem flows_of_pool (h : Pool wire A (relay half rounds) (.new sent) tr ts' w') (dst : End) :
    Flows half rounds (sent dst.other) dst tr w' := by
  refine h.history (I := Flows half rounds (sent dst.other) dst) ?_ ?_
  · cases dst
    · exact ⟨List.nil_prefix, fun _ => rfl, nofun, fun _ => (Nat.zero_add _).le, rfl⟩
    · exact ⟨List.nil_prefix, fun _ => rfl, nofun, fun _ => (Nat.zero_add _).le, rfl⟩
  · intro pre i ev post e v heq _ hr hflows
    subst heq
    exact flows_step hflows (ok_of_pool h) hr

theorem settled_of_pool (h : Pool wire A (relay half rounds) (.new sent) tr ts' w') (i : ℕ) :
    (phase half rounds i tr).Settled rounds :=
  Protocol.state_of_interleave relay_follows (fun _ _ hended => nomatch hended)
    (fun _ _ hok h => h.next hok) h.1 i

theorem closed_of_closes (h : Pool wire A (relay half rounds) (.new sent) tr ts' w') (i : ℕ) {d : End}
    (hd : d ∈ (phase half rounds i tr).closes) : (w'.side d).closed = true := by
  refine h.history (I := fun pre v => d ∈ (phase half rounds i pre).closes → (v.side d).closed = true)
    (fun hd => nomatch hd) ?_ hd
  rintro pre j ⟨c, r⟩ post e v - - - hclosed hd
  rw [phase_snoc] at hd
  split_ifs at hd
  · cases c with
    | close d' =>
      rcases List.mem_cons.mp hd with rfl | hd
      · show ((v.setSide d _).side d).closed = true
        rw [Wire.side_setSide, if_pos rfl]
      · exact closed_exec (e := e) (hclosed hd) (.close d')
    | _ => exact closed_exec (e := e) (hclosed hd) _
  · exact closed_exec (hclosed hd) c

theorem returned_of_pool (h : Pool wire A (relay half rounds) (.new sent) tr ts' w') {i : ℕ}
    (hlt : i < 3) (hi : ts'[i]? = some (.done ())) : Returned i (phase half rounds i tr) :=
  Protocol.end_of_interleave relay_follows (List.getElem?_eq_getElem hlt) h.1 hi

theorem writer_lt (dst : End) : dst.writer < 2 := by cases dst <;> decide

theorem counted_of_ended (h : Pool wire A (relay half rounds) (.new sent) tr ts' w') {dst : End}
    (hended : (phase half rounds dst.writer tr).ended = true) :
    w'.counted dst = UInt64.ofNat (w'.side dst).outgoing.length := by
  have hrole := (role_phase half rounds dst.writer tr).trans (role_writer dst)
  have hsettled := settled_of_pool h dst.writer (by rw [hrole]; nofun) hended
  rw [← (flows_of_pool h dst).counted, hsettled.2.1]
  exact (UInt64.add_zero _).symm

theorem closed_of_returned (h : Pool wire A (relay half rounds) (.new sent) tr ts' w')
    (hi : ts'[2]? = some (.done ())) (e : End) : (w'.side e).closed = true := by
  have hret := returned_of_pool h (by decide) hi
  rw [Returned, if_neg (by decide)] at hret
  refine closed_of_closes h 2 ?_
  rw [hret]
  cases e <;> simp

/-- Whatever fails, and in whatever order the goroutines run: an end gets a beginning of what the other
has sent, nothing else and in that order; when the copying has returned the counter is the number of these
bytes; and when the relay has returned both connections are closed. -/
theorem relay_keeps_order (h : Pool wire A (relay half rounds) (.new sent) tr ts' w') :
    (∀ dst, (w'.side dst).outgoing <+: sent dst.other ∧
      (ts'[dst.writer]? = some (.done ()) →
        w'.counted dst = UInt64.ofNat (w'.side dst).outgoing.length)) ∧
    (ts'[2]? = some (.done ()) → ∀ e, (w'.side e).closed = true) := by
  refine ⟨fun dst => ⟨?_, fun hi => ?_⟩, fun hi e => ?_⟩
  · exact (List.prefix_append _ _).trans (flows_of_pool h dst).part
  · have hret := returned_of_pool h ((writer_lt dst).trans (by decide)) hi
    rw [Returned, if_pos (writer_lt dst)] at hret
    exact counted_of_ended h hret
  · exact closed_of_returned h hi e

/-- A client that sends three bytes and a backend that answers with two. -/
def bytesOf : End → List UInt8
  | .client => [1, 2, 3]
  | .backend => [8, 9]

/-- The backend is gone after the first byte. -/
def brokenRelay : List (Tagged splicing) × List (Prog splicing Unit) × Wire :=
  schedule wire (relay (fun _ => true) 4)
    (List.replicate 4 (0, default) ++
      [(0, { fail := some (.new "broken pipe") }), (0, default), (0, default)]) (.new bytesOf)

theorem pool_brokenRelay : Pool wire (fun _ => True) (relay (fun _ => true) 4) (.new bytesOf)
    brokenRelay.1 brokenRelay.2.1 brokenRelay.2.2 :=
  pool_schedule _ (fun _ _ => trivial) _

theorem relay_keeps_order_brokenRelay : brokenRelay.2.2.backend.outgoing = [1] ∧
    brokenRelay.2.2.backend.outgoing <+: bytesOf .client ∧ brokenRelay.2.2.up = UInt64.ofNat 1 := by
  have hout : brokenRelay.2.2.backend.outgoing = [1] := by decide +kernel
  obtain ⟨hpart, hcounted⟩ := (relay_keeps_order (A := fun _ => True)
    pool_brokenRelay).1 .backend
  refine ⟨hout, hpart, ?_⟩
  have hup := hcounted (getElem?_eq_done (by decide +kernel))
  exact hup.trans (congrArg (fun l => UInt64.ofNat (List.length l)) hout)

end Run

/-! ## Nothing is lost if nothing fails -/

/-- `Wait` has waited. -/
def Waited : SpliceEvent → Prop
  | ⟨.wait, r⟩ => r = true
  | _ => True

/-- The copying goroutines that `wg` still waits for. -/
def copying (half : End → Bool) (rounds : ℕ) (tr : List (Tagged splicing)) : ℕ :=
  (!(phase half rounds End.backend.writer tr).ended).toNat +
    (!(phase half rounds End.client.writer tr).ended).toNat

def BothEnded (half : End → Bool) (rounds : ℕ) (tr : List (Tagged splicing)) : Prop :=
  ∀ d : End, (phase half rounds d.writer tr).ended = true

/-- Nothing is closed while somebody copies, and only the writer of an end closes half of it. -/
structure Orderly (half : End → Bool) (rounds : ℕ) (tr : List (Tagged splicing)) (w : Wire) : Prop where
  running : w.running = copying half rounds tr
  closed : ∀ d, (w.side d).closed = true → BothEnded half rounds tr
  shut : ∀ d, (w.side d).writeClosed = true → (phase half rounds d.writer tr).shut = true
  waited : ∀ i, (start i).role = none → (phase half rounds i tr).ended = true → BothEnded half rounds tr
  unbroken : ∀ d : End, (phase half rounds d.writer tr).broken = false

section Orderly

variable {half : End → Bool} {rounds i : ℕ} {ev : SpliceEvent} {tr : List (Tagged splicing)} {w : Wire}
  {e : SpliceEnv}

theorem ended_next {ph : Phase} (h : ph.ended = true) (ev : SpliceEvent) :
    ((splice half rounds).next ph ev).ended = true := by
  obtain ⟨c, r⟩ := ev
  cases c <;> first | exact h | rfl

theorem ended_snoc {j : ℕ} (h : (phase half rounds j tr).ended = true) :
    (phase half rounds j (tr ++ [(i, ev)])).ended = true := by
  rw [phase_snoc]
  split_ifs
  · exact ended_next h ev
  · exact h

theorem BothEnded.snoc (h : BothEnded half rounds tr) : BothEnded half rounds (tr ++ [(i, ev)]) :=
  fun d => ended_snoc (h d)

theorem shut_snoc {j : ℕ} (h : (phase half rounds j tr).shut = true) :
    (phase half rounds j (tr ++ [(i, ev)])).shut = true := by
  rw [phase_snoc]
  split_ifs
  · obtain ⟨c, r⟩ := ev
    cases c <;> first | exact h | rfl
  · exact h

theorem bothEnded_of_copying (h : copying half rounds tr = 0) : BothEnded half rounds tr := by
  have hended : ∀ b : Bool, (!b).toNat = 0 → b = true := by decide
  obtain ⟨hbackend, hclient⟩ := Nat.add_eq_zero_iff.mp h
  intro d
  cases d with
  | backend => exact hended _ hbackend
  | client => exact hended _ hclient

/-- `Done` is called once by each of the two, and by nobody else. -/
theorem running_step (hok : (splice half rounds).ok (phase half rounds i tr) ev)
    (h : w.running = copying half rounds tr) :
    (exec ev.call e w).2.running = copying half rounds (tr ++ [(i, ev)]) := by
  have hrole := role_phase half rounds i tr
  obtain ⟨c, r⟩ := ev
  -- all other calls leave both numbers as they are
  have hsame : (∀ ph : Phase, ((splice half rounds).next ph ⟨c, r⟩).ended = ph.ended) →
      copying half rounds (tr ++ [(i, ⟨c, r⟩)]) = copying half rounds tr := by
    intro hnext
    unfold copying
    rw [phase_snoc, phase_snoc]
    split_ifs <;> simp only [hnext]
  cases c with
  | done =>
    obtain ⟨⟨d, hd⟩, hclear, -⟩ := hok
    have hi : i = d.writer := eq_writer_of_role (hrole.symm.trans hd)
    have hended := hclear.ended
    show w.running - 1 = _
    rw [h]
    unfold copying
    rw [phase_snoc, phase_snoc]
    subst hi
    cases d with
    | backend =>
      rw [if_pos rfl, if_neg (by decide), hended]
      exact Nat.add_sub_cancel_left 1 _ |>.trans (Nat.zero_add _).symm
    | client =>
      rw [if_neg (by decide), if_pos rfl, hended]
      rfl
  | wait =>
    have hne : ∀ d : End, i ≠ d.writer := by
      rintro d rfl
      rw [role_writer] at hrole
      exact absurd (hrole.symm.trans hok) nofun
    unfold copying
    rw [phase_snoc, phase_snoc, if_neg (hne .backend), if_neg (hne .client)]
    exact h
  | read src =>
    rw [hsame fun ph => rfl, ← h]
    exact Wire.running_setSide src
  | write dst bytes =>
    rw [hsame fun ph => rfl, ← h]
    exact Wire.running_setSide dst
  | count dst n =>
    rw [hsame fun ph => rfl, ← h]
    exact Wire.running_addCounted dst
  | closeWrite dst =>
    rw [hsame fun ph => rfl, ← h, exec]
    split_ifs
    · rfl
    · exact Wire.running_setSide dst
  | close d =>
    rw [hsame fun ph => rfl, ← h]
    exact Wire.running_setSide d
  | once =>
    rw [hsame fun ph => rfl, ← h]
    rfl

theorem closed_step (hhalf : ∀ d, half d = true) (hok : (splice half rounds).ok (phase half rounds i tr) ev)
    (h : Orderly half rounds tr w) {d : End} (hd : ((exec ev.call e w).2.side d).closed = true) :
    BothEnded half rounds (tr ++ [(i, ev)]) := by
  by_cases hc : ∃ d', ev.call = .close d'
  · obtain ⟨c, r⟩ := ev
    obtain ⟨d', rfl⟩ := hc
    rcases hok with ⟨hrole, hended⟩ | ⟨dst, -, hno⟩
    · exact (h.waited i ((role_phase half rounds i tr).symm.trans hrole) hended).snoc
    · exact absurd ((hhalf dst).symm.trans hno) nofun
  · rw [closed_exec_of_ne fun d' hd' => hc ⟨d', hd'⟩] at hd
    exact (h.closed d hd).snoc

theorem shut_step (hok : (splice half rounds).ok (phase half rounds i tr) ev)
    (h : Orderly half rounds tr w) {d : End} (hd : ((exec ev.call e w).2.side d).writeClosed = true) :
    (phase half rounds d.writer (tr ++ [(i, ev)])).shut = true := by
  by_cases hc : ∃ d', ev.call = .closeWrite d'
  · obtain ⟨c, r⟩ := ev
    obtain ⟨d', rfl⟩ := hc
    by_cases hdd : d = d'
    · subst hdd
      have hi : i = d.writer := eq_writer_of_role ((role_phase half rounds i tr).symm.trans hok.1)
      rw [phase_snoc, if_pos hi]
      rfl
    · refine shut_snoc (h.shut d ?_)
      rw [← hd, exec]
      split_ifs
      · rfl
      · rw [Wire.side_setSide, if_neg hdd]
  · rw [writeClosed_exec_of_ne fun d' hd' => hc ⟨d', hd'⟩] at hd
    exact shut_snoc (h.shut d hd)

/-- `Wait` returns when both have called `Done`. -/
theorem waited_step (hwait : Waited ev) (hr : (exec ev.call e w).1 = ev.reply)
    (hok : (splice half rounds).ok (phase half rounds i tr) ev)
    (h : Orderly half rounds tr w) {j : ℕ} (hj : (start j).role = none)
    (hended : (phase half rounds j (tr ++ [(i, ev)])).ended = true) :
    BothEnded half rounds (tr ++ [(i, ev)]) := by
  rw [phase_snoc] at hended
  split_ifs at hended with hij
  · subst hij
    have hrole := (role_phase half rounds i tr).trans hj
    obtain ⟨c, r⟩ := ev
    cases c with
    | wait =>
      have hzero : w.running = 0 := by
        obtain rfl : r = true := hwait
        exact of_decide_eq_true hr
      exact (bothEnded_of_copying (h.running.symm.trans hzero)).snoc
    | done =>
      obtain ⟨⟨d, hd⟩, -⟩ := hok
      exact absurd (hrole.symm.trans hd) nofun
    | _ => exact (h.waited i hj hended).snoc
  · exact (h.waited j hj hended).snoc

/-- A read and a write happen before anything is closed, so they do not fail. -/
theorem unbroken_step (hfail : e.fail = none) (hr : (exec ev.call e w).1 = ev.reply)
    (hok : (splice half rounds).ok (phase half rounds i tr) ev)
    (h : Orderly half rounds tr w) (d : End) :
    (phase half rounds d.writer (tr ++ [(i, ev)])).broken = false := by
  rw [phase_snoc]
  split_ifs with hi
  · subst hi
    have hopen : (phase half rounds d.writer tr).ended = false → ∀ d', (w.side d').closed = false := by
      intro hended d'
      refine Bool.eq_false_iff.mpr fun hclosed => ?_
      exact absurd (hended.symm.trans (h.closed d' hclosed d)) nofun
    obtain ⟨c, r⟩ := ev
    cases c with
    | read src =>
      cases hr
      refine decide_eq_false fun hboth => ?_
      exact (readFrom_open (hopen hok.2.1.ended src) hfail).elim hboth.1 hboth.2
    | write dst bytes =>
      obtain ⟨hrole, -, -, hended, hshut⟩ := hok
      obtain rfl : d = dst := by
        have := (role_phase half rounds d.writer tr).symm.trans hrole
        rw [role_writer] at this
        exact Option.some.inj this
      have hhalf : (w.side d).writeClosed = false := by
        refine Bool.eq_false_iff.mpr fun hclosed => ?_
        exact absurd (hshut.symm.trans (h.shut d hclosed)) nofun
      have hreply : r = (bytes.length, none) :=
        hr.symm.trans (writeTo_open (hopen hended d) hhalf hfail bytes)
      subst hreply
      refine Bool.or_eq_false_iff.mpr ⟨h.unbroken d, decide_eq_false ?_⟩
      simp
    | _ => exact h.unbroken d
  · exact h.unbroken d

theorem Orderly.step (hhalf : ∀ d, half d = true) (hfail : e.fail = none) (hwait : Waited ev)
    (hr : (exec ev.call e w).1 = ev.reply) (hok : (splice half rounds).ok (phase half rounds i tr) ev)
    (h : Orderly half rounds tr w) : Orderly half rounds (tr ++ [(i, ev)]) (exec ev.call e w).2 where
  running := running_step hok h.running
  closed _ := closed_step hhalf hok h
  shut _ := shut_step hok h
  waited _ := waited_step hwait hr hok h
  unbroken := unbroken_step hfail hr hok h

end Orderly

/-- If both ends can be half closed, no call fails and the bounds suffice, then whatever the order of the
goroutines: when the relay has returned, each end has got everything that the other has sent, and the
counters say so. -/
theorem relay_delivers_all {half : End → Bool} {rounds : ℕ} {sent : End → List UInt8}
    {tr : List (Tagged splicing)} {ts' : List (Prog splicing Unit)} {w' : Wire}
    (hhalf : ∀ d, half d = true) (hrounds : ∀ d, (sent d).length < rounds)
    (h : Pool wire (fun e => e.fail = none) (relay half rounds) (.new sent) tr ts' w')
    (hwait : ∀ x ∈ tr, Waited x.2) (hdone : ts'[2]? = some (.done ())) (dst : End) :
    (w'.side dst).outgoing = sent dst.other ∧
      w'.counted dst = UInt64.ofNat (sent dst.other).length := by
  have hordl : Orderly half rounds tr w' := by
    refine h.history ⟨rfl, fun d hd => ?_, fun d hd => ?_, fun _ _ hended => (nomatch hended),
      fun d => rfl⟩ ?_
    · cases d <;> cases hd
    · cases d <;> cases hd
    · rintro pre i ev post e v rfl hfail hr hord
      exact hord.step hhalf hfail (hwait (i, ev) (by simp)) hr (ok_of_pool h)
  -- the third goroutine has closed both ends, so both copies had ended
  have hended := hordl.closed .client (closed_of_returned h hdone .client) dst
  have hrole := (role_phase half rounds dst.writer tr).trans (role_writer dst)
  obtain ⟨hpending, -, hthrough⟩ := settled_of_pool h dst.writer (by rw [hrole]; nofun) hended
  have hflow := flows_of_pool h dst
  have hunbroken := hordl.unbroken dst
  have hwhole := hflow.whole hunbroken
  have hreads := hflow.reads hunbroken
  have hlast : (phase half rounds dst.writer tr).last = true := by
    rcases hthrough with hlast | hbroken | hle
    · exact hlast
    · exact absurd (hunbroken.symm.trans hbroken) nofun
    · by_contra hno
      rw [Bool.eq_false_iff.mpr hno] at hreads
      have := hrounds dst.other
      change _ ≤ (sent dst.other).length + 0 at hreads
      omega
  rw [hpending, hflow.last hlast hunbroken, List.append_nil, List.append_nil] at hwhole
  exact ⟨hwhole.symm, by rw [counted_of_ended h hended, ← hwhole]⟩

def wholeSchedule : List (ℕ × SpliceEnv) :=
  [0, 1, 0, 1, 0, 1, 0, 1, 0, 1, 0, 0, 0, 0, 0, 0, 0, 1, 1, 1, 1, 2, 2, 2].map fun i => (i, default)

/-- The answer comes while the request is copied. -/
def wholeRelay : List (Tagged splicing) × List (Prog splicing Unit) × Wire :=
  schedule wire (relay (fun _ => true) 4) wholeSchedule (.new bytesOf)

theorem pool_wholeRelay : Pool wire (fun e => e.fail = none) (relay (fun _ => true) 4) (.new bytesOf)
    wholeRelay.1 wholeRelay.2.1 wholeRelay.2.2 := by
  have hfail : ∀ x ∈ wholeSchedule, x.2.fail = none := by simp [wholeSchedule, default]
  exact pool_schedule wholeSchedule hfail (Wire.new bytesOf)

instance : DecidablePred Waited := fun ev => by
  unfold Waited
  split <;> infer_instance

theorem relay_delivers_all_wholeRelay : wholeRelay.2.2.backend.outgoing = [1, 2, 3] ∧
    wholeRelay.2.2.client.outgoing = [8, 9] := by
  have h := relay_delivers_all (fun _ => rfl) (fun d => by cases d <;> decide) pool_wholeRelay
    (by decide +kernel) (getElem?_eq_done (by decide +kernel))
  exact ⟨(h .backend).1, (h .client).1⟩

end NodeAgent.Relay
