import NodeAgent.Executor.FlushSpec
import NodeAgent.External.Render
import NodeAgent.External.Selector

/-!
# The answers of the coalescer

A run of the loop is a sequence of rounds of batches: some receives, the flush of what was received, and one
answer with its outcome to each request. A flush comes with the receive that makes it due, by the size of the
batch or by the timer. At the end stand the receives of a batch that is not due yet, and the answers of the
cancellation.
-/

namespace NodeAgent.RenderCoalescer

open Lib Singboxgen

variable {a : EntryActions} {maxBatch rounds : ℕ} {tr : List GoEvent}

/-! ## Requests and answers -/

/-- The request that an event receives. -/
def receivedBy : GoEvent → Option RenderReq
  | ⟨.receive _, .request req⟩ => some req
  | _ => none

/-- The requests that the loop has taken from its channel. -/
def received (tr : List GoEvent) : List RenderReq := tr.filterMap receivedBy

/-- The answer that an event sends. -/
def answeredBy : GoEvent → Option (ℕ × Err)
  | ⟨.answer ticket err, _⟩ => some (ticket, err)
  | _ => none

/-- The answers that it has given, with the tickets of the requests. -/
def answers (tr : List GoEvent) : List (ℕ × Err) := tr.filterMap answeredBy

/-- The answer of a flush or of the cancellation to a request. -/
def answerTo (err : Err) (req : RenderReq) : GoEvent := ⟨.answer req.ticket err, ()⟩

/-- The overlays of the requests, stored one by one. -/
def persistInOrder (s : Store) (reqs : List RenderReq) : Store :=
  (reqs.filterMap RenderReq.overlay).foldl Store.put s

/-- The overlay for the placement that was received last. -/
def lastOverlay (id : PlacementID) (reqs : List RenderReq) : Option Placement :=
  ((reqs.filterMap RenderReq.overlay).filter fun p => p.id = id).getLast?

theorem received_append (tr tr' : List GoEvent) : received (tr ++ tr') = received tr ++ received tr' :=
  List.filterMap_append

theorem answers_append (tr tr' : List GoEvent) : answers (tr ++ tr') = answers tr ++ answers tr' :=
  List.filterMap_append

theorem persistInOrder_append (s : Store) (reqs reqs' : List RenderReq) :
    persistInOrder s (reqs ++ reqs') = persistInOrder (persistInOrder s reqs) reqs' := by
  unfold persistInOrder
  rw [List.filterMap_append, List.foldl_append]

theorem get_foldl_put (s : Store) (ps : List Placement) (id : PlacementID) :
    (ps.foldl Store.put s).get id = ((ps.filter fun p => p.id = id).getLast?).or (s.get id) := by
  induction ps generalizing s with
  | nil => rfl
  | cons p ps ih =>
    rw [List.foldl_cons, ih, Store.get_put]
    by_cases hid : p.id = id
    · rw [List.filter_cons_of_pos (by simpa using hid), List.getLast?_cons, if_pos hid.symm]
      cases (ps.filter fun p => p.id = id).getLast? <;> rfl
    · rw [List.filter_cons_of_neg (by simpa using hid), if_neg (Ne.symm hid)]

theorem get_persistInOrder (s : Store) (reqs : List RenderReq) (id : PlacementID) :
    (persistInOrder s reqs).get id = (lastOverlay id reqs).or (s.get id) :=
  get_foldl_put s _ id

/-! ## Rounds -/

/-- One batch: what was received, its flush, and the answers. -/
structure Round where
  receives : List GoEvent
  reqs : List RenderReq
  last : Option Digest
  flush : List GoEvent
  out : Err × Option Digest

/-- The events of a round. -/
def Round.trace (s : Round) : List GoEvent := s.receives ++ s.flush ++ s.reqs.map (answerTo s.out.1)

/-- An event that only waits for a request. -/
def Waits (ev : GoEvent) : Prop := ∃ timer, ev.call = .receive timer

/-- No flush is due after these receives: there are no requests or fewer than a batch takes, and the timer
has not fired after a request. -/
structure Undue (maxBatch : ℕ) (waits : List GoEvent) : Prop where
  room : received waits = [] ∨ (received waits).length < maxBatch
  quiet : ∀ pre timer post, waits = pre ++ ⟨.receive timer, .flushTimer⟩ :: post → received pre = []

/-- A batch is flushed with the receive that makes it due: it fills the batch, or it is the timer. -/
structure Round.Ok [Lowering] [Sum256] (a : EntryActions) (maxBatch : ℕ) (s : Round) : Prop where
  waiting : ∀ ev ∈ s.receives, Waits ev
  received : received s.receives = s.reqs
  nonempty : s.reqs ≠ []
  due : ∃ pre ev, s.receives = pre ++ [ev] ∧ Undue maxBatch pre ∧
    (maxBatch ≤ s.reqs.length ∨ ∃ timer, ev = ⟨.receive timer, .flushTimer⟩)
  flushed : (flushBatch a (persistInOrder .empty s.reqs) s.last).After s.flush (.done s.out)

/-- The answers of the cancellation, if there was one. -/
def cancelAnswers (reqs : List RenderReq) : Err → List GoEvent
  | none => []
  | some err => reqs.map (answerTo (some err))

theorem answerAll_after {err : Err} {reqs : List RenderReq} {u : Unit}
    (h : (answerAll err reqs).After tr (.done u)) : tr = reqs.map (answerTo err) := by
  induction reqs generalizing tr with
  | nil => exact (Prog.after_done_iff.mp h).1
  | cons req reqs ih =>
    obtain ⟨⟨⟩, tr', rfl, h'⟩ := Prog.after_invoke_done_iff.mp h
    rw [ih h']
    rfl

/-- The batch holds what has been received since the last flush. -/
structure Holds (b : Batch) (waits : List GoEvent) : Prop where
  waiting : ∀ ev ∈ waits, Waits ev
  pending : received waits = b.pending
  overlays : b.overlays = persistInOrder .empty b.pending

theorem Holds.start (last : Option Digest) : Holds { lastHash := last } [] :=
  ⟨by simp, rfl, rfl⟩

theorem Holds.pass {b : Batch} {waits : List GoEvent} (h : Holds b waits) (ev : GoEvent) (hev : Waits ev)
    (hno : receivedBy ev = none) : Holds b (waits ++ [ev]) := by
  refine ⟨List.forall_mem_append.mpr ⟨h.waiting, List.forall_mem_singleton.mpr hev⟩, ?_, h.overlays⟩
  rw [received_append, h.pending]
  simp [received, hno]

theorem Holds.add {b : Batch} {waits : List GoEvent} (h : Holds b waits) (timer : Bool) (req : RenderReq) :
    Holds (b.add req) (waits ++ [⟨.receive timer, .request req⟩]) := by
  refine ⟨List.forall_mem_append.mpr ⟨h.waiting, List.forall_mem_singleton.mpr ⟨timer, rfl⟩⟩, ?_, ?_⟩
  · rw [received_append, h.pending]
    rfl
  · unfold Batch.add
    rw [persistInOrder_append, ← h.overlays]
    unfold persistInOrder
    cases ho : req.overlay <;> simp [ho]

theorem Holds.setTimer {b : Batch} {waits : List GoEvent} (h : Holds b waits) :
    Holds { b with timer := true } waits := ⟨h.waiting, h.pending, h.overlays⟩

theorem Undue.nil : Undue maxBatch [] := ⟨.inl rfl, by simp⟩

theorem Undue.snoc {waits : List GoEvent} {ev : GoEvent} (h : Undue maxBatch waits)
    (hroom : received (waits ++ [ev]) = [] ∨ (received (waits ++ [ev])).length < maxBatch)
    (htimer : ∀ timer, ev = ⟨.receive timer, .flushTimer⟩ → received waits = []) :
    Undue maxBatch (waits ++ [ev]) := by
  refine ⟨hroom, fun pre timer post heq => ?_⟩
  rcases List.eq_nil_or_concat post with rfl | ⟨post, last, rfl⟩
  · obtain ⟨rfl, hev⟩ := List.append_inj' heq rfl
    exact htimer timer (List.singleton_inj.mp hev)
  · rw [List.concat_eq_append, ← List.cons_append, ← List.append_assoc] at heq
    exact h.quiet pre timer post (List.append_inj' heq rfl).1

theorem Undue.pass {waits : List GoEvent} {ev : GoEvent} (h : Undue maxBatch waits)
    (hno : receivedBy ev = none)
    (htimer : ∀ timer, ev = ⟨.receive timer, .flushTimer⟩ → received waits = []) :
    Undue maxBatch (waits ++ [ev]) := by
  refine h.snoc ?_ htimer
  have hsame : received (waits ++ [ev]) = received waits := by simp [received, hno]
  rw [hsame]
  exact h.room

/-- A flush of the batch is a round, or there was nothing to flush. -/
theorem doFlush_round [Lowering] [Sum256] {b b' : Batch} {pre : List GoEvent} {ev : GoEvent}
    (hb : Holds b (pre ++ [ev])) (hpre : Undue maxBatch pre)
    (hdue : maxBatch ≤ b.pending.length ∨ ∃ timer, ev = ⟨.receive timer, .flushTimer⟩)
    (h : (doFlush a b).After tr (.done b')) :
    (tr = [] ∧ b' = b ∧ b.pending = []) ∨
      ∃ s : Round, s.Ok a maxBatch ∧ pre ++ [ev] ++ tr = s.trace ∧ b' = { lastHash := s.out.2 } := by
  unfold doFlush at h
  split_ifs at h with hp
  · obtain ⟨rfl, heq⟩ := Prog.after_done_iff.mp h
    cases heq
    exact .inl ⟨rfl, rfl, hp⟩
  · obtain ⟨out, tr₁, tr₂, rfl, hflush, h₂⟩ := Prog.after_bind_done_iff.mp h
    obtain ⟨⟨⟩, tr₃, tr₄, rfl, hans, h₄⟩ := Prog.after_bind_done_iff.mp h₂
    obtain ⟨rfl, heq⟩ := Prog.after_done_iff.mp h₄
    cases heq
    rw [hb.overlays] at hflush
    refine .inr ⟨⟨pre ++ [ev], b.pending, b.lastHash, tr₁, out⟩,
      ⟨hb.waiting, hb.pending, hp, ⟨pre, ev, rfl, hpre, hdue⟩, hflush⟩, ?_, rfl⟩
    rw [answerAll_after hans, List.append_nil, Round.trace, List.append_assoc (pre ++ [ev])]

/-- The parts of a finished run: its rounds, the receives after the last flush, and the answers of the
cancellation. -/
structure Parts [Lowering] [Sum256] (a : EntryActions) (maxBatch : ℕ) (tr : List GoEvent) (r : Err)
    (ss : List Round) (rest : List GoEvent) : Prop where
  trace : tr = ss.flatMap Round.trace ++ rest ++ cancelAnswers (received rest) r
  rounds : ∀ s ∈ ss, s.Ok a maxBatch
  waiting : ∀ ev ∈ rest, Waits ev
  undue : Undue maxBatch rest
  cancelled : ∀ err, r = some err → ∃ timer, (⟨.receive timer, .cancelled err⟩ : GoEvent) ∈ rest

theorem Parts.cons [Lowering] [Sum256] {r : Err} {s : Round} {ss : List Round} {rest : List GoEvent}
    (hs : s.Ok a maxBatch) (h : Parts a maxBatch tr r ss rest) :
    Parts a maxBatch (s.trace ++ tr) r (s :: ss) rest where
  trace := by
    rw [h.trace, List.flatMap_cons]
    simp only [List.append_assoc]
  rounds := List.forall_mem_cons.mpr ⟨hs, h.rounds⟩
  waiting := h.waiting
  undue := h.undue
  cancelled := h.cancelled

/-- A finished run of the loop. -/
theorem run_parts [Lowering] [Sum256] {b : Batch} {waits : List GoEvent} {r : Err} (hb : Holds b waits)
    (hu : Undue maxBatch waits) (h : (run a maxBatch rounds b).After tr (.done r)) :
    ∃ ss rest, Parts a maxBatch (waits ++ tr) r ss rest := by
  induction rounds generalizing b waits tr with
  | zero =>
    obtain ⟨rfl, heq⟩ := Prog.after_done_iff.mp h
    cases heq
    exact ⟨[], waits, by simp [cancelAnswers], by simp, hb.waiting, hu, fun _ hnone => by cases hnone⟩
  | succ n ih =>
    -- a flush and the rest of the run
    have hflush : ∀ {b : Batch} {pre : List GoEvent} {ev : GoEvent} {tr : List GoEvent},
        Holds b (pre ++ [ev]) → Undue maxBatch pre →
        (maxBatch ≤ b.pending.length ∨ ∃ timer, ev = ⟨.receive timer, .flushTimer⟩) →
        (b.pending = [] → Undue maxBatch (pre ++ [ev])) →
        (doFlush a b >>= run a maxBatch n).After tr (.done r) →
        ∃ ss rest, Parts a maxBatch (pre ++ [ev] ++ tr) r ss rest := by
      intro b pre ev tr hb hpre hdue hempty h
      obtain ⟨b', tr₁, tr₂, rfl, h₁, h₂⟩ := Prog.after_bind_done_iff.mp h
      rcases doFlush_round hb hpre hdue h₁ with ⟨rfl, rfl, hnone⟩ | ⟨s, hs, htrace, rfl⟩
      · exact ih hb (hempty hnone) h₂
      · obtain ⟨ss, rest, hparts⟩ := ih (.start _) .nil h₂
        rw [← List.append_assoc, htrace]
        exact ⟨s :: ss, rest, hparts.cons hs⟩
    obtain ⟨m, tr', rfl, h'⟩ := Prog.after_invoke_done_iff.mp h
    rw [List.append_cons]
    cases m with
    | request req =>
      have hadd := hb.add b.timer req
      dsimp only at h'
      split_ifs at h' with hfull
      · refine hflush hadd hu (.inl hfull) (fun hnone => ?_) h'
        simp [Batch.add] at hnone
      · refine ih hadd.setTimer (hu.snoc (.inr ?_) fun timer hev => ?_) h'
        · rw [hadd.pending]
          exact Nat.lt_of_not_le hfull
        · cases hev
    | flushTimer =>
      have hpass := hb.pass ⟨.receive b.timer, .flushTimer⟩ ⟨b.timer, rfl⟩ rfl
      refine hflush hpass hu (.inr ⟨b.timer, rfl⟩) (fun hnone => hu.pass rfl fun _ _ => ?_) h'
      rw [hb.pending, hnone]
    | cancelled err =>
      obtain ⟨⟨⟩, tr₁, tr₂, rfl, hans, h₂⟩ := Prog.after_bind_done_iff.mp h'
      obtain ⟨rfl, heq⟩ := Prog.after_done_iff.mp h₂
      cases heq
      have hpass := hb.pass ⟨.receive b.timer, .cancelled err⟩ ⟨b.timer, rfl⟩ rfl
      refine ⟨[], _, ?_, by simp, hpass.waiting, hu.pass rfl (fun timer hev => by cases hev), ?_⟩
      · rw [answerAll_after hans, hpass.pending, List.append_nil]
        rfl
      · rintro err' ⟨⟩
        exact ⟨b.timer, List.mem_append_right _ (List.mem_singleton_self _)⟩
    | idle =>
      exact ih (hb.pass _ ⟨b.timer, rfl⟩ rfl) (hu.pass rfl fun timer hev => by cases hev) h'

/-! ## What the rounds say -/

section Rounds

variable {s : Round} {ss : List Round} {rest : List GoEvent}

theorem received_answerTo (err : Err) (reqs : List RenderReq) : received (reqs.map (answerTo err)) = [] :=
  List.filterMap_eq_nil_iff.mpr fun ev hev => by
    obtain ⟨req, -, rfl⟩ := List.mem_map.mp hev
    rfl

theorem answers_answerTo (err : Err) (reqs : List RenderReq) :
    answers (reqs.map (answerTo err)) = reqs.map fun req => (req.ticket, err) := by
  unfold answers
  rw [List.filterMap_map, ← List.filterMap_eq_map]
  rfl

theorem answers_waits (h : ∀ ev ∈ rest, Waits ev) : answers rest = [] :=
  List.filterMap_eq_nil_iff.mpr fun ev hev => by
    obtain ⟨timer, hc⟩ := h ev hev
    obtain ⟨c, r⟩ := ev
    cases hc
    rfl

/-- A flush neither receives nor answers. -/
theorem flush_silent [Lowering] [Sum256] {overlays : Store} {last : Option Digest}
    {q : Go (Err × Option Digest)}
    (h : (flushBatch a overlays last).After tr q) : received tr = [] ∧ answers tr = [] := by
  have hcalls : ∀ ev ∈ tr, FlushCall a overlays ev.call ∧ ∀ ticket err, ev.call ≠ .answer ticket err :=
    fun ev hev => ⟨(flushBatch_calls overlays last).of_mem h ev hev,
      (flushBatch_answers_nothing overlays last).of_mem h ev hev⟩
  constructor
  · refine List.filterMap_eq_nil_iff.mpr fun ev hev => ?_
    obtain ⟨hcall, -⟩ := hcalls ev hev
    obtain ⟨c, r⟩ := ev
    cases c <;> first | rfl | exact hcall.elim
  · refine List.filterMap_eq_nil_iff.mpr fun ev hev => ?_
    obtain ⟨-, hno⟩ := hcalls ev hev
    obtain ⟨c, r⟩ := ev
    cases c with
    | answer ticket err => exact absurd rfl (hno ticket err)
    | _ => rfl

theorem Round.Ok.received_trace [Lowering] [Sum256] (h : s.Ok a maxBatch) :
    RenderCoalescer.received s.trace = s.reqs := by
  rw [Round.trace, received_append, received_append, h.received, (flush_silent h.flushed).1,
    received_answerTo, List.append_nil, List.append_nil]

theorem Round.Ok.answers_trace [Lowering] [Sum256] (h : s.Ok a maxBatch) :
    answers s.trace = s.reqs.map fun req => (req.ticket, s.out.1) := by
  rw [Round.trace, answers_append, answers_append, answers_waits h.waiting, (flush_silent h.flushed).2,
    answers_answerTo]
  rfl

theorem received_rounds [Lowering] [Sum256] (h : ∀ s ∈ ss, s.Ok a maxBatch) :
    received (ss.flatMap Round.trace) = ss.flatMap Round.reqs := by
  induction ss with
  | nil => rfl
  | cons s ss ih =>
    obtain ⟨hs, hss⟩ := List.forall_mem_cons.mp h
    rw [List.flatMap_cons, received_append, hs.received_trace, ih hss, List.flatMap_cons]

theorem answers_rounds [Lowering] [Sum256] (h : ∀ s ∈ ss, s.Ok a maxBatch) :
    answers (ss.flatMap Round.trace) =
    ss.flatMap fun s => s.reqs.map fun req => (req.ticket, s.out.1) := by
  induction ss with
  | nil => rfl
  | cons s ss ih =>
    obtain ⟨hs, hss⟩ := List.forall_mem_cons.mp h
    rw [List.flatMap_cons, answers_append, hs.answers_trace, ih hss, List.flatMap_cons]

/-! ## What is stored -/

theorem Waits.keeps {ev : GoEvent} (h : Waits ev) (id : PlacementID) : Keeps id ev.call := by
  obtain ⟨timer, hc⟩ := h
  rw [hc]
  trivial

theorem Round.Ok.written_flush [Lowering] [Sum256] (h : s.Ok a maxBatch) (hnil : s.out.1 = none)
    (id : PlacementID) : written id s.flush = (lastOverlay id s.reqs).map some := by
  rw [(after_flush h.flushed).written_of_nil hnil id, get_persistInOrder, Store.get_empty, Option.or_none]

theorem Round.Ok.written_trace [Lowering] [Sum256] (h : s.Ok a maxBatch) (hnil : s.out.1 = none)
    (id : PlacementID) : written id s.trace = (lastOverlay id s.reqs).map some := by
  have hanswers : written id (s.reqs.map (answerTo s.out.1)) = none := by
    refine written_eq_none fun ev hev => ?_
    obtain ⟨req, -, rfl⟩ := List.mem_map.mp hev
    trivial
  rw [Round.trace, written_append, written_append, hanswers, h.written_flush hnil,
    written_eq_none fun ev hev => (h.waiting ev hev).keeps id, Option.none_or, Option.or_none]

/-- The rounds so far have stored all that was received. -/
theorem written_rounds [Lowering] [Sum256] (h : ∀ s ∈ ss, s.Ok a maxBatch)
    (hnil : ∀ s ∈ ss, s.out.1 = none) (st : Store)
    (id : PlacementID) : (written id (ss.flatMap Round.trace)).getD (st.get id) =
      (persistInOrder st (ss.flatMap Round.reqs)).get id := by
  induction ss generalizing st with
  | nil => rfl
  | cons s ss ih =>
    obtain ⟨hs, hss⟩ := List.forall_mem_cons.mp h
    obtain ⟨hnil₁, hnil₂⟩ := List.forall_mem_cons.mp hnil
    rw [List.flatMap_cons, List.flatMap_cons, persistInOrder_append, ← ih hss hnil₂, written_append,
      Option.getD_or, hs.written_trace hnil₁, get_persistInOrder]
    cases lastOverlay id s.reqs <;> rfl

theorem Round.Ok.stored_of_nil [Lowering] [Sum256] (h : s.Ok a maxBatch) (hnil : s.out.1 = none)
    {req : RenderReq} (hreq : req ∈ s.reqs) {p : Placement} (hp : req.overlay = some p) :
    ∃ q, lastOverlay p.id s.reqs = some q ∧ (⟨.putPlacement q, none⟩ : GoEvent) ∈ s.flush ∧
      written p.id s.flush = some (some q) := by
  have hmem : p ∈ (s.reqs.filterMap RenderReq.overlay).filter fun o => o.id = p.id :=
    List.mem_filter.mpr ⟨List.mem_filterMap.mpr ⟨req, hreq, hp⟩, by simp⟩
  obtain ⟨q, hq⟩ := Option.ne_none_iff_exists'.mp
    (mt List.getLast?_eq_none_iff.mp (List.ne_nil_of_mem hmem))
  have hwritten := h.written_flush hnil p.id
  rw [show lastOverlay p.id s.reqs = some q from hq, Option.map_some] at hwritten
  exact ⟨q, hq, mem_of_written hwritten, hwritten⟩

theorem received_of_rounds [Lowering] [Sum256] {pre : List Round} (hpre : ∀ u ∈ pre, u.Ok a maxBatch)
    (h : s.Ok a maxBatch) :
    received (pre.flatMap Round.trace ++ s.receives ++ s.flush) = (pre ++ [s]).flatMap Round.reqs := by
  rw [received_append, received_append, received_rounds hpre, h.received, (flush_silent h.flushed).1,
    List.append_nil, List.flatMap_append, List.flatMap_singleton]

theorem written_of_rounds [Lowering] [Sum256] {pre : List Round} (h : s.Ok a maxBatch)
    (hnil : s.out.1 = none) (id : PlacementID) :
    written id (pre.flatMap Round.trace ++ s.receives ++ s.flush) =
      written id ((pre ++ [s]).flatMap Round.trace) := by
  rw [List.flatMap_append, List.flatMap_singleton, written_append, written_append, written_append,
    h.written_flush hnil, h.written_trace hnil,
    written_eq_none fun ev hev => (h.waiting ev hev).keeps id, Option.none_or]

end Rounds

/-! ## Next to other goroutines -/

/-- The answer to each request of the batch. -/
def Round.outcomes (s : Round) : List (ℕ × Err) := s.reqs.map fun req => (req.ticket, s.out.1)

/-- The loop has ended, next to any other goroutines. Its events are rounds, each with the flush of a batch
when it is due and not before, then the receives of a batch that is not due, and the answers of the
cancellation if it was cancelled. So each request of a round is answered once, with the outcome of its flush,
and those of the rest are answered once if the context has ended. A nil outcome means that the flush stored,
for the placement of each overlay, the overlay received last; and if nobody else writes the store, then after
the flushes up to any one, all of them with nil, the store is as if the overlays received had been put one by
one. -/
theorem coalescer_answers [Lowering] [Sum256] {A : Env → Prop} {ts ts' : List (Go Err)} {i : ℕ}
    {w w' : World} {trs : List (Tagged ports)} {last : Option Digest} {r : Err}
    (hloop : ts[i]? = some (run a maxBatch rounds { lastHash := last }))
    (h : Pool world A ts w trs ts' w') (hdone : ts'[i]? = some (.done r)) :
    ∃ (ss : List Round) (rest : List GoEvent),
      Parts a maxBatch (eventsOf i trs) r ss rest ∧
      received (eventsOf i trs) = ss.flatMap Round.reqs ++ received rest ∧
      answers (eventsOf i trs) = ss.flatMap Round.outcomes ++
        (match r with
        | none => []
        | some err => (received rest).map fun req => (req.ticket, some err)) ∧
      (∀ s ∈ ss, s.out.1 = none → ∀ req ∈ s.reqs, ∀ p, req.overlay = some p →
        ∃ q, lastOverlay p.id s.reqs = some q ∧ (⟨.putPlacement q, none⟩ : GoEvent) ∈ s.flush ∧
          written p.id s.flush = some (some q)) ∧
      ((∀ j ev, (j, ev) ∈ trs → j ≠ i → ev.call.writesStore = false) →
        ∀ pre s post, ss = pre ++ s :: post → (∀ u ∈ pre ++ [s], u.out.1 = none) →
          ∀ trs₁ trs₂ w₁, trs = trs₁ ++ trs₂ →
            eventsOf i trs₁ = pre.flatMap Round.trace ++ s.receives ++ s.flush →
            Steps world A w (trs₁.map Prod.snd) w₁ →
            w₁.store = persistInOrder w.store (received (eventsOf i trs₁))) := by
  obtain ⟨q, hq, hafter⟩ := h.1.after hloop
  rw [hdone] at hq
  cases hq
  obtain ⟨ss, rest, hparts⟩ := run_parts (.start last) .nil hafter
  rw [List.nil_append] at hparts
  have hok := hparts.rounds
  refine ⟨ss, rest, hparts, ?_, ?_, fun s hs hnil req hreq p hp => ?_, ?_⟩
  · have hcancel : received (cancelAnswers (received rest) r) = [] := by
      cases r with
      | none => rfl
      | some err => exact received_answerTo _ _
    rw [hparts.trace, received_append, received_append, received_rounds hok, hcancel, List.append_nil]
  · rw [hparts.trace, answers_append, answers_append, answers_rounds hok, answers_waits hparts.waiting,
      List.append_nil]
    cases r with
    | none => rfl
    | some err => rw [cancelAnswers, answers_answerTo]; rfl
  · exact (hok s hs).stored_of_nil hnil hreq hp
  · intro hothers pre s post hsplit hnils trs₁ trs₂ w₁ hcut hevents hsteps
    subst hcut
    have hok' : ∀ u ∈ pre, u.Ok a maxBatch := fun u hu => hok u (by simp [hsplit, hu])
    have hs : s.Ok a maxBatch := hok s (by simp [hsplit])
    rw [hevents, received_of_rounds hok' hs]
    refine Store.ext_get fun id => ?_
    -- the record of one placement goes only through the loop's own calls
    have hmixed : Mixed (fun c => Call.writesStore c = false) (eventsOf i trs₁) (trs₁.map Prod.snd) :=
      mixed_eventsOf fun j ev hev => hothers j ev (List.mem_append_left _ hev)
    have hsees := hmixed.sees (H := world) (f := record id)
      (fun c e v hc => congrArg (fun st => Store.get st id) (store_exec hc e v)) hsteps
    have hrec := sees_written hsees
    rw [hevents, written_of_rounds hs (hnils s (by simp))] at hrec
    rw [← written_rounds (List.forall_mem_append.mpr ⟨hok', List.forall_mem_singleton.mpr hs⟩) hnils]
    exact hrec

section Fixed

open Eval

/-- Two requests in the channel, one of them with an overlay. -/
def twoRequests : World where
  queue := [⟨0, some (External.homedAt "p" "n1")⟩, ⟨1, none⟩]
  nextTicket := 2

/-- The loop serves both with one flush. -/
def oneFlush : List (Tagged ports) × List (Go Err) × World :=
  schedule world [run External.twoBackends 2 2 {}] (List.replicate 12 (0, default)) twoRequests

theorem length_flatMap_outcomes (ss : List Round) :
    (ss.flatMap Round.outcomes).length = (ss.flatMap Round.reqs).length := by
  simp [List.length_flatMap, Round.outcomes]

/-- The run of the loop is one round, and nothing is left over. -/
theorem coalescer_answers_one_flush : ∃ ss rest,
    Parts External.twoBackends 2 (eventsOf 0 oneFlush.1) none ss rest ∧
      ss.flatMap Round.outcomes = [(0, none), (1, none)] ∧ received rest = [] ∧
      oneFlush.2.2.store.list = [External.homedAt "p" "n1"] := by
  have hpool : Pool world (Env.Allowed true) [run External.twoBackends 2 2 {}] twoRequests
      oneFlush.1 oneFlush.2.1 oneFlush.2.2 :=
    pool_schedule _ (fun _ _ => Env.allowed_true _) _
  have hdone : oneFlush.2.1[0]? = some (.done none) := getElem?_eq_done (by decide +kernel)
  obtain ⟨ss, rest, hparts, hreceived, hanswers, -⟩ := coalescer_answers (i := 0) rfl hpool hdone
  rw [show answers (eventsOf 0 oneFlush.1) = [(0, none), (1, none)] by decide +kernel,
    List.append_nil] at hanswers
  rw [show received (eventsOf 0 oneFlush.1) = twoRequests.queue by decide +kernel] at hreceived
  -- both requests are in rounds
  have hnone : received rest = [] := by
    have hlen := congrArg List.length hreceived
    rw [List.length_append, ← length_flatMap_outcomes, ← hanswers] at hlen
    exact List.eq_nil_of_length_eq_zero (by simpa [twoRequests] using hlen)
  exact ⟨ss, rest, hparts, hanswers.symm, hnone, by decide +kernel⟩

end Fixed

end NodeAgent.RenderCoalescer
