import NodeAgent.Executor.Coalescer
import NodeAgent.Lib.Pool
import NodeAgent.World

/-!
# The coalescer's loop next to a caller

What every event of the loop is: a receive, a part of a flush, or an answer with the outcome of one. And
what the loop of a pool has from its caller: with an empty channel at the start, all that it receives and
stores was submitted.
-/

namespace NodeAgent.RenderCoalescer

open Lib Singboxgen

variable {a : EntryActions} {tr : List GoEvent} {maxBatch rounds : ℕ}

/-! ## The events of the loop -/

/-- An event of the loop; the batches that it flushes satisfy `J`. -/
inductive LoopEvent [Lowering] [Sum256] (a : EntryActions) (J : Batch → Prop) (tr : List GoEvent)
    (ev : GoEvent) : Prop
  | receive (timer : Bool) (h : ev.call = .receive timer)
  | flush (b : Batch) (part : List GoEvent) (q : Go (Err × Option Digest)) (inv : J b)
      (pending : b.pending ≠ []) (sub : part ⊆ tr) (mem : ev ∈ part)
      (h : (flushBatch a b.overlays b.lastHash).After part q)
  | answer (b : Batch) (part : List GoEvent) (out : Err × Option Digest) (ticket : ℕ) (inv : J b)
      (pending : b.pending ≠ []) (sub : part ⊆ tr)
      (h : (flushBatch a b.overlays b.lastHash).After part (.done out))
      (call : ev.call = .answer ticket out.1)
  | cancelled (timer : Bool) (err : GoError) (ticket : ℕ)
      (mem : (⟨.receive timer, .cancelled err⟩ : GoEvent) ∈ tr)
      (call : ev.call = .answer ticket (some err))

theorem LoopEvent.mono [Lowering] [Sum256] {J : Batch → Prop} {tr' : List GoEvent} {ev : GoEvent}
    (h : LoopEvent a J tr ev) (hsub : tr ⊆ tr') : LoopEvent a J tr' ev := by
  cases h with
  | receive timer h => exact .receive timer h
  | flush b part q inv pending sub mem h =>
    exact .flush b part q inv pending (List.Subset.trans sub hsub) mem h
  | answer b part out ticket inv pending sub h call =>
    exact .answer b part out ticket inv pending (List.Subset.trans sub hsub) h call
  | cancelled timer err ticket mem call => exact .cancelled timer err ticket (hsub mem) call

theorem answerAll_calls (err : Err) (reqs : List RenderReq) :
    (answerAll err reqs).All fun c : Call => ∃ ticket, c = .answer ticket err := by
  induction reqs with
  | nil => trivial
  | cons req reqs ih => exact Prog.all_invoke_bind.mpr ⟨⟨_, rfl⟩, fun _ => ih⟩

theorem doFlush_events [Lowering] [Sum256] {J : Batch → Prop} {b : Batch} {q : Go Batch} (hb : J b)
    (h : (doFlush a b).After tr q) : ∀ ev ∈ tr, LoopEvent a J tr ev := by
  intro ev hev
  unfold doFlush at h
  split_ifs at h with hp
  · obtain ⟨rfl, -⟩ := Prog.after_done_iff.mp h
    cases hev
  · rcases Prog.after_bind_iff.mp h with ⟨p', hflush, -⟩ | ⟨out, tr₁, tr₂, rfl, hflush, hrest⟩
    · exact .flush b tr p' hb hp (List.Subset.refl _) hev hflush
    · rcases List.mem_append.mp hev with hev | hev
      · exact .flush b tr₁ _ hb hp (List.subset_append_left _ _) hev hflush
      · have hall : (do answerAll out.1 b.pending; return { lastHash := out.2 } : Go Batch).All
            fun c : Call => ∃ ticket, c = .answer ticket out.1 :=
          (answerAll_calls out.1 b.pending).bind fun _ => trivial
        obtain ⟨ticket, hc⟩ := hall.of_mem hrest ev hev
        exact .answer b tr₁ out ticket hb hp (List.subset_append_left _ _) hflush hc

theorem doFlush_resets [Lowering] [Sum256] (b : Batch) :
    (doFlush a b).Ends fun b' => b' = b ∨ ∃ last, b' = { lastHash := last } := by
  unfold doFlush
  split_ifs
  · exact .inl rfl
  · refine Prog.Ends.bind (Prog.ends_true _) fun out _ => ?_
    exact Prog.Ends.bind (Prog.ends_true _) fun _ _ => .inr ⟨_, rfl⟩

/-- Every event of the loop is a receive, part of a flush, or an answer, and what holds of the batch at
the start and is kept by the requests that are received holds of every batch that is flushed. -/
theorem run_events [Lowering] [Sum256] {J : Batch → Prop} {b : Batch} {q : Go Err} (hb : J b)
    (hreset : ∀ last, J { lastHash := last }) (htimer : ∀ b : Batch, J b → J { b with timer := true })
    (hadd : ∀ (b : Batch) timer req, (⟨.receive timer, .request req⟩ : GoEvent) ∈ tr → J b →
      J (b.add req))
    (h : (run a maxBatch rounds b).After tr q) : ∀ ev ∈ tr, LoopEvent a J tr ev := by
  induction rounds generalizing b tr with
  | zero =>
    obtain ⟨rfl, -⟩ := Prog.after_done_iff.mp h
    simp
  | succ n ih =>
    have hflush : ∀ {b : Batch} {tr' : List GoEvent}, J b → tr' ⊆ tr →
        (doFlush a b >>= run a maxBatch n).After tr' q → ∀ ev ∈ tr', LoopEvent a J tr' ev := by
      intro b tr' hb hsub h ev hev
      rcases Prog.after_bind_iff.mp h with ⟨p', hp, -⟩ | ⟨b', tr₁, tr₂, rfl, hp, hrest⟩
      · exact doFlush_events hb hp ev hev
      · rcases List.mem_append.mp hev with hev | hev
        · exact (doFlush_events hb hp ev hev).mono (List.subset_append_left _ _)
        · have hb' : J b' := by
            rcases (doFlush_resets b).of_after hp with rfl | ⟨last, rfl⟩
            · exact hb
            · exact hreset last
          refine (ih hb' (fun b timer req hmem => ?_) hrest ev hev).mono (List.subset_append_right _ _)
          exact hadd b timer req (hsub (List.mem_append_right _ hmem))
    rcases Prog.after_invoke_iff.mp h with ⟨rfl, -⟩ | ⟨r, tr', rfl, hrest⟩
    · simp
    · have hsub : tr' ⊆ ⟨.receive b.timer, r⟩ :: tr' := List.subset_cons_self _ _
      have hadd' : ∀ (b : Batch) timer req, (⟨.receive timer, .request req⟩ : GoEvent) ∈ tr' → J b →
          J (b.add req) := fun b timer req hmem => hadd b timer req (hsub hmem)
      have htail : ∀ ev ∈ tr', LoopEvent a J (⟨.receive b.timer, r⟩ :: tr') ev := by
        intro ev hev
        cases r with
        | request req =>
          have hb' : J (b.add req) := hadd b b.timer req List.mem_cons_self hb
          dsimp only at hrest
          split_ifs at hrest
          · exact (hflush hb' hsub hrest ev hev).mono hsub
          · exact (ih (htimer _ hb') hadd' hrest ev hev).mono hsub
        | flushTimer => exact (hflush hb hsub hrest ev hev).mono hsub
        | cancelled err =>
          have hall : (do answerAll (some err) b.pending; return some err : Go Err).All
              fun c : Call => ∃ ticket, c = .answer ticket (some err) :=
            (answerAll_calls (some err) b.pending).bind fun _ => trivial
          obtain ⟨ticket, hc⟩ := hall.of_mem hrest ev hev
          exact .cancelled b.timer err ticket List.mem_cons_self hc
        | idle => exact (ih hb hadd' hrest ev hev).mono hsub
      exact List.forall_mem_cons.mpr ⟨.receive b.timer rfl, htail⟩

/-! ## A caller and the loop -/

/-- A caller next to the loop, which has nothing to do at the start. -/
def nextToLoop [Lowering] [Sum256] (a : EntryActions) (caller : Go Err) (maxBatch rounds : ℕ)
    (last : Option Digest) : List (Go Err) :=
  [caller, run a maxBatch rounds { lastHash := last }]

section Pool

variable [Lowering] [Sum256] {A : Env → Prop} {caller : Go Err} {last : Option Digest} {w w' : World}
  {trs : List (Tagged ports)} {ts' : List (Go Err)}

theorem loop_thread (h : Interleave (nextToLoop a caller maxBatch rounds last) trs ts') :
    ∃ q, (run a maxBatch rounds { lastHash := last }).After (eventsOf 1 trs) q :=
  (h.after (i := 1) rfl).imp fun _ hq => hq.2

theorem thread_cases (h : Interleave (nextToLoop a caller maxBatch rounds last) trs ts') {ev : GoEvent}
    (hev : ev ∈ trs.map Prod.snd) :
    ev ∈ eventsOf 0 trs ∨ (ev ∈ eventsOf 1 trs ∧ RunCall a ev.call) := by
  obtain ⟨⟨i, ev'⟩, hmem, rfl⟩ := List.mem_map.mp hev
  have hi := h.lt_of_mem hmem
  rcases i with _ | _ | i
  · exact .inl (mem_eventsOf.mpr hmem)
  · obtain ⟨q, hq⟩ := loop_thread h
    have hev' : ev' ∈ eventsOf 1 trs := mem_eventsOf.mpr hmem
    exact .inr ⟨hev', (run_calls maxBatch rounds _).of_mem hq ev' hev'⟩
  · simp [nextToLoop] at hi

/-- What the loop receives, the caller has submitted. -/
theorem submitted_by_caller (h : Pool world A (nextToLoop a caller maxBatch rounds last) w trs ts' w')
    (hqueue : w.queue = []) {timer : Bool} {req : RenderReq}
    (hmem : (⟨.receive timer, .request req⟩ : GoEvent) ∈ eventsOf 1 trs) :
    ∃ ev ∈ eventsOf 0 trs, ev.call = .submit req.overlay := by
  obtain ⟨x, y, rfl⟩ := List.append_of_mem (mem_eventsOf.mp hmem)
  have hsteps := h.2
  rw [List.map_append, List.map_cons] at hsteps
  obtain ⟨ev, hev, hc⟩ := submitted_of_received hsteps hqueue
  have hin : ev ∈ (x ++ (1, ⟨.receive timer, .request req⟩) :: y).map Prod.snd := by
    rw [List.map_append]
    exact List.mem_append_left _ hev
  rcases thread_cases h.1 hin with hev | ⟨-, hcall⟩
  · exact ⟨ev, hev, hc⟩
  · rw [hc] at hcall
    exact absurd hcall id

/-- What the loop stores, the caller has submitted. -/
theorem stored_by_caller (h : Pool world A (nextToLoop a caller maxBatch rounds last) w trs ts' w')
    (hqueue : w.queue = []) {ev : GoEvent} (hev : ev ∈ eventsOf 1 trs) {p : Placement}
    (hc : ev.call = .putPlacement p) : ∃ ev ∈ eventsOf 0 trs, ev.call = .submit (some p) := by
  obtain ⟨q, hq⟩ := loop_thread h.1
  obtain ⟨xs, ys, heq⟩ := List.append_of_mem hev
  rw [heq, ← List.singleton_append, ← List.append_assoc] at hq
  obtain ⟨q', hq', -⟩ := Prog.after_append_iff.mp hq
  rcases run_put_received hq' hc with hget | ⟨timer, ticket, hmem⟩
  · simp at hget
  · have hin : (⟨.receive timer, .request ⟨ticket, some p⟩⟩ : GoEvent) ∈ eventsOf 1 trs := by
      rw [heq]
      exact List.mem_append_left _ hmem
    exact submitted_by_caller h hqueue hin

end Pool

end NodeAgent.RenderCoalescer
