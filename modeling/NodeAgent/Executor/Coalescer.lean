import NodeAgent.Executor.EntryActions

/-!
# The render coalescer

`internal/app/executor/coalescer.go`: the goroutine that collects render requests and serves a batch
of them with one render, one reload and the puts of their overlays. `Apply`, the callers' side, is
`coalesce`.
-/

namespace NodeAgent

/-- A `[32]byte`. -/
abbrev Digest := BitVec 256

/-- `sha256.Sum256`, of the file that a rendered value stands for. -/
class Sum256 where
  sum256 : Singboxgen.Rendered → Digest

export Sum256 (sum256)

namespace RenderCoalescer

open Lib

variable (a : EntryActions)

/-- The variables of `Run`, and the hash of the file it loaded last. -/
structure Batch where
  pending : List RenderReq := []
  overlays : Store := .empty
  timer : Bool := false
  lastHash : Option Digest := none

/-- The last loop of `flushBatch`, over the overlays in some order. -/
def persistOverlays (overlays : Store) : List PlacementID → Go Err
  | [] => return none
  | id :: ids =>
    match overlays.get id with
    | none => persistOverlays overlays ids
    | some p => do
      match ← port (.putPlacement p) with
      | some err => return some (.wrap ("coalescer: persist " ++ p.id) err)
      | none => persistOverlays overlays ids

/-- The listing with the overlays laid over it, in some order. -/
def withOverlays (overlays : Store) (placements : List Placement) (order : List PlacementID) :
    List Placement :=
  (order.filterMap overlays.get).foldl applyPlacementOverlay placements

/-- `flushBatch`; it also returns the hash of the file loaded last. -/
def flushBatch [Lowering] [Sum256] (overlays : Store) (lastHash : Option Digest) :
    Go (Err × Option Digest) := do
  match ← port .listPlacements with
  | .error err => return (some (.wrap "coalescer: list placements" err), lastHash)
  | .ok placements =>
    let order ← port (.rangeOrder overlays.recs.keys)
    match ← a.renderFromState (a.nodeState (withOverlays overlays placements order.val)) with
    | .error err => return (some (.wrap "coalescer: render" err), lastHash)
    | .ok data =>
      let hash := sum256 data
      if lastHash = some hash then
        let order ← port (.rangeOrder overlays.recs.keys)
        return (← persistOverlays overlays order.val, lastHash)
      else
        match ← port (.writeConfig data) with
        | some err => return (some (.wrap "coalescer: write config" err), lastHash)
        | none =>
          match ← port .reload with
          | some err => return (some (.wrap "coalescer: reload" err), lastHash)
          | none =>
            let order ← port (.rangeOrder overlays.recs.keys)
            return (← persistOverlays overlays order.val, some hash)

/-- Send the outcome to every waiting caller. -/
def answerAll (err : Err) : List RenderReq → Go Unit
  | [] => return ()
  | req :: reqs => do
    port (.answer req.ticket err)
    answerAll err reqs

/-- `doFlush` and `resetBatch`. -/
def doFlush [Lowering] [Sum256] (b : Batch) : Go Batch :=
  if b.pending = [] then return b
  else do
    let out ← flushBatch a b.overlays b.lastHash
    answerAll out.1 b.pending
    return { lastHash := out.2 }

/-- The batch with one more request. -/
def Batch.add (b : Batch) (req : RenderReq) : Batch :=
  { b with
    pending := b.pending ++ [req]
    overlays := match req.overlay with
      | some p => b.overlays.put p
      | none => b.overlays }

/-- The loop of `Run` for a number of rounds; `CoalescerOptions.MaxBatch` is a parameter. -/
def run [Lowering] [Sum256] (maxBatch : ℕ) : ℕ → Batch → Go Err
  | 0, _ => return none
  | rounds + 1, b => do
    match ← port (.receive b.timer) with
    | .request req =>
      let b := b.add req
      if b.pending.length ≥ maxBatch then
        let b ← doFlush a b
        run maxBatch rounds b
      else run maxBatch rounds { b with timer := true }
    | .flushTimer =>
      let b ← doFlush a b
      run maxBatch rounds b
    | .cancelled err =>
      answerAll (some err) b.pending
      return some err
    | .idle => run maxBatch rounds b

/-! ## What a flush stores -/

section Calls

variable {a} {P : Call → Prop}

theorem answerAll_all (h : ∀ ticket err, P (.answer ticket err)) (err : Err) (reqs : List RenderReq) :
    (answerAll err reqs).All P := by
  induction reqs with
  | nil => trivial
  | cons req reqs ih => exact Prog.all_invoke_bind.mpr ⟨h _ _, fun _ => ih⟩

theorem persistOverlays_all {overlays : Store} {ids : List PlacementID}
    (h : ∀ id p, overlays.get id = some p → P (.putPlacement p)) :
    (persistOverlays overlays ids).All P := by
  induction ids with
  | nil => trivial
  | cons id ids ih =>
    unfold persistOverlays
    cases hp : overlays.get id with
    | none => exact ih
    | some p =>
      refine Prog.all_invoke_bind.mpr ⟨h id p hp, fun r => ?_⟩
      cases r with
      | some err => trivial
      | none => exact ih

/-- A flush stores overlays, and only if the builder accepts them. -/
def FlushCall (a : EntryActions) (overlays : Store) : Call → Prop
  | .putPlacement p => a.Renderable p ∧ overlays.get p.id = some p
  | .listPlacements => True
  | .rangeOrder _ => True
  | .readConfig => True
  | .writeConfig _ => True
  | .reload => True
  | .answer _ _ => True
  | _ => False

theorem mem_foldl_overlay {os ps : List Placement} {q : Placement} (hq : q ∈ ps ∨ q ∈ os)
    (huniq : ∀ o ∈ os, o.id = q.id → o = q) : q ∈ os.foldl applyPlacementOverlay ps := by
  induction os generalizing ps with
  | nil => exact hq.resolve_right List.not_mem_nil
  | cons o os ih =>
    refine ih ?_ fun o' ho' => huniq o' (List.mem_cons_of_mem _ ho')
    rw [EntryActions.mem_applyPlacementOverlay]
    by_cases hid : o.id = q.id
    · exact .inl (.inl (huniq o List.mem_cons_self hid).symm)
    · rcases hq with hq | hq
      · exact .inl (.inr ⟨hq, Ne.symm hid⟩)
      · rcases List.mem_cons.mp hq with rfl | hq
        · exact absurd rfl hid
        · exact .inr hq

theorem mem_withOverlays {overlays : Store} {ps : List Placement} {order : List PlacementID}
    {id : PlacementID} {p : Placement} (hp : overlays.get id = some p) (hid : id ∈ order) :
    p ∈ withOverlays overlays ps order := by
  refine mem_foldl_overlay (.inr (List.mem_filterMap.mpr ⟨id, hid, hp⟩)) fun o ho heq => ?_
  obtain ⟨id', -, ho'⟩ := List.mem_filterMap.mp ho
  rw [Store.id_of_get ho', Store.id_of_get hp] at heq
  subst heq
  rw [hp] at ho'
  exact (Option.some.inj ho').symm

theorem flushBatch_calls [Lowering] [Sum256] (overlays : Store) (lastHash : Option Digest) :
    (flushBatch a overlays lastHash).All (FlushCall a overlays) := by
  refine Prog.all_invoke_bind.mpr ⟨trivial, fun r => ?_⟩
  cases r with
  | error err => trivial
  | ok placements =>
    refine Prog.all_invoke_bind.mpr ⟨trivial, fun order => ?_⟩
    refine ((EntryActions.renderFromState_calls _).mono fun c hc => by subst hc; trivial).bind_ends
      (EntryActions.renderFromState_ends _) fun r hr => ?_
    cases r with
    | error err => trivial
    | ok data =>
      have hput : ∀ id p, overlays.get id = some p → FlushCall a overlays (.putPlacement p) := by
        intro id p hp
        have hmem : id ∈ order.val := by
          rw [order.property.mem_iff, Std.ExtTreeMap.mem_keys, Std.ExtTreeMap.mem_iff_isSome_getElem?]
          exact Option.isSome_of_mem hp
        refine ⟨hr data rfl p (mem_withOverlays hp hmem), ?_⟩
        rw [Store.id_of_get hp]
        exact hp
      dsimp only
      split_ifs
      · refine Prog.all_invoke_bind.mpr ⟨trivial, fun order => ?_⟩
        exact (persistOverlays_all hput).bind fun _ => trivial
      · refine Prog.all_invoke_bind.mpr ⟨trivial, fun r => ?_⟩
        cases r with
        | some err => trivial
        | none =>
          refine Prog.all_invoke_bind.mpr ⟨trivial, fun r => ?_⟩
          cases r with
          | some err => trivial
          | none =>
            refine Prog.all_invoke_bind.mpr ⟨trivial, fun order => ?_⟩
            exact (persistOverlays_all hput).bind fun _ => trivial

theorem doFlush_calls [Lowering] [Sum256] (b : Batch) : (doFlush a b).All (FlushCall a b.overlays) := by
  unfold doFlush
  split_ifs
  · trivial
  · refine (flushBatch_calls b.overlays b.lastHash).bind fun out => ?_
    exact (answerAll_all (fun _ _ => trivial) out.1 b.pending).bind fun _ => trivial

theorem doFlush_ends [Lowering] [Sum256] (b : Batch) :
    (doFlush a b).Ends fun b' => b'.overlays = .empty ∨ b'.overlays = b.overlays := by
  unfold doFlush
  split_ifs
  · exact .inr rfl
  · refine Prog.Ends.bind (Prog.ends_true _) fun out _ => ?_
    exact Prog.Ends.bind (Prog.ends_true _) fun _ _ => .inl rfl

/-- What the loop calls. -/
def RunCall (a : EntryActions) : Call → Prop
  | .putPlacement p => a.Renderable p
  | .listPlacements => True
  | .rangeOrder _ => True
  | .readConfig => True
  | .writeConfig _ => True
  | .reload => True
  | .answer _ _ => True
  | .receive _ => True
  | _ => False

theorem FlushCall.runCall {overlays : Store} {c : Call} (h : FlushCall a overlays c) :
    RunCall a c := by
  cases c <;> first | trivial | exact h.1

theorem run_calls [Lowering] [Sum256] (maxBatch rounds : ℕ) (b : Batch) :
    (run a maxBatch rounds b).All (RunCall a) := by
  induction rounds generalizing b with
  | zero => trivial
  | succ n ih =>
    have hflush : ∀ b, (doFlush a b >>= run a maxBatch n).All (RunCall a) := fun b =>
      ((doFlush_calls b).mono fun _ h => h.runCall).bind ih
    refine Prog.all_invoke_bind.mpr ⟨trivial, fun r => ?_⟩
    cases r with
    | request req =>
      dsimp only
      split_ifs
      · exact hflush _
      · exact ih _
    | flushTimer => exact hflush b
    | cancelled err =>
      exact (answerAll_all (fun _ _ => trivial) (some err) b.pending).bind fun _ => trivial
    | idle => exact ih b

theorem get_add {b : Batch} {req : RenderReq} {p : Placement}
    (h : (b.add req).overlays.get p.id = some p) :
    req.overlay = some p ∨ b.overlays.get p.id = some p := by
  unfold Batch.add at h
  cases ho : req.overlay with
  | none =>
    rw [ho] at h
    exact .inr h
  | some o =>
    simp only [ho, Store.get_put] at h
    split_ifs at h
    · exact .inl h
    · exact .inr h

/-- What the loop stores, it has received, or it was in the batch before. -/
theorem run_put_received [Lowering] [Sum256] {maxBatch rounds : ℕ} {b : Batch} {tr : List GoEvent}
    {ev : GoEvent} {q : Go Err} {p : Placement} (h : (run a maxBatch rounds b).After (tr ++ [ev]) q)
    (hp : ev.call = .putPlacement p) :
    b.overlays.get p.id = some p ∨
      ∃ timer ticket, (⟨.receive timer, .request ⟨ticket, some p⟩⟩ : GoEvent) ∈ tr := by
  induction rounds generalizing b tr with
  | zero =>
    obtain ⟨hnil, -⟩ := Prog.after_done_iff.mp h
    simp at hnil
  | succ n ih =>
    -- a flush of a batch and what follows it
    have hflush : ∀ {b : Batch} {tr : List GoEvent},
        (doFlush a b >>= run a maxBatch n).After (tr ++ [ev]) q → b.overlays.get p.id = some p ∨
          ∃ timer ticket, (⟨.receive timer, .request ⟨ticket, some p⟩⟩ : GoEvent) ∈ tr := by
      intro b tr h
      rcases Prog.after_bind_snoc h with ⟨p', hp'⟩ | ⟨b', tr₁, tr₂, rfl, hdone, hrun⟩
      · have hcall := (doFlush_calls b).of_mem hp' ev (by simp)
        rw [hp] at hcall
        exact .inl hcall.2
      · rcases ih hrun with hget | ⟨timer, ticket, hmem⟩
        · rcases (doFlush_ends b).of_after hdone with hb' | hb'
          · simp [hb'] at hget
          · exact .inl (hb' ▸ hget)
        · exact .inr ⟨timer, ticket, List.mem_append_right _ hmem⟩
    rcases Prog.after_invoke_snoc h with ⟨-, hc⟩ | ⟨r, tr', rfl, hrest⟩
    · rw [hp] at hc
      cases hc
    · have hlater : (∃ timer ticket,
          (⟨.receive timer, .request ⟨ticket, some p⟩⟩ : GoEvent) ∈ tr') →
          ∃ timer ticket, (⟨.receive timer, .request ⟨ticket, some p⟩⟩ : GoEvent) ∈
            ⟨.receive b.timer, r⟩ :: tr' := fun ⟨timer, ticket, hmem⟩ =>
        ⟨timer, ticket, List.mem_cons_of_mem _ hmem⟩
      cases r with
      | request req =>
        have hadd : (b.add req).overlays.get p.id = some p ∨ (∃ timer ticket,
            (⟨.receive timer, .request ⟨ticket, some p⟩⟩ : GoEvent) ∈ tr') := by
          dsimp only at hrest
          split_ifs at hrest
          · exact hflush hrest
          · have hlast := ih hrest
            exact hlast
        rcases hadd with hget | hmem
        · rcases get_add hget with ho | hget
          · refine .inr ⟨b.timer, req.ticket, ?_⟩
            rw [← ho]
            exact List.mem_cons_self
          · exact .inl hget
        · exact .inr (hlater hmem)
      | flushTimer => exact (hflush hrest).imp_right hlater
      | cancelled err =>
        have hall : (do answerAll (some err) b.pending; return some err : Go Err).All
            fun c : Call => ∃ ticket e, c = .answer ticket e :=
          (answerAll_all (fun t e => ⟨t, e, rfl⟩) (some err) b.pending).bind fun _ => trivial
        obtain ⟨ticket, e, hc⟩ := hall.of_mem hrest ev (by simp)
        rw [hp] at hc
        cases hc
      | idle => exact (ih hrest).imp_right hlater

end Calls

end RenderCoalescer

namespace Eval

/-- A sum over the tags, which tells the files of fixed inputs apart. -/
scoped instance summing : Sum256 where
  sum256
    | .built cfg => .ofNat 256 (((cfg.outbounds.flatMap fun o => [o.tag, o.default]).flatMap
        String.toList).foldl (fun h c => 31 * h + c.toNat) 0)
    | .merged _ => 0

end Eval

end NodeAgent
