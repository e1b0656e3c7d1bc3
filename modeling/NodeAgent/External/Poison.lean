import NodeAgent.ApplierEvents
import NodeAgent.External.Deactivation

/-!
# A failed command in the store

`Handle` stores a command that has failed for good with its desired state and backend, and the builder
checks every active record. So one command for a backend that is not known can stop every later render.
-/

namespace NodeAgent.External

open Lib Singboxgen RenderCoalescer

/-- `renderConfig` without a base file. -/
def CanRender [Lowering] (a : EntryActions) (s : Store) : Prop := ∃ cfg, build (a.nodeState s.list) = .ok cfg

theorem canRender_iff_validate [Lowering] {a : EntryActions} {s : Store} :
    CanRender a s ↔ validate (a.nodeState s.list) = .ok () := build_ok_iff.trans validate_ok_iff.symm

theorem canRender_iff [Lowering] {a : EntryActions} {s : Store} :
    CanRender a s ↔ FrameOk a.inbound a.reg.all ∧ ∀ id p, s.get id = some p → a.Renderable p := by
  refine build_ok_iff.trans (and_congr_right fun _ => ?_)
  refine ⟨fun h id p hp => h p (Store.mem_list_of_get hp), fun h p hp => h p.id p (Store.mem_list.mp hp)⟩

/-! ## What Handle and the loop store -/

section Pool

variable {A : Env → Prop} {a : EntryActions} {opts : FlipExecutorOptions} {nodeID : NodeID} {cmd : Command}
  {maxBatch rounds : ℕ} {last : Option Digest} {r : Err} {w w' : World} {trs : List (Tagged ports)}
  {ts' : List (Go Err)}

/-- What is stored is the placement, which the builder accepts, and nothing is deleted. -/
def StoresRenderable (a : EntryActions) (d : Placement) (c : Call) : Prop :=
  (∀ p, c = .putPlacement p → a.Renderable p ∧ ∃ s t, p = d.stamp s t) ∧ ∀ id, c ≠ .deletePlacement id

theorem storesRenderable_of_reportCall {d : Placement} {c : Call} (h : Applier.ReportCall c) :
    StoresRenderable a d c := by
  constructor
  · rintro p rfl
    exact absurd h id
  · rintro x rfl
    exact h

theorem flipExecutor_stores [Lowering] (d e : Placement) (found : Bool) :
    ((a.flipExecutor opts).executor.apply d e found).All (StoresRenderable a d) := by
  have hcall : ∀ c, a.ActionCall d c → StoresRenderable a d c := by
    intro c hc
    constructor
    · rintro p rfl
      exact ⟨hc.2 p rfl, .ok, hc.1⟩
    · rintro id rfl
      exact hc.1
  refine (a.flipExecutor opts).apply_all (EntryActions.simpleApply_calls.mono hcall)
    ((EntryActions.actions_calls ((a.flipExecutor opts).plan d e)).mono hcall) ?_ ?_ ?_
  · exact ⟨(fun _ h => by cases h), fun _ h => by cases h⟩
  · exact fun _ => ⟨(fun _ h => by cases h), fun _ h => by cases h⟩
  · exact ⟨(fun _ h => by cases h), fun _ h => by cases h⟩

/-- The loop stores what the caller has submitted, if the builder accepts it. -/
theorem loop_stores [Lowering] [Sum256] (hqueue : w.queue = [])
    (h : Pool world A (nextToLoop a (Applier.handle nodeID (a.flipExecutor opts).executor (.ok cmd))
      maxBatch rounds last) w trs ts' w') {i : ℕ} {ev : GoEvent} (hmem : (i, ev) ∈ trs) (hi : i ≠ 0) :
    StoresRenderable a cmd.placement ev.call := by
  have hlt := h.1.lt_of_mem hmem
  obtain rfl : i = 1 := by
    change i < 2 at hlt
    omega
  have hev : ev ∈ eventsOf 1 trs := mem_eventsOf.mpr hmem
  obtain ⟨q, hq⟩ := loop_thread h.1
  have hcall := (run_calls maxBatch rounds _).of_mem hq ev hev
  constructor
  · intro p hc
    obtain ⟨ev', hev', hsub⟩ := stored_by_caller h hqueue hev hc
    obtain ⟨q', -, hafter⟩ := h.1.after (i := 0) rfl
    rw [hc] at hcall
    exact ⟨hcall, Applier.handle_writes_own hafter hev' (.inr hsub)⟩
  · intro x hc
    rw [hc] at hcall
    exact hcall

/-- A `Handle` that reports an error tries to store the error record once; whatever else is stored, by
it or by the loop, the builder accepts. -/
theorem error_put [Lowering] [Sum256] (hqueue : w.queue = [])
    (h : Pool world A (nextToLoop a (Applier.handle nodeID (a.flipExecutor opts).executor (.ok cmd))
      maxBatch rounds last) w trs ts' w') (hdone : ts'[0]? = some (.done r)) {rep : PlacementReport}
    (hrep : rep ∈ reports (trs.map Prod.snd)) (hstatus : rep.status = .error) :
    ∃ trs₁ t saved trs₂,
      trs = trs₁ ++ (0, ⟨.putPlacement (cmd.placement.stamp .error t), saved⟩) :: trs₂ ∧
      ∀ x ∈ trs₁ ++ trs₂, StoresRenderable a cmd.placement x.2.call := by
  obtain ⟨q, hq, hafter⟩ := h.1.after (i := 0) rfl
  rw [hdone] at hq
  cases hq
  have hown : rep ∈ reports (eventsOf 0 trs) := by
    obtain ⟨ev, hev, hsome⟩ := List.mem_filterMap.mp hrep
    rcases thread_cases h.1 hev with hev | ⟨-, hcall⟩
    · exact List.mem_filterMap.mpr ⟨ev, hev, hsome⟩
    · unfold reportOf at hsome
      split at hsome
      · rename_i hc
        rw [hc] at hcall
        exact absurd hcall id
      · cases hsome
  obtain ⟨tr₁, t, saved, tr₂, heq, hbefore, hreports⟩ := Applier.handle_failed hafter hown hstatus
    (flipExecutor_stores cmd.placement) ⟨(fun _ h => by cases h), fun _ h => by cases h⟩
    ⟨(fun _ h => by cases h), fun _ h => by cases h⟩ ⟨(fun _ h => by cases h), fun _ h => by cases h⟩
  obtain ⟨trs₁, trs₂, rfl, rfl, rfl⟩ := exists_of_eventsOf_eq heq
  refine ⟨trs₁, t, saved, trs₂, rfl, ?_⟩
  rintro ⟨i, ev⟩ hx
  by_cases hi : i = 0
  · subst hi
    rcases List.mem_append.mp hx with hx | hx
    · exact hbefore ev (mem_eventsOf.mpr hx)
    · exact storesRenderable_of_reportCall (hreports ev (mem_eventsOf.mpr hx))
  · refine loop_stores hqueue h (?_ : (i, ev) ∈ _) hi
    rcases List.mem_append.mp hx with hx | hx
    · exact List.mem_append_left _ hx
    · exact List.mem_append_right _ (List.mem_cons_of_mem _ hx)

/-- Where only renderable records are stored, the store can be rendered afterwards as before. -/
theorem canRender_steps [Lowering] {tr : List GoEvent} (h : Steps world A w tr w')
    (hputs : ∀ p, (⟨.putPlacement p, none⟩ : GoEvent) ∈ tr → a.Renderable p)
    (hdels : ∀ id, (⟨.deletePlacement id, none⟩ : GoEvent) ∉ tr) (hw : CanRender a w.store) :
    CanRender a w'.store := by
  refine steps_store_invariant (I := CanRender a) h ?_ (fun id hid => absurd hid (hdels id)) hw
  intro p hp s hs
  rw [canRender_iff] at hs ⊢
  refine ⟨hs.1, fun id q hq => ?_⟩
  rw [Store.get_put] at hq
  split_ifs at hq
  · cases hq
    exact hputs _ hp
  · exact hs.2 id q hq

/-- A record that the builder does not accept stays, since the other calls only store what it
accepts. -/
theorem get_of_put_unrenderable {p : Placement} {rest : List (Tagged ports)} {e : Env} {w₁ : World}
    (hr : (World.exec (.putPlacement p) e w₁).1 = none) (hbad : ¬ a.Renderable cmd.placement)
    (hid : p.id = cmd.placement.id)
    (hothers : ∀ x ∈ rest, StoresRenderable a cmd.placement x.2.call)
    (hrest : Steps world A (World.exec (.putPlacement p) e w₁).2 (rest.map Prod.snd) w') :
    w'.store.get cmd.placement.id = some p := by
  refine steps_store_invariant (I := fun s => s.get cmd.placement.id = some p) hrest ?_ ?_ ?_
  · intro q hq
    obtain ⟨y, hy, heq⟩ := List.mem_map.mp hq
    obtain ⟨hren, state, t, rfl⟩ := (hothers y hy).1 q (by rw [heq])
    exact absurd hren hbad
  · intro x hx
    obtain ⟨y, hy, heq⟩ := List.mem_map.mp hx
    exact absurd (by rw [heq]) ((hothers y hy).2 x)
  · rw [exec_putPlacement hr, ← hid]
    exact Store.get_put_self w₁.store p

/-- After a command that is reported as failed, a store that could be rendered still can just if the
builder accepts the command's placement, or if the error record was not stored. -/
theorem renders_after_error_iff [Lowering] [Sum256] (hw : CanRender a w.store) (hqueue : w.queue = [])
    (h : Pool world A (nextToLoop a (Applier.handle nodeID (a.flipExecutor opts).executor (.ok cmd))
      maxBatch rounds last) w trs ts' w') (hdone : ts'[0]? = some (.done r)) {rep : PlacementReport}
    (hrep : rep ∈ reports (trs.map Prod.snd)) (hstatus : rep.status = .error) :
    CanRender a w'.store ↔ a.Renderable cmd.placement ∨
      ∀ t, (⟨.putPlacement (cmd.placement.stamp .error t), none⟩ : GoEvent) ∉ trs.map Prod.snd := by
  obtain ⟨trs₁, t, saved, trs₂, rfl, hothers⟩ := error_put hqueue h hdone hrep hstatus
  have hmem : ∀ ev ∈ (trs₁ ++ (0, (⟨.putPlacement (cmd.placement.stamp .error t), saved⟩ : GoEvent)) ::
      trs₂).map Prod.snd, ev = ⟨.putPlacement (cmd.placement.stamp .error t), saved⟩ ∨
        StoresRenderable a cmd.placement ev.call := by
    intro ev hev
    obtain ⟨x, hx, rfl⟩ := List.mem_map.mp hev
    rcases List.mem_append.mp hx with hx | hx
    · exact .inr (hothers x (List.mem_append_left _ hx))
    · rcases List.mem_cons.mp hx with rfl | hx
      · exact .inl rfl
      · exact .inr (hothers x (List.mem_append_right _ hx))
  constructor
  · intro hw'
    by_contra hno
    rw [not_or, not_forall] at hno
    obtain ⟨hbad, t', hsaved⟩ := hno
    rw [not_not] at hsaved
    -- the record that is saved is the one put of the trace that the builder does not accept
    obtain rfl : saved = none := by
      rcases hmem _ hsaved with heq | hok
      · cases heq
        rfl
      · exact absurd (hok.1 _ rfl).1 hbad
    have hsteps := h.2
    rw [List.map_append, List.map_cons] at hsteps
    obtain ⟨w₁, -, e, -, hr, hrest⟩ := steps_append.mp hsteps
    have hstored : w'.store.get cmd.placement.id = some (cmd.placement.stamp .error t) :=
      get_of_put_unrenderable hr hbad rfl (fun x hx => hothers x (List.mem_append_right _ hx)) hrest
    exact hbad (EntryActions.renderable_stamp.mp ((canRender_iff.mp hw').2 _ _ hstored))
  · intro hok
    refine canRender_steps h.2 (fun p hp => ?_) (fun x hx => ?_) hw
    · rcases hmem _ hp with heq | hren
      · cases heq
        rcases hok with hok | hno
        · exact hok
        · exact absurd hp (hno t)
      · exact (hren.1 p rfl).1
    · rcases hmem _ hx with heq | hren
      · cases heq
      · exact hren.2 x rfl

end Pool

section Fixed

open Eval

/-! ## A command for an unknown backend -/

/-- A third user, whose home is not known. -/
def lostHome : Command := .carrying (homeOf "p3" "c3" "n9")

/-- The command fails, is stored as failed, and the configuration cannot be rendered any more. -/
theorem failed_command_poisons : ∃ trs ts' w' rep,
    Reachable entryNode listener default bothKnown bothHome ∧
    CanRender (knowing bothKnown) bothHome.store ∧
    Pool world (Env.Allowed false) (nextToLoop (knowing bothKnown) (Applier.handle "e"
      ((knowing bothKnown).flipExecutor default).executor (.ok lostHome)) 1 1 none) bothHome trs ts' w' ∧
    ts'[0]? = some (.done none) ∧ rep ∈ reports (trs.map Prod.snd) ∧ rep.status = .error ∧
    ¬ CanRender (knowing bothKnown) w'.store := by
  obtain ⟨rep, hrep, hstatus⟩ : ∃ rep ∈ reports ((handles lostHome bothHome).1.map Prod.snd),
      rep.status = .error := by
    decide +kernel
  refine ⟨_, _, _, rep, reachable_bothHome, canRender_iff_validate.mpr (by decide +kernel),
    pool_schedule turns allowed_turns bothHome, getElem?_eq_done (by decide +kernel), hrep, hstatus, ?_⟩
  rw [canRender_iff_validate]
  show validate ((knowing bothKnown).nodeState (handles lostHome bothHome).2.2.store.list) ≠ .ok ()
  decide +kernel

/-- The node without a coalescer. -/
def uncoalesced : EntryActions := { knowing bothKnown with coalesced := false }

/-- `Handle` of the second user's command, and the file cannot be written. -/
def unwritable : List (Tagged ports) × List (Go Err) × World :=
  schedule world (nextToLoop uncoalesced (Applier.handle "e"
      (uncoalesced.flipExecutor default).executor (.ok secondHome)) 1 1 none)
    (List.replicate 5 (0, default) ++ (0, { fail := some "disk full" }) :: List.replicate 10 (0, default)) {}

/-- A command that fails for another reason does no harm. -/
theorem renders_after_unwritable : ∃ trs ts' w' rep,
    Pool world (Env.Allowed true) (nextToLoop uncoalesced (Applier.handle "e"
      (uncoalesced.flipExecutor default).executor (.ok secondHome)) 1 1 none) {} trs ts' w' ∧
    ts'[0]? = some (.done none) ∧ rep ∈ reports (trs.map Prod.snd) ∧ rep.status = .error ∧
    CanRender uncoalesced w'.store := by
  have hpool : Pool world (Env.Allowed true) (nextToLoop uncoalesced (Applier.handle "e"
      (uncoalesced.flipExecutor default).executor (.ok secondHome)) 1 1 none) {} unwritable.1 unwritable.2.1
      unwritable.2.2 := pool_schedule _ (fun x _ => Env.allowed_true x.2) _
  have hdone : unwritable.2.1[0]? = some (.done none) := getElem?_eq_done (by decide +kernel)
  obtain ⟨rep, hrep, hstatus⟩ : ∃ rep ∈ reports (unwritable.1.map Prod.snd), rep.status = .error := by
    decide +kernel
  exact ⟨_, _, _, rep, hpool, hdone, hrep, hstatus,
    (renders_after_error_iff (canRender_iff_validate.mpr (by decide +kernel)) rfl hpool hdone hrep
      hstatus).mpr (.inl fun _ => by decide +kernel)⟩

end Fixed

end NodeAgent.External
