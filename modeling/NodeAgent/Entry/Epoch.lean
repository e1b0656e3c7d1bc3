import NodeAgent.Entry.Resurrection

/-!
# The resync of a restarted proxy

`runEntryProxyResync` of `cmd/agent/main.go`, next to a proxy whose process may restart between any two
of its calls. The loop remembers the epoch that it read before a rebuild, so the epoch can only match if
the process that answered the first call also answered the last one.
-/

namespace NodeAgent.Entry

open Lib EntryProxyActions

/-! ## The loop -/

/-- `resync`; it returns the new `lastEpoch`. -/
def resync (rebuild : Go Err) (lastEpoch : ℤ) : Go ℤ := do
  match ← port .epoch with
  | .error _ => return lastEpoch
  | .ok epoch =>
    let pending : Bool ← port .loadPending
    if epoch = lastEpoch ∧ pending = false then return lastEpoch
    else
      match ← rebuild with
      | some _ => return lastEpoch
      | none =>
        port (.storeEpoch epoch)
        return epoch

/-- One resync at the start and one per tick; the registry may be another one each time. -/
def runEntryProxyResync : List Registry → ℤ → Go Unit
  | [], _ => return ()
  | reg :: regs, lastEpoch => do
    let lastEpoch ← resync (rebuildFromStore reg) lastEpoch
    runEntryProxyResync regs lastEpoch

/-! ## Epochs in a trace -/

def restartOf : GoEvent → Option ℤ
  | ⟨.restart epoch, _⟩ => some epoch
  | _ => none

/-- The epochs of the restarts. -/
def restarts (tr : List GoEvent) : List ℤ := tr.filterMap restartOf

/-- The call does not record an epoch. -/
def NotStoreEpoch (c : Call) : Prop := ∀ epoch, c ≠ .storeEpoch epoch

section Steps

variable {A : Env → Prop} {w w' : World} {tr : List GoEvent}

theorem epoch_exec (c : Call) (e : Env) (w : World) :
    (World.exec c e w).2.epoch = (restartOf ⟨c, (World.exec c e w).1⟩).getD w.epoch := by
  have hproxy : ∀ x, (w.ofProxy x).2.epoch = w.epoch := fun x => by cases x <;> rfl
  cases c with
  | submit overlay => simp only [World.exec]; split <;> rfl
  | receive timer => simp only [World.exec]; split <;> (try split_ifs) <;> (try split) <;> rfl
  | _ => first
    | rfl
    | exact e.guarded_keeps World.epoch rfl
    | exact e.guarded_keeps World.epoch (hproxy _)

theorem lastEpoch_exec {c : Call} (h : NotStoreEpoch c) (e : Env) (w : World) :
    (World.exec c e w).2.lastEpoch = w.lastEpoch := by
  have hproxy : ∀ x, (w.ofProxy x).2.lastEpoch = w.lastEpoch := fun x => by cases x <;> rfl
  cases c with
  | storeEpoch epoch => exact absurd rfl (h epoch)
  | submit overlay => simp only [World.exec]; split <;> rfl
  | receive timer => simp only [World.exec]; split <;> (try split_ifs) <;> (try split) <;> rfl
  | _ => first
    | rfl
    | exact e.guarded_keeps World.lastEpoch rfl
    | exact e.guarded_keeps World.lastEpoch (hproxy _)

/-- The epoch is that of the last restart. -/
theorem steps_epoch (h : Steps world A w tr w') : w'.epoch = (restarts tr).getLastD w.epoch := by
  induction tr generalizing w with
  | nil =>
    rw [steps_nil.mp h]
    rfl
  | cons ev tr ih =>
    obtain ⟨c, r⟩ := ev
    obtain ⟨e, -, hr, hs⟩ := steps_cons.mp h
    have hepoch := epoch_exec c e w
    rw [show (World.exec c e w).1 = r from hr] at hepoch
    rw [ih hs, show (world.exec c e w).2.epoch = _ from hepoch]
    cases hev : restartOf ⟨c, r⟩ with
    | none => rw [restarts, restarts, List.filterMap_cons_none hev, Option.getD_none]
    | some epoch =>
      rw [restarts, restarts, List.filterMap_cons_some hev, List.getLastD_cons, Option.getD_some]

theorem steps_epoch_mem (h : Steps world A w tr w') : w'.epoch ∈ w.epoch :: restarts tr := by
  rw [steps_epoch h]
  exact List.getLastD_mem_cons

/-- What `lastEpoch` holds was there at the start, or was recorded. -/
theorem steps_lastEpoch (h : Steps world A w tr w') :
    w'.lastEpoch = w.lastEpoch ∨ ∃ ev ∈ tr, ev.call = .storeEpoch w'.lastEpoch := by
  refine h.invariant (I := fun v => v.lastEpoch = w.lastEpoch ∨
    ∃ ev ∈ tr, ev.call = .storeEpoch v.lastEpoch) (fun ev hev e v _ _ hv => ?_) (.inl rfl)
  by_cases hc : NotStoreEpoch ev.call
  · rw [show (world.exec ev.call e v).2.lastEpoch = _ from lastEpoch_exec hc e v]
    exact hv
  · obtain ⟨epoch, hc⟩ := not_forall.mp hc
    rw [ne_eq, not_not] at hc
    refine .inr ⟨ev, hev, ?_⟩
    rw [hc]
    rfl

end Steps

/-! ## What is recorded -/

section Records

variable {regs : List Registry} {last : ℤ} {mine xs ys : List GoEvent} {ev : GoEvent} {epoch : ℤ}

/-- Before an epoch is recorded it was read, and a whole rebuild came in between. -/
def Resynced (regs : List Registry) (epoch : ℤ) (xs : List GoEvent) : Prop :=
  ∃ reg ∈ regs, ∃ xs₁ pending y, xs = xs₁ ++ ⟨.epoch, .ok epoch⟩ :: ⟨.loadPending, pending⟩ :: y ∧
    (rebuildFromStore reg).After y (.done none)

theorem resync_records {reg : Registry} {q : Go ℤ}
    (h : (resync (rebuildFromStore reg) last).After (xs ++ ev :: ys) q)
    (hev : ev.call = .storeEpoch epoch) : Resynced [reg] epoch xs := by
  rcases Prog.after_invoke_iff.mp h with ⟨hnil, -⟩ | ⟨r, tr₁, heq, h₁⟩
  · simp at hnil
  rcases xs with _ | ⟨x, xs⟩
  · obtain ⟨rfl, -⟩ := List.cons_eq_cons.mp heq
    cases hev
  obtain ⟨rfl, rfl⟩ := List.cons_eq_cons.mp heq
  cases r with
  | error err =>
    obtain ⟨hnil, -⟩ := Prog.after_done_iff.mp h₁
    simp at hnil
  | ok e =>
    rcases Prog.after_invoke_iff.mp h₁ with ⟨hnil, -⟩ | ⟨pending, tr₂, heq, h₂⟩
    · simp at hnil
    rcases xs with _ | ⟨x, xs⟩
    · obtain ⟨rfl, -⟩ := List.cons_eq_cons.mp heq
      cases hev
    obtain ⟨rfl, rfl⟩ := List.cons_eq_cons.mp heq
    split_ifs at h₂
    · obtain ⟨hnil, -⟩ := Prog.after_done_iff.mp h₂
      simp at hnil
    · -- a rebuild does not record anything
      have hcalls : ∀ {y : List GoEvent} {q : Go Err}, (rebuildFromStore reg).After y q → ev ∉ y := by
        intro y q hy hmem
        have hcall := (rebuild_events hy).1 ev hmem
        rw [hev] at hcall
        exact hcall
      rcases Prog.after_bind_cases h₂ with ⟨c, k, h₃, -⟩ | ⟨r, y, tr₃, heq, h₃, h₄⟩
      · exact absurd (List.mem_append_right _ List.mem_cons_self) (hcalls h₃)
      rcases append_eq_append_cons_cases heq.symm with ⟨zs, rfl, -⟩ | ⟨zs, rfl, rfl⟩
      · exact absurd (List.mem_append_right _ List.mem_cons_self) (hcalls h₃)
      cases r with
      | some err =>
        obtain ⟨hnil, -⟩ := Prog.after_done_iff.mp h₄
        simp at hnil
      | none =>
        rcases Prog.after_invoke_iff.mp h₄ with ⟨hnil, -⟩ | ⟨u, tr₅, heq, h₅⟩
        · simp at hnil
        obtain ⟨rfl, -⟩ := Prog.after_done_iff.mp h₅
        rcases zs with _ | ⟨z, zs⟩
        · obtain ⟨rfl, -⟩ := List.cons_eq_cons.mp heq
          cases hev
          exact ⟨reg, List.mem_singleton_self reg, [], pending, y, by simp, h₃⟩
        · simp at heq

theorem run_records {q : Go Unit} (h : (runEntryProxyResync regs last).After (xs ++ ev :: ys) q)
    (hev : ev.call = .storeEpoch epoch) : Resynced regs epoch xs := by
  induction regs generalizing last xs with
  | nil =>
    obtain ⟨hnil, -⟩ := Prog.after_done_iff.mp h
    simp at hnil
  | cons reg regs ih =>
    -- recorded in this resync, or in a later one
    have hfirst : Resynced [reg] epoch xs → Resynced (reg :: regs) epoch xs := by
      rintro ⟨reg', hreg, hrest⟩
      exact ⟨reg', List.mem_cons.mpr (.inl (List.mem_singleton.mp hreg)), hrest⟩
    rcases Prog.after_bind_cases h with ⟨c, k, h₁, -⟩ | ⟨last', tr₁, tr₂, heq, h₁, h₂⟩
    · exact hfirst (resync_records h₁ hev)
    · rcases append_eq_append_cons_cases heq.symm with ⟨zs, rfl, -⟩ | ⟨zs, rfl, rfl⟩
      · exact hfirst (resync_records h₁ hev)
      · obtain ⟨reg', hreg, xs₁, pending, y, rfl, hy⟩ := ih h₂
        exact ⟨reg', List.mem_cons_of_mem _ hreg, tr₁ ++ xs₁, pending, y, by simp, hy⟩

end Records

/-! ## Next to restarts -/

section Restarts

variable {A : Env → Prop} {regs : List Registry} {others : List (Go Unit)} {w w' : World}
  {tr : List (Tagged ports)} {ts' : List (Go Unit)}

/-- Whenever the recorded epoch is the proxy's, a whole successful rebuild has run since the last
restart. -/
theorem epoch_resync_sound (hothers : ∀ p ∈ others, p.All NotStoreEpoch)
    (h : Pool world A (runEntryProxyResync regs 0 :: others) w tr ts' w') (hstart : w.lastEpoch = 0)
    (hzero : 0 ∉ w.epoch :: restarts (tr.map Prod.snd))
    (hdistinct : (w.epoch :: restarts (tr.map Prod.snd)).Nodup) (heq : w'.lastEpoch = w'.epoch) :
    ∃ tr₁ tr₂, tr = tr₁ ++ tr₂ ∧ restarts (tr₂.map Prod.snd) = [] ∧
      ∃ reg ∈ regs, ∃ xs y ys, eventsOf 0 tr₂ = xs ++ y ++ ys ∧
        (rebuildFromStore reg).After y (.done none) := by
  -- the epoch has been recorded, by the loop
  obtain ⟨ev, hev, hcall⟩ : ∃ ev ∈ tr.map Prod.snd, ev.call = .storeEpoch w'.lastEpoch := by
    refine (steps_lastEpoch h.2).resolve_left fun hsame => hzero ?_
    have hepoch := steps_epoch_mem h.2
    rw [← heq, hsame, hstart] at hepoch
    exact hepoch
  obtain ⟨⟨i, ev'⟩, hin, rfl⟩ := List.mem_map.mp hev
  obtain rfl : i = 0 := by
    by_contra hi
    obtain ⟨k, rfl⟩ := Nat.exists_eq_succ_of_ne_zero hi
    have hlt := h.1.lt_of_mem hin
    obtain ⟨p, hp⟩ : ∃ p, others[k]? = some p := ⟨_, List.getElem?_eq_getElem (Nat.lt_of_succ_lt_succ hlt)⟩
    obtain ⟨q, -, hq⟩ := h.1.after (i := k + 1) hp
    exact (hothers p (List.mem_of_getElem? hp)).of_mem hq _ (mem_eventsOf.mpr hin) _ hcall
  obtain ⟨q, -, hq⟩ := h.1.after (i := 0) rfl
  obtain ⟨xs, ys, hxs⟩ := List.append_of_mem (mem_eventsOf.mpr hin)
  rw [hxs] at hq
  obtain ⟨reg, hreg, xs₁, pending, y, rfl, hy⟩ := run_records hq hcall
  -- the world in which it was read
  rw [List.append_assoc, List.cons_append] at hxs
  obtain ⟨a, b, rfl, -, hb⟩ := exists_of_eventsOf_eq hxs
  obtain ⟨us, w₁, h₁, h₂⟩ := pool_append.mp h
  obtain ⟨e, -, hr, hs⟩ := steps_cons.mp h₂.2
  have hread : w₁.epoch = w'.lastEpoch := by
    obtain ⟨fail, _, _, _, _, _, _⟩ := e
    cases fail with
    | some msg => cases hr
    | none => exact Except.ok.inj hr
  refine ⟨a, _ :: b, rfl, ?_, reg, hreg, [⟨.epoch, .ok w'.lastEpoch⟩, ⟨.loadPending, pending⟩], y,
    ev' :: ys, ?_, hy⟩
  · by_contra hne
    have hbefore := steps_epoch_mem h₁.2
    rw [hread, heq] at hbefore
    have hafter := steps_epoch h₂.2
    rw [List.getLastD_eq_getLast?, List.getLast?_eq_some_getLast hne, Option.getD_some] at hafter
    rw [List.map_append, restarts, List.filterMap_append, ← List.cons_append] at hdistinct
    refine List.disjoint_of_nodup_append hdistinct hbefore ?_
    rw [hafter]
    exact List.getLast_mem hne
  · rw [eventsOf_cons_self, hb]
    simp

end Restarts

/-- The proxy restarts once, in the middle of the first resync; the second one notices it. -/
def restartOnce : List (Tagged ports) × List (Go Unit) × World :=
  schedule world [runEntryProxyResync [.new, .new] 0, port (.restart 2)]
    ((List.replicate 3 0 ++ 1 :: List.replicate 13 0).map fun i => (i, default)) {}

theorem epoch_resync_sound_once : restartOnce.2.2.lastEpoch = restartOnce.2.2.epoch ∧
    restarts (restartOnce.1.map Prod.snd) = [2] ∧
    ∃ tr₁ tr₂, restartOnce.1 = tr₁ ++ tr₂ ∧ restarts (tr₂.map Prod.snd) = [] ∧
      ∃ reg ∈ [Registry.new, .new], ∃ xs y ys, eventsOf 0 tr₂ = xs ++ y ++ ys ∧
        (rebuildFromStore reg).After y (.done none) := by
  have hpool : Pool world (Env.Allowed false) _ _ restartOnce.1 restartOnce.2.1 restartOnce.2.2 :=
    pool_schedule _ (fun x hx => by
      obtain ⟨i, -, rfl⟩ := List.mem_map.mp hx
      exact Env.allowed_default false) _
  have hothers : ∀ p ∈ ([port (.restart 2)] : List (Go Unit)), p.All NotStoreEpoch := by
    rw [List.forall_mem_singleton]
    exact ⟨(fun _ h => by cases h), fun _ => trivial⟩
  have heq : restartOnce.2.2.lastEpoch = restartOnce.2.2.epoch := by decide +kernel
  have hone : restarts (restartOnce.1.map Prod.snd) = [2] := by decide +kernel
  refine ⟨heq, hone, epoch_resync_sound hothers hpool rfl ?_ ?_ heq⟩
  · rw [hone]
    decide
  · rw [hone]
    decide

end NodeAgent.Entry
