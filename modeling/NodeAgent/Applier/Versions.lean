import NodeAgent.ApplierEvents
import NodeAgent.Executor.Coalescer
import NodeAgent.Lib.Pool
import NodeAgent.Snapshot.Prune

/-!
# The version of a record

Three kinds of goroutines write a record: `Handle` of the applier, the items of a snapshot, and the loop
of the coalescer, which stores what a `Handle` has submitted. Each looks at the version first, but the
look and the put are two steps, and another one may come between them.
-/

namespace NodeAgent.Applier

open Lib

/-! ## The writers -/

/-- A goroutine that writes records. -/
inductive Writer [Lowering] [Sum256] : Go Err → Prop
  | handle (nodeID : NodeID) (x : Executor) (msg : Except GoError Command) :
      Writer (Applier.handle nodeID x msg)
  | item (cmd : Command) : Writer (do let _ ← Snapshot.applyItem cmd; return none)
  | loop (a : EntryActions) (maxBatch rounds : ℕ) (last : Option Digest) :
      Writer (RenderCoalescer.run a maxBatch rounds { lastHash := last })

/-- The record was looked at, and there was no later version. -/
def Checked (p : Placement) (tr : List GoEvent) : Prop :=
  ∃ found, (⟨.getPlacement p.id, .ok found⟩ : GoEvent) ∈ tr ∧
    ∀ e, found = some e → e.opVersion ≤ p.opVersion

section Writer

variable {tr : List GoEvent} {ev : GoEvent} {p : Placement}

theorem applyItem_checked {cmd : Command} {q : Go (Except GoError Bool)}
    (h : (Snapshot.applyItem cmd).After (tr ++ [ev]) q) (hp : Writes p ev.call) : Checked p tr := by
  have hend : ∀ {α : Type} {x : α} {q : Go α} {tr : List GoEvent}, ¬ (Prog.done x).After (tr ++ [ev]) q :=
    fun h => by simpa using (Prog.after_done_iff.mp h).1
  have hno : ∀ {c : Call}, ev.call = c → (∀ q, ¬ Writes q c) → False := fun hc hno => hno p (hc ▸ hp)
  rcases Prog.after_invoke_snoc h with ⟨-, hc⟩ | ⟨reply, tr₁, rfl, h₁⟩
  · exact (hno hc fun q hq => by rcases hq with hq | hq <;> cases hq).elim
  cases reply with
  | error err => exact (hend h₁).elim
  | ok found =>
    dsimp only at h₁
    split_ifs at h₁ with hstale
    · exact (hend h₁).elim
    rcases Prog.after_invoke_snoc h₁ with ⟨-, hc⟩ | ⟨t, tr₂, rfl, h₂⟩
    · exact (hno hc fun q hq => by rcases hq with hq | hq <;> cases hq).elim
    rcases Prog.after_invoke_snoc h₂ with ⟨-, hc⟩ | ⟨reply, tr₃, rfl, h₃⟩
    · rw [hc] at hp
      rcases hp with hp | hp
      · cases hp
        refine ⟨found, List.mem_cons_self, fun e he => ?_⟩
        subst he
        exact (by simpa using hstale : e.opVersion < cmd.placement.opVersion).le
      · cases hp
    · cases reply <;> exact (hend h₃).elim

/-- What a writer writes it has checked, or it has received it. -/
theorem Writer.checked [Lowering] [Sum256] {prog q : Go Err} (hw : Writer prog)
    (h : prog.After (tr ++ [ev]) q) (hp : Writes p ev.call) :
    Checked p tr ∨ (ev.call = .putPlacement p ∧
      ∃ timer ticket, (⟨.receive timer, .request ⟨ticket, some p⟩⟩ : GoEvent) ∈ tr) := by
  cases hw with
  | handle nodeID x msg => exact .inl (handle_writes h hp)
  | item cmd =>
    rcases Prog.after_bind_snoc h with ⟨q', hq'⟩ | ⟨r, tr₁, tr₂, rfl, -, hrest⟩
    · exact .inl (applyItem_checked hq' hp)
    · exact absurd (Prog.after_done_iff.mp hrest).1 (by simp)
  | loop a maxBatch rounds last =>
    have hcall := (RenderCoalescer.run_calls maxBatch rounds _).of_mem h ev (by simp)
    rcases hp with hc | hc
    · refine .inr ⟨hc, (RenderCoalescer.run_put_received h hc).resolve_left ?_⟩
      simp
    · rw [hc] at hcall
      exact absurd hcall id

theorem handle_deletes_nothing {nodeID : NodeID} {x : Executor} {msg : Except GoError Command}
    {q : Go Err} (h : (handle nodeID x msg).After tr q) (hev : ev ∈ tr) (id : PlacementID) :
    ev.call ≠ .deletePlacement id := by
  intro hc
  cases msg with
  | error err =>
    obtain ⟨rfl, -⟩ := Prog.after_done_iff.mp h
    cases hev
  | ok cmd =>
    rcases handle_cases h with ⟨hcalls, -⟩ | ⟨found, tr', rfl, -, hexec⟩
    · have hcall := hcalls ev hev
      rw [hc] at hcall
      rcases hcall with hcall | hcall
      · cases hcall
      · exact hcall
    · have hall : (x.apply cmd.placement (found.getD {}) found.isSome >>= finish nodeID cmd).All
          fun c : Call => ∀ id, c ≠ .deletePlacement id :=
        ((x.calls _ _ _).mono fun c hcall id hid => by rw [hid] at hcall; exact hcall).bind fun res =>
          (finish_calls nodeID cmd res).mono fun c hcall id hid => by rw [hid] at hcall; exact hcall
      rcases List.mem_cons.mp hev with rfl | hev
      · cases hc
      · rcases List.mem_cons.mp hev with rfl | hev
        · cases hc
        · exact hall.of_mem hexec ev hev id hc

theorem Writer.deletes_nothing [Lowering] [Sum256] {prog q : Go Err} (hw : Writer prog) (h : prog.After tr q)
    (hev : ev ∈ tr) (id : PlacementID) : ev.call ≠ .deletePlacement id := by
  cases hw with
  | handle nodeID x msg => exact handle_deletes_nothing h hev id
  | item cmd =>
    have hall : (do let _ ← Snapshot.applyItem cmd; return none : Go Err).All
        fun c : Call => ∀ id, c ≠ .deletePlacement id :=
      (Snapshot.applyItem_all (fun _ h => by cases h) (fun _ h => by cases h)
        fun _ _ h => by cases h).bind fun _ => trivial
    exact hall.of_mem h ev hev id
  | loop a maxBatch rounds last =>
    intro hc
    have hcall := (RenderCoalescer.run_calls maxBatch rounds _).of_mem h ev hev
    rw [hc] at hcall
    exact hcall

end Writer

/-! ## The writers together -/

/-- Between the look of a writer and the put of what it writes, be it by itself or by the loop it has
submitted it to, nobody puts a later version. -/
def Undisturbed (id : PlacementID) (trs : List (Tagged ports)) : Prop :=
  ∀ a i found b k p c, trs = a ++ (i, ⟨.getPlacement id, .ok found⟩) ::
      (b ++ (k, ⟨.putPlacement p, none⟩) :: c) → p.id = id →
    (k = i ∨ ∃ ev, (i, ev) ∈ b ∧ ev.call = .submit (some p)) →
    ∀ q, (⟨.putPlacement q, none⟩ : GoEvent) ∈ b.map Prod.snd → q.id = id → q.opVersion ≤ p.opVersion

section Pool

variable {A : Env → Prop} {id : PlacementID} {ts us ts' : List (Go Err)} {w w₁ w' : World}
  {trs trs' : List (Tagged ports)}

theorem Undisturbed.of_append (h : Undisturbed id (trs ++ trs')) : Undisturbed id trs := by
  intro a i found b k p c heq
  refine h a i found b k p (c ++ trs') ?_
  rw [heq]
  simp

theorem after_upto (h : Interleave ts trs ts') {i : ℕ} {ev : GoEvent} {xs ys : List GoEvent}
    (heq : eventsOf i trs = xs ++ ev :: ys) : ∃ p q, ts[i]? = some p ∧ p.After (xs ++ [ev]) q := by
  have hmem : (i, ev) ∈ trs := mem_eventsOf.mp (by rw [heq]; simp)
  obtain ⟨p, hp⟩ : ∃ p, ts[i]? = some p := ⟨_, List.getElem?_eq_getElem (h.lt_of_mem hmem)⟩
  obtain ⟨q, -, hafter⟩ := h.after hp
  rw [heq, ← List.singleton_append, ← List.append_assoc] at hafter
  obtain ⟨q', hq', -⟩ := Prog.after_append_iff.mp hafter
  exact ⟨p, q', hp, hq'⟩

/-- Whatever is put was looked at before, by the writer or by the one who has submitted it. -/
theorem exists_check [Lowering] [Sum256] (hts : ∀ p ∈ ts, Writer p) (hqueue : w.queue = []) {k : ℕ}
    {p : Placement} {r : Err} (h : Pool world A ts w (trs ++ [(k, ⟨.putPlacement p, r⟩)]) ts' w') :
    ∃ a i found b, trs = a ++ (i, ⟨.getPlacement p.id, .ok found⟩) :: b ∧
      (∀ e, found = some e → e.opVersion ≤ p.opVersion) ∧
      (k = i ∨ ∃ ev, (i, ev) ∈ b ∧ ev.call = .submit (some p)) := by
  have hput : eventsOf k (trs ++ [(k, (⟨.putPlacement p, r⟩ : GoEvent))]) =
      eventsOf k trs ++ [⟨.putPlacement p, r⟩] := by
    simp [eventsOf]
  obtain ⟨prog, q, hprog, hafter⟩ := after_upto h.1 hput
  rcases (hts _ (List.mem_of_getElem? hprog)).checked hafter (.inl rfl) with
    ⟨found, hget, hver⟩ | ⟨-, timer, ticket, hrec⟩
  · obtain ⟨xs, ys, heq⟩ := List.append_of_mem hget
    obtain ⟨a, b, rfl, -, -⟩ := exists_of_eventsOf_eq heq
    exact ⟨a, k, found, b, rfl, hver, .inl rfl⟩
  · -- it was received, so it was submitted, and who submitted it has looked
    obtain ⟨x, y, rfl⟩ := List.append_of_mem (mem_eventsOf.mp hrec)
    obtain ⟨us, w₁, hpool, -⟩ := pool_append.mp h
    have hsteps := hpool.2
    rw [List.map_append, List.map_cons] at hsteps
    obtain ⟨ev, hev, hc⟩ := submitted_of_received hsteps hqueue
    obtain ⟨⟨i, ev'⟩, hmem, rfl⟩ := List.mem_map.mp hev
    have hmem' : ev' ∈ eventsOf i (x ++ (k, (⟨.receive timer, .request ⟨ticket, some p⟩⟩ : GoEvent)) :: y) :=
      mem_eventsOf.mpr (List.mem_append_left _ hmem)
    obtain ⟨xs, ys, heq⟩ := List.append_of_mem hmem'
    obtain ⟨prog', q', hprog', hafter'⟩ := after_upto hpool.1 heq
    rcases (hts _ (List.mem_of_getElem? hprog')).checked hafter' (.inr hc) with
      ⟨found, hget, hver⟩ | ⟨hput', -⟩
    · obtain ⟨xs₁, xs₂, rfl⟩ := List.append_of_mem hget
      rw [List.append_assoc, List.cons_append] at heq
      obtain ⟨a, b, htrs, -, hb⟩ := exists_of_eventsOf_eq heq
      exact ⟨a, i, found, b, htrs, hver, .inr ⟨ev', mem_eventsOf.mp (by rw [hb]; simp), hc⟩⟩
    · rw [hput'] at hc
      cases hc

/-- So what is put is not older than what is there. -/
theorem put_not_older [Lowering] [Sum256] (hts : ∀ p ∈ ts, Writer p) (hqueue : w.queue = []) {k : ℕ}
    {p : Placement} (h : Pool world A ts w trs us w₁)
    (h' : Pool world A us w₁ [(k, ⟨.putPlacement p, none⟩)] ts' w')
    (hund : Undisturbed p.id (trs ++ [(k, ⟨.putPlacement p, none⟩)])) :
    ∀ e, w₁.store.get p.id = some e → e.opVersion ≤ p.opVersion := by
  obtain ⟨a, i, found, b, rfl, hver, hown⟩ :=
    exists_check hts hqueue (pool_append.mpr ⟨us, w₁, h, h'⟩)
  have hsteps := h.2
  rw [List.map_append, List.map_cons] at hsteps
  obtain ⟨v, -, e, -, hr, hrest⟩ := steps_append.mp hsteps
  refine steps_store_invariant (I := fun s => ∀ e, s.get p.id = some e → e.opVersion ≤ p.opVersion)
    hrest ?_ ?_ ?_
  · intro q hq s hs e he
    rw [Store.get_put] at he
    split_ifs at he with hid
    · cases he
      exact hund a i found b k p [] (by simp) rfl hown _ hq hid.symm
    · exact hs e he
  · intro x hx s hs e he
    rw [Store.get_delete] at he
    split_ifs at he
    exact hs e he
  · intro e he
    refine hver e ?_
    rw [exec_getPlacement hr]
    exact he

/-- The version of a record never goes back while the record is there. -/
theorem version_never_decreases [Lowering] [Sum256] (hts : ∀ p ∈ ts, Writer p) (hqueue : w.queue = [])
    (h : Pool world A ts w trs us w₁) (h' : Pool world A us w₁ trs' ts' w')
    (hund : Undisturbed id (trs ++ trs')) {e : Placement} (he : w₁.store.get id = some e) :
    ∃ e', w'.store.get id = some e' ∧ e.opVersion ≤ e'.opVersion := by
  induction trs' generalizing trs us w₁ e with
  | nil =>
    obtain rfl : w' = w₁ := h'.2
    exact ⟨e, he, le_rfl⟩
  | cons x trs' ih =>
    rw [← List.singleton_append] at h' hund
    obtain ⟨vs, v, hx, hrest⟩ := pool_append.mp h'
    rw [← List.append_assoc] at hund
    have hnext := pool_append.mpr ⟨us, w₁, h, hx⟩
    -- one step, then the rest from there
    obtain ⟨e₁, hget, hle⟩ : ∃ e₁, v.store.get id = some e₁ ∧ e.opVersion ≤ e₁.opVersion := by
      obtain ⟨i, ev⟩ := x
      obtain ⟨env, -, hr, rfl⟩ := hx.2
      rcases store_step hr with hsame | ⟨p, rfl, hput⟩ | ⟨y, rfl, -⟩
      · refine ⟨e, ?_, le_rfl⟩
        rw [← he]
        exact congrArg (Store.get · id) hsame
      · rw [show (world.exec _ env w₁).2.store = w₁.store.put p from hput, Store.get_put]
        split_ifs with hid
        · subst hid
          exact ⟨p, rfl, put_not_older hts hqueue h hx hund.of_append e he⟩
        · exact ⟨e, he, le_rfl⟩
      · have hmem : (i, (⟨.deletePlacement y, none⟩ : GoEvent)) ∈
            trs ++ [(i, ⟨.deletePlacement y, none⟩)] := by
          simp
        obtain ⟨prog, hprog⟩ : ∃ prog, ts[i]? = some prog :=
          ⟨_, List.getElem?_eq_getElem (hnext.1.lt_of_mem hmem)⟩
        obtain ⟨q, -, hafter⟩ := hnext.1.after hprog
        exact absurd rfl ((hts _ (List.mem_of_getElem? hprog)).deletes_nothing hafter
          (mem_eventsOf.mpr hmem) y)
    obtain ⟨e₂, hget₂, hle₂⟩ := ih hnext hrest hund hget
    exact ⟨e₂, hget₂, hle.trans hle₂⟩

end Pool

/-! ## A command and an item of a snapshot -/

/-- The version that an event puts. -/
def putVersion : GoEvent → Option OpVersion
  | ⟨.putPlacement p, none⟩ => some p.opVersion
  | _ => none

theorem undisturbed_of_sorted {trs : List (Tagged ports)}
    (h : ((trs.map Prod.snd).filterMap putVersion).Pairwise (· ≤ ·)) (id : PlacementID) :
    Undisturbed id trs := by
  rintro a i found b k p c rfl - - q hq -
  simp only [List.map_append, List.map_cons, List.filterMap_append] at h
  have htail := (List.pairwise_append.mp h).2.1
  have hput : putVersion ⟨.putPlacement p, none⟩ = some p.opVersion := rfl
  rw [List.filterMap_cons_none rfl, List.filterMap_append, List.filterMap_cons_some hput] at htail
  exact (List.pairwise_append.mp htail).2.2 _ (List.mem_filterMap.mpr ⟨_, hq, rfl⟩) _ List.mem_cons_self

/-- An executor that does nothing. -/
def noop : Executor := ⟨noopExecutor, fun _ _ _ => trivial⟩

def fifth : Command := .carrying { id := "p", nodeID := "e", desired := .inactive, opVersion := 5 }

def seventh : Command := .carrying { id := "p", nodeID := "e", desired := .inactive, opVersion := 7 }

section Fixed

open Eval

/-- A command with the fifth version, and an item of a snapshot with the seventh. -/
def commandAndItem : List (Go Err) :=
  [handle "e" noop (.ok fifth), do let _ ← Snapshot.applyItem seventh; return none]

theorem writers_commandAndItem : ∀ p ∈ commandAndItem, Writer p := by
  intro p hp
  rcases List.mem_cons.mp hp with rfl | hp
  · exact .handle _ _ _
  · rw [List.mem_singleton.mp hp]
    exact .item _

/-- The threads of the pool take turns. -/
def taking (ts : List (Go Err)) (is : List ℕ) (w : World) :
    List (Tagged ports) × List (Go Err) × World :=
  schedule world ts (is.map fun i => (i, default)) w

theorem pool_taking (ts : List (Go Err)) (is : List ℕ) (w : World) :
    Pool world (Env.Allowed false) ts w (taking ts is w).1 (taking ts is w).2.1 (taking ts is w).2.2 := by
  refine pool_schedule _ (fun x hx => ?_) w
  obtain ⟨i, -, rfl⟩ := List.mem_map.mp hx
  exact Env.allowed_default _

/-- The command is handled first. -/
theorem version_never_decreases_in_turn : ∃ trs us w₁ trs' ts' w' e e',
    Pool world (Env.Allowed false) commandAndItem {} trs us w₁ ∧
    Pool world (Env.Allowed false) us w₁ trs' ts' w' ∧
    w₁.store.get "p" = some e ∧ e.opVersion = 5 ∧ w'.store.get "p" = some e' ∧
      e.opVersion ≤ e'.opVersion := by
  have h := pool_taking commandAndItem [0, 0, 0, 0] {}
  have h' := pool_taking (taking commandAndItem [0, 0, 0, 0] {}).2.1 [0, 0, 0, 0, 1, 1, 1]
    (taking commandAndItem [0, 0, 0, 0] {}).2.2
  have he : (taking commandAndItem [0, 0, 0, 0] {}).2.2.store.get "p" =
      some (fifth.placement.stamp .ok 0) := by
    decide +kernel
  obtain ⟨e', he', hle⟩ := version_never_decreases writers_commandAndItem rfl h h'
    (undisturbed_of_sorted (by decide +kernel) "p") he
  exact ⟨_, _, _, _, _, _, _, e', h, h', he, rfl, he', hle⟩

/-- The command looks first and stores last: the seventh version is lost. -/
theorem version_goes_back : ∃ trs us w₁ trs' ts' w' e e',
    (∀ p ∈ commandAndItem, Writer p) ∧
    Pool world (Env.Allowed false) commandAndItem {} trs us w₁ ∧
    Pool world (Env.Allowed false) us w₁ trs' ts' w' ∧
    w₁.store.get "p" = some e ∧ e.opVersion = 7 ∧ w'.store.get "p" = some e' ∧ e'.opVersion = 5 := by
  have he : (taking commandAndItem [0, 0, 1, 1, 1] {}).2.2.store.get "p" =
      some (seventh.placement.stamp .ok 0) := by
    decide +kernel
  have he' : (taking (taking commandAndItem [0, 0, 1, 1, 1] {}).2.1 [0, 0]
      (taking commandAndItem [0, 0, 1, 1, 1] {}).2.2).2.2.store.get "p" =
      some (fifth.placement.stamp .ok 0) := by
    decide +kernel
  exact ⟨_, _, _, _, _, _, _, _, writers_commandAndItem, pool_taking _ _ _, pool_taking _ _ _, he, rfl,
    he', rfl⟩

end Fixed

end NodeAgent.Applier
