import NodeAgent.Executor.Basic
import NodeAgent.World

/-!
# The backend executor

`internal/app/executor/backend_executor.go`: users of the local xray, added and removed by comparing
the command with the stored record.
-/

namespace NodeAgent.BackendExecutor

open Lib

/-- `wasActive`: the stored record is live and was applied. -/
def wasActive (existing : Placement) (found : Bool) : Bool :=
  found && existing.live && existing.applied == .ok

/-- The xray call of `Apply`: the user is added, removed, or left as it is. -/
def updateXray (desired existing : Placement) (found : Bool) : Go Err :=
  if desired.live = true ∧ wasActive existing found = false then
    port (.xrayAddUser ⟨desired.clientID, desired.transport⟩)
  else if desired.live = false ∧ wasActive existing found = true then
    port (.xrayRemoveUser existing.clientID)
  else return none

/-- Every xray error is final. -/
def classifyXrayError (err : GoError) : Bool × Err := (false, some err)

/-- `BackendExecutor.Apply`: the user is added or removed, and the placement is stored. -/
def apply (desired existing : Placement) (found : Bool) : Go (Bool × Err) :=
  if desired.id = "" ∨ desired.clientID = "" then
    return (false, some (.new "backend-executor: placement ID and ClientID required"))
  else do
    match ← updateXray desired existing found with
    | some err => return classifyXrayError err
    | none =>
      let t : Time ← port .now
      match ← port (.putPlacement (desired.stamp .ok t)) with
      | some err => return (false, some (.wrap "backend-executor: persist" err))
      | none => return (false, none)

theorem updateXray_calls (d e : Placement) (found : Bool) :
    (updateXray d e found).All (ExecutorCall d) := by
  unfold updateXray
  split_ifs
  · exact ⟨trivial, fun _ => trivial⟩
  · exact ⟨trivial, fun _ => trivial⟩
  · trivial

theorem apply_calls (d e : Placement) (found : Bool) : (apply d e found).All (ExecutorCall d) := by
  unfold apply
  split_ifs
  · trivial
  · refine (updateXray_calls d e found).bind fun r => ?_
    cases r with
    | some err => trivial
    | none =>
      refine Prog.all_invoke_bind.mpr ⟨trivial, fun t => ?_⟩
      refine Prog.all_invoke_bind.mpr ⟨⟨t, rfl⟩, fun r => ?_⟩
      cases r <;> trivial

/-- The executor of a backend node. -/
def executor : Executor := ⟨apply, apply_calls⟩

/-! ## What it does -/

/-- The event adds a user to xray. -/
def isAdded : GoEvent → Bool
  | ⟨.xrayAddUser _, none⟩ => true
  | _ => false

/-- The event removes a user from xray. -/
def isRemoved : GoEvent → Bool
  | ⟨.xrayRemoveUser _, none⟩ => true
  | _ => false

/-- The effect on xray of applying `d` over `e`, and the events that go with it. -/
structure Updated (d e : Placement) (was : Bool) (x x' : GoMap TransportKind)
    (tr : List GoEvent) : Prop where
  users : ∀ c, c ∈ x' ↔ if d.live = true ∧ was = false then c = d.clientID ∨ c ∈ x
    else if d.live = false ∧ was = true then c ≠ e.clientID ∧ c ∈ x else c ∈ x
  added : tr.any isAdded = (d.live && !was)
  removed : tr.any isRemoved = (!d.live && was)

variable {faults : Bool} {w : World}

/-- The call fails and nothing happens, or it takes its effect. -/
theorem ensures_updateXray (d e : Placement) (found : Bool) :
    Ensures faults (updateXray d e found) (fun tr r w' => w'.store = w.store ∧
      ((r = none ∧ Updated d e (wasActive e found) w.xray w'.xray tr) ∨
        (faults = true ∧ r ≠ none ∧ w'.xray = w.xray ∧ tr.any isAdded = false ∧
          tr.any isRemoved = false))) w := by
  unfold updateXray
  split_ifs with hadd hrem
  · change Ensures faults (port _ >>= pure) _ w
    refine ensures_port_of_fail (fun _ => rfl)
      (fun hf _ => ⟨rfl, .inr ⟨hf, Option.some_ne_none _, rfl, rfl, rfl⟩⟩)
      ⟨rfl, .inl ⟨rfl, ⟨fun c => ?_, ?_, ?_⟩⟩⟩
    · rw [if_pos hadd]
      exact GoMap.mem_insert _ _ _ _
    · simp [hadd.1, hadd.2, isAdded]
    · simp [hadd.1, hadd.2, isRemoved]
  · change Ensures faults (port _ >>= pure) _ w
    refine ensures_port_of_fail (fun _ => rfl)
      (fun hf _ => ⟨rfl, .inr ⟨hf, Option.some_ne_none _, rfl, rfl, rfl⟩⟩)
      ⟨rfl, .inl ⟨rfl, ⟨fun c => ?_, ?_, ?_⟩⟩⟩
    · rw [if_neg hadd, if_pos hrem]
      exact GoMap.mem_erase _ _ _
    · simp [hrem.1, hrem.2, isAdded]
    · simp [hrem.1, hrem.2, isRemoved]
  · refine ⟨rfl, .inl ⟨rfl, ⟨fun c => ?_, ?_, ?_⟩⟩⟩
    · rw [if_neg hadd, if_neg hrem]
    · cases hd : d.live <;> cases hw : wasActive e found <;> simp_all
    · cases hd : d.live <;> cases hw : wasActive e found <;> simp_all

variable (faults) in
/-- How `Apply` of `d` over `e` can end when started in the world `w`. -/
inductive Outcome (d e : Placement) (found : Bool) (w : World) :
    List GoEvent → Err → World → Prop
  | refused {tr : List GoEvent} {w' : World} (err : GoError) (store : w'.store = w.store)
      (xray : w'.xray = w.xray) (added : tr.any isAdded = false)
      (removed : tr.any isRemoved = false) : Outcome d e found w tr (some err) w'
  | unsaved {tr : List GoEvent} {w' : World} (err : GoError) (faulty : faults = true)
      (store : w'.store = w.store)
      (xray : Updated d e (wasActive e found) w.xray w'.xray tr) :
      Outcome d e found w tr (some err) w'
  | applied {tr : List GoEvent} {w' : World} (t : Time)
      (store : w'.store = w.store.put (d.stamp .ok t))
      (xray : Updated d e (wasActive e found) w.xray w'.xray tr) : Outcome d e found w tr none w'

theorem any_append_of_quiet {f : GoEvent → Bool} {tr tr' : List GoEvent} (h : tr'.any f = false) :
    (tr ++ tr').any f = tr.any f := by
  rw [List.any_append, h, Bool.or_false]

/-- No failure of this executor is marked as one to retry. -/
theorem ensures_apply (d e : Placement) (found : Bool) :
    Ensures faults (apply d e found)
      (fun tr r w' => r.1 = false ∧ Outcome faults d e found w tr r.2 w') w := by
  unfold apply
  split_ifs
  · exact ⟨rfl, .refused _ rfl rfl rfl rfl⟩
  · refine (ensures_updateXray d e found).bind fun tr r w₁ h => ?_
    obtain ⟨hst, ⟨rfl, hup⟩ | ⟨hf, hr, hx, hadd, hrem⟩⟩ := h
    · refine ensures_now fun t => ensures_putPlacement (fun hf msg => ⟨rfl, ?_⟩) ⟨rfl, ?_⟩
      · refine .unsaved _ hf hst ⟨hup.users, ?_, ?_⟩
        · rw [any_append_of_quiet rfl, hup.added]
        · rw [any_append_of_quiet rfl, hup.removed]
      · refine .applied t (congrArg (Store.put · _) hst) ⟨hup.users, ?_, ?_⟩
        · rw [any_append_of_quiet rfl, hup.added]
        · rw [any_append_of_quiet rfl, hup.removed]
    · obtain ⟨err, rfl⟩ := Option.ne_none_iff_exists'.mp hr
      refine ⟨rfl, .refused err hst hx ?_ ?_⟩
      · rw [any_append_of_quiet rfl, hadd]
      · rw [any_append_of_quiet rfl, hrem]

end NodeAgent.BackendExecutor
