import NodeAgent.World
import NodeAgent.Lib.Member

/-!
# One record of the store

The events that write the record of a placement, and what they make of it.
-/

namespace NodeAgent

open Lib

/-- What the last write of the record leaves. -/
def written (id : PlacementID) (tr : List GoEvent) : Option (Option Placement) :=
  (tr.filterMap (wrote id)).getLast?

section Written

variable {A : Env → Prop} {id : PlacementID} {tr tr' : List GoEvent} {x x' : Option Placement}

theorem written_append : written id (tr ++ tr') = (written id tr').or (written id tr) := by
  rw [written, List.filterMap_append, List.getLast?_append]
  rfl

theorem written_cons (ev : GoEvent) : written id (ev :: tr) = (written id tr).or (wrote id ev) := by
  rw [written, written, List.filterMap_cons]
  cases wrote id ev with
  | none => simp
  | some y => simp [List.getLast?_cons]

theorem written_cons_of_none {ev : GoEvent} (h : wrote id ev = none) :
    written id (ev :: tr) = written id tr := by
  rw [written, List.filterMap_cons_none h]
  rfl

theorem written_cons_of_some {ev : GoEvent} {y : Option Placement} (h : wrote id ev = some y)
    (hrest : written id tr = none) : written id (ev :: tr) = some y := by
  unfold written at hrest
  rw [written, List.filterMap_cons_some h, List.getLast?_cons, hrest]
  rfl

theorem written_eq_none (h : ∀ ev ∈ tr, Keeps id ev.call) : written id tr = none := by
  have hnil : tr.filterMap (wrote id) = [] :=
    List.filterMap_eq_nil_iff.mpr fun ev hev => wrote_of_keeps (h ev hev)
  rw [written, hnil]
  rfl

/-- A record that was written was put. -/
theorem mem_of_written {p : Placement} (h : written id tr = some (some p)) :
    (⟨.putPlacement p, none⟩ : GoEvent) ∈ tr := by
  obtain ⟨⟨c, r⟩, hev, hwrote⟩ := List.mem_filterMap.mp (List.mem_of_getLast? h)
  cases c with
  | putPlacement q =>
    cases r with
    | none =>
      rw [wrote] at hwrote
      split_ifs at hwrote
      cases hwrote
      exact hev
    | some err => cases hwrote
  | deletePlacement x =>
    cases r with
    | none =>
      rw [wrote] at hwrote
      split_ifs at hwrote
      cases hwrote
    | some err => cases hwrote
  | _ => cases hwrote

theorem sees_written (h : Sees world A (record id) x tr x') : x' = (written id tr).getD x := by
  induction tr generalizing x with
  | nil => exact h
  | cons ev tr ih =>
    obtain ⟨e, w, -, rfl, hr, hs⟩ := h
    rw [ih hs, show record id (world.exec ev.call e w).2 = _ from record_step ev hr]
    cases hev : wrote id ev with
    | none => rw [written_cons_of_none hev, Option.getD_none]
    | some y =>
      rw [written, written, List.filterMap_cons_some hev, List.getLast?_cons, Option.getD_some,
        Option.getD_some]

end Written

end NodeAgent
