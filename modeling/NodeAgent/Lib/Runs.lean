import Mathlib

/-!
# Counters that are seen now and then

A counter is read at some of a sequence of ticks. Within a run of consecutive readings the increments add
up to the last reading minus the first; what happens between two runs is not seen.
-/

namespace Lib

variable {α : Type*}

/-- The maximal runs of consecutive readings; some of them may be empty. -/
def runs (l : List (Option α)) : List (List α) := (l.splitOnP Option.isNone).map List.reduceOption

/-- The last reading of a run minus the first. -/
def rise (run : List ℕ) : ℕ := run.getLastD 0 - run.headD 0

/-- The increment between two ticks, if both have a reading. -/
def climb : Option ℕ → Option ℕ → ℕ
  | some a, some b => b - a
  | _, _ => 0

/-- The increments along a sequence, after a tick before it. -/
def climbs (before : Option ℕ) : List (Option ℕ) → ℕ
  | [] => 0
  | x :: l => climb before x + climbs x l

/-- No reading is smaller than that of the tick before. -/
def Rises (before : Option ℕ) : List (Option ℕ) → Prop
  | [] => True
  | x :: l => (∀ a ∈ before, ∀ b ∈ x, a ≤ b) ∧ Rises x l

section Runs

variable {l : List (Option ℕ)} {before : Option ℕ} {a : ℕ}

theorem rise_cons (a : ℕ) (run : List ℕ) : rise (a :: run) = run.getLastD a - a := by
  rw [rise, List.getLastD_cons, List.headD_cons]

theorem runs_cons_none (l : List (Option α)) : runs (none :: l) = [] :: runs l := by
  unfold runs
  rw [List.splitOnP_cons_eq_if_modifyHead]
  rfl

theorem runs_cons_some (a : α) (l : List (Option α)) :
    ∃ r rs, runs l = r :: rs ∧ runs (some a :: l) = (a :: r) :: rs := by
  unfold runs
  rw [List.splitOnP_cons_eq_if_modifyHead]
  cases hsplit : l.splitOnP Option.isNone with
  | nil => exact absurd hsplit (List.splitOnP_ne_nil _ _)
  | cons p ps => exact ⟨_, _, rfl, rfl⟩

/-- Within a run nothing falls below its first reading. -/
theorem le_getLastD (h : Rises (some a) l) {r : List ℕ} {rs : List (List ℕ)} (hruns : runs l = r :: rs) :
    a ≤ r.getLastD a := by
  induction l generalizing a r rs with
  | nil =>
    cases hruns
    exact Nat.le_refl a
  | cons x l ih =>
    cases x with
    | none =>
      rw [runs_cons_none] at hruns
      cases hruns
      exact Nat.le_refl a
    | some b =>
      obtain ⟨r', rs', hl, heq⟩ := runs_cons_some b l
      rw [heq] at hruns
      cases hruns
      rw [List.getLastD_cons]
      exact (h.1 a rfl b rfl).trans (ih h.2 hl)

/-- Run by run, the readings rise by the increments. -/
theorem sum_rise_runs (h : Rises before l) :
    ((runs (before :: l)).map rise).sum = climbs before l := by
  induction l generalizing before with
  | nil =>
    cases before with
    | none => rfl
    | some a => exact (Nat.add_zero _).trans (Nat.sub_self a)
  | cons x l ih =>
    cases before with
    | none =>
      rw [runs_cons_none, List.map_cons, List.sum_cons, ih h.2]
      rfl
    | some a =>
      obtain ⟨r, rs, hruns, heq⟩ := runs_cons_some a (x :: l)
      have hrest := ih h.2
      rw [hruns, List.map_cons, List.sum_cons] at hrest
      rw [heq, List.map_cons, List.sum_cons, climbs, ← hrest, ← Nat.add_assoc]
      refine congrArg (· + (rs.map rise).sum) ?_
      cases x with
      | none =>
        rw [runs_cons_none] at hruns
        cases hruns
        exact Nat.sub_self a
      | some b =>
        obtain ⟨r', rs', hl, heq'⟩ := runs_cons_some b l
        rw [heq'] at hruns
        cases hruns
        have hlast := le_getLastD h.2 hl
        have hstep := h.1 a rfl b rfl
        rw [rise_cons, rise_cons, List.getLastD_cons]
        show _ = b - a + _
        omega

end Runs

end Lib
