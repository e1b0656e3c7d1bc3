import Mathlib

/-!
# Sums by key, sums that wrap around

A loop that adds each element under its key adds up everything, also on machine words, where every addition
wraps around. Where some terms are dropped or cut down, the sums agree exactly if nothing was lost on the way.
-/

namespace Lib

variable {α σ κ : Type*} [DecidableEq κ]

theorem sum_map_filter (q : α → Prop) [DecidablePred q] (f : α → ℕ) (l : List α) :
    ((l.filter q).map f).sum = (l.map fun x => if q x then f x else 0).sum := by
  rw [List.sum_map_ite, List.map_const', List.sum_replicate, smul_zero, Nat.add_zero]

/-- Adding up key by key adds up everything. -/
theorem sum_by_key {order : List κ} (hnodup : order.Nodup) {l : List α} {f : α → κ} {g : α → ℕ}
    (hmem : ∀ x ∈ l, g x ≠ 0 → f x ∈ order) :
    (order.map fun k => ((l.filter fun x => f x = k).map g).sum).sum = (l.map g).sum := by
  simp only [sum_map_filter]
  rw [← List.sum_toFinset _ hnodup]
  induction l with
  | nil => simp
  | cons x l ih =>
    have hone : (∑ k ∈ order.toFinset, if f x = k then g x else 0) = g x := by
      rw [Finset.sum_ite_eq]
      split_ifs with hin
      · rfl
      · by_contra hne
        exact hin (List.mem_toFinset.mpr (hmem x List.mem_cons_self (Ne.symm hne)))
    simp only [List.map_cons, List.sum_cons]
    rw [Finset.sum_add_distrib, hone, ih fun y hy => hmem y (List.mem_cons_of_mem x hy)]

section Loops

variable {step : σ → α → σ} {f : α → κ} {g : α → ℕ} {k : κ}

/-- A loop that adds the elements with a key, modulo `m`, comes to the residue of their sum. -/
theorem foldl_mod_by_key (read : σ → ℕ) {m : ℕ}
    (hstep : ∀ t x n, read t = n % m → read (step t x) = (n + if f x = k then g x else 0) % m)
    (l : List α) {t : σ} {n : ℕ} (ht : read t = n % m) :
    read (l.foldl step t) = (n + ((l.filter fun x => f x = k).map g).sum) % m := by
  rw [sum_map_filter]
  induction l generalizing t n with
  | nil => exact ht
  | cons x l ih => rw [List.foldl_cons, ih (hstep t x n ht), List.map_cons, List.sum_cons, Nat.add_assoc]

theorem foldl_add_by_key (read : σ → ℕ) (hstep : ∀ t x, read (step t x) = read t + if f x = k then g x else 0)
    (l : List α) (t : σ) : read (l.foldl step t) = read t + ((l.filter fun x => f x = k).map g).sum := by
  -- a residue modulo 0 is the number itself
  have hmod : ∀ t x n, read t = n % 0 → read (step t x) = (n + if f x = k then g x else 0) % 0 := by
    intro t x n hn
    rw [hstep, hn, Nat.mod_zero, Nat.mod_zero]
  rw [foldl_mod_by_key read hmod l (Nat.mod_zero (read t)).symm, Nat.mod_zero]

end Loops

section Losses

variable {l : List α} {f g : α → ℕ}

theorem sum_map_eq_iff (h : ∀ x ∈ l, f x ≤ g x) :
    (l.map f).sum ≤ (l.map g).sum ∧ ((l.map g).sum = (l.map f).sum ↔ ∀ x ∈ l, f x = g x) := by
  induction l with
  | nil => simp
  | cons x l ih =>
    have hx := h x List.mem_cons_self
    obtain ⟨hle, hiff⟩ := ih fun y hy => h y (List.mem_cons_of_mem x hy)
    rw [List.map_cons, List.map_cons, List.sum_cons, List.sum_cons, List.forall_mem_cons, ← hiff]
    omega

/-- Terms that are left out. -/
theorem sum_filter_eq_iff (q : α → Prop) [DecidablePred q] :
    ((l.filter q).map f).sum ≤ (l.map f).sum ∧
      ((l.map f).sum = ((l.filter q).map f).sum ↔ ∀ x ∈ l, ¬ q x → f x = 0) := by
  have hle : ∀ x ∈ l, (if q x then f x else 0) ≤ f x := by
    intro x _
    split_ifs
    · exact le_rfl
    · exact Nat.zero_le _
  have hkept : ∀ x, (if q x then f x else 0) = f x ↔ (¬ q x → f x = 0) := by
    intro x
    by_cases hq : q x
    · simp [hq]
    · simp [hq, eq_comm]
  rw [sum_map_filter]
  obtain ⟨hsum, hiff⟩ := sum_map_eq_iff hle
  exact ⟨hsum, hiff.trans (forall₂_congr fun x _ => hkept x)⟩

theorem sum_map_mod (l : List α) (f : α → ℕ) (m : ℕ) :
    (l.map fun x => f x % m).sum % m = (l.map f).sum % m := by
  rw [List.sum_nat_mod (l.map f), List.map_map]
  rfl

end Losses

end Lib
