import Mathlib

/-!
# The first occurrence of a separator

`index sep xs` is the first place of `xs` from which `sep` follows. A separator that begins with a
run of a letter, and then has another one, is first found where it was put, unless the run is in
what stands before it.
-/

namespace Lib

variable {α : Type*} {a b : α} {k : ℕ} {w before after : List α}

/-- If the separator also begins earlier, its run is where it begins. -/
theorem replicate_of_earlier (hab : a ≠ b) (hne : before ≠ [])
    (h : List.replicate k a ++ b :: w <+: before ++ (List.replicate k a ++ b :: w ++ after)) :
    List.replicate k a <+: before := by
  by_cases hk : k ≤ before.length
  · refine List.prefix_of_prefix_length_le ((List.prefix_append _ _).trans h)
      (List.prefix_append _ _) ?_
    rwa [List.length_replicate]
  -- Otherwise the place of the other letter falls into the run.
  · have hpos := List.length_pos_of_ne_nil hne
    have hleft : (List.replicate k a ++ b :: w)[k]? = some b := by simp
    have hright : (before ++ (List.replicate k a ++ b :: w ++ after))[k]? = some a := by
      rw [List.getElem?_append_right (by omega), List.append_assoc,
        List.getElem?_append_left (by rw [List.length_replicate]; omega),
        List.getElem?_replicate_of_lt (by omega)]
    obtain ⟨r, hr⟩ := h
    rw [← hr, List.getElem?_append_left (by simp), hleft] at hright
    exact absurd (Option.some.inj hright).symm hab

variable [DecidableEq α]

/-- `bytes.Index`: where the first occurrence begins. -/
def index (sep xs : List α) : Option ℕ := xs.tails.findIdx? fun l => sep <+: l

section Index

variable {sep xs : List α} {n : ℕ}

theorem index_eq_some_iff : index sep xs = some n ↔
    n ≤ xs.length ∧ sep <+: xs.drop n ∧ ∀ m < n, ¬ sep <+: xs.drop m := by
  unfold index
  rw [List.findIdx?_eq_some_iff_getElem]
  simp only [List.length_tails, Nat.lt_succ_iff, List.getElem_tails, decide_eq_true_eq,
    exists_prop]

theorem eq_append_of_index (h : index sep xs = some n) :
    xs = xs.take n ++ (sep ++ xs.drop (n + sep.length)) := by
  obtain ⟨-, hsep, -⟩ := index_eq_some_iff.mp h
  have hdrop := List.prefix_iff_eq_append.mp hsep
  rw [List.drop_drop] at hdrop
  rw [hdrop, List.take_append_drop]

/-- The separator is not in what stands before it. -/
theorem not_infix_take_of_index (hne : sep ≠ []) (h : index sep xs = some n) :
    ¬ sep <:+: xs.take n := by
  rintro ⟨s, t, hst⟩
  obtain ⟨-, -, hfirst⟩ := index_eq_some_iff.mp h
  have hlen : s.length < n := by
    have hle := (congrArg List.length hst).trans_le (List.length_take_le n xs)
    have hpos := List.length_pos_of_ne_nil hne
    rw [List.length_append, List.length_append] at hle
    omega
  refine hfirst s.length hlen ⟨t ++ xs.drop n, ?_⟩
  conv_rhs => rw [← List.take_append_drop n xs, ← hst]
  simp

end Index

theorem index_append (hab : a ≠ b) (hrun : ¬ List.replicate k a <:+: before) :
    index (List.replicate k a ++ b :: w) (before ++ (List.replicate k a ++ b :: w ++ after)) =
      some before.length := by
  rw [index_eq_some_iff]
  refine ⟨by simp, by simp, fun m hm hsep => hrun ?_⟩
  rw [List.drop_append_of_le_length hm.le] at hsep
  have hne : before.drop m ≠ [] := List.drop_eq_nil_iff.not.mpr (by omega)
  exact (replicate_of_earlier hab hne hsep).isInfix.trans (List.drop_suffix m before).isInfix

end Lib
