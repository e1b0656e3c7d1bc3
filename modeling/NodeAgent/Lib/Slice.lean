import Mathlib

/-!
# Slices

A slice is the front part of an array. Appending writes into the array as long as there is room,
and so does deleting, which appends what follows a place to what precedes it. Here nothing else
refers to the array, and a slice can be taken for the list of its elements.
-/

namespace Lib

/-- The first `len` places of an array, whose length is the capacity. -/
structure Slice (α : Type*) where
  array : List α
  len : ℕ
  le : len ≤ array.length

namespace Slice

variable {α : Type*}

/-- The nil slice. -/
def empty : Slice α where
  array := []
  len := 0
  le := le_rfl

instance : Inhabited (Slice α) := ⟨empty⟩

def toList (s : Slice α) : List α := s.array.take s.len

/-- `s[:n]`, on the same array. -/
def upTo (s : Slice α) (n : ℕ) : Slice α where
  array := s.array
  len := min n s.array.length
  le := min_le_right _ _

/-- `append(s, xs...)`; the elements are read before any is written. Where there is no room, a new
array is made, with as much spare room as `grow` gives for the old capacity and the new length. -/
def append [Inhabited α] (grow : ℕ → ℕ → ℕ) (s : Slice α) (xs : List α) : Slice α :=
  if h : s.len + xs.length ≤ s.array.length then
    { array := s.toList ++ xs ++ s.array.drop (s.len + xs.length)
      len := s.len + xs.length
      le := by
        rw [List.length_append, List.length_append, toList, List.length_take_of_le s.le]
        exact Nat.le_add_right _ _ }
  else
    { array := s.toList ++ xs ++
        List.replicate (grow s.array.length (s.len + xs.length)) default
      len := s.len + xs.length
      le := by
        rw [List.length_append, List.length_append, toList, List.length_take_of_le s.le]
        exact Nat.le_add_right _ _ }

/-- `append(s[:i], s[i+1:]...)`. -/
def deleteAt [Inhabited α] (grow : ℕ → ℕ → ℕ) (s : Slice α) (i : ℕ) : Slice α :=
  (s.upTo i).append grow (s.toList.drop (i + 1))

section Lists

variable {s : Slice α}

@[simp] theorem toList_empty : (empty : Slice α).toList = [] := rfl

theorem length_toList (s : Slice α) : s.toList.length = s.len := List.length_take_of_le s.le

theorem toList_upTo {n : ℕ} (h : n ≤ s.len) : (s.upTo n).toList = s.toList.take n := by
  change s.array.take (min n s.array.length) = (s.array.take s.len).take n
  rw [Nat.min_eq_left (h.trans s.le), List.take_take, Nat.min_eq_left h]

variable [Inhabited α] {grow : ℕ → ℕ → ℕ}

@[simp] theorem toList_append (s : Slice α) (xs : List α) :
    (s.append grow xs).toList = s.toList ++ xs := by
  have hlen : (s.toList ++ xs).length = s.len + xs.length := by
    rw [List.length_append, length_toList]
  unfold append
  split_ifs
  · exact List.take_left' hlen
  · exact List.take_left' hlen

theorem toList_deleteAt {i : ℕ} (h : i < s.len) :
    (s.deleteAt grow i).toList = s.toList.eraseIdx i := by
  rw [deleteAt, toList_append, toList_upTo h.le, List.eraseIdx_eq_take_drop_succ]

end Lists

end Slice

end Lib
