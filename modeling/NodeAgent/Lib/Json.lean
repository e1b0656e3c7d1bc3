import Mathlib

/-!
# JSON values

What a decoder makes of a JSON text. An object is a list of members of which the first with a name
counts, so that writing a member and reading one behave as on a map.
-/

namespace Lib

theorem except_bind_ok {ε α β : Type} {x : Except ε α} {f : α → Except ε β} {b : β}
    (h : (x >>= f) = .ok b) : ∃ a, x = .ok a ∧ f a = .ok b := by
  cases x with
  | error err => cases h
  | ok a => exact ⟨a, rfl, h⟩

/-- What a decoder makes of a JSON text, with numbers by value. -/
inductive Json
  | null
  | bool (b : Bool)
  | num (n : ℚ)
  | str (s : String)
  | arr (elems : List Json)
  | obj (members : List (String × Json))
  deriving Repr, Inhabited

namespace Json

/-! ## Equality -/

mutual

def decEq : (a b : Json) → Decidable (a = b)
  | .null, .null => isTrue rfl
  | .bool a, .bool b => decidable_of_iff (a = b) (by simp)
  | .num a, .num b => decidable_of_iff (a = b) (by simp)
  | .str a, .str b => decidable_of_iff (a = b) (by simp)
  | .arr a, .arr b => @decidable_of_iff _ (a = b) (by simp) (decEqElems a b)
  | .obj a, .obj b => @decidable_of_iff _ (a = b) (by simp) (decEqMembers a b)
  | .null, .bool _ | .null, .num _ | .null, .str _ | .null, .arr _ | .null, .obj _
  | .bool _, .null | .bool _, .num _ | .bool _, .str _ | .bool _, .arr _ | .bool _, .obj _
  | .num _, .null | .num _, .bool _ | .num _, .str _ | .num _, .arr _ | .num _, .obj _
  | .str _, .null | .str _, .bool _ | .str _, .num _ | .str _, .arr _ | .str _, .obj _
  | .arr _, .null | .arr _, .bool _ | .arr _, .num _ | .arr _, .str _ | .arr _, .obj _
  | .obj _, .null | .obj _, .bool _ | .obj _, .num _ | .obj _, .str _ | .obj _, .arr _ =>
    isFalse nofun

def decEqElems : (a b : List Json) → Decidable (a = b)
  | [], [] => isTrue rfl
  | [], _ :: _ => isFalse nofun
  | _ :: _, [] => isFalse nofun
  | x :: xs, y :: ys =>
    @decidable_of_iff _ (x = y ∧ xs = ys) (by simp)
      (@instDecidableAnd _ _ (decEq x y) (decEqElems xs ys))

def decEqMembers : (a b : List (String × Json)) → Decidable (a = b)
  | [], [] => isTrue rfl
  | [], _ :: _ => isFalse nofun
  | _ :: _, [] => isFalse nofun
  | (k, x) :: xs, (l, y) :: ys =>
    @decidable_of_iff _ (k = l ∧ x = y ∧ xs = ys) (by simp [and_assoc])
      (@instDecidableAnd _ _ _ (@instDecidableAnd _ _ (decEq x y) (decEqMembers xs ys)))

end

instance : DecidableEq Json := decEq

/-! ## Reading -/

/-- The member of an object. -/
def get? (j : Json) (name : String) : Option Json :=
  match j with
  | .obj members => members.lookup name
  | _ => none

theorem get?_obj (members : List (String × Json)) (name : String) :
    (Json.obj members).get? name = members.lookup name := rfl

def str? : Json → Option String
  | .str s => some s
  | _ => none

def arr? : Json → Option (List Json)
  | .arr elems => some elems
  | _ => none

def obj? : Json → Option (List (String × Json))
  | .obj members => some members
  | _ => none

/-- The member of an object, if it is a text. -/
def getStr? (j : Json) (name : String) : Option String := (j.get? name).bind str?

/-- The elements of the member of an object, if it is an array. -/
def getArr? (j : Json) (name : String) : Option (List Json) := (j.get? name).bind arr?

/-- The texts of the member of an object, if it is an array. -/
def getStrs (j : Json) (name : String) : List String := ((j.getArr? name).getD []).filterMap str?

/-! ## Writing -/

/-- Write a member. -/
def setMember (name : String) (v : Json) : List (String × Json) → List (String × Json)
  | [] => [(name, v)]
  | m :: members => if m.1 = name then (name, v) :: members else m :: setMember name v members

theorem lookup_cons (k x : String) (v : Json) (members : List (String × Json)) :
    ((k, v) :: members).lookup x = if x = k then some v else members.lookup x := by
  rw [List.lookup_cons]
  by_cases h : x = k
  · simp [h]
  · rw [if_neg h, beq_false_of_ne h]

theorem lookup_setMember (name x : String) (v : Json) (members : List (String × Json)) :
    (setMember name v members).lookup x = if x = name then some v else members.lookup x := by
  induction members with
  | nil => rw [setMember, lookup_cons]
  | cons m members ih =>
    obtain ⟨k, w⟩ := m
    unfold setMember
    by_cases hk : k = name
    · rw [if_pos hk, lookup_cons, lookup_cons, hk]
      split_ifs <;> rfl
    · rw [if_neg hk, lookup_cons, lookup_cons, ih]
      by_cases h : x = name
      · rw [if_pos h, if_pos h, if_neg fun hx => hk (hx.symm.trans h)]
      · rw [if_neg h, if_neg h]

@[simp] theorem get?_setMember_self (name : String) (v : Json) (members : List (String × Json)) :
    (Json.obj (setMember name v members)).get? name = some v := by
  rw [get?_obj, lookup_setMember, if_pos rfl]

theorem get?_setMember_of_ne {name x : String} (h : x ≠ name) (v : Json)
    (members : List (String × Json)) :
    (Json.obj (setMember name v members)).get? x = (Json.obj members).get? x := by
  rw [get?_obj, get?_obj, lookup_setMember, if_neg h]

theorem setMember_setMember (name : String) (v v' : Json) (members : List (String × Json)) :
    setMember name v (setMember name v' members) = setMember name v members := by
  induction members with
  | nil => simp [setMember]
  | cons m members ih =>
    by_cases h : m.1 = name
    · simp [setMember, h]
    · simp [setMember, h, ih]

/-- A member that is there keeps its place, so it may be written first. -/
theorem setMember_comm {name x : String} {members : List (String × Json)} {u : Json}
    (hx : members.lookup x = some u) (hne : x ≠ name) (v w : Json) :
    setMember x w (setMember name v members) = setMember name v (setMember x w members) := by
  induction members with
  | nil => cases hx
  | cons m members ih =>
    obtain ⟨k, j⟩ := m
    by_cases hk : k = name
    · subst hk
      rw [lookup_cons, if_neg hne] at hx
      simp [setMember, Ne.symm hne]
    · by_cases hkx : k = x
      · subst hkx
        simp [setMember, hne]
      · rw [lookup_cons, if_neg (Ne.symm hkx)] at hx
        simp [setMember, hk, hkx, ih hx]

/-- A write adds no name but its own. -/
theorem names_setMember (name : String) (v : Json) (members : List (String × Json)) :
    (setMember name v members).map Prod.fst = members.map Prod.fst ++
      if members.lookup name = none then [name] else [] := by
  induction members with
  | nil => rfl
  | cons m members ih =>
    obtain ⟨k, j⟩ := m
    rw [lookup_cons]
    by_cases h : k = name
    · simp [setMember, h]
    · rw [if_neg (Ne.symm h)]
      simp [setMember, h, ih]

end Json

end Lib
