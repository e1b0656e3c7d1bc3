import Mathlib

/-!
# JSON codecs

How the values of a type are written as JSON and read back, as `encoding/json` does it. A text is read
into memory that is there already, member after member in the order of the text. So a member that comes
twice is read over what the first has left, null leaves most memory as it is, and a member that is
missing leaves the zero value. A codec carries the law that what was written is read as it was, and the
combinators keep it: the codec of a record is lawful by its construction.
-/

namespace Lib

/-- A JSON text as it is written. A number is its sign, its integer part, and what stands after it. -/
inductive Doc
  | null
  | bool (b : Bool)
  | num (neg : Bool) (int : ℕ) (tail : String)
  | str (s : String)
  | arr (elems : List Doc)
  | obj (members : List (String × Doc))

/-- The least rune that is the same but for case. -/
class Folding where
  foldRune : Char → Char

/-- How the values of a type are written, and read into memory. -/
structure Codec (α : Type) where
  /-- The memory that a value is read into. -/
  Cell : Type
  zero : Cell
  value : Cell → α
  encode : α → Doc
  store : Doc → Cell → Option Cell
  /-- The values that the type has where it is written; a number has its range. -/
  Valid : α → Prop
  value_valid : ∀ x, Valid (value x)
  encode_ne_null : ∀ a, encode a ≠ .null
  store_encode : ∀ a, Valid a → (store (encode a) zero).map value = some a

/-! ## Values -/

namespace Codec

variable {α : Type}

/-- `json.Unmarshal` into a new variable. -/
def decode (c : Codec α) (d : Doc) : Option α := (c.store d c.zero).map c.value

theorem decode_encode (c : Codec α) {a : α} (h : c.Valid a) : c.decode (c.encode a) = some a :=
  c.store_encode a h

theorem valid_of_decode (c : Codec α) {d : Doc} {a : α} (h : c.decode d = some a) : c.Valid a := by
  obtain ⟨x, -, rfl⟩ := Option.map_eq_some_iff.mp h
  exact c.value_valid x

def str : Codec String where
  Cell := String
  zero := ""
  value := id
  encode := .str
  store
    | .str s, _ => some s
    | .null, x => some x
    | _, _ => none
  Valid _ := True
  value_valid _ := trivial
  encode_ne_null _ h := by cases h
  store_encode _ _ := rfl

def bool : Codec Bool where
  Cell := Bool
  zero := false
  value := id
  encode := .bool
  store
    | .bool b, _ => some b
    | .null, x => some x
    | _, _ => none
  Valid _ := True
  value_valid _ := trivial
  encode_ne_null _ h := by cases h
  store_encode _ _ := rfl

/-- The integers from `lo` to below `hi`. `strconv.ParseInt` takes digits and a sign only. -/
def int (lo hi : ℤ) (h : lo ≤ 0 ∧ 0 < hi := by decide) : Codec ℤ where
  Cell := {n : ℤ // lo ≤ n ∧ n < hi}
  zero := ⟨0, h⟩
  value := Subtype.val
  encode n := .num (n < 0) n.natAbs ""
  store
    | .num neg m "", _ =>
      let n : ℤ := if neg then -m else m
      if hn : lo ≤ n ∧ n < hi then some ⟨n, hn⟩ else none
    | .null, x => some x
    | _, _ => none
  Valid n := lo ≤ n ∧ n < hi
  value_valid := Subtype.property
  encode_ne_null _ h := by cases h
  store_encode n hn := by
    have hval : (if decide (n < 0) then -(n.natAbs : ℤ) else n.natAbs) = n := by
      simp only [decide_eq_true_eq]
      split_ifs <;> omega
    simp only [hval, dif_pos hn, Option.map_some]

/-- `int64`, and `int` where it has 64 bits. -/
def int64 : Codec ℤ := int (-2 ^ 63) (2 ^ 63)

/-- The natural numbers of so many bits. `strconv.ParseUint` takes no sign. -/
def uint (bits : ℕ) : Codec ℕ where
  Cell := {n : ℕ // n < 2 ^ bits}
  zero := ⟨0, Nat.two_pow_pos bits⟩
  value := Subtype.val
  encode n := .num false n ""
  store
    | .num false n "", _ => if hn : n < 2 ^ bits then some ⟨n, hn⟩ else none
    | .null, x => some x
    | _, _ => none
  Valid n := n < 2 ^ bits
  value_valid := Subtype.property
  encode_ne_null _ h := by cases h
  store_encode n hn := by simp only [dif_pos hn, Option.map_some]

/-- The elements one after the other, each into the memory that the array has for it. -/
def storeElems (c : Codec α) : List Doc → List c.Cell → Option (List c.Cell)
  | [], buf => some buf
  | d :: ds, [] => (c.store d c.zero).bind fun x => (storeElems c ds []).map (x :: ·)
  | d :: ds, x :: buf => (c.store d x).bind fun x' => (storeElems c ds buf).map (x' :: ·)

theorem storeElems_nil (c : Codec α) (ds : List Doc) :
    (c.storeElems ds []).map (List.map c.value) = ds.mapM c.decode := by
  induction ds with
  | nil => rfl
  | cons d ds ih =>
    rw [storeElems, List.mapM_cons, decode, ← ih]
    cases c.store d c.zero with
    | none => rfl
    | some x => cases c.storeElems ds [] <;> rfl

theorem length_storeElems (c : Codec α) {ds : List Doc} {xs : List c.Cell}
    (h : c.storeElems ds [] = some xs) : xs.length = ds.length := by
  induction ds generalizing xs with
  | nil => cases h; rfl
  | cons d ds ih =>
    obtain ⟨x, -, h⟩ := Option.bind_eq_some_iff.mp h
    obtain ⟨xs, hxs, rfl⟩ := Option.map_eq_some_iff.mp h
    rw [List.length_cons, List.length_cons, ih hxs]

theorem mapM_decode_encode (c : Codec α) {l : List α} (h : ∀ a ∈ l, c.Valid a) :
    (l.map c.encode).mapM c.decode = some l := by
  induction l with
  | nil => rfl
  | cons a l ih =>
    obtain ⟨ha, hl⟩ := List.forall_mem_cons.mp h
    rw [List.map_cons, List.mapM_cons, c.decode_encode ha, ih hl]
    rfl

/-- What a slice is read to: its array, of which the first elements are the slice. The rest is what a
longer slice has left there, and is read over when the slice grows again. -/
def storeList (c : Codec α) : Doc → List c.Cell × ℕ → Option (List c.Cell × ℕ)
  | .arr [], _ => some ([], 0)
  | .arr (d :: ds), x => (c.storeElems (d :: ds) x.1).map fun buf => (buf, (d :: ds).length)
  | .null, _ => some ([], 0)
  | _, _ => none

/-- The elements of a slice. -/
def elems (c : Codec α) (x : List c.Cell × ℕ) : List α := (x.1.take x.2).map c.value

theorem storeList_arr (c : Codec α) (ds : List Doc) :
    (c.storeList (.arr ds) ([], 0)).map c.elems = ds.mapM c.decode := by
  rw [← c.storeElems_nil ds]
  cases ds with
  | nil => rfl
  | cons d ds =>
    rw [storeList]
    cases h : c.storeElems (d :: ds) [] with
    | none => rfl
    | some xs =>
      have hlen := c.length_storeElems h
      rw [Option.map_some, Option.map_some, Option.map_some, elems, ← hlen, List.take_length]

/-- A slice, which is written as an array. -/
def list (c : Codec α) : Codec (List α) where
  Cell := List c.Cell × ℕ
  zero := ([], 0)
  value := c.elems
  encode l := .arr (l.map c.encode)
  store := c.storeList
  Valid l := ∀ a ∈ l, c.Valid a
  value_valid x a ha := by
    obtain ⟨y, -, rfl⟩ := List.mem_map.mp ha
    exact c.value_valid y
  encode_ne_null _ h := by cases h
  store_encode l h := (c.storeList_arr (l.map c.encode)).trans (c.mapM_decode_encode h)

end Codec

/-! ## Members -/

section StoreAll

variable {κ κ' : Type} {s : String → Doc → κ → Option κ}

/-- The members of an object, one after the other. -/
def storeAll (s : String → Doc → κ → Option κ) : List (String × Doc) → κ → Option κ
  | [], x => some x
  | m :: ms, x => (s m.1 m.2 x).bind (storeAll s ms)

theorem storeAll_append (ms ms' : List (String × Doc)) (x : κ) :
    storeAll s (ms ++ ms') x = (storeAll s ms x).bind (storeAll s ms') := by
  induction ms generalizing x with
  | nil => rfl
  | cons m ms ih =>
    rw [List.cons_append, storeAll, storeAll, Option.bind_assoc]
    exact congrArg _ (funext ih)

theorem storeAll_map {t : String → Doc → κ' → Option κ'} {g : κ → κ'} {ms : List (String × Doc)}
    (h : ∀ m ∈ ms, ∀ x, t m.1 m.2 (g x) = (s m.1 m.2 x).map g) (x : κ) :
    storeAll t ms (g x) = (storeAll s ms x).map g := by
  induction ms generalizing x with
  | nil => rfl
  | cons m ms ih =>
    obtain ⟨hm, hms⟩ := List.forall_mem_cons.mp h
    rw [storeAll, storeAll, hm x, Option.bind_map, Option.map_bind]
    exact congrArg _ (funext (ih hms))

/-- A part of the memory that only the members with some names are read into. -/
theorem storeAll_part {part : κ → κ'} {t : Doc → κ' → Option κ'} {own : String → Bool}
    (hown : ∀ name d x x', own name = true → s name d x = some x' → t d (part x) = some (part x'))
    (hother : ∀ name d x x', own name = false → s name d x = some x' → part x' = part x)
    {ms : List (String × Doc)} {x x' : κ} (h : storeAll s ms x = some x') :
    storeAll (fun _ => t) (ms.filter fun m => own m.1) (part x) = some (part x') := by
  induction ms generalizing x with
  | nil => cases h; rfl
  | cons m ms ih =>
    obtain ⟨y, hy, h⟩ := Option.bind_eq_some_iff.mp h
    cases hm : own m.1 with
    | true =>
      have hfilter : (m :: ms).filter (fun m => own m.1) = m :: ms.filter fun m => own m.1 :=
        List.filter_cons_of_pos hm
      rw [hfilter, storeAll, hown _ _ _ _ hm hy]
      exact ih h
    | false =>
      have hfilter : (m :: ms).filter (fun m => own m.1) = ms.filter fun m => own m.1 :=
        List.filter_cons_of_neg (by rw [hm]; exact Bool.false_ne_true)
      rw [hfilter, ← hother _ _ _ _ hm hy]
      exact ih h

end StoreAll

/-! ## Records -/

/-- The members that a part of a record is written to. -/
structure Fields (α : Type) where
  names : List String
  Cell : Type
  zero : Cell
  value : Cell → α
  encode : α → List (String × Doc)
  /-- given the name of a field -/
  store : String → Doc → Cell → Option Cell
  Valid : α → Prop
  value_valid : ∀ x, Valid (value x)
  names_encode : ∀ a, ∀ m ∈ encode a, m.1 ∈ names
  store_encode : ∀ a, Valid a → (storeAll store (encode a) zero).map value = some a

namespace Fields

variable {α β : Type}

/-- A member that is always written. -/
def field (name : String) (c : Codec α) : Fields α where
  names := [name]
  Cell := c.Cell
  zero := c.zero
  value := c.value
  encode a := [(name, c.encode a)]
  store _ := c.store
  Valid := c.Valid
  value_valid := c.value_valid
  names_encode a m hm := by
    rw [List.mem_singleton.mp hm]
    exact List.mem_singleton_self name
  store_encode a ha := by
    have hone : storeAll (fun _ => c.store) [(name, c.encode a)] c.zero = c.store (c.encode a) c.zero :=
      Option.bind_fun_some _
    rw [hone, c.store_encode a ha]

/-- What a pointer is read to: null makes it nil, and what it points to is read over otherwise. -/
def storePointer (c : Codec α) : Doc → Option c.Cell → Option (Option c.Cell)
  | .null, _ => some none
  | d, x => (c.store d (x.getD c.zero)).map some

/-- A pointer, which is left out if it is nil. -/
def optional (name : String) (c : Codec α) : Fields (Option α) where
  names := [name]
  Cell := Option c.Cell
  zero := none
  value := Option.map c.value
  encode
    | none => []
    | some a => [(name, c.encode a)]
  store _ := storePointer c
  Valid o := ∀ a, o = some a → c.Valid a
  value_valid x a ha := by
    obtain ⟨y, -, rfl⟩ := Option.map_eq_some_iff.mp ha
    exact c.value_valid y
  names_encode o m hm := by
    cases o with
    | none => cases hm
    | some a =>
      rw [List.mem_singleton.mp hm]
      exact List.mem_singleton_self name
  store_encode o ho := by
    cases o with
    | none => rfl
    | some a =>
      obtain ⟨x, hx, hval⟩ := Option.map_eq_some_iff.mp (c.store_encode a (ho a rfl))
      have hstore : storePointer c (c.encode a) none = some (some x) := by
        unfold storePointer
        split
        · next hnull => exact absurd hnull (c.encode_ne_null a)
        · rw [Option.getD_none, hx, Option.map_some]
      rw [storeAll, hstore, ← hval]
      rfl

/-- A member belongs to the part that has its name. -/
def storeProd (f : Fields α) (g : Fields β) (name : String) (d : Doc) (x : f.Cell × g.Cell) :
    Option (f.Cell × g.Cell) :=
  if name ∈ f.names then (f.store name d x.1).map fun y => (y, x.2)
  else (g.store name d x.2).map fun y => (x.1, y)

theorem storeAll_left (f : Fields α) (g : Fields β) (a : α) (y : g.Cell) :
    storeAll (storeProd f g) (f.encode a) (f.zero, y) =
      (storeAll f.store (f.encode a) f.zero).map fun x => (x, y) :=
  storeAll_map (g := fun x => (x, y)) (fun m hm _ => if_pos (f.names_encode a m hm)) f.zero

theorem storeAll_right (f : Fields α) (g : Fields β) (h : ∀ name ∈ f.names, name ∉ g.names) (b : β)
    (x : f.Cell) :
    storeAll (storeProd f g) (g.encode b) (x, g.zero) =
      (storeAll g.store (g.encode b) g.zero).map fun y => (x, y) :=
  storeAll_map (g := fun y => (x, y))
    (fun m hm _ => if_neg fun hf => h m.1 hf (g.names_encode b m hm)) g.zero

/-- Two parts with members of different names. -/
def prod (f : Fields α) (g : Fields β)
    (h : ∀ name ∈ f.names, name ∉ g.names := by exact of_decide_eq_true rfl) :
    Fields (α × β) where
  names := f.names ++ g.names
  Cell := f.Cell × g.Cell
  zero := (f.zero, g.zero)
  value x := (f.value x.1, g.value x.2)
  encode p := f.encode p.1 ++ g.encode p.2
  store := storeProd f g
  Valid p := f.Valid p.1 ∧ g.Valid p.2
  value_valid x := ⟨f.value_valid x.1, g.value_valid x.2⟩
  names_encode p m hm := by
    rcases List.mem_append.mp hm with hm | hm
    · exact List.mem_append_left _ (f.names_encode _ m hm)
    · exact List.mem_append_right _ (g.names_encode _ m hm)
  store_encode p hp := by
    obtain ⟨x, hx, hxval⟩ := Option.map_eq_some_iff.mp (f.store_encode p.1 hp.1)
    obtain ⟨y, hy, hyval⟩ := Option.map_eq_some_iff.mp (g.store_encode p.2 hp.2)
    rw [storeAll_append, storeAll_left, hx, Option.map_some, Option.bind_some,
      storeAll_right f g h, hy, Option.map_some, Option.map_some, hxval, hyval]

/-- The same members read as another type. -/
def map (f : Fields α) (fwd : α → β) (inv : β → α) (h : ∀ b, fwd (inv b) = b := by intro; rfl)
    (h' : ∀ a, inv (fwd a) = a := by intro; rfl) : Fields β where
  names := f.names
  Cell := f.Cell
  zero := f.zero
  value x := fwd (f.value x)
  encode b := f.encode (inv b)
  store := f.store
  Valid b := f.Valid (inv b)
  value_valid x := by
    rw [h']
    exact f.value_valid x
  names_encode b := f.names_encode (inv b)
  store_encode b hb := by
    obtain ⟨x, hx, hval⟩ := Option.map_eq_some_iff.mp (f.store_encode (inv b) hb)
    rw [hx, Option.map_some, hval, h]

variable [Folding]

/-- The field that a member is read into: the one of its name, or else one whose name differs in case
only. -/
def resolve (names : List String) (key : String) : Option String :=
  if key ∈ names then some key
  else names.find? fun name => name.toList.map Folding.foldRune = key.toList.map Folding.foldRune

/-- A member without a field is skipped. -/
def storeMember (f : Fields α) (key : String) (d : Doc) (x : f.Cell) : Option f.Cell :=
  match resolve f.names key with
  | none => some x
  | some name => f.store name d x

theorem storeAll_encode (f : Fields α) (a : α) :
    storeAll (storeMember f) (f.encode a) f.zero = storeAll f.store (f.encode a) f.zero := by
  have hstep : ∀ m ∈ f.encode a, ∀ x, storeMember f m.1 m.2 x = (f.store m.1 m.2 x).map id := by
    intro m hm x
    rw [storeMember, resolve, if_pos (f.names_encode a m hm), Option.map_id_fun, id]
  exact (storeAll_map hstep f.zero).trans (congrFun Option.map_id _)

/-- The record as an object. -/
def obj (f : Fields α) : Codec α where
  Cell := f.Cell
  zero := f.zero
  value := f.value
  encode a := .obj (f.encode a)
  store
    | .obj members, x => storeAll (storeMember f) members x
    | .null, x => some x
    | _, _ => none
  Valid := f.Valid
  value_valid := f.value_valid
  encode_ne_null _ h := by cases h
  store_encode a ha := by
    rw [← f.store_encode a ha]
    exact congrArg _ (storeAll_encode f a)

theorem mem_of_resolve {names : List String} {key name : String} (h : resolve names key = some name) :
    name ∈ names := by
  unfold resolve at h
  split_ifs at h with hkey
  · cases h
    exact hkey
  · exact List.mem_of_find?_eq_some h

end Fields

/-! ## One field of a record -/

/-- Where the memory of a field is, and that only the members of its name are read into it. -/
structure Fields.At {α β : Type} (f : Fields α) (name : String) (c : Codec β) where
  cell : f.Cell → c.Cell
  cell_zero : cell f.zero = c.zero
  own : ∀ {d x x'}, f.store name d x = some x' → c.store d (cell x) = some (cell x')
  other : ∀ {name' d x x'}, name' ∈ f.names → name' ≠ name → f.store name' d x = some x' →
    cell x' = cell x

namespace Fields.At

variable {α β γ : Type} {f : Fields α} {g : Fields β} {name : String} {c : Codec γ}

def field : (Fields.field name c).At name c where
  cell := id
  cell_zero := rfl
  own h := h
  other hmem hne := absurd (List.mem_singleton.mp hmem) hne

/-- A field of the second of two parts. -/
def right (A : g.At name c) {h : ∀ name ∈ f.names, name ∉ g.names} (hname : name ∉ f.names) :
    (f.prod g h).At name c where
  cell x := A.cell x.2
  cell_zero := A.cell_zero
  own hstore := by
    obtain ⟨y, hy, rfl⟩ := Option.map_eq_some_iff.mp ((if_neg hname).symm.trans hstore)
    exact A.own hy
  other {name' d x x'} hmem hne hstore := by
    by_cases hf : name' ∈ f.names
    · obtain ⟨y, -, rfl⟩ := Option.map_eq_some_iff.mp ((if_pos hf).symm.trans hstore)
      rfl
    · obtain ⟨y, hy, rfl⟩ := Option.map_eq_some_iff.mp ((if_neg hf).symm.trans hstore)
      exact A.other ((List.mem_append.mp hmem).resolve_left hf) hne hy

def map (A : f.At name c) {fwd : α → β} {inv : β → α} {h : ∀ b, fwd (inv b) = b}
    {h' : ∀ a, inv (fwd a) = a} : (f.map fwd inv h h').At name c where
  cell := A.cell
  cell_zero := A.cell_zero
  own := A.own
  other := A.other

variable [Folding]

/-- What an object leaves in the memory of a field is what the members that are read into it leave. -/
theorem storeAll_own (A : f.At name c) {members : List (String × Doc)} {x x' : f.Cell}
    (h : storeAll (storeMember f) members x = some x') :
    storeAll (fun _ => c.store) (members.filter fun m => resolve f.names m.1 = some name) (A.cell x) =
      some (A.cell x') := by
  refine @storeAll_part _ _ _ A.cell c.store (fun key => resolve f.names key = some name) ?_ ?_ _ _ _ h
  · intro key d y y' hkey hy
    rw [storeMember, of_decide_eq_true hkey] at hy
    exact A.own hy
  · intro key d y y' hkey hy
    have hkey' := of_decide_eq_false hkey
    unfold storeMember at hy
    split at hy
    · cases hy
      rfl
    · next name' hname' =>
      exact A.other (mem_of_resolve hname') (fun heq => hkey' (hname'.trans (congrArg some heq))) hy

end Fields.At

end Lib
