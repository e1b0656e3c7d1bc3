import Mathlib

/-!
# The wire format of protocol buffers

A message is a sequence of fields. Each has a key, which is the field's number and its wire type in
one varint; a length-delimited one then has its length and its bytes. Varints have seven bits to a
byte, the low ones first, and are read as 64-bit numbers. Groups are not read.
-/

namespace Lib.Protowire

/-! ## Varints -/

/-- All bytes but the last have the high bit. -/
def putUvarint (x : ℕ) : List UInt8 :=
  if x < 128 then [UInt8.ofNat x] else UInt8.ofNat (x % 128 + 128) :: putUvarint (x / 128)

/-- Reads a varint of at most `n` bytes, the `n`-th of which is at most one. -/
def uvarint : ℕ → List UInt8 → Option (ℕ × List UInt8)
  | 0, _ => none
  | _, [] => none
  | n + 1, b :: bs =>
    if b.toNat < 128 then if n = 0 ∧ 1 < b.toNat then none else some (b.toNat, bs)
    else (uvarint n bs).map fun (x, rest) => (b.toNat - 128 + 128 * x, rest)

/-- A 64-bit number has at most ten bytes. -/
def uvarint64 : List UInt8 → Option (ℕ × List UInt8) := uvarint 10

section Varint

variable {n x : ℕ} {bs rest : List UInt8}

theorem uvarint_putUvarint (h : x < 2 ^ (7 * n + 1)) :
    uvarint (n + 1) (putUvarint x ++ rest) = some (x, rest) := by
  induction n generalizing x with
  | zero =>
    have hx : x < 128 := h.trans (by decide)
    have hbyte : (UInt8.ofNat x).toNat = x := UInt8.toNat_ofNat_of_lt' (hx.trans (by decide))
    have hone : ¬ 1 < x := not_lt.mpr (Nat.le_of_lt_succ h)
    rw [putUvarint, if_pos hx]
    simp [uvarint, hbyte, hx, hone]
  | succ n ih =>
    rw [putUvarint]
    split_ifs with hx
    · have hbyte : (UInt8.ofNat x).toNat = x := UInt8.toNat_ofNat_of_lt' (hx.trans (by decide))
      simp [uvarint, hbyte, hx]
    · have hlt : x % 128 < 128 := Nat.mod_lt x (by decide)
      have hbyte : (UInt8.ofNat (x % 128 + 128)).toNat = x % 128 + 128 :=
        UInt8.toNat_ofNat_of_lt' (show x % 128 + 128 < 256 by omega)
      have hdiv : x / 128 < 2 ^ (7 * n + 1) := by
        rw [Nat.div_lt_iff_lt_mul (by decide)]
        calc x < 2 ^ (7 * (n + 1) + 1) := h
          _ = 2 ^ (7 * n + 1) * 128 := by ring
      rw [List.cons_append, uvarint, if_neg (by omega), ih hdiv, Option.map_some, hbyte,
        Nat.add_sub_cancel]
      exact congrArg (fun y => some (y, rest)) (Nat.mod_add_div x 128)

theorem uvarint64_putUvarint (h : x < 2 ^ 64) (rest : List UInt8) :
    uvarint64 (putUvarint x ++ rest) = some (x, rest) :=
  uvarint_putUvarint h

theorem length_uvarint (h : uvarint n bs = some (x, rest)) : rest.length < bs.length := by
  induction n generalizing bs x with
  | zero => cases h
  | succ n ih =>
    cases bs with
    | nil => cases h
    | cons b bs =>
      rw [uvarint] at h
      split_ifs at h
      · cases h
        exact Nat.lt_succ_self _
      · obtain ⟨⟨y, rest'⟩, hy, heq⟩ := Option.map_eq_some_iff.mp h
        cases heq
        exact (ih hy).trans (Nat.lt_succ_self _)

end Varint

/-! ## Messages -/

/-- The types that a field may have on the wire. -/
inductive Value
  | varint (x : ℕ)
  | fixed64 (bytes : List UInt8)
  | lenDelimited (bytes : List UInt8)
  | fixed32 (bytes : List UInt8)
  deriving DecidableEq, Repr

structure Field where
  number : ℕ
  value : Value
  deriving DecidableEq, Repr

/-- The numbers a field may have. -/
def ValidNumber (number : ℕ) : Prop := 0 < number ∧ number < 2 ^ 29

instance (number : ℕ) : Decidable (ValidNumber number) :=
  inferInstanceAs (Decidable (_ ∧ _))

/-- The next `n` bytes. -/
def takeBytes (n : ℕ) (bs : List UInt8) : Option (List UInt8 × List UInt8) :=
  if n ≤ bs.length then some (bs.take n, bs.drop n) else none

/-- The value of a field of the given wire type. -/
def readValue (wireType : ℕ) (bs : List UInt8) : Option (Value × List UInt8) :=
  match wireType with
  | 0 => (uvarint64 bs).map fun (x, rest) => (.varint x, rest)
  | 1 => (takeBytes 8 bs).map fun (v, rest) => (.fixed64 v, rest)
  | 2 => do
    let (n, bs) ← uvarint64 bs
    (takeBytes n bs).map fun (v, rest) => (.lenDelimited v, rest)
  | 5 => (takeBytes 4 bs).map fun (v, rest) => (.fixed32 v, rest)
  | _ => none

/-- The first field. -/
def readField (bs : List UInt8) : Option (Field × List UInt8) := do
  let (key, bs) ← uvarint64 bs
  if ValidNumber (key / 8) then
    (readValue (key % 8) bs).map fun (v, rest) => (⟨key / 8, v⟩, rest)
  else none

section Lengths

variable {n : ℕ} {bs v rest : List UInt8}

theorem length_takeBytes (h : takeBytes n bs = some (v, rest)) : rest.length ≤ bs.length := by
  unfold takeBytes at h
  split_ifs at h
  cases h
  exact (List.drop_sublist n bs).length_le

theorem length_readValue {w : Value} (h : readValue n bs = some (w, rest)) :
    rest.length ≤ bs.length := by
  unfold readValue at h
  split at h
  · obtain ⟨⟨x, rest'⟩, hx, heq⟩ := Option.map_eq_some_iff.mp h
    cases heq
    exact (length_uvarint hx).le
  · obtain ⟨⟨x, rest'⟩, hx, heq⟩ := Option.map_eq_some_iff.mp h
    cases heq
    exact length_takeBytes hx
  · obtain ⟨⟨m, bs'⟩, hm, h⟩ := Option.bind_eq_some_iff.mp h
    obtain ⟨⟨x, rest'⟩, hx, heq⟩ := Option.map_eq_some_iff.mp h
    cases heq
    exact (length_takeBytes hx).trans (length_uvarint hm).le
  · obtain ⟨⟨x, rest'⟩, hx, heq⟩ := Option.map_eq_some_iff.mp h
    cases heq
    exact length_takeBytes hx
  · cases h

theorem length_readField {f : Field} (h : readField bs = some (f, rest)) :
    rest.length < bs.length := by
  obtain ⟨⟨key, bs'⟩, hkey, h⟩ := Option.bind_eq_some_iff.mp h
  dsimp only at h
  split_ifs at h
  obtain ⟨⟨w, rest'⟩, hw, heq⟩ := Option.map_eq_some_iff.mp h
  cases heq
  exact (length_readValue hw).trans_lt (length_uvarint hkey)

end Lengths

/-- The fields of a message, which are read to its last byte. -/
def parse (bs : List UInt8) : Option (List Field) :=
  if bs = [] then some []
  else
    match h : readField bs with
    | none => none
    | some (f, rest) =>
      have _ := length_readField h
      (parse rest).map (f :: ·)
termination_by bs.length

/-- A length-delimited field, as it is written. -/
def lenField (number : ℕ) (bytes : List UInt8) : List UInt8 :=
  putUvarint (number * 8 + 2) ++ putUvarint bytes.length ++ bytes

section RoundTrip

variable {number : ℕ} {bytes : List UInt8}

theorem takeBytes_append (bytes rest : List UInt8) :
    takeBytes bytes.length (bytes ++ rest) = some (bytes, rest) := by
  unfold takeBytes
  rw [if_pos (by simp), List.take_left, List.drop_left]

theorem readField_lenField (hnumber : ValidNumber number) (hlen : bytes.length < 2 ^ 64)
    (rest : List UInt8) :
    readField (lenField number bytes ++ rest) = some (⟨number, .lenDelimited bytes⟩, rest) := by
  have hkey : number * 8 + 2 < 2 ^ 64 := by
    have hlt := hnumber.2
    omega
  have hdiv : (number * 8 + 2) / 8 = number := by omega
  have hmod : (number * 8 + 2) % 8 = 2 := by omega
  unfold readField lenField
  rw [List.append_assoc, List.append_assoc, uvarint64_putUvarint hkey]
  simp only [Option.bind_eq_bind, Option.bind_some, hdiv, hmod, if_pos hnumber, readValue,
    uvarint64_putUvarint hlen, takeBytes_append, Option.map_some]

/-- A field that is written in front of a message is read in front of it. -/
theorem parse_lenField (hnumber : ValidNumber number) (hlen : bytes.length < 2 ^ 64)
    (rest : List UInt8) : parse (lenField number bytes ++ rest) =
      (parse rest).map (⟨number, .lenDelimited bytes⟩ :: ·) := by
  have hread := readField_lenField hnumber hlen rest
  have hne : lenField number bytes ++ rest ≠ [] := by
    intro h
    rw [h] at hread
    cases hread
  rw [parse, if_neg hne]
  split
  · next h => rw [hread] at h; cases h
  · next f rest' h =>
    rw [hread] at h
    cases h
    rfl

theorem parse_flatMap_lenField {fs : List (ℕ × List UInt8)}
    (h : ∀ f ∈ fs, ValidNumber f.1 ∧ f.2.length < 2 ^ 64) :
    parse (fs.flatMap fun f => lenField f.1 f.2) =
      some (fs.map fun f => ⟨f.1, .lenDelimited f.2⟩) := by
  induction fs with
  | nil => rw [List.flatMap_nil, parse, if_pos rfl, List.map_nil]
  | cons f fs ih =>
    have hf := h f List.mem_cons_self
    rw [List.flatMap_cons, parse_lenField hf.1 hf.2, ih fun f hf => h f (List.mem_cons_of_mem _ hf),
      Option.map_some, List.map_cons]

end RoundTrip

end Lib.Protowire
