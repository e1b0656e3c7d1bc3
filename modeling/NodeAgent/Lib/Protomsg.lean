import NodeAgent.Lib.Protowire

/-!
# Messages of protocol buffers

The fields of a message as they are written and read. A field that holds the zero of its type is
left out. A reader takes the last value of a field, puts the parts of an embedded message together,
skips what it does not know, and rejects text that is not UTF-8.
-/

namespace Lib.Protowire

/-! ## Fields as bytes -/

/-- The key of a field, and its value by the type in the key. -/
def Field.encode : Field → List UInt8
  | ⟨number, .varint x⟩ => putUvarint (number * 8) ++ putUvarint x
  | ⟨number, .fixed64 bytes⟩ => putUvarint (number * 8 + 1) ++ bytes
  | ⟨number, .lenDelimited bytes⟩ => lenField number bytes
  | ⟨number, .fixed32 bytes⟩ => putUvarint (number * 8 + 5) ++ bytes

/-- The value fits its type on the wire. -/
def Value.Valid : Value → Prop
  | .varint x => x < 2 ^ 64
  | .fixed64 bytes => bytes.length = 8
  | .lenDelimited bytes => bytes.length < 2 ^ 64
  | .fixed32 bytes => bytes.length = 4

def Field.Valid (f : Field) : Prop := ValidNumber f.number ∧ f.value.Valid

/-- Seven bits to a byte. -/
theorem length_putUvarint {x n : ℕ} (h : x < 128 ^ (n + 1)) : (putUvarint x).length ≤ n + 1 := by
  induction n generalizing x with
  | zero => rw [putUvarint, if_pos (by simpa using h), List.length_singleton]
  | succ n ih =>
    rw [putUvarint]
    split_ifs with hx
    · simp
    · have hdiv : x / 128 < 128 ^ (n + 1) := by
        rw [Nat.div_lt_iff_lt_mul (by decide)]
        exact h
      rw [List.length_cons]
      exact Nat.succ_le_succ (ih hdiv)

section Encode

variable {number k : ℕ} {v : Value} {f : Field} {bs bytes rest : List UInt8}

theorem readField_key (hnumber : ValidNumber number) (hk : k < 8)
    (hv : readValue k bs = some (v, rest)) :
    readField (putUvarint (number * 8 + k) ++ bs) = some (⟨number, v⟩, rest) := by
  have hkey : number * 8 + k < 2 ^ 64 := by
    have hlt := hnumber.2
    omega
  have hdiv : (number * 8 + k) / 8 = number := by omega
  have hmod : (number * 8 + k) % 8 = k := by omega
  unfold readField
  rw [uvarint64_putUvarint hkey]
  simp only [Option.bind_eq_bind, Option.bind_some, hdiv, hmod, if_pos hnumber, hv, Option.map_some]

theorem readField_encode (h : f.Valid) (rest : List UInt8) :
    readField (f.encode ++ rest) = some (f, rest) := by
  obtain ⟨number, v⟩ := f
  obtain ⟨hnumber, hv⟩ := h
  cases v with
  | varint x =>
    rw [Field.encode, List.append_assoc]
    refine readField_key (k := 0) hnumber (by decide) ?_
    rw [readValue, uvarint64_putUvarint hv, Option.map_some]
  | fixed64 bytes =>
    have hbytes : bytes.length = 8 := hv
    rw [Field.encode, List.append_assoc]
    refine readField_key hnumber (by decide) ?_
    rw [readValue, ← hbytes, takeBytes_append, Option.map_some]
  | lenDelimited bytes => exact readField_lenField hnumber hv rest
  | fixed32 bytes =>
    have hbytes : bytes.length = 4 := hv
    rw [Field.encode, List.append_assoc]
    refine readField_key hnumber (by decide) ?_
    rw [readValue, ← hbytes, takeBytes_append, Option.map_some]

theorem parse_of_readField (h : readField bs = some (f, rest)) :
    parse bs = (parse rest).map (f :: ·) := by
  have hne : bs ≠ [] := by
    rintro rfl
    cases h
  rw [parse, if_neg hne]
  split
  · next h' => rw [h] at h'; cases h'
  · next f' rest' h' =>
    rw [h] at h'
    cases h'
    rfl

theorem parse_encode {fs : List Field} (h : ∀ f ∈ fs, f.Valid) :
    parse (fs.flatMap Field.encode) = some fs := by
  induction fs with
  | nil => rw [List.flatMap_nil, parse, if_pos rfl]
  | cons f fs ih =>
    obtain ⟨hf, hfs⟩ := List.forall_mem_cons.mp h
    rw [List.flatMap_cons, parse_of_readField (readField_encode hf _), ih hfs, Option.map_some]

end Encode

/-! ## Text -/

def utf8 (s : String) : List UInt8 := s.toUTF8.data.toList

def ofUtf8 (bytes : List UInt8) : Option String := String.fromUTF8? ⟨bytes.toArray⟩

theorem ofUtf8_utf8 (s : String) : ofUtf8 (utf8 s) = some s := by
  have hvalid : s.toUTF8.IsValidUTF8 := s.isValidUTF8
  unfold ofUtf8 utf8 String.fromUTF8?
  rw [Array.toArray_toList, dif_pos hvalid]
  rfl

theorem utf8_injective : Function.Injective utf8 := by
  intro s t h
  have h' := congrArg ofUtf8 h
  rw [ofUtf8_utf8, ofUtf8_utf8] at h'
  exact Option.some.inj h'

/-! ## Writing -/

/-- A text, which is left out if it is empty. -/
def strField (number : ℕ) (s : String) : List Field :=
  if s = "" then [] else [⟨number, .lenDelimited (utf8 s)⟩]

def uintField (number x : ℕ) : List Field := if x = 0 then [] else [⟨number, .varint x⟩]

/-- An embedded message, if there is one. -/
def msgField (number : ℕ) : Option (List UInt8) → List Field
  | none => []
  | some bytes => [⟨number, .lenDelimited bytes⟩]

/-! ## Reading -/

/-- The byte strings that come under a number. -/
def lens (number : ℕ) (fs : List Field) : List (List UInt8) :=
  fs.filterMap fun f =>
    match f.value with
    | .lenDelimited bytes => if f.number = number then some bytes else none
    | _ => none

/-- The integers that come under a number. -/
def varints (number : ℕ) (fs : List Field) : List ℕ :=
  fs.filterMap fun f =>
    match f.value with
    | .varint x => if f.number = number then some x else none
    | _ => none

/-- The last text counts, and every one must be UTF-8. -/
def getStr (number : ℕ) (fs : List Field) : Option String :=
  ((lens number fs).mapM ofUtf8).map fun texts => texts.getLastD ""

def getUint (number : ℕ) (fs : List Field) : ℕ := (varints number fs).getLastD 0

/-- The parts of an embedded message are put together. -/
def getMsg (number : ℕ) (fs : List Field) : Option (List UInt8) :=
  if lens number fs = [] then none else some (lens number fs).flatten

section Valid

variable {number x : ℕ} {s : String} {m : Option (List UInt8)}

theorem valid_strField (hnumber : ValidNumber number) (hs : (utf8 s).length < 2 ^ 64) :
    ∀ f ∈ strField number s, f.Valid := by
  unfold strField
  split_ifs with h
  · exact fun f hf => (nomatch hf)
  · exact List.forall_mem_singleton.mpr ⟨hnumber, hs⟩

theorem valid_uintField (hnumber : ValidNumber number) (hx : x < 2 ^ 64) :
    ∀ f ∈ uintField number x, f.Valid := by
  unfold uintField
  split_ifs with h
  · exact fun f hf => (nomatch hf)
  · exact List.forall_mem_singleton.mpr ⟨hnumber, hx⟩

theorem valid_msgField (hnumber : ValidNumber number) (hm : ∀ bytes ∈ m, bytes.length < 2 ^ 64) :
    ∀ f ∈ msgField number m, f.Valid := by
  cases m with
  | none => exact fun f hf => (nomatch hf)
  | some bytes => exact List.forall_mem_singleton.mpr ⟨hnumber, hm bytes rfl⟩

end Valid

section Fields

variable {number n x : ℕ} {s : String} {fs gs : List Field} {m : Option (List UInt8)}

@[simp] theorem lens_append : lens number (fs ++ gs) = lens number fs ++ lens number gs :=
  List.filterMap_append

@[simp] theorem varints_append : varints number (fs ++ gs) = varints number fs ++ varints number gs :=
  List.filterMap_append

@[simp] theorem lens_strField :
    lens number (strField n s) = if n = number ∧ s ≠ "" then [utf8 s] else [] := by
  by_cases hs : s = ""
  · simp [strField, hs, lens]
  · by_cases hn : n = number <;> simp [strField, hs, hn, lens]

@[simp] theorem varints_strField : varints number (strField n s) = [] := by
  by_cases hs : s = "" <;> simp [strField, hs, varints]

@[simp] theorem lens_uintField : lens number (uintField n x) = [] := by
  by_cases hx : x = 0 <;> simp [uintField, hx, lens]

@[simp] theorem varints_uintField :
    varints number (uintField n x) = if n = number ∧ x ≠ 0 then [x] else [] := by
  by_cases hx : x = 0
  · simp [uintField, hx, varints]
  · by_cases hn : n = number <;> simp [uintField, hx, hn, varints]

@[simp] theorem lens_msgField :
    lens number (msgField n m) = if n = number then m.toList else [] := by
  cases m with
  | none => simp [msgField, lens]
  | some bytes => by_cases hn : n = number <;> simp [msgField, hn, lens]

@[simp] theorem varints_msgField : varints number (msgField n m) = [] := by
  cases m <;> simp [msgField, varints]

theorem getStr_of_lens (h : lens number fs = if s ≠ "" then [utf8 s] else []) :
    getStr number fs = some s := by
  rw [getStr, h]
  split_ifs with hs
  · simp [ofUtf8_utf8]
  · simp [not_not.mp hs]

theorem getUint_of_varints (h : varints number fs = if x ≠ 0 then [x] else []) :
    getUint number fs = x := by
  rw [getUint, h]
  split_ifs with hx
  · rfl
  · exact (not_not.mp hx).symm

theorem getMsg_of_lens (h : lens number fs = m.toList) : getMsg number fs = m := by
  rw [getMsg, h]
  cases m with
  | none => rfl
  | some bytes => simp

end Fields

/-! ## Signed numbers -/

/-- `int64` as a varint, by its 64 bits. -/
def ofInt64 (z : ℤ) : ℕ := (z % 2 ^ 64).toNat

def toInt64 (x : ℕ) : ℤ := if x < 2 ^ 63 then x else x - 2 ^ 64

/-- `int32` is the low half of the varint. -/
def toInt32 (x : ℕ) : ℤ :=
  if x % 2 ^ 32 < 2 ^ 31 then (x % 2 ^ 32 : ℕ) else (x % 2 ^ 32 : ℕ) - 2 ^ 32

theorem ofInt64_lt (z : ℤ) : ofInt64 z < 2 ^ 64 := by
  unfold ofInt64
  omega

theorem toInt64_ofInt64 {z : ℤ} (hlo : -2 ^ 63 ≤ z) (hhi : z < 2 ^ 63) :
    toInt64 (ofInt64 z) = z := by
  unfold toInt64 ofInt64
  split_ifs <;> omega

theorem toInt32_ofInt64 {z : ℤ} (hlo : -2 ^ 31 ≤ z) (hhi : z < 2 ^ 31) :
    toInt32 (ofInt64 z) = z := by
  unfold toInt32 ofInt64
  split_ifs <;> omega

end Lib.Protowire
