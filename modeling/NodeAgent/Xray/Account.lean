import NodeAgent.Lib.Protowire
import NodeAgent.Xray.Client

/-!
# The account of a user

`internal/adapters/xray/user.go` writes the account of a user, `xray.proxy.vless.Account`, by hand:
two string fields, the id and the flow, of which the second is left out if it is empty. xray reads
it as the protobuf message it is said to be.
-/

namespace NodeAgent.Xray

open Lib Protowire

/-- A Go string or slice of bytes; `len` is an `int`. -/
structure ByteString where
  data : List UInt8
  len_lt : data.length < 2 ^ 63

/-- `uint64(len(s))`. -/
def ByteString.len (s : ByteString) : UInt64 := UInt64.ofNat s.data.length

theorem ByteString.toNat_len (s : ByteString) : s.len.toNat = s.data.length :=
  UInt64.toNat_ofNat_of_lt' (s.len_lt.trans (by decide))

theorem toNat_shiftRight_seven (x : UInt64) : (x >>> 7).toNat = x.toNat / 128 := by
  simp [Nat.shiftRight_eq_div_pow]

/-- `binary.AppendUvarint`. -/
def appendUvarint (buf : List UInt8) (x : UInt64) : List UInt8 :=
  if 0x80 ≤ x then appendUvarint (buf ++ [x.toUInt8 ||| 0x80]) (x >>> 7)
  else buf ++ [x.toUInt8]
termination_by x.toNat
decreasing_by
  next h =>
    have hle : 128 ≤ x.toNat := UInt64.le_iff_toNat_le.mp h
    rw [toNat_shiftRight_seven]
    exact Nat.div_lt_self (by omega) (by decide)

/-- `appendLenDelimited`: the key, the length and the bytes. -/
def appendLenDelimited (buf : List UInt8) (fieldNum : UInt64) (value : ByteString) : List UInt8 :=
  let buf := appendUvarint buf (fieldNum <<< 3 ||| 2)
  let buf := appendUvarint buf value.len
  buf ++ value.data

/-- `encodeVlessAccount`: the id, and the flow if there is one. -/
def encodeVlessAccount (id flow : ByteString) : List UInt8 :=
  let out := appendLenDelimited [] 1 id
  if flow.data ≠ [] then appendLenDelimited out 2 flow else out

/-! ## What is written -/

section Written

variable (buf : List UInt8) (id flow : ByteString)

theorem or_high_bit (x : UInt64) : x.toUInt8 ||| 0x80 = UInt8.ofNat (x.toNat % 128 + 128) := by
  have hbyte : ∀ n < 256, n ||| 128 = n % 128 + 128 := by decide +kernel
  have hlt : x.toNat % 128 + 128 < 256 := by omega
  apply UInt8.toNat_inj.mp
  rw [UInt8.toNat_or, UInt64.toNat_toUInt8, UInt8.toNat_ofNat_of_lt' hlt]
  change x.toNat % 256 ||| 128 = _
  rw [hbyte _ (Nat.mod_lt _ (by decide))]
  omega

theorem appendUvarint_eq (x : UInt64) : appendUvarint buf x = buf ++ putUvarint x.toNat := by
  fun_induction appendUvarint buf x with
  | case1 buf x h ih =>
    have hle : ¬ x.toNat < 128 := not_lt.mpr (UInt64.le_iff_toNat_le.mp h)
    rw [ih, toNat_shiftRight_seven, or_high_bit, List.append_assoc]
    conv_rhs => rw [putUvarint, if_neg hle]
    rfl
  | case2 buf x h =>
    have hlt : x.toNat < 128 := not_le.mp fun hle => h (UInt64.le_iff_toNat_le.mpr hle)
    rw [putUvarint, if_pos hlt]
    rfl

theorem appendLenDelimited_eq {fieldNum : UInt64} {number : ℕ}
    (hkey : (fieldNum <<< 3 ||| 2).toNat = number * 8 + 2) (value : ByteString) :
    appendLenDelimited buf fieldNum value = buf ++ lenField number value.data := by
  unfold appendLenDelimited lenField
  simp only [appendUvarint_eq, hkey, value.toNat_len, List.append_assoc]

/-- The fields of an account. -/
def accountFields : List (ℕ × List UInt8) :=
  (1, id.data) :: if flow.data = [] then [] else [(2, flow.data)]

theorem valid_accountFields :
    ∀ f ∈ accountFields id flow, ValidNumber f.1 ∧ f.2.length < 2 ^ 64 := by
  have hlen : ∀ s : ByteString, s.data.length < 2 ^ 64 := fun s => s.len_lt.trans (by decide)
  intro f hf
  rcases List.mem_cons.mp hf with rfl | hf
  · exact ⟨show ValidNumber 1 by decide, hlen id⟩
  · split_ifs at hf with hempty
    · cases hf
    · rw [List.mem_singleton.mp hf]
      exact ⟨show ValidNumber 2 by decide, hlen flow⟩

/-- The account is its fields, one after the other. -/
theorem encodeVlessAccount_eq :
    encodeVlessAccount id flow = (accountFields id flow).flatMap fun f => lenField f.1 f.2 := by
  have hid := appendLenDelimited_eq []
    (show ((1 : UInt64) <<< 3 ||| 2).toNat = 1 * 8 + 2 by decide) id
  have hflow := appendLenDelimited_eq (lenField 1 id.data)
    (show ((2 : UInt64) <<< 3 ||| 2).toNat = 2 * 8 + 2 by decide) flow
  rw [List.nil_append] at hid
  unfold encodeVlessAccount accountFields
  simp only [hid, hflow]
  by_cases hempty : flow.data = []
  · simp [hempty]
  · simp [hempty]

end Written

/-! ## What is read -/

/-- The account is a protobuf message of exactly these fields. -/
theorem parse_encodeVlessAccount (id flow : ByteString) :
    parse (encodeVlessAccount id flow) = some (⟨1, .lenDelimited id.data⟩ ::
      if flow.data = [] then [] else [⟨2, .lenDelimited flow.data⟩]) := by
  rw [encodeVlessAccount_eq, parse_flatMap_lenField (valid_accountFields id flow), accountFields]
  split_ifs <;> rfl

/-- `xray.proxy.vless.Account`. -/
structure Account where
  id : List UInt8 := []
  flow : List UInt8 := []
  deriving DecidableEq, Repr

/-- A later field replaces an earlier one, and an unknown one is skipped. -/
def Account.read (acc : Account) : Field → Account
  | ⟨1, .lenDelimited bytes⟩ => { acc with id := bytes }
  | ⟨2, .lenDelimited bytes⟩ => { acc with flow := bytes }
  | _ => acc

def decodeAccount (bs : List UInt8) : Option Account :=
  (parse bs).map fun fields => fields.foldl Account.read {}

/-- xray gets the id and the flow that were meant: those of `Operation.add`. -/
theorem decodeAccount_encodeVlessAccount (id flow : ByteString) :
    decodeAccount (encodeVlessAccount id flow) = some ⟨id.data, flow.data⟩ := by
  unfold decodeAccount
  rw [encodeVlessAccount_eq, parse_flatMap_lenField (valid_accountFields id flow), accountFields]
  split_ifs with hempty
  · rw [hempty]
    rfl
  · rfl

end NodeAgent.Xray
