import Mathlib

/-!
# Base 64

Three bytes are four digits of six bits; the last digits are padded. A decoder skips line breaks and asks for
the padding, and does not look at the bits that the padding cuts off.
-/

namespace Lib.Base64

/-- `A` to `Z`, `a` to `z`, `0` to `9`, `+` and `/`. -/
def alphabet : List UInt8 :=
  (List.range 26).map (fun i => UInt8.ofNat (65 + i)) ++ (List.range 26).map (fun i => UInt8.ofNat (97 + i)) ++
    (List.range 10).map (fun i => UInt8.ofNat (48 + i)) ++ [43, 47]

/-- The character of a group of six bits. -/
def digit (v : ℕ) : UInt8 := alphabet.getD v 47

def value? (c : UInt8) : Option ℕ := alphabet.findIdx? (· == c)

/-- The padding. -/
def pad : UInt8 := 61

/-- Three bytes become four characters, and the last group is padded. -/
def encode : List UInt8 → List UInt8
  | [] => []
  | [a] => [digit (a.toNat / 4), digit (a.toNat % 4 * 16), pad, pad]
  | [a, b] => [digit (a.toNat / 4), digit (a.toNat % 4 * 16 + b.toNat / 16), digit (b.toNat % 16 * 4), pad]
  | a :: b :: c :: bs =>
    digit (a.toNat / 4) :: digit (a.toNat % 4 * 16 + b.toNat / 16) ::
      digit (b.toNat % 16 * 4 + c.toNat / 64) :: digit (c.toNat % 64) :: encode bs

/-- The bytes of four digits. -/
def bytes (v₀ v₁ v₂ v₃ : ℕ) : List UInt8 :=
  [UInt8.ofNat (v₀ * 4 + v₁ / 16), UInt8.ofNat (v₁ % 16 * 16 + v₂ / 4), UInt8.ofNat (v₂ % 4 * 64 + v₃)]

/-- Groups of four characters; padding may stand in the last one only. -/
def decodeDigits : List UInt8 → Option (List UInt8)
  | [] => some []
  | c₀ :: c₁ :: c₂ :: c₃ :: cs => do
    let v₀ ← value? c₀
    let v₁ ← value? c₁
    if c₂ = pad then
      if c₃ = pad ∧ cs = [] then some ((bytes v₀ v₁ 0 0).take 1) else none
    else
      let v₂ ← value? c₂
      if c₃ = pad then
        if cs = [] then some ((bytes v₀ v₁ v₂ 0).take 2) else none
      else
        let v₃ ← value? c₃
        let bs ← decodeDigits cs
        some (bytes v₀ v₁ v₂ v₃ ++ bs)
  | _ => none

def isBreak (c : UInt8) : Bool := c = 10 ∨ c = 13

def decode (cs : List UInt8) : Option (List UInt8) := decodeDigits (cs.filter fun c => !isBreak c)

/-! ## The round trip -/

theorem value?_digit : ∀ v < 64, value? (digit v) = some v := by decide +kernel

theorem digit_mem (v : ℕ) : digit v ∈ alphabet := by
  unfold digit
  by_cases hv : v < alphabet.length
  · rw [List.getD_eq_getElem _ _ hv]
    exact List.getElem_mem hv
  · rw [List.getD_eq_default _ _ (not_lt.mp hv)]
    decide

theorem digit_ne_pad (v : ℕ) : digit v ≠ pad :=
  (show ∀ c ∈ alphabet, c ≠ pad by decide +kernel) _ (digit_mem v)

/-- What is written is a digit or padding. -/
theorem mem_encode {bs : List UInt8} {c : UInt8} (h : c ∈ encode bs) : c ∈ alphabet ∨ c = pad := by
  fun_induction encode bs with
  | case1 => cases h
  | case2 a =>
    simp only [List.mem_cons, List.not_mem_nil, or_false] at h
    rcases h with rfl | rfl | rfl | rfl
    · exact .inl (digit_mem _)
    · exact .inl (digit_mem _)
    · exact .inr rfl
    · exact .inr rfl
  | case3 a b =>
    simp only [List.mem_cons, List.not_mem_nil, or_false] at h
    rcases h with rfl | rfl | rfl | rfl
    · exact .inl (digit_mem _)
    · exact .inl (digit_mem _)
    · exact .inl (digit_mem _)
    · exact .inr rfl
  | case4 a b c' bs ih =>
    simp only [List.mem_cons] at h
    rcases h with rfl | rfl | rfl | rfl | h
    · exact .inl (digit_mem _)
    · exact .inl (digit_mem _)
    · exact .inl (digit_mem _)
    · exact .inl (digit_mem _)
    · exact ih h

theorem not_blank_of_mem_encode {bs : List UInt8} {c : UInt8} (h : c ∈ encode bs) :
    c ≠ 10 ∧ c ≠ 13 ∧ c ≠ 32 := by
  rcases mem_encode h with h | rfl
  · exact (show ∀ c ∈ alphabet, c ≠ 10 ∧ c ≠ 13 ∧ c ≠ 32 by decide +kernel) c h
  · decide

theorem decodeDigits_encode (bs : List UInt8) : decodeDigits (encode bs) = some bs := by
  have hlt : ∀ a : UInt8, a.toNat < 256 := fun a => a.toNat_lt
  have hback : ∀ (a : UInt8) (n : ℕ), n = a.toNat → UInt8.ofNat n = a := fun a n hn => by
    rw [hn, UInt8.ofNat_toNat]
  fun_induction encode bs with
  | case1 => rfl
  | case2 a =>
    have ha := hlt a
    rw [decodeDigits, value?_digit _ (by omega), value?_digit _ (by omega)]
    simp only [Option.bind_eq_bind, Option.bind_some, if_pos, and_self, bytes, List.take_succ_cons,
      List.take_zero]
    rw [hback a _ (by omega)]
  | case3 a b =>
    have ha := hlt a
    have hb := hlt b
    rw [decodeDigits, value?_digit _ (by omega), value?_digit _ (by omega), value?_digit _ (by omega)]
    simp only [Option.bind_eq_bind, Option.bind_some, if_neg (digit_ne_pad _), if_pos, bytes,
      List.take_succ_cons, List.take_zero]
    rw [hback a _ (by omega), hback b _ (by omega)]
  | case4 a b c bs ih =>
    have ha := hlt a
    have hb := hlt b
    have hc := hlt c
    rw [decodeDigits, value?_digit _ (by omega), value?_digit _ (by omega), value?_digit _ (by omega),
      value?_digit _ (by omega), ih]
    simp only [Option.bind_eq_bind, Option.bind_some, if_neg (digit_ne_pad _), bytes, List.cons_append,
      List.nil_append]
    rw [hback a _ (by omega), hback b _ (by omega), hback c _ (by omega)]

theorem decode_encode (bs : List UInt8) : decode (encode bs) = some bs := by
  have hfilter : (encode bs).filter (fun c => !isBreak c) = encode bs := by
    refine List.filter_eq_self.mpr fun c hc => ?_
    obtain ⟨hlf, hcr, -⟩ := not_blank_of_mem_encode hc
    simp [isBreak, hlf, hcr]
  rw [decode, hfilter, decodeDigits_encode]

end Lib.Base64
