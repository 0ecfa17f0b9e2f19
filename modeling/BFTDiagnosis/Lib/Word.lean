import Mathlib.Data.UInt
import Mathlib.Logic.Function.Basic
import Mathlib.Tactic.Common

/-!
# Byte strings and 64-bit words

Big-endian encodings of 64-bit words, the bytes of a string, and the arithmetic of a build with
overflow checks, where an operation whose result does not fit aborts. An abort is `none`.
-/

namespace BFTDiagnosis

abbrev Bytes := List UInt8

namespace Word

/-- The eight bytes of a word, most significant first. -/
def toBeBytes (x : UInt64) : Bytes :=
  [UInt8.ofNat (x.toNat / 2 ^ 56), UInt8.ofNat (x.toNat / 2 ^ 48), UInt8.ofNat (x.toNat / 2 ^ 40),
    UInt8.ofNat (x.toNat / 2 ^ 32), UInt8.ofNat (x.toNat / 2 ^ 24), UInt8.ofNat (x.toNat / 2 ^ 16),
    UInt8.ofNat (x.toNat / 2 ^ 8), UInt8.ofNat x.toNat]

@[simp] theorem length_toBeBytes (x : UInt64) : (toBeBytes x).length = 8 := rfl

theorem toBeBytes_injective : Function.Injective toBeBytes := by
  intro x y h
  have hx := x.toNat_lt
  have hy := y.toNat_lt
  simp only [toBeBytes, List.cons.injEq, and_true, ← UInt8.toNat_inj, UInt8.toNat_ofNat'] at h
  apply UInt64.toNat_inj.1
  omega

/-- The UTF-8 bytes of a string. -/
def asBytes (s : String) : Bytes := s.toByteArray.data.toList

theorem asBytes_injective : Function.Injective asBytes := by
  intro s t h
  have harray : s.toByteArray = t.toByteArray := ByteArray.ext (Array.toList_inj.1 h)
  exact String.toByteArray_inj.1 harray

/-- Mark every byte as followed by another one, so that two byte strings can be put together. -/
def markBytes (bytes : Bytes) : Bytes := bytes.flatMap fun byte ↦ [1, byte]

theorem markBytes_append_inj {left left' right right' : Bytes}
    (h : markBytes left ++ 0 :: right = markBytes left' ++ 0 :: right') :
    left = left' ∧ right = right' := by
  induction left generalizing left' with
  | nil =>
    cases left' with
    | nil => exact ⟨rfl, (List.cons.inj h).2⟩
    | cons byte rest => exact absurd (List.cons.inj h).1 (by decide)
  | cons byte rest ih =>
    cases left' with
    | nil => exact absurd (List.cons.inj h).1 (by decide)
    | cons byte' rest' =>
      have htail := List.cons.inj (List.cons.inj h).2
      have hrest := ih htail.2
      exact ⟨by rw [htail.1, hrest.1], hrest.2⟩

/-- Whether the bytes are the encoding of a string. -/
def validUtf8 (bytes : Bytes) : Bool := (ByteArray.mk bytes.toArray).validateUTF8

/-- Addition that aborts on overflow. -/
def checkedAdd (x y : UInt64) : Option UInt64 :=
  if x.toNat + y.toNat < 2 ^ 64 then some (x + y) else none

/-- Multiplication that aborts on overflow. -/
def checkedMul (x y : UInt64) : Option UInt64 :=
  if x.toNat * y.toNat < 2 ^ 64 then some (x * y) else none

/-- Subtraction that aborts on underflow. -/
def checkedSub (x y : UInt64) : Option UInt64 :=
  if y.toNat ≤ x.toNat then some (x - y) else none

/-- Addition of 16-bit words that aborts on overflow. -/
def checkedAdd16 (x y : UInt16) : Option UInt16 :=
  if x.toNat + y.toNat < 2 ^ 16 then some (x + y) else none

/-- Addition of bytes that aborts on overflow. -/
def checkedAdd8 (x y : UInt8) : Option UInt8 :=
  if x.toNat + y.toNat < 2 ^ 8 then some (x + y) else none

@[simp] theorem isSome_checkedAdd {x y : UInt64} :
    (checkedAdd x y).isSome = true ↔ x.toNat + y.toNat < 2 ^ 64 := by
  unfold checkedAdd
  split <;> simp_all

@[simp] theorem isSome_checkedMul {x y : UInt64} :
    (checkedMul x y).isSome = true ↔ x.toNat * y.toNat < 2 ^ 64 := by
  unfold checkedMul
  split <;> simp_all

@[simp] theorem isSome_checkedSub {x y : UInt64} :
    (checkedSub x y).isSome = true ↔ y.toNat ≤ x.toNat := by
  unfold checkedSub
  split <;> simp_all

theorem toNat_of_checkedAdd {x y z : UInt64} (h : checkedAdd x y = some z) :
    z.toNat = x.toNat + y.toNat := by
  unfold checkedAdd at h
  split at h
  case isTrue hlt =>
    obtain rfl : x + y = z := Option.some.inj h
    rw [UInt64.toNat_add]
    exact Nat.mod_eq_of_lt hlt
  case isFalse => cases h

theorem toNat_of_checkedMul {x y z : UInt64} (h : checkedMul x y = some z) :
    z.toNat = x.toNat * y.toNat := by
  unfold checkedMul at h
  split at h
  case isTrue hlt =>
    obtain rfl : x * y = z := Option.some.inj h
    rw [UInt64.toNat_mul]
    exact Nat.mod_eq_of_lt hlt
  case isFalse => cases h

theorem toNat_of_checkedSub {x y z : UInt64} (h : checkedSub x y = some z) :
    z.toNat = x.toNat - y.toNat := by
  unfold checkedSub at h
  split at h
  case isTrue hle =>
    obtain rfl : x - y = z := Option.some.inj h
    exact UInt64.toNat_sub_of_le _ _ (UInt64.le_iff_toNat_le.2 hle)
  case isFalse => cases h

/-- A number that fits in 16 bits is what a word holds. -/
theorem ofNat16_eq_iff {n : ℕ} {x : UInt16} (h : n < 2 ^ 16) : UInt16.ofNat n = x ↔ n = x.toNat := by
  rw [← UInt16.toNat_inj, UInt16.toNat_ofNat', Nat.mod_eq_of_lt h]

theorem checkedAdd16_eq_some_iff {x y z : UInt16} :
    checkedAdd16 x y = some z ↔ z.toNat = x.toNat + y.toNat := by
  have hlt := z.toNat_lt
  unfold checkedAdd16
  split
  case isTrue hsum =>
    rw [Option.some.injEq, ← UInt16.toNat_inj, UInt16.toNat_add, Nat.mod_eq_of_lt hsum, eq_comm]
  case isFalse hnot =>
    simp only [reduceCtorEq, false_iff]
    omega

theorem checkedAdd8_eq_some_iff {x y z : UInt8} :
    checkedAdd8 x y = some z ↔ z.toNat = x.toNat + y.toNat := by
  have hlt := z.toNat_lt
  unfold checkedAdd8
  split
  case isTrue hsum =>
    rw [Option.some.injEq, ← UInt8.toNat_inj, UInt8.toNat_add, Nat.mod_eq_of_lt hsum, eq_comm]
  case isFalse hnot =>
    simp only [reduceCtorEq, false_iff]
    omega

end Word

end BFTDiagnosis
