import Mathlib.Data.List.Basic
import Mathlib.Data.List.GetD
import Mathlib.Tactic.Ring
import Mathlib.Tactic.Linarith

/-! Fixed-width little-endian integers and byte ranges of a total memory.
A memory is a function from addresses to bytes; its owner keeps the bounds.
Nothing here knows what the bytes mean. -/
namespace Bytes

abbrev Byte := UInt8

/-- The `width` low-order bytes of a number, least significant first. -/
def toLE : Nat → Nat → List Byte
  | 0, _ => []
  | width + 1, n => UInt8.ofNat n :: toLE width (n / 256)

def fromLE : List Byte → Nat
  | [] => 0
  | b :: rest => b.toNat + 256 * fromLE rest

@[simp] theorem length_toLE (width n : Nat) : (toLE width n).length = width := by
  induction width generalizing n with
  | zero => rfl
  | succ width ih => simp [toLE, ih]

theorem fromLE_lt (bytes : List Byte) : fromLE bytes < 256 ^ bytes.length := by
  induction bytes with
  | nil => simp [fromLE]
  | cons b rest ih =>
      have hb : b.toNat < 256 := b.toNat_lt
      simp only [fromLE, List.length_cons, pow_succ]
      omega

theorem fromLE_toLE (width n : Nat) : fromLE (toLE width n) = n % 256 ^ width := by
  induction width generalizing n with
  | zero => simp [toLE, fromLE, Nat.mod_one]
  | succ width ih =>
      simp only [toLE, fromLE, ih, UInt8.toNat_ofNat', Nat.reducePow]
      rw [pow_succ', Nat.mod_mul]

theorem fromLE_toLE_of_lt {width n : Nat} (h : n < 256 ^ width) :
    fromLE (toLE width n) = n := by
  rw [fromLE_toLE, Nat.mod_eq_of_lt h]

/-- Every byte string is the encoding of the number it decodes to. -/
theorem toLE_fromLE {bytes : List Byte} {width : Nat} (h : bytes.length = width) :
    toLE width (fromLE bytes) = bytes := by
  subst h
  induction bytes with
  | nil => rfl
  | cons b rest ih =>
      have hb : b.toNat < 256 := b.toNat_lt
      have hDiv : (b.toNat + 256 * fromLE rest) / 256 = fromLE rest := by omega
      simp only [List.length_cons, toLE, fromLE, hDiv, ih]
      congr 1
      apply UInt8.toNat_inj.1
      simp

/-- Encodings of one width are equal only for numbers that agree modulo it. -/
theorem toLE_injective {width n m : Nat} (hn : n < 256 ^ width) (hm : m < 256 ^ width)
    (h : toLE width n = toLE width m) : n = m := by
  rw [← fromLE_toLE_of_lt hn, ← fromLE_toLE_of_lt hm, h]

/-- The bytes of `memory` at `[offset, offset + count)`. -/
def range (memory : Nat → Byte) (offset count : Nat) : List Byte :=
  (List.range count).map fun i => memory (offset + i)

@[simp] theorem length_range (memory : Nat → Byte) (offset count : Nat) :
    (range memory offset count).length = count := by
  simp [range]

@[simp] theorem getElem_range (memory : Nat → Byte) (offset count i : Nat)
    (h : i < (range memory offset count).length) :
    (range memory offset count)[i] = memory (offset + i) := by
  simp [range]

theorem range_eq_iff {memory : Nat → Byte} {offset : Nat} {bytes : List Byte} {count : Nat} :
    range memory offset count = bytes ↔
      bytes.length = count ∧ ∀ i (h : i < bytes.length), memory (offset + i) = bytes[i] := by
  constructor
  · rintro rfl
    exact ⟨length_range .., fun i h => (getElem_range memory offset count i h).symm⟩
  · rintro ⟨hLength, hBytes⟩
    apply List.ext_getElem (by simp [hLength])
    intro i h₁ h₂
    rw [getElem_range, hBytes i h₂]

/-- Ranges see only the addresses they cover. -/
theorem range_congr {first second : Nat → Byte} {offset count : Nat}
    (h : ∀ i < count, first (offset + i) = second (offset + i)) :
    range first offset count = range second offset count := by
  rw [range_eq_iff]
  refine ⟨length_range .., fun i hi => ?_⟩
  rw [getElem_range]
  exact h i (by simpa using hi)

/-- Equal ranges agree at each address they cover. -/
theorem range_apply {first second : Nat → Byte} {offset count i : Nat} (h : range first offset count = range second offset count)
    (hLow : offset ≤ i) (hHigh : i < offset + count) : first i = second i := by
  rw [range_eq_iff] at h
  have hAt := h.2 (i - offset) (by simp only [length_range]; omega)
  rwa [getElem_range, Nat.add_sub_cancel' hLow] at hAt

theorem range_add (memory : Nat → Byte) (offset first second : Nat) :
    range memory offset (first + second) =
      range memory offset first ++ range memory (offset + first) second := by
  simp only [range, List.range_add, List.map_append, List.map_map]
  congr 1
  simp [Function.comp_def, Nat.add_assoc]

theorem range_take (memory : Nat → Byte) {offset count n : Nat} (h : n ≤ count) :
    (range memory offset count).take n = range memory offset n := by
  rw [← Nat.add_sub_of_le h, range_add, List.take_left' (length_range ..)]

theorem range_drop (memory : Nat → Byte) {offset count n : Nat} (h : n ≤ count) :
    (range memory offset count).drop n = range memory (offset + n) (count - n) := by
  conv_lhs => rw [← Nat.add_sub_of_le h, range_add, List.drop_left' (length_range ..)]

theorem range_eq_replicate_iff {memory : Nat → Byte} {offset count : Nat} {b : Byte} :
    range memory offset count = List.replicate count b ↔ ∀ i < count, memory (offset + i) = b := by
  rw [range_eq_iff]
  simp

theorem range_all_iff {memory : Nat → Byte} {offset count : Nat} {b : Byte} :
    (range memory offset count).all (· == b) = true ↔ ∀ i < count, memory (offset + i) = b := by
  simp [range, List.all_eq_true]

/-- `memory` with the bytes `value` written at `[offset, offset + value.length)`. -/
def overwrite (memory : Nat → Byte) (offset : Nat) (value : List Byte) : Nat → Byte := fun i =>
  if offset ≤ i ∧ i < offset + value.length then value.getD (i - offset) 0 else memory i

theorem overwrite_inside {memory : Nat → Byte} {offset i : Nat} {value : List Byte} (hLow : offset ≤ i)
    (hHigh : i < offset + value.length) : overwrite memory offset value i = value.getD (i - offset) 0 :=
  if_pos ⟨hLow, hHigh⟩

theorem overwrite_outside {memory : Nat → Byte} {offset i : Nat} {value : List Byte}
    (h : i < offset ∨ offset + value.length ≤ i) : overwrite memory offset value i = memory i := by
  apply if_neg
  omega

theorem getD_range {memory : Nat → Byte} {offset count i : Nat} (h : i < count) :
    (range memory offset count).getD i 0 = memory (offset + i) := by
  rw [List.getD_eq_getElem _ _ (by simpa using h), getElem_range]

@[simp] theorem range_overwrite (memory : Nat → Byte) (offset : Nat) (value : List Byte) :
    range (overwrite memory offset value) offset value.length = value := by
  rw [range_eq_iff]
  refine ⟨rfl, fun i hi => ?_⟩
  rw [overwrite_inside (by omega) (by omega), Nat.add_sub_cancel_left, List.getD_eq_getElem]

theorem range_overwrite_apart {memory : Nat → Byte} {offset at' count : Nat} {value : List Byte}
    (h : at' + count ≤ offset ∨ offset + value.length ≤ at') :
    range (overwrite memory offset value) at' count = range memory at' count :=
  range_congr fun i hi => overwrite_outside (by omega)

theorem overwrite_eq_of_range {memory : Nat → Byte} {offset : Nat} {value : List Byte}
    (h : range memory offset value.length = value) : overwrite memory offset value = memory := by
  funext i
  by_cases hInside : offset ≤ i ∧ i < offset + value.length
  · rw [overwrite_inside hInside.1 hInside.2, ← h, getD_range (by omega), Nat.add_sub_cancel' hInside.1]
  · exact overwrite_outside (by omega)

end Bytes
