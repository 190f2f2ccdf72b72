import Mathlib.Data.List.Basic

/-! One bit for each index, eight to a byte. To write a bit changes that bit alone. -/
namespace PackedBits

/-- The place of an index in its byte. -/
def mask (index : Nat) : UInt8 := 1 <<< UInt8.ofNat (index % 8)

def bit (bytes : List UInt8) (index : Nat) : Bool := bytes.getD (index / 8) 0 &&& mask index ≠ 0

def setBit (bytes : List UInt8) (index : Nat) (value : Bool) : List UInt8 :=
  let byte := bytes.getD (index / 8) 0
  bytes.set (index / 8) (if value then byte ||| mask index else byte &&& ~~~mask index)

variable {bytes : List UInt8} {index other : Nat} {value : Bool}

@[simp] theorem length_setBit : (setBit bytes index value).length = bytes.length := List.length_set

theorem toBitVec_mask (index : Nat) : (mask index).toBitVec = BitVec.twoPow 8 (index % 8) := by
  have hAll : ∀ place < 8, ((1 : UInt8) <<< UInt8.ofNat place).toBitVec = BitVec.twoPow 8 place := by decide
  exact hAll (index % 8) (Nat.mod_lt _ (by decide))

/-- The byte under a mask tells the bit at the place of the mask. -/
theorem masked_ne (byte : UInt8) (index : Nat) :
    byte &&& mask index ≠ 0 ↔ byte.toBitVec.getLsbD (index % 8) = true := by
  have hPlace : index % 8 < 8 := Nat.mod_lt _ (by decide)
  rw [Ne, ← UInt8.toBitVec_inj, UInt8.toBitVec_and, toBitVec_mask, BitVec.and_twoPow]
  cases hBit : byte.toBitVec.getLsbD (index % 8) with
  | false => simp
  | true =>
      have hAll : ∀ place < 8, BitVec.twoPow 8 place ≠ 0#8 := by decide
      simpa using hAll _ hPlace

/-- Of two places of a byte only the one that is written changes. -/
theorem getLsbD_set (byte : UInt8) (index other : Nat) (value : Bool) :
    (if value then byte ||| mask index else byte &&& ~~~mask index).toBitVec.getLsbD (other % 8) =
      if other % 8 = index % 8 then value else byte.toBitVec.getLsbD (other % 8) := by
  have hPlace : other % 8 < 8 := Nat.mod_lt _ (by decide)
  cases value with
  | false =>
      simp only [Bool.false_eq_true, if_false, UInt8.toBitVec_and, UInt8.toBitVec_not, toBitVec_mask, BitVec.getLsbD_and,
        BitVec.getLsbD_not, BitVec.getLsbD_twoPow, hPlace]
      by_cases hSame : other % 8 = index % 8
      · simpa [hSame] using fun _ => Nat.mod_lt index (by decide : 8 > 0)
      · simp [hSame, Ne.symm hSame]
  | true =>
      simp only [if_true, UInt8.toBitVec_or, toBitVec_mask, BitVec.getLsbD_or, BitVec.getLsbD_twoPow]
      by_cases hSame : other % 8 = index % 8
      · simpa [hSame] using Or.inr (Nat.mod_lt index (by decide : 8 > 0))
      · simp [hSame, Ne.symm hSame]

theorem bit_eq (bytes : List UInt8) (index : Nat) :
    bit bytes index = (bytes.getD (index / 8) 0).toBitVec.getLsbD (index % 8) := by
  rw [Bool.eq_iff_iff, bit, decide_eq_true_iff]
  exact masked_ne _ index

/-- A bit that is written is read back, and no other bit changes. -/
theorem bit_setBit (hIndex : index < 8 * bytes.length) :
    bit (setBit bytes index value) other = if other = index then value else bit bytes other := by
  have hByte : index / 8 < bytes.length := by omega
  rw [bit_eq, bit_eq, setBit]
  by_cases hSame : other / 8 = index / 8
  · have hPlace : other % 8 = index % 8 ↔ other = index := by omega
    rw [hSame, List.getD_eq_getElem?_getD, List.getElem?_set_self hByte, Option.getD_some, getLsbD_set]
    simp only [hPlace]
  · have hOther : other ≠ index := fun hEqual => hSame (congrArg (· / 8) hEqual)
    rw [if_neg hOther, List.getD_eq_getElem?_getD, List.getElem?_set_ne (Ne.symm hSame), ← List.getD_eq_getElem?_getD]

end PackedBits
