import MicroCard.Library.CilIntegers
import MicroCard.Mc04.CilSpec
import MicroCard.Mc04.Machine

/-! The integer instructions of the interpreter against those of the standard. -/
namespace MicroCard.Mc04

open Bytes Halting CilIntegers

section Words

theorem word_toInt (value : Int32) : word value.toInt = value := Int32.ofInt_toInt value

theorem toInt32_eq_word (value : UInt32) : value.toInt32 = word value.toNat := by
  unfold word
  rw [Int32.ofInt_eq_ofNat]
  apply Int32.toBitVec.inj
  simp

theorem unsigned_eq_zero {value : Int32} : unsigned value = 0 ↔ value.toUInt32 = 0 := by
  unfold unsigned
  rw [Int.natCast_eq_zero, ← UInt32.toNat_inj]
  rfl

theorem unsigned_range (value : Int32) : 0 ≤ unsigned value ∧ unsigned value < 2 ^ 32 := by
  have hLess := value.toUInt32.toNat_lt
  unfold unsigned
  omega

/-- The two readings of a word differ by the weight of the sign bit. -/
theorem toInt_eq (value : Int32) : value.toInt = if unsigned value < 2 ^ 31 then unsigned value else unsigned value - 2 ^ 32 := by
  have hWord := BitVec.toInt_eq_toNat_cond value.toBitVec
  rw [Int32.toInt_toBitVec, Int32.toNat_toBitVec] at hWord
  unfold unsigned
  rw [hWord]
  split <;> split <;> omega

theorem word_unsigned (value : Int32) : word (unsigned value) = value := by
  have hSame := toInt32_eq_word value.toUInt32
  rw [Int32.toInt32_toUInt32] at hSame
  exact hSame.symm

theorem word_eq {value : Int32} {exact' : Int} (h : value.toInt = exact'.bmod (2 ^ 32)) : value = word exact' := by
  apply Int32.toInt.inj
  rw [h]
  exact Int32.toInt_ofInt.symm

end Words

section Outcomes

/-- A result of the machine is an outcome of the standard. All exceptions look the same. -/
def Yields (result : Checked Int32) : Outcome → Prop
  | .value word => result = .ok word
  | .overflow | .divideByZero => result = .error (.refused .arithmetic)
  | .taken _ => False

theorem yields_ok (value : Int32) : Yields (.ok value) (.value value) := rfl

/-- An operation that checks whether its exact result fits. -/
theorem checkedSigned_exactly {exact' : Int} {wrapped : Int32} (h : wrapped = word exact') :
    Yields (orRefuse (checkedSigned exact' wrapped) .arithmetic) (exactly .i4 exact') := by
  have hRange : Width.i4.holds exact' ↔ -2 ^ 31 ≤ exact' ∧ exact' < 2 ^ 31 := by
    show -2 ^ 31 ≤ exact' ∧ exact' ≤ 2 ^ 31 - 1 ↔ _
    omega
  unfold checkedSigned exactly
  by_cases hFits : -2 ^ 31 ≤ exact' ∧ exact' < 2 ^ 31
  · rw [if_pos hFits, if_pos (hRange.2 hFits), h]
    exact rfl
  · rw [if_neg hFits, if_neg (mt hRange.1 hFits)]
    exact rfl

theorem checkedUnsigned_exactly {exact' : Int} {wrapped : UInt32} (h : wrapped.toInt32 = word exact') :
    Yields ((orRefuse (checkedUnsigned exact' wrapped) .arithmetic).map UInt32.toInt32) (exactly .u4 exact') := by
  have hRange : Width.u4.holds exact' ↔ 0 ≤ exact' ∧ exact' < 2 ^ 32 := by
    show 0 ≤ exact' ∧ exact' ≤ 2 ^ 32 - 1 ↔ _
    omega
  unfold checkedUnsigned exactly
  by_cases hFits : 0 ≤ exact' ∧ exact' < 2 ^ 32
  · rw [if_pos hFits, if_pos (hRange.2 hFits), ← h]
    exact rfl
  · rw [if_neg hFits, if_neg (mt hRange.1 hFits)]
    exact rfl

theorem tryFrom_exactly (target : Width) {value : Int} :
    Yields (orRefuse (tryFrom target.range.1 target.range.2 value) .arithmetic) (exactly target value) := by
  unfold tryFrom exactly
  by_cases hFits : target.range.1 ≤ value ∧ value ≤ target.range.2
  · rw [if_pos hFits, if_pos (show target.holds value from hFits)]
    exact rfl
  · rw [if_neg hFits, if_neg (show ¬target.holds value from hFits)]
    exact rfl

end Outcomes

section Binary

variable (left right : Int32)

theorem toInt_eq_zero : right.toInt = 0 ↔ right = 0 := by
  rw [← Int32.toInt_zero, Int32.toInt_inj]

theorem smallest_iff : left.toInt = -2 ^ 31 ↔ left = Int32.minValue := by
  rw [← Int32.toInt_minValue, Int32.toInt_inj]

theorem minusOne_iff : right.toInt = -1 ↔ right = -1 := by
  have hOne : (-1 : Int32).toInt = -1 := by decide
  rw [← hOne, Int32.toInt_inj]

/-- A quotient fits, but for the smallest word by minus one. -/
theorem quotient_fits : Width.i4.holds (left.toInt.tdiv right.toInt) ↔ ¬(left = Int32.minValue ∧ right = -1) := by
  have hWord : ∀ word : Int32, Width.i4.holds word.toInt := by
    intro word
    have hLow := word.le_toInt
    have hHigh := word.toInt_lt
    show -2 ^ 31 ≤ word.toInt ∧ word.toInt ≤ 2 ^ 31 - 1
    omega
  constructor
  · rintro hFits ⟨rfl, rfl⟩
    exact absurd hFits (by decide)
  · intro hOther
    by_cases hLeft : left = Int32.minValue
    · rw [← Int32.toInt_div_of_ne_right left right (fun hRight => hOther ⟨hLeft, hRight⟩)]
      exact hWord _
    · rw [← Int32.toInt_div_of_ne_left left right hLeft]
      exact hWord _

theorem unsigned_toUInt32 (value : Int32) : unsigned value = (value.toUInt32.toNat : Int) := rfl

/-- Only the low bits of an integer make a difference. -/
theorem word_emod (exact' : Int) : word (exact' % 2 ^ 32) = word exact' := by
  apply Int32.toInt.inj
  unfold word
  rw [Int32.toInt_ofInt, Int32.toInt_ofInt]
  exact Int.emod_bmod exact' (2 ^ 32)

theorem toInt32_word {value : UInt32} {exact' : Int} (h : (value.toNat : Int) = exact' % 2 ^ 32) : value.toInt32 = word exact' := by
  rw [toInt32_eq_word, h, word_emod]

theorem addUnsigned_word : (left.toUInt32 + right.toUInt32).toInt32 = word (unsigned left + unsigned right) := by
  apply toInt32_word
  rw [UInt32.toNat_add, unsigned_toUInt32, unsigned_toUInt32]
  omega

theorem subUnsigned_word : (left.toUInt32 - right.toUInt32).toInt32 = word (unsigned left - unsigned right) := by
  have hLess := right.toUInt32.toNat_lt
  apply toInt32_word
  rw [UInt32.toNat_sub, unsigned_toUInt32, unsigned_toUInt32]
  omega

theorem mulUnsigned_word : (left.toUInt32 * right.toUInt32).toInt32 = word (unsigned left * unsigned right) := by
  apply toInt32_word
  rw [UInt32.toNat_mul, unsigned_toUInt32, unsigned_toUInt32, Int.natCast_emod, Int.natCast_mul]
  rfl

theorem divUnsigned_word : (left.toUInt32 / right.toUInt32).toInt32 = word (unsigned left / unsigned right) := by
  rw [toInt32_eq_word, UInt32.toNat_div, Int.natCast_ediv]
  rfl

theorem remUnsigned_word : (left.toUInt32 % right.toUInt32).toInt32 = word (unsigned left % unsigned right) := by
  rw [toInt32_eq_word, UInt32.toNat_mod, Int.natCast_emod]
  rfl

end Binary

section Shifts

variable (left right : Int32)

/-- The amount that a shift is by. -/
theorem shift_amount : (right.toUInt32 &&& 31).toNat = right.toUInt32.toNat % 32 := by
  rw [UInt32.toNat_and]
  exact Nat.and_two_pow_sub_one_eq_mod _ 5

theorem smod_small {n : Nat} (h : n < 32) : (BitVec.ofNat 32 n).smod 32 = BitVec.ofNat 32 n := by
  have hInt : (BitVec.ofNat 32 n).toInt = n := by
    rw [BitVec.toInt_eq_toNat_of_lt (by rw [BitVec.toNat_ofNat]; omega), BitVec.toNat_ofNat]
    omega
  apply BitVec.eq_of_toInt_eq
  rw [BitVec.toInt_smod, hInt]
  change Int.fmod n 32 = n
  rw [Int.fmod_eq_emod_of_nonneg _ (by decide)]
  omega

theorem shift_smod : (right.toUInt32 &&& 31).toInt32.toBitVec.smod 32 = BitVec.ofNat 32 (right.toUInt32.toNat % 32) := by
  have hAmount : (right.toUInt32 &&& 31).toInt32.toBitVec = BitVec.ofNat 32 (right.toUInt32.toNat % 32) := by
    apply BitVec.eq_of_toNat_eq
    rw [UInt32.toBitVec_toInt32, UInt32.toNat_toBitVec, shift_amount, BitVec.toNat_ofNat]
    omega
  rw [hAmount]
  exact smod_small (Nat.mod_lt _ (by decide))

theorem shiftLeft_word (h : unsigned right < 32) :
    left <<< (right.toUInt32 &&& 31).toInt32 = word (left.toInt * 2 ^ (unsigned right).toNat) := by
  have hSmall : right.toUInt32.toNat % 32 = (unsigned right).toNat := by
    rw [unsigned_toUInt32] at h ⊢
    omega
  have hShift : (unsigned right).toNat % 2 ^ 32 = (unsigned right).toNat := by omega
  apply word_eq
  rw [← Int32.toInt_toBitVec, Int32.toBitVec_shiftLeft, shift_smod, hSmall, BitVec.shiftLeft_eq', BitVec.toInt_shiftLeft,
    BitVec.toNat_ofNat, hShift, Nat.shiftLeft_eq, Int.natCast_mul, Int.natCast_pow]
  rw [← Int32.toInt_toBitVec, BitVec.toInt_eq_toNat_bmod, Int.bmod_mul_bmod]
  rfl

theorem shiftRight_word (h : unsigned right < 32) :
    left >>> (right.toUInt32 &&& 31).toInt32 = word (left.toInt / 2 ^ (unsigned right).toNat) := by
  have hSmall : right.toUInt32.toNat % 32 = (unsigned right).toNat := by
    rw [unsigned_toUInt32] at h ⊢
    omega
  have hShift : (unsigned right).toNat % 2 ^ 32 = (unsigned right).toNat := by omega
  have hValue : (left >>> (right.toUInt32 &&& 31).toInt32).toInt = left.toInt / 2 ^ (unsigned right).toNat := by
    rw [← Int32.toInt_toBitVec, Int32.toBitVec_shiftRight, shift_smod, hSmall, BitVec.sshiftRight_eq', BitVec.toInt_sshiftRight,
      BitVec.toNat_ofNat, hShift, Int.shiftRight_eq_div_pow]
    rfl
  rw [← hValue, word_toInt]

theorem shiftRightUnsigned_word (h : unsigned right < 32) :
    (left.toUInt32 >>> (right.toUInt32 &&& 31)).toInt32 = word (unsigned left / 2 ^ (unsigned right).toNat) := by
  have hSmall : right.toUInt32.toNat % 32 % 32 = (unsigned right).toNat := by
    rw [unsigned_toUInt32] at h ⊢
    omega
  rw [toInt32_eq_word, UInt32.toNat_shiftRight, shift_amount, hSmall, Nat.shiftRight_eq_div_pow, Int.natCast_ediv,
    Int.natCast_pow]
  rfl

end Shifts

section Operations

variable (left right : Int32)

/-- Every operation on two words yields an outcome that the standard allows. -/
theorem binaryOp_yields (op : BinaryOp) :
    ∃ outcome, op.Allows left right outcome ∧ Yields (binaryOp op.encoding left right) outcome := by
  cases op with
  | add => exact ⟨_, rfl, congrArg Except.ok (word_eq (Int32.toInt_add left right))⟩
  | sub => exact ⟨_, rfl, congrArg Except.ok (word_eq (Int32.toInt_sub left right))⟩
  | mul => exact ⟨_, rfl, congrArg Except.ok (word_eq (Int32.toInt_mul left right))⟩
  | and => exact ⟨_, rfl, yields_ok _⟩
  | or => exact ⟨_, rfl, yields_ok _⟩
  | xor => exact ⟨_, rfl, yields_ok _⟩
  | addOvf => exact ⟨_, rfl, checkedSigned_exactly (word_eq (Int32.toInt_add left right))⟩
  | subOvf => exact ⟨_, rfl, checkedSigned_exactly (word_eq (Int32.toInt_sub left right))⟩
  | mulOvf => exact ⟨_, rfl, checkedSigned_exactly (word_eq (Int32.toInt_mul left right))⟩
  | addOvfUn =>
      have hExact := checkedUnsigned_exactly (addUnsigned_word left right)
      exact ⟨_, rfl, hExact⟩
  | subOvfUn =>
      have hExact := checkedUnsigned_exactly (subUnsigned_word left right)
      exact ⟨_, rfl, hExact⟩
  | mulOvfUn =>
      have hExact := checkedUnsigned_exactly (mulUnsigned_word left right)
      exact ⟨_, rfl, hExact⟩
  | div =>
      apply Exists.intro (if right.toInt = 0 then .divideByZero else exactly .i4 (left.toInt.tdiv right.toInt))
      constructor
      · rfl
      · show Yields (orRefuse (checkedDiv left right) .arithmetic) _
        unfold checkedDiv
        by_cases hZero : right = 0
        · rw [if_pos (.inl hZero), if_pos ((toInt_eq_zero right).2 hZero)]
          exact rfl
        · rw [if_neg (mt (toInt_eq_zero right).1 hZero)]
          unfold exactly
          by_cases hOverflow : left = Int32.minValue ∧ right = -1
          · rw [if_pos (.inr hOverflow), if_neg (fun hFits => (quotient_fits left right).1 hFits hOverflow)]
            exact rfl
          · rw [if_neg (not_or.2 ⟨hZero, hOverflow⟩), if_pos ((quotient_fits left right).2 hOverflow)]
            exact congrArg Except.ok (word_eq (Int32.toInt_div left right))
  | divUn =>
      apply Exists.intro (if unsigned right = 0 then .divideByZero else .value (word (unsigned left / unsigned right)))
      constructor
      · rfl
      · show Yields ((orRefuse (checkedDivUnsigned left.toUInt32 right.toUInt32) .arithmetic).map UInt32.toInt32) _
        unfold checkedDivUnsigned
        by_cases hZero : right.toUInt32 = 0
        · rw [if_pos hZero, if_pos (unsigned_eq_zero.2 hZero)]
          exact rfl
        · rw [if_neg hZero, if_neg (mt unsigned_eq_zero.1 hZero)]
          exact congrArg Except.ok (divUnsigned_word left right)
  | rem =>
      by_cases hOverflow : left = Int32.minValue ∧ right = -1
      · apply Exists.intro Outcome.overflow
        constructor
        · exact .inr ⟨(smallest_iff left).2 hOverflow.1, (minusOne_iff right).2 hOverflow.2, rfl⟩
        · show Yields (orRefuse (checkedRem left right) .arithmetic) _
          unfold checkedRem
          rw [if_pos (.inr hOverflow)]
          exact rfl
      · apply Exists.intro (if right.toInt = 0 then .divideByZero else .value (word (left.toInt.tmod right.toInt)))
        constructor
        · exact .inl rfl
        · show Yields (orRefuse (checkedRem left right) .arithmetic) _
          unfold checkedRem
          by_cases hZero : right = 0
          · rw [if_pos (.inl hZero), if_pos ((toInt_eq_zero right).2 hZero)]
            exact rfl
          · rw [if_neg (not_or.2 ⟨hZero, hOverflow⟩), if_neg (mt (toInt_eq_zero right).1 hZero), ← Int32.toInt_mod, word_toInt]
            exact rfl
  | remUn =>
      apply Exists.intro (if unsigned right = 0 then .divideByZero else .value (word (unsigned left % unsigned right)))
      constructor
      · rfl
      · show Yields ((orRefuse (checkedRemUnsigned left.toUInt32 right.toUInt32) .arithmetic).map UInt32.toInt32) _
        unfold checkedRemUnsigned
        by_cases hZero : right.toUInt32 = 0
        · rw [if_pos hZero, if_pos (unsigned_eq_zero.2 hZero)]
          exact rfl
        · rw [if_neg hZero, if_neg (mt unsigned_eq_zero.1 hZero)]
          exact congrArg Except.ok (remUnsigned_word left right)
  | shl =>
      apply Exists.intro (Outcome.value (left <<< (right.toUInt32 &&& 31).toInt32))
      refine ⟨?_, yields_ok _⟩
      show if unsigned right < 32 then _ else _
      split
      · rename_i hSmall
        rw [shiftLeft_word left right hSmall]
      · exact ⟨_, rfl⟩
  | shr =>
      apply Exists.intro (Outcome.value (left >>> (right.toUInt32 &&& 31).toInt32))
      refine ⟨?_, yields_ok _⟩
      show if unsigned right < 32 then _ else _
      split
      · rename_i hSmall
        rw [shiftRight_word left right hSmall]
      · exact ⟨_, rfl⟩
  | shrUn =>
      apply Exists.intro (Outcome.value (left.toUInt32 >>> (right.toUInt32 &&& 31)).toInt32)
      refine ⟨?_, yields_ok _⟩
      show if unsigned right < 32 then _ else _
      split
      · rename_i hSmall
        rw [shiftRightUnsigned_word left right hSmall]
      · exact ⟨_, rfl⟩

/-- Conversions keep low bits, as signed or as unsigned ones. -/
theorem conv_yields (target : Width) (value : Int32) :
    Yields (unaryOp (UnaryOp.encoding (.conv target)) value) (.value (word (target.truncate value.toInt))) := by
  have hReadings := toInt_eq value
  have hRange := unsigned_range value
  rw [unsigned_toUInt32] at hReadings hRange
  cases target with
  | i1 =>
      apply congrArg Except.ok
      rw [← word_toInt value.toInt8.toInt32, Int8.toInt_toInt32, Int32.toInt_toInt8]
      rfl
  | i2 =>
      apply congrArg Except.ok
      rw [← word_toInt value.toInt16.toInt32, Int16.toInt_toInt32, Int32.toInt_toInt16]
      rfl
  | i4 =>
      apply congrArg Except.ok
      have hSame : value.toInt.bmod (2 ^ 32) = value.toInt := Int32.toInt_bmod value
      show value = word (value.toInt.bmod (2 ^ 32))
      rw [hSame, word_toInt]
  | u4 =>
      apply congrArg Except.ok
      show value = word (value.toInt % 2 ^ 32)
      rw [word_emod, word_toInt]
  | u1 =>
      apply congrArg Except.ok
      rw [toInt32_eq_word, UInt8.toNat_toUInt32, UInt32.toNat_toUInt8]
      apply congrArg word
      show ((value.toUInt32.toNat % 2 ^ 8 : Nat) : Int) = value.toInt % 2 ^ 8
      split at hReadings <;> omega
  | u2 =>
      apply congrArg Except.ok
      rw [toInt32_eq_word, UInt16.toNat_toUInt32, UInt32.toNat_toUInt16]
      apply congrArg word
      show ((value.toUInt32.toNat % 2 ^ 16 : Nat) : Int) = value.toInt % 2 ^ 16
      split at hReadings <;> omega

theorem convOvf_yields (target : Width) (value : Int32) :
    Yields (unaryOp (UnaryOp.encoding (.convOvf target)) value) (exactly target value.toInt) := by
  cases target with
  | i4 =>
      have hLow := value.le_toInt
      have hHigh := value.toInt_lt
      have hHolds : Width.i4.holds value.toInt := by
        show -2 ^ 31 ≤ value.toInt ∧ value.toInt ≤ 2 ^ 31 - 1
        omega
      unfold exactly
      rw [if_pos hHolds, word_toInt]
      exact rfl
  | i1 => exact tryFrom_exactly .i1
  | i2 => exact tryFrom_exactly .i2
  | u1 => exact tryFrom_exactly .u1
  | u2 => exact tryFrom_exactly .u2
  | u4 => exact tryFrom_exactly .u4

/-- The conversion to a signed word does not check the sign bit. -/
theorem convOvfUn_yields_iff (target : Width) (value : Int32) :
    Yields (unaryOp (UnaryOp.encoding (.convOvfUn target)) value) (exactly target (unsigned value)) ↔
      ¬(target = .i4 ∧ value.toInt < 0) := by
  have hReadings := toInt_eq value
  have hRange := unsigned_range value
  have hSame : value = word (unsigned value) := (word_unsigned value).symm
  cases target with
  | i4 =>
      have hHolds : Width.i4.holds (unsigned value) ↔ unsigned value < 2 ^ 31 := by
        show -2 ^ 31 ≤ unsigned value ∧ unsigned value ≤ 2 ^ 31 - 1 ↔ _
        omega
      have hSign : unsigned value < 2 ^ 31 ↔ ¬value.toInt < 0 := by
        split at hReadings <;> omega
      show Yields (.ok value) (if Width.i4.holds (unsigned value) then .value (word (unsigned value)) else .overflow) ↔ _
      rw [← hSame]
      by_cases hNegative : value.toInt < 0
      · rw [if_neg (by rw [hHolds, hSign]; exact not_not.2 hNegative)]
        constructor
        · intro hYields
          cases hYields
        · exact fun hOther => absurd ⟨rfl, hNegative⟩ hOther
      · rw [if_pos (hHolds.2 (hSign.2 hNegative))]
        exact ⟨fun _ hOther => hNegative hOther.2, fun _ => rfl⟩
  | u4 =>
      have hHolds : Width.u4.holds (unsigned value) := by
        show 0 ≤ unsigned value ∧ unsigned value ≤ 2 ^ 32 - 1
        omega
      show Yields (.ok value) (if Width.u4.holds (unsigned value) then .value (word (unsigned value)) else .overflow) ↔ _
      rw [if_pos hHolds, ← hSame]
      exact ⟨fun _ hOther => (nomatch hOther.1), fun _ => rfl⟩
  | i1 => exact ⟨fun _ hOther => (nomatch hOther.1), fun _ => tryFrom_exactly .i1⟩
  | i2 => exact ⟨fun _ hOther => (nomatch hOther.1), fun _ => tryFrom_exactly .i2⟩
  | u1 => exact ⟨fun _ hOther => (nomatch hOther.1), fun _ => tryFrom_exactly .u1⟩
  | u2 => exact ⟨fun _ hOther => (nomatch hOther.1), fun _ => tryFrom_exactly .u2⟩

theorem unaryOp_yields_iff (op : UnaryOp) (value : Int32) :
    (∃ outcome, op.Allows value outcome ∧ Yields (unaryOp op.encoding value) outcome) ↔
      ¬(op = .convOvfUn .i4 ∧ value.toInt < 0) := by
  cases op with
  | neg => exact ⟨fun _ hOther => (nomatch hOther.1), fun _ => ⟨_, rfl, congrArg Except.ok (word_eq (Int32.toInt_neg value))⟩⟩
  | not => exact ⟨fun _ hOther => (nomatch hOther.1), fun _ => ⟨_, rfl, yields_ok _⟩⟩
  | conv target => exact ⟨fun _ hOther => (nomatch hOther.1), fun _ => ⟨_, rfl, conv_yields target value⟩⟩
  | convOvf target => exact ⟨fun _ hOther => (nomatch hOther.1), fun _ => ⟨_, rfl, convOvf_yields target value⟩⟩
  | convOvfUn target =>
      have hTarget : UnaryOp.convOvfUn target = .convOvfUn .i4 ↔ target = .i4 := by
        constructor
        · exact fun hSame => UnaryOp.convOvfUn.inj hSame
        · exact congrArg _
      rw [hTarget, ← convOvfUn_yields_iff]
      constructor
      · rintro ⟨outcome, rfl, hYields⟩
        exact hYields
      · exact fun hYields => ⟨_, rfl, hYields⟩

theorem compareInts_holds (comparison : Comparison) {holds : Int32 → Int32 → Bool}
    (h : holds left right = comparison.holds left right) :
    compareInts holds (.int left) (.int right) = .ok (comparison.holds left right) := congrArg Except.ok h

theorem eq_holds : decide (RuntimeValue.int left = .int right) = Comparison.eq.holds left right := by
  simp [Comparison.holds, Int32.toInt_inj]

theorem ne_holds : decide (RuntimeValue.int left ≠ .int right) = Comparison.ne.holds left right := by
  simp [Comparison.holds, Int32.toInt_inj]

/-- The comparison of a branch is that of the standard. -/
theorem branchComparison_holds (comparison : Comparison) :
    branchComparison comparison.branchIndex (.int left) (.int right) = .ok (comparison.holds left right) := by
  cases comparison with
  | eq => exact congrArg Except.ok (eq_holds left right)
  | ne => exact congrArg Except.ok (ne_holds left right)
  | ge => exact compareInts_holds left right .ge (by simp [Comparison.holds, Int32.le_iff_toInt_le])
  | gt => exact compareInts_holds left right .gt (by simp [Comparison.holds, Int32.lt_iff_toInt_lt])
  | le => exact compareInts_holds left right .le (by simp [Comparison.holds, Int32.le_iff_toInt_le])
  | lt => exact compareInts_holds left right .lt (by simp [Comparison.holds, Int32.lt_iff_toInt_lt])
  | geUn => exact compareInts_holds left right .geUn (by simp [Comparison.holds, unsigned, UInt32.le_iff_toNat_le])
  | gtUn => exact compareInts_holds left right .gtUn (by simp [Comparison.holds, unsigned, UInt32.lt_iff_toNat_lt])
  | leUn => exact compareInts_holds left right .leUn (by simp [Comparison.holds, unsigned, UInt32.le_iff_toNat_le])
  | ltUn => exact compareInts_holds left right .ltUn (by simp [Comparison.holds, unsigned, UInt32.lt_iff_toNat_lt])

theorem compareOp_holds {comparison : Comparison} {value : Nat} (h : comparison.encoding = some value) :
    compareOp value (.int left) (.int right) = .ok (comparison.holds left right) := by
  cases comparison with
  | eq =>
      cases h
      exact congrArg Except.ok (eq_holds left right)
  | gt =>
      cases h
      exact branchComparison_holds left right .gt
  | gtUn =>
      cases h
      exact branchComparison_holds left right .gtUn
  | lt =>
      cases h
      exact branchComparison_holds left right .lt
  | ltUn =>
      cases h
      exact branchComparison_holds left right .ltUn
  | _ => cases h

end Operations

section Instructions

/-- The rules that the verifier has for the integer instructions. -/
def TypeRule.integer : TypeRule → Bool
  | .binary | .unary | .equal | .compare | .branchTruth _ | .branchEqual _ | .branchCompare _ => true
  | _ => false

/-- The integer instructions that the verifier admits. -/
def Admitted (value : Nat) : Prop := (Opcode.lookup value).isSome ∧ (typeRule value).any TypeRule.integer

instance (value : Nat) : Decidable (Admitted value) := inferInstanceAs (Decidable (_ ∧ _))

/-- All integer instructions. -/
def allInstructions : List Instruction :=
  List.flatten [
    List.map Instruction.binary [.add, .sub, .mul, .div, .divUn, .rem, .remUn, .and, .or, .xor, .shl, .shr, .shrUn, .addOvf,
      .addOvfUn, .mulOvf, .mulOvfUn, .subOvf, .subOvfUn],
    List.map Instruction.unary [.neg, .not],
    List.flatMap (fun width => [.unary (.conv width), .unary (.convOvf width), .unary (.convOvfUn width)])
      [.i1, .i2, .i4, .u1, .u2, .u4],
    List.flatMap (fun comparison => [.compare comparison, .branch comparison true, .branch comparison false])
      [.eq, .ne, .ge, .gt, .le, .lt, .geUn, .gtUn, .leUn, .ltUn],
    [.branchTruth true true, .branchTruth true false, .branchTruth false true, .branchTruth false false]]

theorem admitted_encoding {instruction : Instruction} {value : Nat} (h : instruction.encoding = some value) : Admitted value := by
  cases instruction with
  | binary op => cases op <;> cases h <;> decide
  | unary op =>
      cases op with
      | neg => cases h; decide
      | not => cases h; decide
      | conv width => cases width <;> cases h <;> decide
      | convOvf width => cases width <;> cases h <;> decide
      | convOvfUn width => cases width <;> cases h <;> decide
  | compare comparison => cases comparison <;> cases h <;> decide
  | branch comparison short => cases comparison <;> cases short <;> cases h <;> decide
  | branchTruth expected short => cases expected <;> cases short <;> cases h <;> decide

/-- The verifier admits the integer instructions of the standard, each under its encoding,
and no other ones. -/
theorem admitted_iff (value : Nat) : Admitted value ↔ ∃ instruction : Instruction, instruction.encoding = some value := by
  constructor
  · rintro ⟨hLookup, hRule⟩
    obtain ⟨opcode, hOpcode⟩ := Option.isSome_iff_exists.1 hLookup
    have hAll : ∀ value ∈ opcodeValues, Admitted value →
        (allInstructions.any fun instruction => instruction.encoding = some value) = true := by decide +kernel
    obtain ⟨instruction, -, hEncoding⟩ := List.any_eq_true.1 (hAll value (lookup_value hOpcode) ⟨hLookup, hRule⟩)
    exact ⟨instruction, of_decide_eq_true hEncoding⟩
  · rintro ⟨instruction, hEncoding⟩
    exact admitted_encoding hEncoding

/-- The first byte of an instruction. -/
def firstByte (value : Nat) : Nat := if value ≤ 0xff then value else 0xfe

end Instructions

section Execution

/-- A machine with integers on top of its stack. -/
def Machine.withOperands (machine : Machine) (operands : List Int32) : Machine :=
  machine.withStack ⟨machine.stack.values ++ operands.map .int, machine.stack.peak⟩

/-- Go to the target of a branch, or to the next instruction. -/
def branchIf (machine : Machine) (code : List Byte) (pc next : Nat) (short take : Bool) : Checked Progress := do
  let delta ← branchDelta code pc short
  if take = true then do
    let target ← branchTo next delta
    pure (.next (machine.jump target))
  else pure (.next machine)

/-- A machine does what an outcome says: it pushes a word, it goes to where it branches, or it
stops. -/
def Behaves (machine : Machine) (code : List Byte) (pc next : Nat) (short : Bool) (result : Checked Progress) : Outcome → Prop
  | .value word => result = .ok (pushInt machine machine.stack word)
  | .taken branches => result = branchIf machine code pc next short branches
  | .overflow | .divideByZero => result = .error (.refused .arithmetic)

/-- Whether an instruction is the short form of a branch. -/
def isShort : Instruction → Bool
  | .branch _ short => short
  | .branchTruth _ short => short
  | _ => false

variable {machine : Machine} {frame : Frame}

theorem pop_last {values : List RuntimeValue} {floor : Nat} (hFloor : floor ≤ values.length) (peak : Nat) (value : RuntimeValue) :
    EvaluationStack.pop ⟨values ++ [value], peak⟩ floor = .ok (value, ⟨values, peak⟩) := by
  have hSome : ¬(values ++ [value]).length ≤ floor := by
    rw [List.length_append, List.length_singleton]
    omega
  simp only [EvaluationStack.pop, refuseIf, CrashTriple.failIf, if_neg hSome, orRefuse, CrashTriple.orFail,
    List.getLast?_concat, List.dropLast_concat]
  rfl

theorem popInt_last {values : List RuntimeValue} {floor : Nat} (hFloor : floor ≤ values.length) (peak : Nat) (value : Int32) :
    EvaluationStack.popInt ⟨values ++ [.int value], peak⟩ floor = .ok (value, ⟨values, peak⟩) := by
  unfold EvaluationStack.popInt
  rw [pop_last hFloor]
  rfl

/-- Of two operands, the right one is on top. -/
theorem withOperands_two (left right : Int32) :
    (machine.withOperands [left, right]).stack = ⟨(machine.stack.values ++ [.int left]) ++ [.int right], machine.stack.peak⟩ := by
  simp [Machine.withOperands, Machine.withStack]

theorem Behaves.of_yields {code : List Byte} {pc next : Nat} {short : Bool} {result : Checked Int32} {outcome : Outcome}
    {progress : Checked Progress} (hProgress : progress = result >>= fun value => pure (pushInt machine machine.stack value)) :
    Yields result outcome → Behaves machine code pc next short progress outcome := by
  intro hYields
  cases outcome with
  | value word =>
      rw [hYields] at hProgress
      exact hProgress
  | overflow =>
      rw [hYields] at hProgress
      exact hProgress
  | divideByZero =>
      rw [hYields] at hProgress
      exact hProgress
  | taken _ => exact hYields.elim

/-- What pushes a word or stops yields the outcome that it behaves like. -/
theorem Behaves.yields {code : List Byte} {pc next : Nat} {short : Bool} {result : Checked Int32} {outcome : Outcome}
    {progress : Checked Progress} (hProgress : progress = result >>= fun value => pure (pushInt machine machine.stack value))
    (hTaken : ∀ branches, outcome ≠ .taken branches) : Behaves machine code pc next short progress outcome → Yields result outcome := by
  intro hBehaves
  cases outcome with
  | taken branches => exact absurd rfl (hTaken branches)
  | value word =>
      cases result with
      | error halt =>
          rw [hProgress] at hBehaves
          cases hBehaves
      | ok value =>
          rw [hProgress] at hBehaves
          have hStack := congrArg EvaluationStack.values (congrArg Machine.stack (Progress.next.inj (Except.ok.inj hBehaves)))
          have hSame := RuntimeValue.int.inj (List.singleton_inj.1 (List.append_cancel_left hStack))
          exact congrArg Except.ok hSame
  | overflow =>
      cases result with
      | error halt =>
          rw [hProgress] at hBehaves
          exact congrArg Except.error (Except.error.inj hBehaves)
      | ok value =>
          rw [hProgress] at hBehaves
          cases hBehaves
  | divideByZero =>
      cases result with
      | error halt =>
          rw [hProgress] at hBehaves
          exact congrArg Except.error (Except.error.inj hBehaves)
      | ok value =>
          rw [hProgress] at hBehaves
          cases hBehaves

theorem binary_runs (hFloor : frame.evaluationBase ≤ machine.stack.values.length) (opcode : Nat) (left right : Int32) :
    binary (machine.withOperands [left, right]) frame opcode =
      binaryOp opcode left right >>= fun value => pure (pushInt machine machine.stack value) := by
  have hLeft : frame.evaluationBase ≤ (machine.stack.values ++ [RuntimeValue.int left]).length :=
    hFloor.trans (by rw [List.length_append]; exact Nat.le_add_right _ _)
  unfold binary
  rw [withOperands_two]
  rw [popInt_last hLeft]
  change (EvaluationStack.popInt ⟨machine.stack.values ++ [.int left], machine.stack.peak⟩ frame.evaluationBase >>= _) = _
  rw [popInt_last hFloor]
  rfl

theorem unary_runs (hFloor : frame.evaluationBase ≤ machine.stack.values.length) (opcode : Nat) (value : Int32) :
    unary (machine.withOperands [value]) frame opcode =
      unaryOp opcode value >>= fun value => pure (pushInt machine machine.stack value) := by
  unfold unary
  change (EvaluationStack.popInt ⟨machine.stack.values ++ [.int value], machine.stack.peak⟩ frame.evaluationBase >>= _) = _
  rw [popInt_last hFloor]
  rfl

theorem compare_runs (hFloor : frame.evaluationBase ≤ machine.stack.values.length) (value : Nat) (left right : Int32) :
    compare (machine.withOperands [left, right]) frame value =
      compareOp value (.int left) (.int right) >>= fun result =>
        pure (pushInt machine machine.stack (if result = true then 1 else 0)) := by
  have hLeft : frame.evaluationBase ≤ (machine.stack.values ++ [RuntimeValue.int left]).length :=
    hFloor.trans (by rw [List.length_append]; exact Nat.le_add_right _ _)
  unfold compare
  rw [withOperands_two]
  rw [pop_last hLeft]
  change (EvaluationStack.pop ⟨machine.stack.values ++ [.int left], machine.stack.peak⟩ frame.evaluationBase >>= _) = _
  rw [pop_last hFloor]
  rfl

/-- A branch whose decision is known goes there or on. -/
theorem branch_runs {operands : List Int32} {code : List Byte} {pc next kind : Nat} {short take : Bool}
    (hTakes : takes (machine.withOperands operands).stack frame.evaluationBase kind = .ok (take, machine.stack)) :
    branch (machine.withOperands operands) frame code pc next kind short = branchIf machine code pc next short take := by
  unfold branch branchIf
  rw [hTakes]
  cases branchDelta code pc short with
  | error halt => rfl
  | ok delta => cases take <;> rfl

theorem takes_comparison (hFloor : frame.evaluationBase ≤ machine.stack.values.length) (comparison : Comparison)
    (left right : Int32) : takes (machine.withOperands [left, right]).stack frame.evaluationBase comparison.branchIndex =
      .ok (comparison.holds left right, machine.stack) := by
  have hLeft : frame.evaluationBase ≤ (machine.stack.values ++ [RuntimeValue.int left]).length :=
    hFloor.trans (by rw [List.length_append]; exact Nat.le_add_right _ _)
  have hKind : comparison.branchIndex ≠ 0 ∧ ¬(comparison.branchIndex = 1 ∨ comparison.branchIndex = 2) := by
    cases comparison <;> decide
  unfold takes
  rw [if_neg hKind.1, if_neg hKind.2, withOperands_two]
  rw [pop_last hLeft]
  change (EvaluationStack.pop ⟨machine.stack.values ++ [.int left], machine.stack.peak⟩ frame.evaluationBase >>= _) = _
  rw [pop_last hFloor]
  change (branchComparison comparison.branchIndex (.int left) (.int right) >>= _) = _
  rw [branchComparison_holds]
  rfl

theorem takes_truth (hFloor : frame.evaluationBase ≤ machine.stack.values.length) (expected : Bool) (value : Int32) :
    takes (machine.withOperands [value]).stack frame.evaluationBase (if expected = true then 2 else 1) =
      .ok (decide (value.toInt ≠ 0) = expected, machine.stack) := by
  have hTruth : RuntimeValue.truth (.int value) = decide (value.toInt ≠ 0) := by
    simp [RuntimeValue.truth, toInt_eq_zero]
  unfold takes
  rw [if_neg (by cases expected <;> decide), if_pos (by cases expected <;> decide)]
  change (EvaluationStack.pop ⟨machine.stack.values ++ [.int value], machine.stack.peak⟩ frame.evaluationBase >>= _) = _
  rw [pop_last hFloor]
  change Except.ok (if (if expected = true then 2 else 1) = 2 then RuntimeValue.truth (.int value)
    else !RuntimeValue.truth (.int value), machine.stack) = _
  rw [hTruth]
  cases expected with
  | true => cases decide (value.toInt ≠ 0) <;> rfl
  | false => cases decide (value.toInt ≠ 0) <;> rfl

/-- Run an instruction by its value, as a step does once it has read it. -/
def runInstruction (units : List Assembly) (resolve : Nat → Nat → Checked LinkedTarget) (allocator : Nat → Bool)
    (machine : Machine) (frame : Frame) (assembly : Assembly) (code : List Byte) (pc next value : Nat) : Checked Progress := do
  let operation ← orRefuse (operation (firstByte value)) Error.unsupported
  execute units resolve allocator operation machine frame assembly code pc next value

theorem fetch_firstByte {units : List Assembly} {fetched : Fetched} (h : fetch units machine = .ok fetched) :
    firstByte fetched.value = fetched.opcode := by
  simp only [fetch, Checks.bind_ok, Checks.pure_ok] at h
  obtain ⟨frame, -, assembly, -, method, -, opcode, -, value, hValue, width, -, rfl⟩ := h
  have hOpcode := opcode.toNat_lt
  by_cases hPrefix : opcode.toNat = 0xfe
  · simp only [opcodeValue, if_pos hPrefix, Checks.bind_ok, Checks.pure_ok] at hValue
    obtain ⟨second, -, rfl⟩ := hValue
    show firstByte (0xfe00 + second.toNat) = opcode.toNat
    rw [firstByte, if_neg (by omega), hPrefix]
  · simp only [opcodeValue, if_neg hPrefix, Checks.pure_ok] at hValue
    rw [← hValue]
    show firstByte opcode.toNat = opcode.toNat
    rw [firstByte, if_pos (by omega)]

/-- A step runs the instruction that it read. -/
theorem step_runs (units : List Assembly) (resolve : Nat → Nat → Checked LinkedTarget) (allocator : Nat → Bool)
    (cancelled : Nat → Bool) (machine : Machine) : step units resolve allocator cancelled machine = (do
      let machine ← account cancelled machine
      let fetched ← fetch units machine
      let progress ← runInstruction units resolve allocator (machine.jump fetched.next) fetched.frame fetched.assembly
        fetched.code fetched.frame.pc fetched.next fetched.value
      checkStack progress) := by
  unfold step
  cases account cancelled machine with
  | error halt => rfl
  | ok machine =>
      change (fetch units machine >>= _) = (fetch units machine >>= _)
      cases hFetch : fetch units machine with
      | error halt => rfl
      | ok fetched =>
          change (orRefuse (operation fetched.opcode) Error.unsupported >>= _) = (runInstruction units resolve allocator
            (machine.jump fetched.next) fetched.frame fetched.assembly fetched.code fetched.frame.pc fetched.next
            fetched.value >>= _)
          unfold runInstruction
          rw [fetch_firstByte hFetch]
          cases operation fetched.opcode with
          | none => rfl
          | some operation => rfl

/-- What each integer instruction runs. -/
def operationOf : Instruction → Operation
  | .binary _ => .binary
  | .unary _ => .unary
  | .compare _ => .compare
  | .branch comparison short => .branch comparison.branchIndex short
  | .branchTruth expected short => .branch (if expected = true then 2 else 1) short

theorem operation_encoding {instruction : Instruction} {value : Nat} (h : instruction.encoding = some value) :
    operation (firstByte value) = some (operationOf instruction) := by
  cases instruction with
  | binary op => cases op <;> cases h <;> rfl
  | unary op =>
      cases op with
      | neg => cases h; rfl
      | not => cases h; rfl
      | conv width => cases width <;> cases h <;> rfl
      | convOvf width => cases width <;> cases h <;> rfl
      | convOvfUn width => cases width <;> cases h <;> rfl
  | compare comparison => cases comparison <;> cases h <;> rfl
  | branch comparison short => cases comparison <;> cases short <;> cases h <;> rfl
  | branchTruth expected short => cases expected <;> cases short <;> cases h <;> rfl

/-- The verifier admits the integer instructions of the standard, and each of them does with
its operands what the standard allows, except for the checked conversion of an unsigned
word to a signed one: it lets words pass whose sign bit is set. -/
theorem integer_semantics (units : List Assembly) (resolve : Nat → Nat → Checked LinkedTarget) (allocator : Nat → Bool)
    (machine : Machine) (frame : Frame) (assembly : Assembly) (code : List Byte) (pc next value : Nat) :
    (Admitted value ↔ ∃ instruction : Instruction, instruction.encoding = some value) ∧
    ∀ (instruction : Instruction) operands, instruction.encoding = some value → operands.length = instruction.arity →
      frame.evaluationBase ≤ machine.stack.values.length →
      ((∃ outcome, instruction.Allows operands outcome ∧ Behaves machine code pc next (isShort instruction)
        (runInstruction units resolve allocator (machine.withOperands operands) frame assembly code pc next value) outcome) ↔
        ¬(instruction = .unary (.convOvfUn .i4) ∧ ∃ operand ∈ operands, operand.toInt < 0)) := by
  constructor
  · exact admitted_iff value
  · intro instruction operands hEncoding hArity hFloor
    have hRun : runInstruction units resolve allocator (machine.withOperands operands) frame assembly code pc next value =
        execute units resolve allocator (operationOf instruction) (machine.withOperands operands) frame assembly code
          pc next value := by
      unfold runInstruction
      rw [operation_encoding hEncoding]
      rfl
    rw [hRun]
    cases instruction with
    | binary op =>
        obtain ⟨left, right, rfl⟩ := List.length_eq_two.1 hArity
        obtain ⟨outcome, hAllows, hYields⟩ := binaryOp_yields left right op
        rw [Option.some.inj hEncoding] at hYields
        constructor
        · exact fun _ hOther => nomatch hOther.1
        · exact fun _ => ⟨outcome, hAllows, .of_yields (binary_runs hFloor value left right) hYields⟩
    | unary op =>
        obtain ⟨operand, rfl⟩ := List.length_eq_one_iff.1 hArity
        have hValue : op.encoding = value := Option.some.inj hEncoding
        have hCondition : (Instruction.unary op = .unary (.convOvfUn .i4) ∧ ∃ o ∈ [operand], o.toInt < 0) ↔
            op = .convOvfUn .i4 ∧ operand.toInt < 0 := by simp
        rw [hCondition, ← unaryOp_yields_iff, hValue]
        constructor
        · rintro ⟨outcome, hAllows, hBehaves⟩
          refine ⟨outcome, hAllows, Behaves.yields (unary_runs hFloor value operand) ?_ hBehaves⟩
          rintro branches rfl
          cases op with
          | neg => cases hAllows
          | not => cases hAllows
          | conv target => cases hAllows
          | convOvf target =>
              change Outcome.taken branches = exactly target operand.toInt at hAllows
              unfold exactly at hAllows
              split at hAllows <;> cases hAllows
          | convOvfUn target =>
              change Outcome.taken branches = exactly target (unsigned operand) at hAllows
              unfold exactly at hAllows
              split at hAllows <;> cases hAllows
        · rintro ⟨outcome, hAllows, hYields⟩
          exact ⟨outcome, hAllows, .of_yields (unary_runs hFloor value operand) hYields⟩
    | compare comparison =>
        obtain ⟨left, right, rfl⟩ := List.length_eq_two.1 hArity
        constructor
        · exact fun _ hOther => nomatch hOther.1
        · intro _
          apply Exists.intro (Outcome.value (if comparison.holds left right then 1 else 0))
          constructor
          · rfl
          · show compare _ _ _ = _
            rw [compare_runs hFloor, compareOp_holds left right hEncoding]
            rfl
    | branch comparison short =>
        obtain ⟨left, right, rfl⟩ := List.length_eq_two.1 hArity
        constructor
        · exact fun _ hOther => nomatch hOther.1
        · intro _
          exact ⟨.taken (comparison.holds left right), rfl, branch_runs (takes_comparison hFloor comparison left right)⟩
    | branchTruth expected short =>
        obtain ⟨operand, rfl⟩ := List.length_eq_one_iff.1 hArity
        constructor
        · exact fun _ hOther => nomatch hOther.1
        · intro _
          exact ⟨.taken (decide (operand.toInt ≠ 0) = expected), rfl, branch_runs (takes_truth hFloor expected operand)⟩

/-- A machine with nothing in it. -/
def emptyMachine : Machine := ⟨⟨[], 0⟩, [], [], Heap.new, 0, 0, 0⟩

theorem integer_semantics_add : ∃ outcome, (Instruction.binary .add).Allows [1, 2] outcome ∧
    Behaves emptyMachine [] 0 1 false (runInstruction [] (fun _ _ => throw .panic) (fun _ => true)
      (emptyMachine.withOperands [1, 2]) ⟨0, 0, 0, 0, 0, 0, false, 0, 0⟩ ⟨[], fun _ => ⟨0, 0⟩, fun _ => 0, fun _ => 0, 1, 1⟩ [] 0 1
      0x58) outcome :=
  ((integer_semantics [] (fun _ _ => throw .panic) (fun _ => true) emptyMachine ⟨0, 0, 0, 0, 0, 0, false, 0, 0⟩
    ⟨[], fun _ => ⟨0, 0⟩, fun _ => 0, fun _ => 0, 1, 1⟩ [] 0 1 0x58).2 (.binary .add) [1, 2] rfl rfl le_rfl).2 (by decide)

/-- The image of a method that converts minus one to a signed word, with a check for
overflow, and returns the result. -/
def uncheckedConversion : List Byte := [
  0x4d, 0x43, 0x30, 0x34, 0x04, 0x00, 0x00, 0x00, 0x04, 0x02, 0x38, 0x00, 0x8b, 0x00, 0x00, 0x00, 0x01, 0x00, 0x38, 0x00, 0x00, 0x00, 0x36, 0x00,
  0x00, 0x00, 0x02, 0x00, 0x6e, 0x00, 0x00, 0x00, 0x09, 0x00, 0x00, 0x00, 0x03, 0x00, 0x77, 0x00, 0x00, 0x00, 0x05, 0x00, 0x00, 0x00, 0x04, 0x00,
  0x7c, 0x00, 0x00, 0x00, 0x0f, 0x00, 0x00, 0x00, 0x02, 0x00, 0x00, 0x00, 0x45, 0x00, 0x00, 0x00, 0x01, 0x00, 0x00, 0x00, 0x01, 0x00, 0x01, 0x00,
  0x01, 0x00, 0x01, 0x00, 0x01, 0x01, 0x01, 0x00, 0x00, 0x03, 0x00, 0x00, 0x00, 0x01, 0x01, 0x00, 0x00, 0x00, 0x00, 0x00, 0x00, 0x16, 0x00, 0x05,
  0x01, 0x01, 0x00, 0x00, 0x00, 0x00, 0x00, 0x00, 0x00, 0x00, 0x00, 0x00, 0x00, 0x01, 0x00, 0x4d, 0x00, 0x54, 0x00, 0x52, 0x75, 0x6e, 0x00, 0x00,
  0x03, 0x00, 0x00, 0x08, 0x00, 0x00, 0x01, 0x00, 0x03, 0x00, 0x00, 0x00, 0x00, 0x00, 0x00, 0x00, 0x15, 0x84, 0x2a]

/-- No member, and no native operation. -/
def noExternal : External Unit := ⟨fun _ _ => throw (.refused .missing), fun _ heap _ => ((throw (.refused .unsupported), heap), ())⟩

/-- What a run returned. -/
def Status.result : Status → Option (Option Int32)
  | .returned result => some result
  | _ => none

/-- The image is accepted, and its method returns minus one where the standard only allows
an overflow. -/
theorem uncheckedConversion_returns :
    isOkAnd (Assembly.parse uncheckedConversion) (fun assembly =>
      (executeProgram [assembly] noExternal (fun _ _ => true) (fun _ => false) 0 0 [] ()).1.result = some (some (-1))) = true ∧
    ∀ outcome, (Instruction.unary (.convOvfUn .i4)).Allows [-1] outcome → outcome = .overflow := by
  constructor
  · decide +kernel
  · intro outcome hAllows
    have hOverflow : exactly .i4 (unsigned (-1)) = .overflow := by decide
    exact Eq.trans (a := outcome) hAllows hOverflow

end Execution

end MicroCard.Mc04
