import MicroCard.Mc04.Metadata

/-! Values of the virtual machine, and its operations on integers. -/
namespace MicroCard.Mc04

open Bytes Halting

inductive RuntimeValue where
  | int (value : Int32)
  | ref (handle : Nat)
  | opaque' (kind : UInt16)
  deriving DecidableEq

namespace RuntimeValue

def toInt : RuntimeValue → Checked Int32
  | int value => pure value
  | _ => throw (.refused .format)

def truth : RuntimeValue → Bool
  | int value => value ≠ 0
  | ref handle => handle ≠ 0
  | opaque' _ => true

end RuntimeValue

section Checked

/-- `checked_add`, `checked_sub` and `checked_mul` of signed words. -/
def checkedSigned (exact : Int) (wrapped : Int32) : Option Int32 :=
  if -2 ^ 31 ≤ exact ∧ exact < 2 ^ 31 then some wrapped else none

/-- The same of unsigned words. -/
def checkedUnsigned (exact : Int) (wrapped : UInt32) : Option UInt32 :=
  if 0 ≤ exact ∧ exact < 2 ^ 32 then some wrapped else none

def checkedAdd (left right : Int32) : Option Int32 := checkedSigned (left.toInt + right.toInt) (left + right)

def checkedSub (left right : Int32) : Option Int32 := checkedSigned (left.toInt - right.toInt) (left - right)

def checkedMul (left right : Int32) : Option Int32 := checkedSigned (left.toInt * right.toInt) (left * right)

def checkedAddUnsigned (left right : UInt32) : Option UInt32 := checkedUnsigned (left.toNat + right.toNat) (left + right)

def checkedSubUnsigned (left right : UInt32) : Option UInt32 := checkedUnsigned (left.toNat - right.toNat) (left - right)

def checkedMulUnsigned (left right : UInt32) : Option UInt32 := checkedUnsigned (left.toNat * right.toNat) (left * right)

/-- `checked_div`, which fails for the smallest word by minus one, too. -/
def checkedDiv (left right : Int32) : Option Int32 :=
  if right = 0 ∨ left = Int32.minValue ∧ right = -1 then none else some (left / right)

def checkedRem (left right : Int32) : Option Int32 :=
  if right = 0 ∨ left = Int32.minValue ∧ right = -1 then none else some (left % right)

def checkedDivUnsigned (left right : UInt32) : Option UInt32 := if right = 0 then none else some (left / right)

def checkedRemUnsigned (left right : UInt32) : Option UInt32 := if right = 0 then none else some (left % right)

/-- `try_from` into a type with the given least and greatest values. -/
def tryFrom (least greatest value : Int) : Option Int32 :=
  if least ≤ value ∧ value ≤ greatest then some (Int32.ofInt value) else none

end Checked

section Operations

/-- Arithmetic, logic and shifts. Shift amounts count modulo 32. -/
def binaryOp (opcode : Nat) (left right : Int32) : Checked Int32 :=
  match opcode with
  | 0x58 => pure (left + right)
  | 0x59 => pure (left - right)
  | 0x5a => pure (left * right)
  | 0x5b => orRefuse (checkedDiv left right) .arithmetic
  | 0x5c => (orRefuse (checkedDivUnsigned left.toUInt32 right.toUInt32) .arithmetic).map UInt32.toInt32
  | 0x5d => orRefuse (checkedRem left right) .arithmetic
  | 0x5e => (orRefuse (checkedRemUnsigned left.toUInt32 right.toUInt32) .arithmetic).map UInt32.toInt32
  | 0x5f => pure (left &&& right)
  | 0x60 => pure (left ||| right)
  | 0x61 => pure (left ^^^ right)
  | 0x62 => pure (left <<< (right.toUInt32 &&& 31).toInt32)
  | 0x63 => pure (left >>> (right.toUInt32 &&& 31).toInt32)
  | 0x64 => pure (left.toUInt32 >>> (right.toUInt32 &&& 31)).toInt32
  | 0xd6 => orRefuse (checkedAdd left right) .arithmetic
  | 0xd7 => (orRefuse (checkedAddUnsigned left.toUInt32 right.toUInt32) .arithmetic).map UInt32.toInt32
  | 0xd8 => orRefuse (checkedMul left right) .arithmetic
  | 0xd9 => (orRefuse (checkedMulUnsigned left.toUInt32 right.toUInt32) .arithmetic).map UInt32.toInt32
  | 0xda => orRefuse (checkedSub left right) .arithmetic
  | 0xdb => (orRefuse (checkedSubUnsigned left.toUInt32 right.toUInt32) .arithmetic).map UInt32.toInt32
  | _ => throw (.refused .unsupported)

/-- Negation, complement and conversions. -/
def unaryOp (opcode : Nat) (value : Int32) : Checked Int32 :=
  match opcode with
  | 0x65 => pure (-value)
  | 0x66 => pure (~~~value)
  | 0x67 => pure value.toInt8.toInt32
  | 0x68 => pure value.toInt16.toInt32
  | 0x69 | 0x6d => pure value
  | 0x82 => orRefuse (tryFrom (-2 ^ 7) (2 ^ 7 - 1) value.toUInt32.toNat) .arithmetic
  | 0x83 => orRefuse (tryFrom (-2 ^ 15) (2 ^ 15 - 1) value.toUInt32.toNat) .arithmetic
  | 0x84 | 0x88 | 0xb7 => pure value
  | 0x86 => orRefuse (tryFrom 0 (2 ^ 8 - 1) value.toUInt32.toNat) .arithmetic
  | 0x87 => orRefuse (tryFrom 0 (2 ^ 16 - 1) value.toUInt32.toNat) .arithmetic
  | 0xb3 => orRefuse (tryFrom (-2 ^ 7) (2 ^ 7 - 1) value.toInt) .arithmetic
  | 0xb4 => orRefuse (tryFrom 0 (2 ^ 8 - 1) value.toInt) .arithmetic
  | 0xb5 => orRefuse (tryFrom (-2 ^ 15) (2 ^ 15 - 1) value.toInt) .arithmetic
  | 0xb6 => orRefuse (tryFrom 0 (2 ^ 16 - 1) value.toInt) .arithmetic
  | 0xb8 => orRefuse (tryFrom 0 (2 ^ 32 - 1) value.toInt) .arithmetic
  | 0xd1 => pure value.toUInt32.toUInt16.toUInt32.toInt32
  | 0xd2 => pure value.toUInt32.toUInt8.toUInt32.toInt32
  | _ => throw (.refused .unsupported)

/-- Compare two values as integers; references are refused. -/
def compareInts (holds : Int32 → Int32 → Bool) (left right : RuntimeValue) : Checked Bool := do
  let left ← left.toInt
  let right ← right.toInt
  pure (holds left right)

/-- The comparison of a branch. References can be compared for equality only. -/
def branchComparison (kind : Nat) (left right : RuntimeValue) : Checked Bool :=
  match kind with
  | 3 => pure (left = right)
  | 8 => pure (left ≠ right)
  | 4 => compareInts (fun left right => right ≤ left) left right
  | 5 => compareInts (fun left right => right < left) left right
  | 6 => compareInts (fun left right => left ≤ right) left right
  | 7 => compareInts (fun left right => left < right) left right
  | 9 => compareInts (fun left right => right.toUInt32 ≤ left.toUInt32) left right
  | 10 => compareInts (fun left right => right.toUInt32 < left.toUInt32) left right
  | 11 => compareInts (fun left right => left.toUInt32 ≤ right.toUInt32) left right
  | 12 => compareInts (fun left right => left.toUInt32 < right.toUInt32) left right
  | _ => throw (.refused .unsupported)

/-- Comparisons that push their result. -/
def compareOp (value : Nat) (left right : RuntimeValue) : Checked Bool :=
  match value with
  | 0xfe01 => pure (left = right)
  | 0xfe02 => compareInts (fun left right => right < left) left right
  | 0xfe03 => compareInts (fun left right => right.toUInt32 < left.toUInt32) left right
  | 0xfe04 => compareInts (fun left right => left < right) left right
  | 0xfe05 => compareInts (fun left right => left.toUInt32 < right.toUInt32) left right
  | _ => throw (.refused .unsupported)

end Operations

end MicroCard.Mc04
