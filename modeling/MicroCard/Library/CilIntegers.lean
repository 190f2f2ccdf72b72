import Mathlib

/-! Integer instructions of the Common Intermediate Language on 32-bit words: which
outcomes the standard allows for given operands. Where it leaves a result open, several
outcomes are allowed. -/
namespace CilIntegers

/-- Operations on two words. The suffix `Un` reads the operands as unsigned, `Ovf` checks
for overflow. -/
inductive BinaryOp where
  | add
  | sub
  | mul
  | div
  | divUn
  | rem
  | remUn
  | and
  | or
  | xor
  | shl
  | shr
  | shrUn
  | addOvf
  | addOvfUn
  | mulOvf
  | mulOvfUn
  | subOvf
  | subOvfUn
  deriving DecidableEq

/-- Types that a conversion narrows to. -/
inductive Width where
  | i1
  | i2
  | i4
  | u1
  | u2
  | u4
  deriving DecidableEq

inductive UnaryOp where
  | neg
  | not
  | conv (target : Width)
  | convOvf (target : Width)
  | convOvfUn (target : Width)
  deriving DecidableEq

inductive Comparison where
  | eq
  | ne
  | ge
  | gt
  | le
  | lt
  | geUn
  | gtUn
  | leUn
  | ltUn
  deriving DecidableEq

/-- What an instruction does with its operands: it pushes a word, it branches or not, or it
raises an exception. -/
inductive Outcome where
  | value (word : Int32)
  | taken (branches : Bool)
  | overflow
  | divideByZero
  deriving DecidableEq

section Readings

/-- The word that the low bits of an integer make up. -/
def word (value : Int) : Int32 := Int32.ofInt value

/-- A word read as unsigned. -/
def unsigned (word : Int32) : Int := word.toUInt32.toNat

/-- The integers that a type holds. -/
def Width.range : Width → Int × Int
  | .i1 => (-2 ^ 7, 2 ^ 7 - 1)
  | .i2 => (-2 ^ 15, 2 ^ 15 - 1)
  | .i4 => (-2 ^ 31, 2 ^ 31 - 1)
  | .u1 => (0, 2 ^ 8 - 1)
  | .u2 => (0, 2 ^ 16 - 1)
  | .u4 => (0, 2 ^ 32 - 1)

def Width.holds (width : Width) (value : Int) : Prop := width.range.1 ≤ value ∧ value ≤ width.range.2

instance (width : Width) (value : Int) : Decidable (width.holds value) := inferInstanceAs (Decidable (_ ∧ _))

/-- The low bits of an integer, read as a type. -/
def Width.truncate (width : Width) (value : Int) : Int :=
  match width with
  | .i1 => value.bmod (2 ^ 8)
  | .i2 => value.bmod (2 ^ 16)
  | .i4 => value.bmod (2 ^ 32)
  | .u1 => value % 2 ^ 8
  | .u2 => value % 2 ^ 16
  | .u4 => value % 2 ^ 32

/-- The exact result, or an overflow where the type does not hold it. -/
def exactly (width : Width) (value : Int) : Outcome := if width.holds value then .value (word value) else .overflow

end Readings

section Semantics

/-- Outcomes that the standard allows for an operation on two words. The shift by a whole
word or more is left open, and so is whether the remainder of the smallest word by minus
one raises an exception. -/
def BinaryOp.Allows (left right : Int32) (outcome : Outcome) : BinaryOp → Prop
  | add => outcome = .value (word (left.toInt + right.toInt))
  | sub => outcome = .value (word (left.toInt - right.toInt))
  | mul => outcome = .value (word (left.toInt * right.toInt))
  | div => outcome = if right.toInt = 0 then .divideByZero else exactly .i4 (left.toInt.tdiv right.toInt)
  | divUn => outcome = if unsigned right = 0 then .divideByZero else .value (word (unsigned left / unsigned right))
  | rem => outcome = (if right.toInt = 0 then .divideByZero else .value (word (left.toInt.tmod right.toInt))) ∨
      left.toInt = -2 ^ 31 ∧ right.toInt = -1 ∧ outcome = .overflow
  | remUn => outcome = if unsigned right = 0 then .divideByZero else .value (word (unsigned left % unsigned right))
  | and => outcome = .value (left &&& right)
  | or => outcome = .value (left ||| right)
  | xor => outcome = .value (left ^^^ right)
  | shl => if unsigned right < 32 then outcome = .value (word (left.toInt * 2 ^ (unsigned right).toNat))
      else ∃ any, outcome = .value any
  | shr => if unsigned right < 32 then outcome = .value (word (left.toInt / 2 ^ (unsigned right).toNat))
      else ∃ any, outcome = .value any
  | shrUn => if unsigned right < 32 then outcome = .value (word (unsigned left / 2 ^ (unsigned right).toNat))
      else ∃ any, outcome = .value any
  | addOvf => outcome = exactly .i4 (left.toInt + right.toInt)
  | addOvfUn => outcome = exactly .u4 (unsigned left + unsigned right)
  | mulOvf => outcome = exactly .i4 (left.toInt * right.toInt)
  | mulOvfUn => outcome = exactly .u4 (unsigned left * unsigned right)
  | subOvf => outcome = exactly .i4 (left.toInt - right.toInt)
  | subOvfUn => outcome = exactly .u4 (unsigned left - unsigned right)

def UnaryOp.Allows (value : Int32) (outcome : Outcome) : UnaryOp → Prop
  | neg => outcome = .value (word (-value.toInt))
  | not => outcome = .value (~~~value)
  | conv target => outcome = .value (word (target.truncate value.toInt))
  | convOvf target => outcome = exactly target value.toInt
  | convOvfUn target => outcome = exactly target (unsigned value)

def Comparison.holds (left right : Int32) : Comparison → Bool
  | eq => left.toInt = right.toInt
  | ne => left.toInt ≠ right.toInt
  | ge => right.toInt ≤ left.toInt
  | gt => right.toInt < left.toInt
  | le => left.toInt ≤ right.toInt
  | lt => left.toInt < right.toInt
  | geUn => unsigned right ≤ unsigned left
  | gtUn => unsigned right < unsigned left
  | leUn => unsigned left ≤ unsigned right
  | ltUn => unsigned left < unsigned right

end Semantics

section Encodings

def BinaryOp.encoding : BinaryOp → Nat
  | .add => 0x58
  | .sub => 0x59
  | .mul => 0x5a
  | .div => 0x5b
  | .divUn => 0x5c
  | .rem => 0x5d
  | .remUn => 0x5e
  | .and => 0x5f
  | .or => 0x60
  | .xor => 0x61
  | .shl => 0x62
  | .shr => 0x63
  | .shrUn => 0x64
  | .addOvf => 0xd6
  | .addOvfUn => 0xd7
  | .mulOvf => 0xd8
  | .mulOvfUn => 0xd9
  | .subOvf => 0xda
  | .subOvfUn => 0xdb

def UnaryOp.encoding : UnaryOp → Nat
  | .neg => 0x65
  | .not => 0x66
  | .conv .i1 => 0x67
  | .conv .i2 => 0x68
  | .conv .i4 => 0x69
  | .conv .u4 => 0x6d
  | .conv .u2 => 0xd1
  | .conv .u1 => 0xd2
  | .convOvfUn .i1 => 0x82
  | .convOvfUn .i2 => 0x83
  | .convOvfUn .i4 => 0x84
  | .convOvfUn .u1 => 0x86
  | .convOvfUn .u2 => 0x87
  | .convOvfUn .u4 => 0x88
  | .convOvf .i1 => 0xb3
  | .convOvf .u1 => 0xb4
  | .convOvf .i2 => 0xb5
  | .convOvf .u2 => 0xb6
  | .convOvf .i4 => 0xb7
  | .convOvf .u4 => 0xb8

/-- The place of a comparison among the branches of one width. -/
def Comparison.branchIndex : Comparison → Nat
  | .eq => 3
  | .ge => 4
  | .gt => 5
  | .le => 6
  | .lt => 7
  | .ne => 8
  | .geUn => 9
  | .gtUn => 10
  | .leUn => 11
  | .ltUn => 12

/-- Only five comparisons push their result. -/
def Comparison.encoding : Comparison → Option Nat
  | .eq => some 0xfe01
  | .gt => some 0xfe02
  | .gtUn => some 0xfe03
  | .lt => some 0xfe04
  | .ltUn => some 0xfe05
  | _ => none

/-- Where the branches of a width begin. -/
def branchBase (short : Bool) : Nat := if short = true then 0x2b else 0x38

end Encodings

/-- The integer instructions, with both widths of the branches. -/
inductive Instruction where
  | binary (op : BinaryOp)
  | unary (op : UnaryOp)
  | compare (comparison : Comparison)
  | branch (comparison : Comparison) (short : Bool)
  | branchTruth (expected short : Bool)
  deriving DecidableEq

namespace Instruction

def arity : Instruction → Nat
  | binary _ => 2
  | unary _ => 1
  | compare _ => 2
  | branch _ _ => 2
  | branchTruth _ _ => 1

/-- What the standard allows an instruction to do with its operands, the last of which is
on top of the stack. -/
def Allows (instruction : Instruction) (operands : List Int32) (outcome : Outcome) : Prop :=
  match instruction, operands with
  | binary op, [left, right] => op.Allows left right outcome
  | unary op, [value] => op.Allows value outcome
  | compare comparison, [left, right] => outcome = .value (if comparison.holds left right then 1 else 0)
  | branch comparison _, [left, right] => outcome = .taken (comparison.holds left right)
  | branchTruth expected _, [value] => outcome = .taken (decide (value.toInt ≠ 0) = expected)
  | _, _ => False

def encoding : Instruction → Option Nat
  | binary op => some op.encoding
  | unary op => some op.encoding
  | compare comparison => comparison.encoding
  | branch comparison short => some (branchBase short + comparison.branchIndex)
  | branchTruth expected short => some (branchBase short + if expected = true then 2 else 1)

end Instruction

end CilIntegers
