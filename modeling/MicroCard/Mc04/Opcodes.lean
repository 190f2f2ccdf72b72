import MicroCard.Mc04.Metadata

/-! The instructions of the profile: their operands, what they take from the stack and
put on it, and where they end. -/
namespace MicroCard.Mc04

open Bytes Halting

inductive Operand where
  | none
  | i8
  | varU8
  | i32
  | branchI8
  | branchI32
  | switchI32
  | methodToken
  | fieldToken
  | typeToken
  deriving DecidableEq

inductive Pop where
  | pop0
  | pop1
  | pop1Pop1
  | popi
  | popref
  | poprefPop1
  | poprefPopi
  | poprefPopiPopi
  | varpop
  deriving DecidableEq

inductive Push where
  | push0
  | push1
  | push1Push1
  | pushi
  | pushref
  | varpush
  deriving DecidableEq

inductive Flow where
  | branch
  | call
  | condBranch
  | next
  | return
  deriving DecidableEq

structure Opcode where
  operand : Operand
  tokenTables : List Table
  pop : Pop
  push : Push
  flow : Flow
  /-- It includes the prefix; zero stands for the switch, whose length varies. -/
  fixedLength : Nat
  deriving DecidableEq

/-- The profile of each value of one byte; zero rejects it. -/
def primary : List Nat := [
  1, 0, 2, 2, 2, 2, 2, 2, 2, 2, 3, 3, 3, 3, 4, 0,
  0, 4, 0, 5, 6, 7, 7, 7, 7, 7, 7, 7, 7, 7, 7, 8,
  9, 0, 0, 0, 0, 10, 3, 0, 11, 0, 12, 13, 14, 14, 15, 15,
  15, 15, 15, 15, 15, 15, 15, 15, 16, 17, 17, 18, 18, 18, 18, 18,
  18, 18, 18, 18, 18, 19, 0, 0, 0, 0, 0, 0, 0, 0, 0, 0,
  0, 0, 0, 0, 0, 0, 0, 0, 20, 20, 20, 20, 20, 20, 20, 20,
  20, 20, 20, 20, 20, 21, 21, 22, 22, 22, 0, 0, 0, 22, 0, 11,
  0, 0, 0, 23, 0, 0, 0, 0, 0, 0, 0, 24, 0, 25, 0, 0,
  0, 0, 22, 22, 22, 0, 22, 22, 22, 0, 0, 0, 0, 26, 27, 0,
  0, 28, 0, 0, 28, 0, 0, 0, 0, 0, 0, 0, 29, 0, 29, 0,
  0, 0, 0, 0, 0, 0, 0, 0, 0, 0, 0, 0, 0, 0, 0, 0,
  0, 0, 0, 22, 22, 22, 22, 22, 22, 0, 0, 0, 0, 0, 0, 0,
  0, 0, 0, 0, 0, 0, 0, 0, 0, 0, 0, 0, 0, 0, 0, 0,
  0, 22, 22, 0, 0, 0, 20, 20, 20, 20, 20, 20, 0, 0, 0, 0,
  0, 0, 0, 0, 0, 0, 0, 0, 0, 0, 0, 0, 0, 0, 0, 0,
  0, 0, 0, 0, 0, 0, 0, 0, 0, 0, 0, 0, 0, 0, 0, 0]

def extended : List Nat := [0, 30, 30, 30, 30, 30]

def profiles : List Opcode := [
  ⟨.none, [], .pop0, .push0, .next, 1⟩,
  ⟨.none, [], .pop0, .push1, .next, 1⟩,
  ⟨.none, [], .pop1, .push0, .next, 1⟩,
  ⟨.varU8, [], .pop0, .push1, .next, 2⟩,
  ⟨.varU8, [], .pop1, .push0, .next, 2⟩,
  ⟨.none, [], .pop0, .pushref, .next, 1⟩,
  ⟨.none, [], .pop0, .pushi, .next, 1⟩,
  ⟨.i8, [], .pop0, .pushi, .next, 2⟩,
  ⟨.i32, [], .pop0, .pushi, .next, 5⟩,
  ⟨.none, [], .pop1, .push1Push1, .next, 1⟩,
  ⟨.methodToken, [.methodDef, .memberRef], .varpop, .varpush, .call, 4⟩,
  ⟨.none, [], .varpop, .push0, .return, 1⟩,
  ⟨.branchI8, [], .pop0, .push0, .branch, 2⟩,
  ⟨.branchI8, [], .popi, .push0, .condBranch, 2⟩,
  ⟨.branchI8, [], .pop1Pop1, .push0, .condBranch, 2⟩,
  ⟨.branchI32, [], .pop0, .push0, .branch, 5⟩,
  ⟨.branchI32, [], .popi, .push0, .condBranch, 5⟩,
  ⟨.branchI32, [], .pop1Pop1, .push0, .condBranch, 5⟩,
  ⟨.switchI32, [], .popi, .push0, .condBranch, 0⟩,
  ⟨.none, [], .pop1Pop1, .push1, .next, 1⟩,
  ⟨.none, [], .pop1, .push1, .next, 1⟩,
  ⟨.none, [], .pop1, .pushi, .next, 1⟩,
  ⟨.methodToken, [.methodDef, .memberRef], .varpop, .pushref, .call, 4⟩,
  ⟨.fieldToken, [.field], .popref, .push1, .next, 4⟩,
  ⟨.fieldToken, [.field], .poprefPop1, .push0, .next, 4⟩,
  ⟨.typeToken, [.typeRef, .typeDef], .popi, .pushref, .next, 4⟩,
  ⟨.none, [], .popref, .pushi, .next, 1⟩,
  ⟨.none, [], .poprefPopi, .pushi, .next, 1⟩,
  ⟨.none, [], .poprefPopiPopi, .push0, .next, 1⟩,
  ⟨.none, [], .pop1Pop1, .pushi, .next, 2⟩]

namespace Opcode

def profile (index : Nat) : Option Opcode := if index = 0 then none else profiles[index - 1]?

def lookup (value : Nat) : Option Opcode :=
  if value ≤ 0xff then primary[value]?.bind profile
  else if value < 0xfe00 then none
  else extended[value - 0xfe00]?.bind profile

theorem lookup_mem {value : Nat} {opcode : Opcode} (h : lookup value = some opcode) : opcode ∈ profiles := by
  have hProfile : ∀ index : Option Nat, index.bind profile = some opcode → opcode ∈ profiles := by
    intro index hIndex
    obtain ⟨i, -, hFound⟩ := Option.bind_eq_some_iff.1 hIndex
    unfold profile at hFound
    split at hFound
    · cases hFound
    · exact List.mem_of_getElem? hFound
  unfold lookup at h
  split at h
  · exact hProfile _ h
  · split at h
    · cases h
    · exact hProfile _ h

end Opcode

section Decoding

/-- The value of an opcode and where its operand starts. -/
def opcodeAt (code : List Byte) (pc : Nat) (missing truncated : Halt Error) : Checked (Nat × Nat) := do
  let first ← CrashTriple.orFail code[pc]? missing
  if first.toNat = 0xfe then do
    let second ← CrashTriple.orFail code[pc + 1]? truncated
    pure (0xfe00 + second.toNat, pc + 2)
  else pure (first.toNat, pc + 1)

/-- Where the operand of an opcode ends. -/
def operandEnd (code : List Byte) (start cursor : Nat) (rows : Rows) (opcode : Opcode) : Checked Nat :=
  match opcode.operand with
  | .switchI32 => do
      let count ← u32At code cursor
      refuseIf (256 < count) .quota
      pure (cursor + 4 + count * 4)
  | .methodToken | .fieldToken | .typeToken => do
      let table ← orRefuse code[cursor]? .bounds
      let row ← u16At code (cursor + 1)
      refuseIf (¬(Table.ofId table.toNat).any (fun table => table ∈ opcode.tokenTables ∧ row ≠ 0 ∧ row ≤ rows table)) .bounds
      pure (cursor + 3)
  | _ => pure (start + opcode.fixedLength)

def instructionEnd (code : List Byte) (start : Nat) (rows : Rows) : Checked Nat := do
  let (value, cursor) ← opcodeAt code start (.refused .bounds) (.refused .bounds)
  let opcode ← orRefuse (Opcode.lookup value) .unsupported
  let stop ← operandEnd code start cursor rows opcode
  refuseIf (code.length < stop) .bounds
  pure stop

/-- Where a branch goes. -/
def branchTarget (base : Nat) (delta : Int) (codeLength : Nat) : Checked Nat := do
  refuseIf ((base : Int) + delta < 0 ∨ (codeLength : Int) ≤ (base : Int) + delta) .bounds
  pure ((base : Int) + delta).toNat

def shortDelta (code : List Byte) (operand : Nat) : Checked Int := do
  let byte ← Halting.index code operand
  pure (signed8 byte.toNat)

def longDelta (code : List Byte) (operand : Nat) : Checked Int := do
  let word ← u32At code operand
  pure (signed32 word)

/-- The targets of a switch: how many there are, and where each of them is. -/
def switchDelta (code : List Byte) (operand index : Nat) : Checked Int := longDelta code (operand + 4 + index * 4)

/-- One instruction further, up to a target. -/
def instructionStartStep (code : List Byte) (rows : Rows) (target cursor : Nat) : Checked (Nat ⊕ Bool) :=
  if cursor < target then do
    let stop ← instructionEnd code cursor rows
    pure (.inl stop)
  else pure (.inr (cursor = target))

def isInstructionStart (code : List Byte) (target : Nat) (rows : Rows) : Checked Bool :=
  loop (instructionStartStep code rows target) (code.length + 1) 0

end Decoding

end MicroCard.Mc04
