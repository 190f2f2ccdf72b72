import MicroCard.Library.Bytes
import MicroCard.Library.CrashTriple

/-! Results and byte access shared by the Java Card engine. -/
namespace MicroCard.Jcvm

open Bytes CrashTriple

/-- Why a Java Card structure was refused. -/
inductive Error where
  | bounds
  | arrayBounds
  | format
  | inconsistent
  | unsupported
  | quota
  | transactionFull
  | transactionAborted
  | storage
  | incompatibleState
  | cancelled
  | type
  | arithmetic
  | null
  | firewall
  | missing
  | unauthorized
  deriving DecidableEq, Repr

/-- `u16::from_be_bytes`. -/
def be16 (high low : Byte) : Nat := high.toNat * 256 + low.toNat

theorem be16_lt (high low : Byte) : be16 high low < 65536 := by
  have hHigh : high.toNat < 256 := high.toNat_lt
  have hLow : low.toNat < 256 := low.toNat_lt
  unfold be16
  omega

/-- `bytes.get(start..stop)`. -/
def slice (bytes : List Byte) (start stop : Nat) : Except Error (List Byte) :=
  if start ≤ stop ∧ stop ≤ bytes.length then .ok ((bytes.drop start).take (stop - start))
  else .error .bounds

def byteAt (bytes : List Byte) (at' : Nat) : Except Error Byte :=
  match bytes[at']? with
  | some b => .ok b
  | none => .error .bounds

/-- The unsigned big-endian word at an offset. -/
def wordAt (bytes : List Byte) (at' : Nat) : Except Error Nat :=
  match bytes[at']?, bytes[at' + 1]? with
  | some high, some low => .ok (be16 high low)
  | _, _ => .error .bounds

/-- A word that was checked to lie inside the bytes. -/
def wordOr (bytes : List Byte) (at' : Nat) : Nat :=
  be16 (bytes.getD at' 0) (bytes.getD (at' + 1) 0)

/-- `i8::from`: two's complement of a byte. -/
def signed8 (value : Nat) : Int := if value < 128 then value else value - 256

def signed16 (value : Nat) : Int := if value < 32768 then value else value - 65536

def signed32 (value : Nat) : Int := if value < 2 ^ 31 then value else value - 2 ^ 32

end MicroCard.Jcvm
