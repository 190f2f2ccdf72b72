import Mathlib

/-! Results shared by the card's storage and management code. -/
namespace MicroCard

/-- The platform's error enumeration. -/
inductive Error where
  | format
  | bounds
  | unsupported
  | signature
  | domain
  | keyMismatch
  | rollback
  | busy
  | quota
  | unauthorized
  | missing
  | budget
  | stack
  | arithmetic
  | native
  | storage
  | incompatibleState
  | authentication
  | cancelled
  deriving DecidableEq, Repr

/-- `checked_add` on a 64-bit word. -/
def checkedAdd64 (a b : Nat) : Option Nat :=
  if a + b < 2 ^ 64 then some (a + b) else none

/-- `checked_add` on a 32-bit word. -/
def checkedAdd32 (a b : Nat) : Option Nat :=
  if a + b < 2 ^ 32 then some (a + b) else none

end MicroCard
