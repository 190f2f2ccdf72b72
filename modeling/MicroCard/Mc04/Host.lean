import MicroCard.Mc04.Linking
import MicroCard.Mc04.Machine

/-! The host of the virtual machine: what the calls of linked units reach. -/
namespace MicroCard.Mc04

open Halting

/-- What a member of a unit was linked to. A method of another package is found by the digest
that the member's dependency was bound to. -/
def linkedTarget (units : List ExecutionUnit) (unit member : Nat) : Checked LinkedTarget := do
  let source ← orRefuse units[unit]? .unauthorized
  let binding ← orRefuse (source.calls.find? fun call => call.member.toNat = member) .unauthorized
  match binding.target with
  | .objectConstructor => pure .objectConstructor
  | .currentDomain => pure .currentDomain
  | .domainStorage => pure .domainStorage
  | .domainKeys => pure .domainKeys
  | .native id => pure (.native id)
  | .managed dependency method => do
      let dependency ← orRefuse source.bindings[dependency.toNat]? .storage
      let index ← unitWithDigest units dependency.digest
      pure (.managed index method.toNat)

end MicroCard.Mc04
