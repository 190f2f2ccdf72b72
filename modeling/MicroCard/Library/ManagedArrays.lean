import MicroCard.Library.Bytes
import MicroCard.Library.Halting

/-! Arrays of a managed language: an index is a signed integer, and an access outside of the
array panics. -/
namespace ManagedArrays

open Halting

variable {ε α : Type}

/-- The element at an index. -/
def get (items : List α) (i : Int) : Except (Halt ε) α :=
  if 0 ≤ i then index items i.toNat else throw .panic

def set (items : List α) (i : Int) (a : α) : Except (Halt ε) (List α) :=
  if 0 ≤ i ∧ i.toNat < items.length then pure (items.set i.toNat a) else throw .panic

theorem get_some {items : List α} {n : Nat} {a : α} (h : items[n]? = some a) :
    (get items (n : Int) : Except (Halt ε) α) = .ok a := by
  rw [get, if_pos (Int.natCast_nonneg n), Int.toNat_natCast, index, h]
  rfl

theorem set_inside {items : List α} {n : Nat} (h : n < items.length) (a : α) :
    (set items (n : Int) a : Except (Halt ε) (List α)) = .ok (items.set n a) := by
  rw [set, Int.toNat_natCast, if_pos ⟨Int.natCast_nonneg n, h⟩]
  rfl

end ManagedArrays
