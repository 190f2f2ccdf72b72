import MicroCard.Library.Halting
import MicroCard.Library.Slices

/-! Buffers whose every access is checked: an index or a range outside one panics. A buffer
that is filled from its front on is followed by the values written so far. -/
namespace Buffers

open Halting Slices

variable {ε α : Type} {buffer values more : List α}

/-- `buffer[i] = a`. -/
def store (buffer : List α) (i : Nat) (a : α) : Except (Halt ε) (List α) :=
  if i < buffer.length then .ok (buffer.set i a) else .error .panic

/-- `buffer[at'..at' + values.len()].copy_from_slice(values)`. -/
def copyInto (buffer : List α) (at' : Nat) (values : List α) : Except (Halt ε) (List α) :=
  if at' + values.length ≤ buffer.length then .ok (splice buffer at' values) else .error .panic

/-- `&items[first..]`. -/
def behind (items : List α) (first : Nat) : Except (Halt ε) (List α) :=
  if first ≤ items.length then .ok (items.drop first) else .error .panic

section Steps

variable {c : Prop} [Decidable c] {e : ε} {a : α} {i : Nat}

theorem refuseIf_holds (h : c) : refuseIf c e = .error (.refused e) := if_pos h

theorem refuseIf_fails (h : ¬c) : refuseIf c e = .ok () := if_neg h

theorem index_found (h : buffer[i]? = some a) : (index buffer i : Except (Halt ε) α) = .ok a := by rw [index, h]; rfl

theorem behind_within {first : Nat} (h : first ≤ buffer.length) :
    (behind buffer first : Except (Halt ε) _) = .ok (buffer.drop first) := if_pos h

@[simp] theorem ok_bind {β : Type} (f : α → Except (Halt ε) β) : (.ok a >>= f) = f a := rfl

end Steps

/-- A buffer with some values written over its front. -/
def filled (buffer values : List α) : List α := values ++ buffer.drop values.length

@[simp] theorem filled_nil (buffer : List α) : filled buffer [] = buffer := rfl

theorem length_filled (h : values.length ≤ buffer.length) : (filled buffer values).length = buffer.length := by
  rw [filled, List.length_append, List.length_drop]
  omega

theorem take_filled (buffer values : List α) : (filled buffer values).take values.length = values := List.take_left

/-- A value stored behind what was written. -/
theorem store_filled (h : values.length < buffer.length) (a : α) :
    (store (filled buffer values) values.length a : Except (Halt ε) _) = .ok (filled buffer (values ++ [a])) := by
  have hFits : values.length < (filled buffer values).length := by
    rw [length_filled (Nat.le_of_lt h)]
    exact h
  have hRest : buffer.drop values.length = buffer[values.length] :: buffer.drop (values.length + 1) :=
    List.drop_eq_getElem_cons h
  rw [store, if_pos hFits, filled, hRest, List.set_append_right _ _ (Nat.le_refl _), Nat.sub_self, List.set_cons_zero,
    filled, List.length_append, List.length_singleton, List.append_assoc]
  rfl

/-- A value stored over one that was written. -/
theorem store_inside {i : Nat} (h : i < values.length) (a : α) :
    (store (filled buffer values) i a : Except (Halt ε) _) = .ok (filled buffer (values.set i a)) := by
  have hFits : i < (filled buffer values).length := by
    rw [filled, List.length_append]
    omega
  rw [store, if_pos hFits, filled, List.set_append_left _ _ h, filled, List.length_set]

/-- Values copied behind what was written. -/
theorem copyInto_filled (h : values.length + more.length ≤ buffer.length) :
    (copyInto (filled buffer values) values.length more : Except (Halt ε) _) = .ok (filled buffer (values ++ more)) := by
  have hFits : values.length + more.length ≤ (filled buffer values).length := by
    rw [length_filled (by omega)]
    exact h
  have hBehind : (filled buffer values).drop (values.length + more.length) = buffer.drop (values.length + more.length) := by
    rw [filled, ← List.drop_drop, List.drop_left, List.drop_drop]
  rw [copyInto, if_pos hFits, splice, take_filled, hBehind, filled, List.length_append]

/-- A buffer of one value does not show that the value was written once more. -/
theorem filled_replicate {count : Nat} (a : α) (h : values.length < count) :
    filled (List.replicate count a) (values ++ [a]) = filled (List.replicate count a) values := by
  have hMore : count - values.length = (count - (values.length + 1)) + 1 := by omega
  rw [filled, filled, List.length_append, List.length_singleton, List.drop_replicate, List.drop_replicate, hMore,
    List.replicate_succ, List.append_assoc]
  rfl

end Buffers
