import Mathlib.Data.List.Basic

/-! Parts of a list in place. A slice is read, or written over, without moving what
stands beside it; `Holds` says what stands where, so that a buffer rearranged in place
is followed by the values it holds rather than by its indices. -/
namespace Slices

variable {α : Type}

/-- The `count` values from a place on. -/
def slice (s : List α) (at' count : Nat) : List α := (s.drop at').take count

/-- Write over the values from a place on. -/
def splice (s : List α) (at' : Nat) (values : List α) : List α :=
  s.take at' ++ values ++ s.drop (at' + values.length)

/-- Cut to a length, or fill up to it. -/
def resize (fill : α) (length : Nat) (s : List α) : List α :=
  s.take length ++ List.replicate (length - s.length) fill

theorem getElem?_slice (s : List α) (at' count i : Nat) :
    (slice s at' count)[i]? = if i < count then s[at' + i]? else none := by
  unfold slice
  split
  · rename_i h
    rw [List.getElem?_take_of_lt h, List.getElem?_drop]
  · rename_i h
    exact List.getElem?_take_eq_none (Nat.not_lt.1 h)

theorem length_splice {s values : List α} {at' : Nat} (h : at' + values.length ≤ s.length) :
    (splice s at' values).length = s.length := by
  simp only [splice, List.length_append, List.length_take, List.length_drop]
  omega

theorem getElem?_splice {s values : List α} {at' : Nat} (h : at' + values.length ≤ s.length) (i : Nat) :
    (splice s at' values)[i]? =
      if i < at' then s[i]? else if i < at' + values.length then values[i - at']? else s[i]? := by
  have hTake : (s.take at').length = at' := by
    rw [List.length_take]
    omega
  unfold splice
  rw [List.append_assoc]
  split
  · rename_i hBefore
    rw [List.getElem?_append_left (by omega), List.getElem?_take_of_lt hBefore]
  · rename_i hAfter
    rw [List.getElem?_append_right (by omega), hTake]
    split
    · exact List.getElem?_append_left (by omega)
    · rw [List.getElem?_append_right (by omega), List.getElem?_drop]
      congr 1
      omega

/-- One write behind the other is one write. -/
theorem splice_append {s values more : List α} {at' : Nat} (h : at' + (values ++ more).length ≤ s.length) :
    splice (splice s at' values) (at' + values.length) more = splice s at' (values ++ more) := by
  have hBoth := h
  rw [List.length_append] at hBoth
  have hFirst : at' + values.length ≤ s.length := by omega
  have hSecond : at' + values.length + more.length ≤ (splice s at' values).length := by
    rw [length_splice hFirst]
    omega
  apply List.ext_getElem?
  intro i
  rw [getElem?_splice hSecond, getElem?_splice hFirst, getElem?_splice h, List.length_append]
  by_cases hBefore : i < at'
  · rw [if_pos (by omega), if_pos hBefore, if_pos hBefore]
  by_cases hAmong : i < at' + values.length
  · rw [if_pos hAmong, if_neg hBefore, if_pos hAmong, if_neg hBefore, if_pos (by omega),
      List.getElem?_append_left (by omega)]
  by_cases hBehind : i < at' + values.length + more.length
  · rw [if_neg hAmong, if_pos hBehind, if_neg hBefore, if_pos (by omega), List.getElem?_append_right (by omega)]
    congr 1
    omega
  · rw [if_neg hAmong, if_neg hBehind, if_neg hBefore, if_neg hAmong, if_neg hBefore, if_neg (by omega)]

@[simp] theorem length_resize (fill : α) (length : Nat) (s : List α) : (resize fill length s).length = length := by
  simp only [resize, List.length_append, List.length_take, List.length_replicate]
  omega

section Holds

variable {s v w : List α} {a b : Nat}

/-- The values stand in the list from that place on. -/
def Holds (s : List α) (at' : Nat) (values : List α) : Prop :=
  at' + values.length ≤ s.length ∧ slice s at' values.length = values

theorem Holds.getElem? (h : Holds s a v) {i : Nat} (hi : i < v.length) : s[a + i]? = v[i]? := by
  have hSlice := getElem?_slice s a v.length i
  rw [h.2, if_pos hi] at hSlice
  exact hSlice.symm

theorem Holds.of_getElem? (hWithin : a + v.length ≤ s.length) (h : ∀ i, i < v.length → s[a + i]? = v[i]?) :
    Holds s a v := by
  refine ⟨hWithin, ?_⟩
  apply List.ext_getElem?
  intro i
  rw [getElem?_slice]
  split
  · rename_i hi
    exact h i hi
  · rename_i hi
    exact (List.getElem?_eq_none (Nat.not_lt.1 hi)).symm

/-- Two neighbours are one. -/
theorem Holds.append (h : Holds s a v) (h' : Holds s (a + v.length) w) : Holds s a (v ++ w) := by
  apply Holds.of_getElem?
  · have := h'.1
    rw [List.length_append]
    omega
  · intro i hi
    by_cases hFirst : i < v.length
    · rw [List.getElem?_append_left hFirst, h.getElem? hFirst]
    · rw [List.length_append] at hi
      rw [List.getElem?_append_right (Nat.not_lt.1 hFirst), ← h'.getElem? (by omega)]
      congr 1
      omega

theorem Holds.of_append (h : Holds s a (v ++ w)) : Holds s a v ∧ Holds s (a + v.length) w := by
  have hWithin := h.1
  rw [List.length_append] at hWithin
  constructor
  · apply Holds.of_getElem? (by omega)
    intro i hi
    rw [h.getElem? (by rw [List.length_append]; omega), List.getElem?_append_left hi]
  · apply Holds.of_getElem? (by omega)
    intro i hi
    rw [Nat.add_assoc, h.getElem? (by rw [List.length_append]; omega), List.getElem?_append_right (by omega)]
    congr 1
    omega

theorem Holds.whole (s : List α) : Holds s 0 s := by
  apply Holds.of_getElem? (by omega)
  intro i _
  rw [Nat.zero_add]

/-- What stands at the front is what is left after cutting behind it. -/
theorem Holds.take (h : Holds s 0 v) : s.take v.length = v := h.2

theorem Holds.front (h : Holds s a v) (n : Nat) : Holds s a (v.take n) := by
  rw [← List.take_append_drop n v] at h
  exact h.of_append.1

/-- Values behind a list do not move it. -/
theorem Holds.extend (h : Holds s a v) (more : List α) : Holds (s ++ more) a v := by
  have hWithin := h.1
  apply Holds.of_getElem?
  · rw [List.length_append]
    omega
  · intro i hi
    rw [List.getElem?_append_left (by omega), h.getElem? hi]

theorem Holds.written (h : a + v.length ≤ s.length) : Holds (splice s a v) a v := by
  apply Holds.of_getElem?
  · rwa [length_splice h]
  · intro i hi
    rw [getElem?_splice h, if_neg (by omega), if_pos (by omega), Nat.add_sub_cancel_left]

/-- A write keeps what stands apart from it. -/
theorem Holds.apart (h : Holds s a v) (hWithin : b + w.length ≤ s.length)
    (hApart : a + v.length ≤ b ∨ b + w.length ≤ a) : Holds (splice s b w) a v := by
  apply Holds.of_getElem?
  · rw [length_splice hWithin]
    exact h.1
  · intro i hi
    rw [getElem?_splice hWithin, ← h.getElem? hi]
    split
    · rfl
    · rw [if_neg (by omega)]

/-- A write inside what stands somewhere is a write to it. -/
theorem Holds.inside (h : Holds s a v) (hWithin : b + w.length ≤ v.length) :
    Holds (splice s (a + b) w) a (splice v b w) := by
  have hFits := h.1
  have hSplice : a + b + w.length ≤ s.length := by omega
  apply Holds.of_getElem?
  · rwa [length_splice hSplice, length_splice hWithin]
  · intro i hi
    rw [length_splice hWithin] at hi
    rw [getElem?_splice hSplice, getElem?_splice hWithin, h.getElem? hi]
    by_cases hBefore : i < b
    · rw [if_pos (by omega), if_pos hBefore]
    by_cases hAmong : i < b + w.length
    · rw [if_neg (by omega), if_pos (by omega), if_neg hBefore, if_pos hAmong]
      congr 1
      omega
    · rw [if_neg (by omega), if_neg (by omega), if_neg hBefore, if_neg hAmong]

end Holds

end Slices
