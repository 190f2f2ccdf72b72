import MicroCard.Library.Bytes

/-! A log of before-images over a memory. Writing with a saved image can be taken
back; writing through the log cannot. The newest image stands first. -/
namespace UndoLog

open Bytes

/-- The bytes that stood at an offset before a write. -/
structure Image where
  offset : Nat
  before : List Byte
  deriving DecidableEq, Repr

namespace Image

def Holds (image : Image) (i : Nat) : Prop := image.offset ≤ i ∧ i < image.offset + image.before.length

instance (image : Image) (i : Nat) : Decidable (image.Holds i) := by
  unfold Holds
  infer_instance

/-- The image saved the whole span. -/
def Covers (image : Image) (at' length : Nat) : Prop :=
  image.offset ≤ at' ∧ at' + length ≤ image.offset + image.before.length

instance (image : Image) (at' length : Nat) : Decidable (image.Covers at' length) := by
  unfold Covers
  infer_instance

/-- Bring an image up to date with bytes written through the log. -/
def preserve (at' : Nat) (value : List Byte) (image : Image) : Image :=
  { image with before := (List.range image.before.length).map fun k =>
      if at' ≤ image.offset + k ∧ image.offset + k < at' + value.length then value.getD (image.offset + k - at') 0
      else image.before.getD k 0 }

end Image

/-- Put every image back, the newest first, so that the oldest one wins. -/
def restore : List Image → (Nat → Byte) → Nat → Byte
  | [], memory => memory
  | image :: older, memory => restore older (overwrite memory image.offset image.before)

def preserve (at' : Nat) (value : List Byte) (log : List Image) : List Image := log.map (Image.preserve at' value)

/-- The byte that the oldest image of an address holds. -/
def saved : List Image → Nat → Option Byte
  | [], _ => none
  | image :: older, i =>
      (saved older i).or (if image.Holds i then some (image.before.getD (i - image.offset) 0) else none)

variable {log : List Image} {memory other : Nat → Byte} {at' i : Nat} {value : List Byte}

theorem restore_apply (log : List Image) (memory : Nat → Byte) (i : Nat) :
    restore log memory i = (saved log i).getD (memory i) := by
  induction log generalizing memory with
  | nil => rfl
  | cons image older ih =>
      rw [restore, ih, saved]
      cases hOlder : saved older i with
      | some b => rfl
      | none =>
          show overwrite memory image.offset image.before i = _
          by_cases hHolds : image.Holds i
          · rw [overwrite_inside hHolds.1 hHolds.2, if_pos hHolds]
            rfl
          · rw [overwrite_outside (by unfold Image.Holds at hHolds; omega), if_neg hHolds]
            rfl

theorem saved_eq_none : saved log i = none ↔ ∀ image ∈ log, ¬image.Holds i := by
  induction log with
  | nil => simp [saved]
  | cons image older ih =>
      rw [saved, Option.or_eq_none_iff, ih, List.forall_mem_cons, and_comm]
      simp

/-- What no image holds is all that the memory contributes. -/
theorem restore_congr (h : ∀ i, saved log i = none → memory i = other i) : restore log memory = restore log other := by
  funext i
  rw [restore_apply, restore_apply]
  cases hSaved : saved log i with
  | some b => rfl
  | none => exact h i hSaved

/-- A write to a span that an image already saved is taken back. -/
theorem restore_covered (h : ∃ image ∈ log, image.Covers at' value.length) :
    restore log (overwrite memory at' value) = restore log memory := by
  obtain ⟨image, hMem, hLow, hHigh⟩ := h
  apply restore_congr
  intro i hNone
  apply overwrite_outside
  have hNot := saved_eq_none.1 hNone image hMem
  unfold Image.Holds at hNot
  omega

/-- A write whose span was saved just before is taken back. -/
theorem restore_saved : restore (⟨at', range memory at' value.length⟩ :: log) (overwrite memory at' value) =
    restore log memory := by
  rw [restore]
  congr 1
  funext i
  by_cases hInside : at' ≤ i ∧ i < at' + value.length
  · rw [overwrite_inside hInside.1 (by simpa using hInside.2), getD_range (by omega), Nat.add_sub_cancel' hInside.1]
  · rw [overwrite_outside (by simp only [length_range]; omega), overwrite_outside (by omega)]

/-- Saving a span changes nothing by itself. -/
theorem restore_save (count : Nat) : restore (⟨at', range memory at' count⟩ :: log) memory = restore log memory := by
  rw [restore, overwrite_eq_of_range (by rw [length_range])]

/-- A span outside an address has no part in what is given back there. -/
theorem restore_overwrite_outside (h : i < at' ∨ at' + value.length ≤ i) :
    restore log (overwrite memory at' value) i = restore log memory i := by
  rw [restore_apply, restore_apply, overwrite_outside h]

/-- Laying a span over a window of a memory is looking at the window of the memory with
the span in place. -/
theorem preserve_window (memory : Nat → Byte) (start count at' : Nat) (value : List Byte) :
    (Image.preserve at' value ⟨start, range memory start count⟩).before = range (overwrite memory at' value) start count := by
  symm
  rw [range_eq_iff]
  refine ⟨by simp [Image.preserve], fun k hk => ?_⟩
  have hCount : k < count := by simpa [Image.preserve] using hk
  simp only [Image.preserve, List.getElem_map, List.getElem_range]
  rw [getD_range hCount]
  rfl

@[simp] theorem length_before_preserve (image : Image) :
    (image.preserve at' value).before.length = image.before.length := by
  simp [Image.preserve]

theorem saved_preserve (log : List Image) (at' i : Nat) (value : List Byte) :
    saved (preserve at' value log) i = (saved log i).map fun b =>
      if at' ≤ i ∧ i < at' + value.length then value.getD (i - at') 0 else b := by
  induction log with
  | nil => rfl
  | cons image older ih =>
      rw [preserve, List.map_cons, saved, ← preserve, ih, saved]
      cases saved older i with
      | some b => rfl
      | none =>
          by_cases hHolds : image.Holds i
          · have hStill : (image.preserve at' value).Holds i := by
              unfold Image.Holds at hHolds ⊢
              simpa [Image.preserve] using hHolds
            obtain ⟨hLow, hHigh⟩ := hHolds
            have hAt : image.offset + (i - image.offset) = i := by omega
            simp only [Option.map_none, Option.none_or, if_pos hStill, if_pos (show image.Holds i from ⟨hLow, hHigh⟩),
              Option.map_some, Option.some.injEq]
            rw [Image.preserve, List.getD_eq_getElem _ _ (by simp; omega)]
            simp only [List.getElem_map, List.getElem_range, hAt]
          · have hStill : ¬(image.preserve at' value).Holds i := by
              unfold Image.Holds at hHolds ⊢
              simpa [Image.preserve] using hHolds
            simp [hHolds, hStill]

/-- A write through the log survives: it changes what the log gives back. -/
theorem restore_preserve (log : List Image) (memory : Nat → Byte) (at' : Nat) (value : List Byte) :
    restore (preserve at' value log) (overwrite memory at' value) = overwrite (restore log memory) at' value := by
  funext i
  rw [restore_apply, saved_preserve]
  by_cases hInside : at' ≤ i ∧ i < at' + value.length
  · rw [overwrite_inside hInside.1 hInside.2, overwrite_inside hInside.1 hInside.2]
    cases saved log i <;> simp [hInside]
  · rw [overwrite_outside (by omega), overwrite_outside (by omega), restore_apply]
    cases saved log i <;> simp [hInside]

end UndoLog
