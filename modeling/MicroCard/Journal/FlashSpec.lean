import MicroCard.Journal.Flash
import Mathlib.Logic.Function.Basic

/-! What each flash operation does, over every place the power may fail. An
operation that runs on an uncut flash cannot fail once its own checks pass; one
that fails leaves a whole number of program words, a prefix of an erase, or a
counter that has or has not moved. -/
namespace MicroCard.Journal

open Bytes CrashTriple

/-- A flash whose power may still be cut. -/
def MemoryFlash.armed (flash : MemoryFlash) : Bool := flash.failAfter.isSome

section Tick

/-- Ticks change nothing but the remaining budget. -/
theorem tick_spec (f₀ : MemoryFlash) :
    Triple (fun f => ∃ x, f = { f₀ with failAfter := x } ∧ x.isSome = f₀.armed) tick
      (fun _ f => ∃ x, f = { f₀ with failAfter := x } ∧ x.isSome = f₀.armed)
      (fun _ f => (∃ x, f = { f₀ with failAfter := x } ∧ x.isSome = f₀.armed) ∧ f₀.armed = true) := by
  rintro f ⟨x, rfl, hx⟩
  rcases x with _ | _ | n
  · exact ⟨none, rfl, hx⟩
  · exact ⟨⟨some 0, rfl, hx⟩, hx.symm⟩
  · exact ⟨some n, rfl, hx⟩

theorem ticks_spec {α : Type} (f₀ : MemoryFlash) (items : List α) :
    Triple (fun f => f = f₀) (items.forM fun _ => tick)
      (fun _ f => ∃ x, f = { f₀ with failAfter := x } ∧ x.isSome = f₀.armed)
      (fun _ f => (∃ x, f = { f₀ with failAfter := x } ∧ x.isSome = f₀.armed) ∧ f₀.armed = true) := by
  refine Triple.conseq (Triple.forM (fun _ f => ∃ x, f = { f₀ with failAfter := x } ∧ x.isSome = f₀.armed)
    fun _ _ => tick_spec f₀) ?_ (fun _ _ h => h) (fun _ _ h => h)
  rintro f rfl
  exact ⟨f.failAfter, rfl, rfl⟩

end Tick

section Program

/-- The first `count` bytes of `bytes` laid over a memory at `offset`. -/
def overwrite (memory : Nat → Byte) (offset : Nat) (bytes : List Byte) (count : Nat) : Nat → Byte :=
  fun i => if offset ≤ i ∧ i < offset + count ∧ i < offset + bytes.length then bytes.getD (i - offset) 0
    else memory i

theorem overwrite_zero (memory : Nat → Byte) (offset : Nat) (bytes : List Byte) :
    overwrite memory offset bytes 0 = memory := by
  funext i
  simp only [overwrite]
  rw [if_neg (by omega)]

theorem overwrite_outside {memory : Nat → Byte} {offset : Nat} {bytes : List Byte} {count i : Nat}
    (h : i < offset ∨ offset + bytes.length ≤ i ∨ offset + count ≤ i) :
    overwrite memory offset bytes count i = memory i := by
  simp only [overwrite]
  rw [if_neg (by omega)]

theorem overwrite_inside {memory : Nat → Byte} {offset : Nat} {bytes : List Byte} {count i : Nat}
    (hCount : i < count) (hLength : i < bytes.length) :
    overwrite memory offset bytes count (offset + i) = bytes[i] := by
  simp only [overwrite]
  rw [if_pos (by omega), Nat.add_sub_cancel_left]
  simp [List.getD, hLength]

/-- What a program call has done once `count` bytes of whole words are written.
Words that did not have to change were skipped and keep their write count. -/
structure Wrote (label : Option (List Byte)) (slot offset : Nat) (bytes : List Byte)
    (f₀ f : MemoryFlash) (count : Nat) (finished : Bool) : Prop where
  slots : f.slots = Function.update f₀.slots slot (overwrite (f₀.slots slot) offset bytes count)
  otherWrites : ∀ t w, (t ≠ slot ∨ 4 * w + 4 ≤ offset ∨ offset + count ≤ 4 * w) →
    f.slotWordWrites t w = f₀.slotWordWrites t w
  writes : ∀ w, f.slotWordWrites slot w = f₀.slotWordWrites slot w ∨
    f.slotWordWrites slot w = f₀.slotWordWrites slot w + 1 ∧
      ∃ i, 4 * w ≤ i ∧ i < 4 * w + 4 ∧ f.slots slot i ≠ f₀.slots slot i
  monotonic : f.monotonic = f₀.monotonic
  nonces : f.nonces = f₀.nonces
  slotCount : f.slotCount = f₀.slotCount
  slotSize : f.slotSize = f₀.slotSize
  armed : f.armed = f₀.armed
  words : ∃ new, f.trace.words = new ++ f₀.trace.words ∧ new.Pairwise (fun a b => a.word ≠ b.word) ∧
    ∀ e ∈ new, e = ⟨label, slot, offset, bytes, e.word⟩ ∧ offset ≤ e.word ∧ e.word < offset + count
  noted : ∀ i, f.slots slot i ≠ f₀.slots slot i →
    ∃ e rest, f.trace.words = e :: rest ∧ e = ⟨label, slot, offset, bytes, e.word⟩
  records : f.trace.records =
    if finished then (label.map fun l => (l, bytes)).toList ++ f₀.trace.records else f₀.trace.records
  attempts : f.trace.attempts = f₀.trace.attempts

theorem Wrote.start (label : Option (List Byte)) (slot offset : Nat) (bytes : List Byte) (f₀ : MemoryFlash) :
    Wrote label slot offset bytes f₀ f₀ 0 false where
  slots := by rw [overwrite_zero, Function.update_eq_self]
  otherWrites := fun _ _ _ => rfl
  writes := fun _ => .inl rfl
  monotonic := rfl
  nonces := rfl
  slotCount := rfl
  slotSize := rfl
  armed := rfl
  words := ⟨[], rfl, List.Pairwise.nil, by simp⟩
  noted := fun _ h => absurd rfl h
  records := rfl
  attempts := rfl

/-- A program call that is aligned and in bounds. -/
structure Placed (offset : Nat) (bytes : List Byte) (f : MemoryFlash) : Prop where
  whole : f.slotSize % 4 = 0
  aligned : offset % 4 = 0
  inBounds : offset + bytes.length ≤ f.slotSize

/-- A call the flash cannot refuse: it only clears bits, on words that were
written at most once. -/
structure Programmable (slot offset : Nat) (bytes : List Byte) (f : MemoryFlash) : Prop
    extends Placed offset bytes f where
  clears : ∀ i (h : i < bytes.length), f.slots slot (offset + i) = 0xff ∨ bytes[i] = 0
  writes : ∀ w, offset ≤ 4 * w → 4 * w < offset + bytes.length → f.slotWordWrites slot w ≤ 1

variable {label : Option (List Byte)} {slot offset : Nat} {bytes : List Byte} {f₀ f : MemoryFlash}

/-- One location of the word at `4 * k` behind `offset`, before and after it is merged. -/
theorem Wrote.merged {k : Nat} (h : Wrote label slot offset bytes f₀ f (4 * k) false) {i : Nat}
    (hLow : offset + 4 * k ≤ i) (hHigh : i < offset + 4 * k + 4) :
    f.merged slot offset bytes i = overwrite (f₀.slots slot) offset bytes (4 * (k + 1)) i ∧
      f.slots slot i = f₀.slots slot i := by
  have hOld : f.slots slot i = f₀.slots slot i := by
    rw [h.slots, Function.update_self, overwrite_outside (by omega)]
  refine ⟨?_, hOld⟩
  simp only [MemoryFlash.merged, overwrite, hOld]
  by_cases hIn : i < offset + bytes.length
  · rw [if_pos (by omega), if_pos (by omega)]
  · rw [if_neg (by omega), if_neg (by omega)]

theorem Wrote.no_conflict {k : Nat} (h : Wrote label slot offset bytes f₀ f (4 * k) false)
    (hReady : Programmable slot offset bytes f₀) {i : Nat}
    (hLow : offset + 4 * k ≤ i) (hHigh : i < offset + 4 * k + 4) :
    f.conflicts slot offset bytes i = false := by
  obtain ⟨hMerged, hOld⟩ := h.merged hLow hHigh
  simp only [MemoryFlash.conflicts, hMerged, hOld]
  by_cases hIn : i < offset + bytes.length
  · obtain ⟨d, rfl⟩ : ∃ d, i = offset + d := ⟨i - offset, by omega⟩
    rw [overwrite_inside (by omega) (by omega)]
    rcases hReady.clears d (by omega) with hErased | hZero
    · rw [hErased]
      have hOnes : (0xff : Byte) = -1 := rfl
      rw [hOnes, UInt8.neg_one_and]
      simp
    · simp [hZero]
  · rw [overwrite_outside (by omega)]
    simp

/-- Storing the next merged word extends what has been written by four bytes. -/
theorem Wrote.store {k : Nat} (h : Wrote label slot offset bytes f₀ f (4 * k) false)
    (hAligned : offset % 4 = 0)
    (hChanged : ∃ i, offset + 4 * k ≤ i ∧ i < offset + 4 * k + 4 ∧
      f.merged slot offset bytes i ≠ f.slots slot i) (x : Option Nat) (hx : x.isSome = f₀.armed) :
    Wrote label slot offset bytes f₀
      (storeWord label slot offset bytes (offset + 4 * k) { f with failAfter := x }) (4 * (k + 1)) false := by
  have hSlots : (storeWord label slot offset bytes (offset + 4 * k) { f with failAfter := x }).slots =
      Function.update f₀.slots slot (overwrite (f₀.slots slot) offset bytes (4 * (k + 1))) := by
    funext t i
    simp only [storeWord]
    by_cases ht : t = slot
    · subst ht
      rw [Function.update_self]
      by_cases hWord : offset + 4 * k ≤ i ∧ i < offset + 4 * k + 4
      · rw [if_pos ⟨rfl, hWord⟩]
        exact (h.merged hWord.1 hWord.2).1
      · rw [if_neg (by simp [hWord]), h.slots, Function.update_self]
        simp only [overwrite]
        by_cases hIn : offset ≤ i ∧ i < offset + 4 * k ∧ i < offset + bytes.length
        · rw [if_pos hIn, if_pos (by omega)]
        · rw [if_neg hIn, if_neg (by omega)]
    · rw [if_neg (by simp [ht]), h.slots, Function.update_of_ne ht, Function.update_of_ne ht]
  have hWordIndex : ∀ w, w = (offset + 4 * k) / 4 ↔ 4 * w = offset + 4 * k := by
    intro w
    omega
  refine ⟨hSlots, ?_, ?_, h.monotonic, h.nonces, h.slotCount, h.slotSize, hx, ?_, ?_, h.records, h.attempts⟩
  · intro t w hOut
    simp only [storeWord]
    rw [if_neg (by rw [hWordIndex]; omega)]
    exact h.otherWrites t w (by omega)
  · intro w
    by_cases hw : w = (offset + 4 * k) / 4
    · right
      have hAt := (hWordIndex w).1 hw
      have hBefore : f.slotWordWrites slot w = f₀.slotWordWrites slot w := h.otherWrites slot w (by omega)
      refine ⟨by rw [← hBefore]; simp [storeWord, hw], ?_⟩
      obtain ⟨i, hLow, hHigh, hDiff⟩ := hChanged
      obtain ⟨hMerged, hOld⟩ := h.merged hLow hHigh
      refine ⟨i, by omega, by omega, ?_⟩
      rw [hSlots, Function.update_self, ← hMerged, ← hOld]
      exact hDiff
    · rcases h.writes w with hSame | ⟨hMore, i, hLow, hHigh, hDiff⟩
      · left
        simpa [storeWord, hw] using hSame
      · right
        refine ⟨by simpa [storeWord, hw] using hMore, i, hLow, hHigh, ?_⟩
        have : ¬(offset + 4 * k ≤ i ∧ i < offset + 4 * k + 4) := by
          rw [hWordIndex] at hw
          omega
        simpa [storeWord, this] using hDiff
  · obtain ⟨new, hNew, hDistinct, hEntries⟩ := h.words
    refine ⟨⟨label, slot, offset, bytes, offset + 4 * k⟩ :: new, by simp [storeWord, hNew], ?_, ?_⟩
    · refine List.Pairwise.cons ?_ hDistinct
      intro e he
      have := (hEntries e he).2.2
      simp only
      omega
    · intro e he
      rcases List.mem_cons.1 he with rfl | he
      · exact ⟨rfl, by simp, by simp only; omega⟩
      · obtain ⟨hEq, hLow, hHigh⟩ := hEntries e he
        exact ⟨hEq, hLow, by omega⟩
  · exact fun _ _ => ⟨_, _, rfl, rfl⟩

/-- A word that merges to what is stored already counts as written. -/
theorem Wrote.skip {k : Nat} (h : Wrote label slot offset bytes f₀ f (4 * k) false)
    (hSame : ∀ i, offset + 4 * k ≤ i → i < offset + 4 * k + 4 → i < offset + bytes.length →
      f.merged slot offset bytes i = f.slots slot i) :
    Wrote label slot offset bytes f₀ f (4 * (k + 1)) false := by
  refine ⟨?_, fun t w hOut => h.otherWrites t w (by omega), h.writes, h.monotonic, h.nonces, h.slotCount,
    h.slotSize, h.armed, ?_, h.noted, h.records, h.attempts⟩
  · rw [h.slots]
    congr 1
    funext i
    by_cases hWord : offset + 4 * k ≤ i ∧ i < offset + 4 * k + 4 ∧ i < offset + bytes.length
    · obtain ⟨hMerged, hOld⟩ := h.merged hWord.1 hWord.2.1
      rw [← hMerged, hSame i hWord.1 hWord.2.1 hWord.2.2, hOld, overwrite_outside (by omega)]
    · simp only [overwrite]
      by_cases hIn : offset ≤ i ∧ i < offset + 4 * k ∧ i < offset + bytes.length
      · rw [if_pos hIn, if_pos (by omega)]
      · rw [if_neg hIn, if_neg (by omega)]
  · obtain ⟨new, hNew, hDistinct, hEntries⟩ := h.words
    refine ⟨new, hNew, hDistinct, fun e he => ?_⟩
    obtain ⟨hEq, hLow, hHigh⟩ := hEntries e he
    exact ⟨hEq, hLow, by omega⟩

theorem programWord_spec (hPlaced : Placed offset bytes f₀) {k : Nat} (hk : 4 * k < bytes.length) :
    Triple (fun f => Wrote label slot offset bytes f₀ f (4 * k) false)
      (programWord label slot offset bytes (offset + 4 * k))
      (fun _ f => Wrote label slot offset bytes f₀ f (4 * (k + 1)) false)
      (fun _ f => Wrote label slot offset bytes f₀ f (4 * k) false ∧
        (f₀.armed = true ∨ ¬Programmable slot offset bytes f₀)) := by
  have hAligned := hPlaced.aligned
  have hWhole := hPlaced.whole
  have hBounds := hPlaced.inBounds
  refine Triple.get fun f hf => ?_
  have hSize := hf.slotSize
  have hMin : min (offset + 4 * k + 4) f.slotSize - (offset + 4 * k) = 4 := by omega
  rw [hMin]
  refine Triple.failIf_bind (fun hConflict => ?_) fun _ => ?_
  · rintro _ rfl
    refine ⟨hf, .inr fun hReady => ?_⟩
    obtain ⟨i, hi, hBad⟩ := List.any_eq_true.1 hConflict
    rw [List.mem_range'_1] at hi
    rw [hf.no_conflict hReady hi.1 hi.2] at hBad
    exact absurd hBad (by simp)
  by_cases hAll : (List.range' (offset + 4 * k) 4).all
      (fun i => f.merged slot offset bytes i == f.slots slot i) = true
  · rw [if_pos hAll]
    refine Triple.ret ?_
    rintro _ rfl
    refine hf.skip fun i hLow hHigh _ => ?_
    have := List.all_eq_true.1 hAll i (by rw [List.mem_range'_1]; exact ⟨hLow, hHigh⟩)
    simpa using this
  rw [if_neg hAll]
  refine Triple.failIf_bind (fun hFull => ?_) fun _ => ?_
  · rintro _ rfl
    refine ⟨hf, .inr fun hReady => ?_⟩
    have hw := hf.otherWrites slot ((offset + 4 * k) / 4) (by omega)
    have := hReady.writes ((offset + 4 * k) / 4) (by omega) (by omega)
    omega
  refine Triple.bind ((ticks_spec f _).conseq (fun _ h => h) (fun _ _ h => h) ?_) fun _ => ?_
  · rintro _ _ ⟨⟨x, rfl, hx⟩, hArmed⟩
    refine ⟨⟨hf.slots, hf.otherWrites, hf.writes, hf.monotonic, hf.nonces, hf.slotCount, hf.slotSize,
      hx.trans hf.armed, hf.words, hf.noted, hf.records, hf.attempts⟩, .inl (hf.armed ▸ hArmed)⟩
  refine Triple.update ?_
  rintro _ ⟨x, rfl, hx⟩
  refine hf.store hAligned ?_ x (hx.trans hf.armed)
  simp only [List.all_eq_true, List.mem_range'_1, beq_iff_eq, not_forall] at hAll
  obtain ⟨i, hi, hDiff⟩ := hAll
  exact ⟨i, hi.1, hi.2, hDiff⟩

theorem overwrite_of_le (memory : Nat → Byte) (offset : Nat) {bytes : List Byte} {count : Nat}
    (h : bytes.length ≤ count) :
    overwrite memory offset bytes count = overwrite memory offset bytes bytes.length := by
  funext i
  simp only [overwrite]
  by_cases hIn : offset ≤ i ∧ i < offset + bytes.length
  · rw [if_pos (by omega), if_pos (by omega)]
  · rw [if_neg (by omega), if_neg (by omega)]

/-- A program call writes all of its bytes, or stops with a number of leading
words written when the power fails or the flash refuses a word. -/
theorem program_placed_spec (hPlaced : Placed offset bytes f₀) :
    Triple (fun f => f = f₀) (program label slot offset bytes)
      (fun _ f => Wrote label slot offset bytes f₀ f (4 * ((bytes.length + 3) / 4)) true)
      (fun _ f => (∃ k, 4 * k < bytes.length ∧ Wrote label slot offset bytes f₀ f (4 * k) false) ∧
        (f₀.armed = true ∨ ¬Programmable slot offset bytes f₀)) := by
  have hAligned := hPlaced.aligned
  refine Triple.get fun f hf => ?_
  refine Triple.failIf_bind (fun hBounds => ?_) fun _ => ?_
  · have := hPlaced.inBounds
    rw [hf] at hBounds
    omega
  have hStart : offset / 4 * 4 = offset := by omega
  have hCount : (offset + bytes.length + 3) / 4 - offset / 4 = (bytes.length + 3) / 4 := by omega
  rw [hStart, hCount]
  refine Triple.bind (Triple.conseq (Triple.forM (fun k f => Wrote label slot offset bytes f₀ f (4 * k) false)
    fun k hk => ?_) ?_ (fun _ _ h => h) (fun _ _ h => h)) fun _ => ?_
  · rw [List.length_range'] at hk
    rw [List.getElem_range']
    refine (programWord_spec hPlaced (by omega)).conseq (fun _ h => h) (fun _ _ h => h) ?_
    exact fun _ f h => ⟨⟨k, by omega, h.1⟩, h.2⟩
  · rintro _ rfl
    rw [hf]
    exact Wrote.start ..
  · rw [List.length_range']
    cases label with
    | none => exact Triple.ret fun f h => { h with records := h.records }
    | some l =>
        refine Triple.update fun f h => ?_
        exact { h with records := by simp [noteRecord, h.records] }

/-- A call the flash cannot refuse stops only when the power fails. -/
theorem program_spec (hReady : Programmable slot offset bytes f₀) :
    Triple (fun f => f = f₀) (program label slot offset bytes)
      (fun _ f => Wrote label slot offset bytes f₀ f (4 * ((bytes.length + 3) / 4)) true)
      (fun _ f => (∃ k, 4 * k < bytes.length ∧ Wrote label slot offset bytes f₀ f (4 * k) false) ∧
        f₀.armed = true) := by
  refine (program_placed_spec hReady.toPlaced).conseq (fun _ h => h) (fun _ _ h => h) fun _ f h => ⟨h.1, ?_⟩
  rcases h.2 with hArmed | hRefused
  · exact hArmed
  · exact absurd hReady hRefused

end Program

section Erase

/-- A memory whose first `count` bytes are erased. -/
def wiped (memory : Nat → Byte) (count : Nat) : Nat → Byte :=
  fun i => if i < count then 0xff else memory i

/-- An erase that stopped after `count` bytes; write counts are reset at the end. -/
def erasedPrefix (f₀ : MemoryFlash) (slot count : Nat) (budget : Option Nat) : MemoryFlash :=
  { f₀ with slots := Function.update f₀.slots slot (wiped (f₀.slots slot) count), failAfter := budget }

def erasedSlot (f₀ : MemoryFlash) (slot : Nat) (budget : Option Nat) : MemoryFlash :=
  { erasedPrefix f₀ slot f₀.slotSize budget with
    slotWordWrites := Function.update f₀.slotWordWrites slot fun _ => 0 }

theorem eraseByte_erasedPrefix (f₀ : MemoryFlash) (slot count : Nat) (budget : Option Nat) :
    eraseByte slot count (erasedPrefix f₀ slot count budget) = erasedPrefix f₀ slot (count + 1) budget := by
  have hSlots : (eraseByte slot count (erasedPrefix f₀ slot count budget)).slots =
      (erasedPrefix f₀ slot (count + 1) budget).slots := by
    funext t i
    simp only [eraseByte, erasedPrefix]
    by_cases ht : t = slot
    · subst ht
      simp only [Function.update_self, wiped, true_and]
      by_cases hi : i = count
      · rw [if_pos hi, if_pos (by omega)]
      · rw [if_neg hi]
        by_cases hLow : i < count
        · rw [if_pos hLow, if_pos (by omega)]
        · rw [if_neg hLow, if_neg (by omega)]
    · simp [ht]
  simp only [eraseByte, erasedPrefix] at hSlots ⊢
  rw [hSlots]

/-- An erase runs to its end, or stops after some leading bytes. -/
theorem erase_spec (f₀ : MemoryFlash) (slot : Nat) :
    Triple (fun f => f = f₀) (erase slot)
      (fun _ f => ∃ x, f = erasedSlot f₀ slot x ∧ x.isSome = f₀.armed)
      (fun _ f => (∃ k x, f = erasedPrefix f₀ slot k x ∧ x.isSome = f₀.armed ∧ k < f₀.slotSize) ∧
        f₀.armed = true) := by
  refine Triple.get fun f hf => ?_
  subst hf
  refine Triple.bind (Triple.conseq (Triple.forM
    (fun k g => ∃ x, g = erasedPrefix f slot k x ∧ x.isSome = f.armed) fun k hk => ?_) ?_
    (fun _ _ h => h) (fun _ _ h => h)) fun _ => ?_
  · rw [List.getElem_range]
    rw [List.length_range] at hk
    refine Triple.bind (Q := fun _ g => ∃ x, g = erasedPrefix f slot k x ∧ x.isSome = f.armed) ?_ fun _ => ?_
    · rintro g ⟨x, rfl, hx⟩
      rcases x with _ | _ | n
      · exact ⟨none, rfl, hx⟩
      · exact ⟨⟨k, some 0, rfl, hx, hk⟩, hx.symm⟩
      · exact ⟨some n, rfl, hx⟩
    · refine Triple.update ?_
      rintro g ⟨x, rfl, hx⟩
      exact ⟨x, eraseByte_erasedPrefix f slot k x, hx⟩
  · rintro g rfl
    refine ⟨g.failAfter, ?_, rfl⟩
    have hSame : wiped (g.slots slot) 0 = g.slots slot := by
      funext i
      simp [wiped]
    simp [erasedPrefix, hSame]
  · rw [List.length_range]
    refine Triple.update ?_
    rintro g ⟨x, rfl, hx⟩
    refine ⟨x, ?_, hx⟩
    have hWrites : (fun t w => if t = slot then 0 else f.slotWordWrites t w) =
        Function.update f.slotWordWrites slot fun _ => 0 := by
      funext t w
      by_cases ht : t = slot
      · subst ht
        simp
      · simp [ht]
    simp only [erasedPrefix, erasedSlot, hWrites]

end Erase

section Counters

/-- A word counter that has counted to `value`: a prefix of used words, torn
ones included, then erased words. -/
structure CounterIs (counter : Nat → Byte) (size value : Nat) : Prop where
  fits : 4 * value ≤ size
  used : ∀ w < value, ∃ i, 4 * w ≤ i ∧ i < 4 * w + 4 ∧ counter i ≠ 0xff
  free : ∀ i, 4 * value ≤ i → i < size → counter i = 0xff

theorem range_word (counter : Nat → Byte) (offset count : Nat) :
    range counter offset (4 * (count + 1)) =
      counter offset :: counter (offset + 1) :: counter (offset + 2) :: counter (offset + 3) ::
        range counter (offset + 4) (4 * count) := by
  rw [Nat.mul_succ, Nat.add_comm, range_add]
  rfl

theorem decode_used {counter : Nat → Byte} {size value : Nat} (h : CounterIs counter size value)
    (hBound : value < 2 ^ 64) (rest : Nat) :
    ∀ n w, w + n = value → decodeMonotonicWordsFrom (range counter (4 * w) (4 * (n + rest))) w false =
      decodeMonotonicWordsFrom (range counter (4 * value) (4 * rest)) value false
  | 0, w, hw => by
      rw [Nat.zero_add]
      rw [Nat.add_zero] at hw
      rw [hw]
  | n + 1, w, hw => by
      obtain ⟨i, hLow, hHigh, hUsed⟩ := h.used w (by omega)
      rw [show n + 1 + rest = (n + rest) + 1 by omega, range_word, decodeMonotonicWordsFrom]
      have hAny : [counter (4 * w), counter (4 * w + 1), counter (4 * w + 2), counter (4 * w + 3)].any
          (· != 0xff) = true := by
        have hCases : i = 4 * w ∨ i = 4 * w + 1 ∨ i = 4 * w + 2 ∨ i = 4 * w + 3 := by omega
        rcases hCases with rfl | rfl | rfl | rfl <;> simp [hUsed]
      have hNext : checkedAdd64 w 1 = some (w + 1) := by
        rw [checkedAdd64, if_pos (by omega)]
      rw [if_pos hAny, if_neg (by simp), hNext]
      exact decode_used h hBound rest n (w + 1) (by omega)

theorem decode_free {counter : Nat → Byte} (value : Nat) :
    ∀ (n offset : Nat) (sawErased : Bool), (∀ i, offset ≤ i → i < offset + 4 * n → counter i = 0xff) →
      decodeMonotonicWordsFrom (range counter offset (4 * n)) value sawErased = .ok value
  | 0, _, _, _ => rfl
  | n + 1, offset, sawErased, hFree => by
      rw [range_word, decodeMonotonicWordsFrom, hFree offset (by omega) (by omega),
        hFree (offset + 1) (by omega) (by omega), hFree (offset + 2) (by omega) (by omega),
        hFree (offset + 3) (by omega) (by omega), if_neg (by decide)]
      exact decode_free value n (offset + 4) true fun i hLow hHigh => hFree i (by omega) (by omega)

/-- A counter decodes to the number of its used words. -/
theorem CounterIs.decode {counter : Nat → Byte} {size value : Nat} (h : CounterIs counter size value)
    (hWhole : size % 4 = 0) (hBound : size < 2 ^ 63) :
    decodeMonotonicWords (range counter 0 size) = .ok value := by
  have hFits := h.fits
  rw [decodeMonotonicWords, length_range, if_neg (by omega)]
  have hSize : size = 4 * (value + (size / 4 - value)) := by omega
  have hUsed := decode_used h (by omega) (size / 4 - value) value 0 (by omega)
  rw [Nat.mul_zero, ← hSize] at hUsed
  rw [hUsed]
  exact decode_free value _ _ _ fun i hLow hHigh => h.free i hLow (by omega)

def counterOf (nonce : Bool) (f : MemoryFlash) : Nat → Byte :=
  if nonce then f.nonces else f.monotonic

def withCounter (nonce : Bool) (counter : Nat → Byte) (budget : Option Nat) (f : MemoryFlash) : MemoryFlash :=
  if nonce then { f with nonces := counter, failAfter := budget }
  else { f with monotonic := counter, failAfter := budget }

/-- A counter with the first `count` bytes of one word cleared. -/
def cleared (counter : Nat → Byte) (offset count : Nat) : Nat → Byte :=
  fun i => if offset ≤ i ∧ i < offset + count then 0 else counter i

theorem CounterIs.cleared_word {counter : Nat → Byte} {size value : Nat} (h : CounterIs counter size value)
    (hRoom : 4 * (value + 1) ≤ size) {count : Nat} (hPos : 0 < count) (hCount : count ≤ 4) :
    CounterIs (cleared counter (4 * value) count) size (value + 1) := by
  refine ⟨hRoom, fun w hw => ?_, fun i hLow hHigh => ?_⟩
  · by_cases hLast : w = value
    · refine ⟨4 * w, by omega, by omega, ?_⟩
      simp only [cleared]
      rw [if_pos (by omega)]
      decide
    · obtain ⟨i, hLow, hHigh, hUsed⟩ := h.used w (by omega)
      refine ⟨i, hLow, hHigh, ?_⟩
      simp only [cleared]
      rwa [if_neg (by omega)]
  · simp only [cleared]
    rw [if_neg (by omega)]
    exact h.free i (by omega) hHigh

theorem clearCounterByte_withCounter (nonce : Bool) (counter : Nat → Byte) (offset count : Nat)
    (budget : Option Nat) (f : MemoryFlash) :
    clearCounterByte nonce (offset + count) (withCounter nonce (cleared counter offset count) budget f) =
      withCounter nonce (cleared counter offset (count + 1)) budget f := by
  have hByte : (fun i => if i = offset + count then 0 else cleared counter offset count i) =
      cleared counter offset (count + 1) := by
    funext i
    simp only [cleared]
    by_cases hi : i = offset + count
    · rw [if_pos hi, if_pos (by omega)]
    · rw [if_neg hi]
      by_cases hIn : offset ≤ i ∧ i < offset + count
      · rw [if_pos hIn, if_pos (by omega)]
      · rw [if_neg hIn, if_neg (by omega)]
  cases nonce with
  | true => simp only [clearCounterByte, withCounter, if_true, hByte]
  | false => simp [clearCounterByte, withCounter, hByte]

/-- Advancing a counter with room consumes one word; a cut leaves it where it
was or, with a torn word, one further. -/
theorem advanceWordCounter_spec (nonce : Bool) {f₀ : MemoryFlash} {value : Nat}
    (h : CounterIs (counterOf nonce f₀) f₀.slotSize value) (hRoom : 4 * (value + 1) ≤ f₀.slotSize) :
    Triple (fun f => f = f₀) (advanceWordCounter (value + 1) nonce)
      (fun _ f => ∃ c x, f = withCounter nonce c x f₀ ∧ x.isSome = f₀.armed ∧
        CounterIs c f₀.slotSize (value + 1))
      (fun _ f => (∃ c x v, f = withCounter nonce c x f₀ ∧ x.isSome = f₀.armed ∧
        CounterIs c f₀.slotSize v ∧ (v = value ∨ v = value + 1)) ∧ f₀.armed = true) := by
  have hBounded := f₀.bounded
  refine Triple.failIf_bind (fun hZero => by omega) fun _ => ?_
  rw [show (value + 1 - 1) * 4 = 4 * value by omega]
  refine Triple.failIf_bind (fun hBig => by omega) fun _ => ?_
  refine Triple.get fun f hf => ?_
  subst hf
  refine Triple.failIf_bind (fun hBig => by omega) fun _ => ?_
  refine Triple.failIf_bind (fun hUsed => ?_) fun _ => ?_
  · obtain ⟨b, hb, hNot⟩ := List.any_eq_true.1 hUsed
    obtain ⟨i, hi, rfl⟩ := List.mem_iff_getElem.1 hb
    rw [length_range] at hi
    rw [getElem_range] at hNot
    have := h.free (4 * value + i) (by omega) (by omega)
    simp only [counterOf] at this
    rw [this] at hNot
    exact absurd hNot (by decide)
  have hStart : withCounter nonce (cleared (counterOf nonce f) (4 * value) 0) f.failAfter f = f := by
    have hNone : cleared (counterOf nonce f) (4 * value) 0 = counterOf nonce f := by
      funext i
      simp only [cleared]
      rw [if_neg (by omega)]
    rw [hNone]
    cases nonce <;> rfl
  refine Triple.conseq (Triple.forM (fun k g => ∃ x, g = withCounter nonce
    (cleared (counterOf nonce f) (4 * value) k) x f ∧ x.isSome = f.armed) fun k hk => ?_) ?_ ?_ (fun _ _ h => h)
  · rw [List.getElem_range', Nat.one_mul]
    rw [List.length_range'] at hk
    refine Triple.bind (Q := fun _ g => ∃ x, g = withCounter nonce
      (cleared (counterOf nonce f) (4 * value) k) x f ∧ x.isSome = f.armed) ?_ fun _ => ?_
    · have hStopped : ∀ x : Option Nat, x.isSome = f.armed →
          ∃ c y v, withCounter nonce (cleared (counterOf nonce f) (4 * value) k) x f = withCounter nonce c y f ∧
            y.isSome = f.armed ∧ CounterIs c f.slotSize v ∧ (v = value ∨ v = value + 1) := by
        intro x hx
        rcases Nat.eq_zero_or_pos k with rfl | hPos
        · refine ⟨counterOf nonce f, x, value, ?_, hx, h, .inl rfl⟩
          congr 1
          funext i
          simp only [cleared]
          rw [if_neg (by omega)]
        · exact ⟨_, x, value + 1, rfl, hx, h.cleared_word hRoom hPos (by omega), .inr rfl⟩
      rintro g ⟨x, rfl, hx⟩
      have hBudget : (withCounter nonce (cleared (counterOf nonce f) (4 * value) k) x f).failAfter = x := by
        cases nonce <;> rfl
      rw [tick, hBudget]
      rcases x with _ | _ | n
      · exact ⟨none, rfl, hx⟩
      · exact ⟨hStopped _ hx, hx.symm⟩
      · refine ⟨some n, ?_, hx⟩
        cases nonce <;> rfl
    · refine Triple.update ?_
      rintro g ⟨x, rfl, hx⟩
      exact ⟨x, clearCounterByte_withCounter nonce _ _ k x f, hx⟩
  · rintro g rfl
    exact ⟨g.failAfter, hStart.symm, rfl⟩
  · rintro _ g ⟨x, rfl, hx⟩
    rw [List.length_range']
    exact ⟨_, x, rfl, hx, h.cleared_word hRoom (by omega) (by omega)⟩

theorem advanceMonotonic_spec {f₀ : MemoryFlash} {value : Nat}
    (h : CounterIs f₀.monotonic f₀.slotSize value) (hRoom : 4 * (value + 1) ≤ f₀.slotSize) :
    Triple (fun f => f = f₀) (advanceMonotonic (value + 1))
      (fun _ f => ∃ c x, f = { f₀ with monotonic := c, failAfter := x } ∧ x.isSome = f₀.armed ∧
        CounterIs c f₀.slotSize (value + 1))
      (fun _ f => (∃ c x v, f = { f₀ with monotonic := c, failAfter := x } ∧ x.isSome = f₀.armed ∧
        CounterIs c f₀.slotSize v ∧ (v = value ∨ v = value + 1)) ∧ f₀.armed = true) :=
  advanceWordCounter_spec false h hRoom

/-- A reservation returns the next value once the word is consumed. Without a
cut it fails only when the counter is full. -/
theorem reserveNonce_spec {f₀ : MemoryFlash} {value : Nat} (h : CounterIs f₀.nonces f₀.slotSize value)
    (hWhole : f₀.slotSize % 4 = 0) :
    Triple (fun f => f = f₀) reserveNonce
      (fun v f => v = value + 1 ∧ ∃ c x, f = { f₀ with nonces := c, failAfter := x } ∧ x.isSome = f₀.armed ∧
        CounterIs c f₀.slotSize (value + 1))
      (fun _ f => (∃ c x v, f = { f₀ with nonces := c, failAfter := x } ∧ x.isSome = f₀.armed ∧
        CounterIs c f₀.slotSize v ∧ (v = value ∨ v = value + 1)) ∧
          (f₀.armed = true ∨ f₀.slotSize < 4 * (value + 1))) := by
  have hBounded := f₀.bounded
  have hFits := h.fits
  refine Triple.get fun f hf => ?_
  subst hf
  have hCurrent : f.nonceGeneration = .ok value := h.decode hWhole hBounded
  refine Triple.readOnly_bind (fun current hOk => ?_) fun e hError => ?_
  · rw [hCurrent] at hOk
    injection hOk with hOk
    subst hOk
    refine Triple.orFail_bind (fun hNone => ?_) fun next hNext => ?_
    · rw [checkedAdd64, if_pos (by omega)] at hNone
      cases hNone
    · rw [checkedAdd64, if_pos (by omega)] at hNext
      injection hNext with hNext
      subst hNext
      by_cases hRoom : 4 * (value + 1) ≤ f.slotSize
      · refine Triple.bind (Triple.conseq (advanceWordCounter_spec true h hRoom) (fun _ h => h)
          (fun _ _ h => h) fun _ g hg => ⟨hg.1, .inl hg.2⟩) fun _ => ?_
        exact Triple.ret fun g hg => ⟨rfl, hg⟩
      · -- the full counter is found before anything is written
        refine Triple.bind (Q := fun _ _ => False) ?_ fun _ _ h => h.elim
        refine Triple.failIf_bind (fun hZero => by omega) fun _ => ?_
        refine Triple.failIf_bind (fun hBig => by omega) fun _ => ?_
        refine Triple.get fun g hg => ?_
        subst hg
        refine Triple.failIf_bind (fun _ => ?_) fun hNot => by omega
        rintro _ rfl
        exact ⟨⟨_, _, value, rfl, rfl, h, .inl rfl⟩, .inr (by omega)⟩
  · rw [hCurrent] at hError
    cases hError

end Counters

end MicroCard.Journal
