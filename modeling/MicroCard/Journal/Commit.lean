import MicroCard.Journal.Recovery

/-! Commits and appends. Each flash step keeps the old chain stored until the
one word that publishes the new one; from there on the new chain is stored. -/
namespace MicroCard.Journal

open Bytes CrashTriple

/-- What a granted generation looks like. -/
structure Granted (generation next : Nat) (appendEnabled : Bool) (durability : Durability) : Prop where
  lt : generation < next
  bounded : next < 2 ^ 64
  anchor_eq : anchor next appendEnabled =
    anchor generation appendEnabled + if appendEnabled = false ∨ durability = .anchored then 1 else 0
  follows : appendEnabled = true → Follows generation next

theorem Granted.anchored {generation next : Nat} {appendEnabled : Bool} {durability : Durability}
    (h : Granted generation next appendEnabled durability) :
    appendEnabled = true → anchor next true ≠ 0 ∧ sequence next ≠ 0 := by
  intro hMode
  have hFollows := h.follows hMode
  refine ⟨hFollows.anchored, ?_⟩
  rw [hFollows.sequence]
  omega

theorem nextGeneration_spec {generation next : Nat} {appendEnabled : Bool} {durability : Durability}
    (h : nextGeneration generation appendEnabled durability = .ok next) :
    Granted generation next appendEnabled durability := by
  unfold nextGeneration at h
  cases appendEnabled with
  | false =>
      simp only [Bool.not_false, if_true, checkedAdd64] at h
      split at h
      · rename_i value hValue
        split at hValue
        · injection h with h
          injection hValue with hValue
          subst h hValue
          exact ⟨by omega, by omega, by simp [anchor], fun hMode => by cases hMode⟩
        · cases hValue
      · cases h
  | true =>
      generalize hStep : (if durability = .anchored then 1 else 0) = step at h
      simp only [Bool.not_true, Bool.false_eq_true, if_false, checkedAdd32, checkedAdd64] at h
      split at h
      · cases h
      rename_i s hSequence
      split at hSequence
      swap
      · cases hSequence
      rename_i hRoom
      injection hSequence with hSequence
      split at h
      · cases h
      rename_i a hAnchor
      split at hAnchor
      swap
      · cases hAnchor
      injection hAnchor with hAnchor
      split at h
      · cases h
      rename_i hBounds
      injection h with h
      have hOld : generation / 2 ^ 32 = anchor generation true := by simp [anchor]
      have hMod : generation % 2 ^ 32 = sequence generation := rfl
      have hNextAnchor : anchor next true = a := by
        simp only [anchor, if_true, ← h]
        omega
      have hNextSequence : sequence next = s := by
        simp only [sequence, ← h]
        omega
      have hSmall : step = 0 ∨ step = 1 := by
        rw [← hStep]
        split <;> simp
      refine ⟨by omega, by omega, ?_, fun _ => ⟨hRoom, by omega, by omega, by omega, by omega⟩⟩
      rw [hNextAnchor, ← hAnchor, ← hStep]
      simp

/-- `g` differs from `f` at most in one slot and in the remaining budget. -/
structure SlotOnly (f g : MemoryFlash) (slot : Nat) : Prop where
  slots : ∀ t, t ≠ slot → g.slots t = f.slots t
  writes : ∀ t, t ≠ slot → g.slotWordWrites t = f.slotWordWrites t
  monotonic : g.monotonic = f.monotonic
  nonces : g.nonces = f.nonces
  slotCount : g.slotCount = f.slotCount
  slotSize : g.slotSize = f.slotSize
  armed : g.armed = f.armed
  attempts : g.trace.attempts = f.trace.attempts

theorem SlotOnly.trans {f g h : MemoryFlash} {slot : Nat} (first : SlotOnly f g slot) (second : SlotOnly g h slot) :
    SlotOnly f h slot where
  slots := fun t ht => (second.slots t ht).trans (first.slots t ht)
  writes := fun t ht => (second.writes t ht).trans (first.writes t ht)
  monotonic := second.monotonic.trans first.monotonic
  nonces := second.nonces.trans first.nonces
  slotCount := second.slotCount.trans first.slotCount
  slotSize := second.slotSize.trans first.slotSize
  armed := second.armed.trans first.armed
  attempts := second.attempts.trans first.attempts

theorem Wrote.slotOnly {label : Option (List Byte)} {slot offset : Nat} {bytes : List Byte} {f g : MemoryFlash}
    {count : Nat} {finished : Bool} (h : Wrote label slot offset bytes f g count finished) : SlotOnly f g slot where
  slots := fun t ht => by rw [h.slots, Function.update_of_ne ht]
  writes := fun t ht => by
    funext w
    exact h.otherWrites t w (.inl ht)
  monotonic := h.monotonic
  nonces := h.nonces
  slotCount := h.slotCount
  slotSize := h.slotSize
  armed := h.armed
  attempts := h.attempts

/-- The last word programmed belongs to a sealed record. -/
def Dangling (f : MemoryFlash) : Prop := ∃ w rest, f.trace.words = w :: rest ∧ w.label ≠ none

theorem Wrote.dangling {tag : List Byte} {slot offset : Nat} {bytes : List Byte} {f g : MemoryFlash} {count : Nat}
    {finished : Bool} (h : Wrote (some tag) slot offset bytes f g count finished) {i : Nat}
    (hChanged : g.slots slot i ≠ f.slots slot i) : Dangling g := by
  obtain ⟨w, rest, hWords, hEntry⟩ := h.noted i hChanged
  refine ⟨w, rest, hWords, ?_⟩
  rw [hEntry]
  exact fun hNone => nomatch hNone

theorem Wrote.words_of_zero {label : Option (List Byte)} {slot offset : Nat} {bytes : List Byte} {f g : MemoryFlash}
    {finished : Bool} (h : Wrote label slot offset bytes f g 0 finished) : g.trace.words = f.trace.words := by
  obtain ⟨new, hWords, -, hNew⟩ := h.words
  cases new with
  | nil => exact hWords
  | cons w rest =>
      have hPlace := (hNew w (List.mem_cons_self ..)).2
      omega

theorem erasedPrefix_slotOnly (f : MemoryFlash) (slot k : Nat) {x : Option Nat} (hx : x.isSome = f.armed) :
    SlotOnly f (erasedPrefix f slot k x) slot where
  slots := fun t ht => by simp only [erasedPrefix, Function.update_of_ne ht]
  writes := fun _ _ => rfl
  monotonic := rfl
  nonces := rfl
  slotCount := rfl
  slotSize := rfl
  armed := hx
  attempts := rfl

theorem erasedSlot_slotOnly (f : MemoryFlash) (slot : Nat) {x : Option Nat} (hx : x.isSome = f.armed) :
    SlotOnly f (erasedSlot f slot x) slot where
  slots := fun t ht => by simp only [erasedSlot, erasedPrefix, Function.update_of_ne ht]
  writes := fun t ht => by simp only [erasedSlot, Function.update_of_ne ht]
  monotonic := rfl
  nonces := rfl
  slotCount := rfl
  slotSize := rfl
  armed := hx
  attempts := rfl

theorem range_eq_erasedWord_iff {memory : Nat → Byte} {offset : Nat} :
    range memory offset 4 = erasedWord ↔ ∀ i, offset ≤ i → i < offset + 4 → memory i = 0xff := by
  have hReplicate : erasedWord = List.replicate 4 0xff := rfl
  rw [hReplicate, range_eq_replicate_iff]
  constructor
  · intro h i hLow hHigh
    obtain ⟨d, rfl⟩ : ∃ d, i = offset + d := ⟨i - offset, by omega⟩
    exact h d (by omega)
  · exact fun h i hi => h _ (by omega) (by omega)

/-- Programming over erased words keeps every word's write count at one, provided
a word that is not erased is only programmed with what it holds. -/
theorem Wrote.freshWrites {label : Option (List Byte)} {slot offset : Nat} {bytes : List Byte} {f g : MemoryFlash}
    {count : Nat} {finished : Bool} (h : Wrote label slot offset bytes f g count finished)
    (hFresh : FreshWrites (f.slots slot) (f.slotWordWrites slot) f.slotSize)
    (hWords : ∀ w, offset < 4 * w + 4 → 4 * w < offset + count → range (f.slots slot) (4 * w) 4 = erasedWord ∨
      ∀ i, 4 * w ≤ i → i < 4 * w + 4 → g.slots slot i = f.slots slot i) :
    FreshWrites (g.slots slot) (g.slotWordWrites slot) g.slotSize := by
  intro w hw
  rw [h.slotSize] at hw
  obtain ⟨hOnce, hErased⟩ := hFresh w hw
  rcases h.writes w with hSame | ⟨hMore, i, hLow, hHigh, hChanged⟩
  · rw [hSame]
    refine ⟨hOnce, fun hStill => ?_⟩
    by_cases hTouched : offset < 4 * w + 4 ∧ 4 * w < offset + count
    · rcases hWords w hTouched.1 hTouched.2 with hWas | hKept
      · exact hErased hWas
      · refine hErased ?_
        rw [range_eq_erasedWord_iff] at hStill ⊢
        intro i hLow hHigh
        rw [← hKept i hLow hHigh]
        exact hStill i hLow hHigh
    · refine hErased ?_
      rw [range_eq_erasedWord_iff] at hStill ⊢
      intro i hLow hHigh
      have := hStill i hLow hHigh
      rwa [h.slots, Function.update_self, overwrite_outside (by omega)] at this
  · have hTouched : offset < 4 * w + 4 ∧ 4 * w < offset + count := by
      by_contra hOut
      have := h.otherWrites slot w (by omega)
      omega
    rcases hWords w hTouched.1 hTouched.2 with hWas | hKept
    · rw [hMore, hErased hWas]
      refine ⟨Nat.le_refl _, fun hStill => ?_⟩
      rw [range_eq_erasedWord_iff] at hStill hWas
      exact absurd ((hStill i hLow hHigh).trans (hWas i hLow hHigh).symm) hChanged
    · exact absurd (hKept i hLow hHigh) hChanged

/-- The same slot contents under a change elsewhere. -/
theorem Passable.mono {provider : CryptoProvider} {key : List Byte} {appendEnabled : Bool} {memory : Nat → Byte}
    {size reserved generation : Nat} {reclaiming : Bool}
    (h : Passable provider key appendEnabled memory size reserved generation reclaiming)
    {reserved' generation' : Nat} {reclaiming' : Bool} (hReserved : reserved ≤ reserved')
    (hGeneration : generation ≤ generation') (hReclaiming : reclaiming = true → reclaiming' = true) :
    Passable provider key appendEnabled memory size reserved' generation' reclaiming' := by
  cases h with
  | older e started complete published lt =>
      exact .older e started complete { published with attempt_le := published.attempt_le.trans hReserved }
        (lt.trans_le hGeneration)
  | vacant vacant => exact .vacant vacant
  | reclaimed reclaiming wiped => exact .reclaimed (hReclaiming reclaiming) wiped

/-- A slot after one of its words was set to zero. -/
structure Marked (f g : MemoryFlash) (slot offset : Nat) : Prop where
  only : SlotOnly f g slot
  records : g.trace.records = f.trace.records
  slots : g.slots slot = overwrite (f.slots slot) offset zeroWord 4
  fresh : FreshWrites (g.slots slot) (g.slotWordWrites slot) g.slotSize

/-- A slot that was going to be changed when the power failed. -/
structure Untouched (f g : MemoryFlash) (slot : Nat) : Prop where
  only : SlotOnly f g slot
  records : g.trace.records = f.trace.records
  words : g.trace.words = f.trace.words
  slots : g.slots slot = f.slots slot
  fresh : FreshWrites (g.slots slot) (g.slotWordWrites slot) g.slotSize

theorem overwrite_zeroWord_idem {memory : Nat → Byte} {offset i : Nat} (h : range memory offset 4 = zeroWord) :
    overwrite memory offset zeroWord 4 i = memory i := by
  by_cases hIn : offset ≤ i ∧ i < offset + 4
  · obtain ⟨d, rfl⟩ : ∃ d, i = offset + d := ⟨i - offset, by omega⟩
    have hd : d < zeroWord.length := by
      simp only [zeroWord, List.length_cons, List.length_nil]
      omega
    rw [overwrite_inside (by omega) hd, (range_eq_iff.1 h).2 d hd]
  · rw [overwrite_outside (by omega)]

/-- Setting an erased or already set word to zero is a single step. -/
theorem markWord_spec {f : MemoryFlash} {slot offset : Nat} (hWhole : f.slotSize % 4 = 0)
    (hAligned : offset % 4 = 0) (hBounds : offset + 4 ≤ f.slotSize)
    (hFresh : FreshWrites (f.slots slot) (f.slotWordWrites slot) f.slotSize)
    (hWord : range (f.slots slot) offset 4 = erasedWord ∨ range (f.slots slot) offset 4 = zeroWord) :
    Triple (fun s => s = f) (program none slot offset zeroWord) (fun _ g => Marked f g slot offset)
      (fun _ g => Untouched f g slot ∧ f.armed = true) := by
  have hLength : zeroWord.length = 4 := rfl
  have hReady : Programmable slot offset zeroWord f := by
    refine ⟨⟨hWhole, hAligned, by rw [hLength]; exact hBounds⟩, fun i hi => .inr ?_, fun w _ hw => ?_⟩
    · rw [hLength] at hi
      have hCases : i = 0 ∨ i = 1 ∨ i = 2 ∨ i = 3 := by omega
      rcases hCases with rfl | rfl | rfl | rfl <;> rfl
    · rw [hLength] at hw
      exact (hFresh w (by omega)).1
  refine (program_spec hReady).conseq (fun _ h => h) (fun _ g h => ?_) ?_
  · rw [show 4 * ((zeroWord.length + 3) / 4) = 4 by rfl] at h
    have hSlots : g.slots slot = overwrite (f.slots slot) offset zeroWord 4 := by
      rw [h.slots, Function.update_self]
    refine ⟨h.slotOnly, h.records, hSlots, h.freshWrites hFresh fun w hLow hHigh => ?_⟩
    have hAt : 4 * w = offset := by omega
    rcases hWord with hErased | hZero
    · left
      rw [hAt, hErased]
    · right
      intro i _ _
      rw [hSlots, overwrite_zeroWord_idem hZero]
  · rintro _ g ⟨⟨k, hk, h⟩, hArmed⟩
    rw [hLength] at hk
    have hZero : k = 0 := by omega
    subst hZero
    have hSlots : g.slots slot = f.slots slot := by
      rw [h.slots, Function.update_self, Nat.mul_zero, overwrite_zero]
    exact ⟨⟨h.slotOnly, h.records, h.words_of_zero, hSlots,
      h.freshWrites hFresh fun w _ _ => .inr fun i _ _ => by rw [hSlots]⟩, hArmed⟩

section Stages

variable {provider : CryptoProvider} {key : List Byte} {appendEnabled : Bool}
variable {f g : MemoryFlash} {active : Nat} {e : Epoch} {started : Bool} {reserved anchored : Nat}

/-- A change confined to a slot other than the newest keeps the chain stored, as
long as that slot may still be passed over. -/
theorem Stored.other_slot (h : Stored provider key appendEnabled f active e started reserved anchored)
    {slot : Nat} (hOnly : SlotOnly f g slot) (hSlot : slot ≠ active)
    (hPass : slot < f.slotCount → Passable provider key appendEnabled (g.slots slot) g.slotSize reserved e.generation
      (started && decide (slot = (active + 1) % g.slotCount))) :
    Stored provider key appendEnabled g active e started reserved anchored := by
  refine ⟨hOnly.slotCount ▸ h.two_le, hOnly.slotCount ▸ h.le_eight, hOnly.slotSize ▸ h.whole,
    hOnly.slotSize ▸ h.large, ?_, ?_, h.anchor_eq, hOnly.slotSize ▸ h.anchor_le, hOnly.slotCount ▸ h.active_lt,
    ?_, ?_, ?_⟩
  · rw [hOnly.nonces, hOnly.slotSize]
    exact h.nonces
  · rw [hOnly.monotonic, hOnly.slotSize]
    exact h.monotonic
  · rw [hOnly.slots active (Ne.symm hSlot), hOnly.slotSize]
    exact h.published
  · rw [hOnly.slots active (Ne.symm hSlot), hOnly.writes active (Ne.symm hSlot), hOnly.slotSize]
    exact h.writes
  · intro t ht hNe
    rw [hOnly.slotCount] at ht
    by_cases hEq : t = slot
    · subst hEq
      exact hPass ht
    · rw [hOnly.slots t hEq, hOnly.slotSize, hOnly.slotCount]
      exact h.others t ht hNe

/-- A change confined to the newest slot that keeps or extends its chain. -/
theorem Stored.active_slot (h : Stored provider key appendEnabled f active e started reserved anchored)
    (hOnly : SlotOnly f g active) {e' : Epoch} {started' : Bool}
    (hPublished : Published provider key appendEnabled (g.slots active) g.slotSize reserved e' started' false)
    (hWrites : FreshWrites (g.slots active) (g.slotWordWrites active) g.slotSize)
    (hGeneration : e.generation ≤ e'.generation) (hStarted : started = true → started' = true)
    (hAnchor : anchor e'.generation appendEnabled = anchored ∨ anchor e'.generation appendEnabled = anchored + 1)
    (hRoom : 4 * anchor e'.generation appendEnabled ≤ f.slotSize) :
    Stored provider key appendEnabled g active e' started' reserved anchored := by
  refine ⟨hOnly.slotCount ▸ h.two_le, hOnly.slotCount ▸ h.le_eight, hOnly.slotSize ▸ h.whole,
    hOnly.slotSize ▸ h.large, ?_, ?_, hAnchor, hOnly.slotSize ▸ hRoom, hOnly.slotCount ▸ h.active_lt,
    hPublished, hWrites, ?_⟩
  · rw [hOnly.nonces, hOnly.slotSize]
    exact h.nonces
  · rw [hOnly.monotonic, hOnly.slotSize]
    exact h.monotonic
  · intro t ht hNe
    rw [hOnly.slotCount] at ht
    rw [hOnly.slots t hNe, hOnly.slotSize, hOnly.slotCount]
    refine (h.others t ht hNe).mono (Nat.le_refl _) hGeneration fun hBoth => ?_
    rw [Bool.and_eq_true] at hBoth ⊢
    exact ⟨hStarted hBoth.1, hBoth.2⟩

/-- Reserving a nonce moves only its counter. -/
theorem Stored.withNonces (h : Stored provider key appendEnabled f active e started reserved anchored)
    {counter : Nat → Byte} {value : Nat} (budget : Option Nat) (hCounter : CounterIs counter f.slotSize value)
    (hMore : reserved ≤ value) :
    Stored provider key appendEnabled { f with nonces := counter, failAfter := budget } active e started
      value anchored :=
  { h with
    nonces := hCounter
    published := { h.published with attempt_le := h.published.attempt_le.trans hMore }
    others := fun slot hSlot hNe => (h.others slot hSlot hNe).mono hMore (Nat.le_refl _) (fun h => h) }

theorem Stored.untouched (h : Stored provider key appendEnabled f active e started reserved anchored)
    (hSame : Untouched f g active) : Stored provider key appendEnabled g active e started reserved anchored := by
  refine h.active_slot hSame.only ?_ hSame.fresh (Nat.le_refl _) (fun h => h) h.anchor_eq h.anchor_le
  rw [hSame.slots, hSame.only.slotSize]
  exact h.published

theorem range_overwrite_disjoint {memory : Nat → Byte} {offset count start length : Nat} {bytes : List Byte}
    (h : start + length ≤ offset ∨ offset + bytes.length ≤ start) :
    range (overwrite memory offset bytes count) start length = range memory start length :=
  range_congr fun i hi => overwrite_outside (by omega)

theorem range_overwrite_self (memory : Nat → Byte) (offset : Nat) (bytes : List Byte) :
    range (overwrite memory offset bytes bytes.length) offset bytes.length = bytes := by
  rw [range_eq_iff]
  exact ⟨rfl, fun i hi => overwrite_inside hi hi⟩

/-- Setting a reclaim word leaves everything else of a published slot alone. -/
theorem Published.mark {memory : Nat → Byte} {size : Nat} {complete : Bool} (hWhole : size % 4 = 0)
    (h : Published provider key appendEnabled memory size reserved e started complete) (intent : Bool)
    (hOrder : intent = false → started = true) :
    Published provider key appendEnabled
      (overwrite memory (size - if intent then reclaimStarted else reclaimComplete) zeroWord 4) size reserved e
      (if intent then true else started) (if intent then complete else true) := by
  have hLength : zeroWord.length = 4 := rfl
  have hFits := h.epoch.fits
  simp only [overhead, recordOverhead, headerBytes, tailBytes] at hFits
  have hRange : ∀ offset, range (overwrite memory (size - offset) zeroWord 4) (size - offset) 4 = zeroWord :=
    fun offset => range_overwrite_self memory (size - offset) zeroWord
  cases intent with
  | true =>
      simp only [if_true]
      refine ⟨h.epoch.congr hWhole (fun i hi => ?_) ?_, h.attempt_le, ?_, ?_, fun _ => rfl⟩
      · exact (overwrite_outside (.inl hi)).symm
      · rw [range_overwrite_disjoint, h.epoch.committed]
        simp only [hLength, reclaimStarted, committed, tailBytes]
        omega
      · rw [FlagAt, hRange]
        rfl
      · rw [FlagAt, range_overwrite_disjoint, h.completeFlag]
        simp only [hLength, reclaimStarted, reclaimComplete, tailBytes]
        omega
  | false =>
      have hStarted := hOrder rfl
      simp only [Bool.false_eq_true, if_false]
      refine ⟨h.epoch.congr hWhole (fun i hi => ?_) ?_, h.attempt_le, ?_, ?_, fun _ => hStarted⟩
      · rw [overwrite_outside]
        simp only [reclaimComplete, tailBytes] at hi ⊢
        omega
      · rw [range_overwrite_disjoint, h.epoch.committed]
        simp only [hLength, reclaimComplete, committed, tailBytes]
        omega
      · rw [FlagAt, range_overwrite_disjoint, h.startedFlag]
        simp only [hLength, reclaimStarted, reclaimComplete, tailBytes]
        omega
      · rw [FlagAt, hRange]
        rfl

theorem FlagAt.word {memory : Nat → Byte} {offset : Nat} {set : Bool} (h : FlagAt memory offset set) :
    range memory offset 4 = erasedWord ∨ range memory offset 4 = zeroWord := by
  cases set with
  | true => exact .inr h
  | false => exact .inl h

/-- Announcing the reclaim. -/
theorem markStarted_spec (h : Stored provider key appendEnabled f active e started reserved anchored) :
    Triple (fun s => s = f) (program none active (f.slotSize - reclaimStarted) zeroWord)
      (fun _ g => SlotOnly f g active ∧ g.trace.records = f.trace.records ∧
        Stored provider key appendEnabled g active e true reserved anchored)
      (fun _ g => (SlotOnly f g active ∧ g.trace.records = f.trace.records ∧
        Stored provider key appendEnabled g active e started reserved anchored) ∧ f.armed = true) := by
  have hWhole := h.whole
  have hLarge := h.large
  simp only [overhead, recordOverhead, headerBytes, tailBytes] at hLarge
  refine (markWord_spec hWhole ?_ ?_ h.writes h.published.startedFlag.word).conseq (fun _ h => h) ?_ ?_
  · simp only [reclaimStarted, tailBytes]
    omega
  · simp only [reclaimStarted, tailBytes]
    omega
  · intro _ g hMarked
    refine ⟨hMarked.only, hMarked.records, h.active_slot hMarked.only ?_ hMarked.fresh (Nat.le_refl _) (fun _ => rfl)
      h.anchor_eq h.anchor_le⟩
    rw [hMarked.slots, hMarked.only.slotSize]
    exact h.published.mark hWhole true (fun hFalse => by cases hFalse)
  · rintro _ g ⟨hSame, hArmed⟩
    exact ⟨⟨hSame.only, hSame.records, h.untouched hSame⟩, hArmed⟩

end Stages

section Snapshot

/-- A slot right after its erase. -/
structure Blank (f : MemoryFlash) (slot : Nat) : Prop where
  erased : ∀ i < f.slotSize, f.slots slot i = 0xff
  unwritten : ∀ w, f.slotWordWrites slot w = 0

theorem Blank.freshWrites {f : MemoryFlash} {slot : Nat} (h : Blank f slot) :
    FreshWrites (f.slots slot) (f.slotWordWrites slot) f.slotSize :=
  fun w _ => ⟨by rw [h.unwritten w]; omega, fun _ => h.unwritten w⟩

/-- Erasing a slot; a cut leaves it unchanged or without its first byte. -/
theorem eraseSlot_spec (f : MemoryFlash) (slot : Nat) :
    Triple (fun s => s = f) (erase slot)
      (fun _ g => SlotOnly f g slot ∧ g.trace.records = f.trace.records ∧ Blank g slot)
      (fun _ g => (SlotOnly f g slot ∧ g.trace.records = f.trace.records ∧
        (g.slots slot = f.slots slot ∨ g.slots slot 0 = 0xff)) ∧ f.armed = true) := by
  refine (erase_spec f slot).conseq (fun _ h => h) ?_ ?_
  · rintro _ _ ⟨x, rfl, hx⟩
    refine ⟨erasedSlot_slotOnly f slot hx, rfl, fun i hi => ?_, fun w => ?_⟩
    · simp only [erasedSlot, erasedPrefix, Function.update_self, wiped]
      exact if_pos hi
    · simp only [erasedSlot, Function.update_self]
  · rintro _ _ ⟨⟨k, x, rfl, hx, _⟩, hArmed⟩
    refine ⟨⟨erasedPrefix_slotOnly f slot k hx, rfl, ?_⟩, hArmed⟩
    simp only [erasedPrefix, Function.update_self]
    rcases Nat.eq_zero_or_pos k with rfl | hPos
    · left
      funext i
      simp [wiped]
    · right
      simp [wiped, hPos]

/-- A sealed record: header and ciphertext that decrypts to `data`. -/
structure SealedRecord (provider : CryptoProvider) (key label : List Byte) (header : RecordHeader)
    (data record : List Byte) : Prop where
  split : ∃ ciphertext, record = header.encode ++ ciphertext ∧ ciphertext.length = data.length + 16 ∧
    provider.aesCcmDecrypt key label header.encode ciphertext = .ok data

variable {provider : CryptoProvider} {key label : List Byte} {header : RecordHeader} {data record : List Byte}

theorem SealedRecord.length (h : SealedRecord provider key label header data record) :
    record.length = headerBytes + (data.length + 16) := by
  obtain ⟨ciphertext, rfl, hLength, -⟩ := h.split
  rw [List.length_append, RecordHeader.length_encode, hLength]

/-- A memory that holds the record at `offset`. -/
theorem SealedRecord.at (h : SealedRecord provider key label header data record) {memory : Nat → Byte} {offset : Nat}
    (hAt : range memory offset record.length = record) :
    range memory offset headerBytes = header.encode ∧
      provider.aesCcmDecrypt key label header.encode (range memory (offset + headerBytes) (data.length + 16)) =
        .ok data := by
  obtain ⟨ciphertext, rfl, hLength, hOpens⟩ := h.split
  have hHeader : header.encode.length = headerBytes := header.length_encode
  rw [List.length_append, hHeader, hLength, range_add] at hAt
  obtain ⟨hFirst, hSecond⟩ := List.append_inj hAt (by rw [length_range, hHeader])
  rw [hFirst, hSecond]
  exact ⟨rfl, hOpens⟩

theorem SealedRecord.first (h : SealedRecord provider key label header data record) :
    ∃ hPos : 0 < record.length, record[0] = 0x4d := by
  obtain ⟨ciphertext, rfl, -, -⟩ := h.split
  exact ⟨by simp [headerBytes], rfl⟩

theorem SealedRecord.magic_at (h : SealedRecord provider key label header data record) {memory : Nat → Byte}
    {offset : Nat} (hAt : ∀ i (_ : i < record.length), i < 4 → memory (offset + i) = record[i]) :
    range memory offset 4 = magic (if header.appendEnabled then 0x39 else 0x38) := by
  have hLength := h.length
  obtain ⟨ciphertext, rfl, -, -⟩ := h.split
  simp only [headerBytes] at hLength
  rw [← header.encode_magic, range_eq_iff]
  have hHeader : header.encode.length = 24 := header.length_encode
  refine ⟨by simp [hHeader], fun i hi => ?_⟩
  simp only [List.length_take, hHeader] at hi
  rw [hAt i (by omega) (by omega), List.getElem_take, List.getElem_append_left]

/-- The epoch a commit is about to publish. -/
def newEpoch (attempt generation : Nat) (data : List Byte) : Epoch where
  attempt := attempt
  base := generation
  contents := ⟨data, []⟩
  generation := generation
  stop := wordAlign (headerBytes + (data.length + 16))
  free := true

/-- A slot that holds a record and nothing else. -/
structure Laid (f : MemoryFlash) (slot : Nat) (record : List Byte) : Prop where
  front : range (f.slots slot) 0 record.length = record
  rest : ∀ i, record.length ≤ i → i < f.slotSize → f.slots slot i = 0xff
  fresh : FreshWrites (f.slots slot) (f.slotWordWrites slot) f.slotSize

/-- Programming the record into an erased slot; the slot is vacant all along. -/
theorem layRecord_spec {f : MemoryFlash} {slot : Nat} (hBlank : Blank f slot) (hWhole : f.slotSize % 4 = 0)
    (hSealed : SealedRecord provider key label header data record)
    (hFits : data.length + overhead ≤ f.slotSize) (tag : List Byte) :
    Triple (fun s => s = f) (program (some tag) slot 0 record)
      (fun _ g => SlotOnly f g slot ∧ Laid g slot record ∧ g.trace.records = (tag, record) :: f.trace.records ∧
        Dangling g)
      (fun _ g => (SlotOnly f g slot ∧ g.trace.records = f.trace.records ∧ Vacant (g.slots slot) g.slotSize) ∧
        f.armed = true) := by
  have hLength := hSealed.length
  simp only [headerBytes] at hLength
  simp only [overhead, recordOverhead, headerBytes, tailBytes] at hFits
  have hReady : Programmable slot 0 record f := by
    refine ⟨⟨hWhole, rfl, by omega⟩, fun i hi => .inl ?_, fun w _ hw => by rw [hBlank.unwritten w]; omega⟩
    rw [Nat.zero_add]
    exact hBlank.erased i (by omega)
  have hFresh : ∀ {g : MemoryFlash} {count : Nat} {finished : Bool}, count ≤ record.length + 3 →
      Wrote (some tag) slot 0 record f g count finished →
      FreshWrites (g.slots slot) (g.slotWordWrites slot) g.slotSize := by
    intro g count finished hCount hWrote
    refine hWrote.freshWrites hBlank.freshWrites fun w _ hHigh => .inl ?_
    rw [range_eq_erasedWord_iff]
    exact fun i hLow hHigh => hBlank.erased i (by omega)
  refine (program_spec hReady).conseq (fun _ h => h) (fun _ g h => ?_) ?_
  · have hSlots : g.slots slot = overwrite (f.slots slot) 0 record record.length := by
      rw [h.slots, Function.update_self, overwrite_of_le _ _ (by omega)]
    refine ⟨h.slotOnly, ⟨?_, fun i hLow hHigh => ?_, hFresh (by omega) h⟩, h.records, h.dangling (i := 0) ?_⟩
    · rw [hSlots]
      exact range_overwrite_self ..
    · rw [hSlots, overwrite_outside (by omega)]
      exact hBlank.erased i (by rw [h.slotSize] at hHigh; exact hHigh)
    · obtain ⟨hPos, hFirst⟩ := hSealed.first
      have hByte : overwrite (f.slots slot) 0 record record.length (0 + 0) = record[0] := overwrite_inside hPos hPos
      rw [hSlots, hByte, hFirst, hBlank.erased 0 (by omega)]
      decide
  · rintro _ g ⟨⟨k, hk, h⟩, hArmed⟩
    have hSlots : g.slots slot = overwrite (f.slots slot) 0 record (4 * k) := by
      rw [h.slots, Function.update_self]
    refine ⟨⟨h.slotOnly, h.records, ⟨?_, ?_⟩⟩, hArmed⟩
    · rcases Nat.eq_zero_or_pos k with rfl | hPos
      · have hErased : range (g.slots slot) 0 4 = erasedWord := by
          rw [range_eq_erasedWord_iff, hSlots, Nat.mul_zero, overwrite_zero]
          exact fun i _ hHigh => hBlank.erased i (by omega)
        rw [hErased]
        decide
      · have hMagic : range (g.slots slot) 0 4 = magic (if header.appendEnabled then 0x39 else 0x38) := by
          refine hSealed.magic_at fun i hi hFour => ?_
          rw [hSlots, overwrite_inside (by omega) hi]
        rw [hMagic]
        cases header.appendEnabled <;> decide
    · have hErased : range (g.slots slot) (g.slotSize - committed) 4 = erasedWord := by
        rw [range_eq_erasedWord_iff, hSlots, h.slotSize]
        intro i hLow hHigh
        simp only [committed, tailBytes] at hLow hHigh
        rw [overwrite_outside (by omega)]
        exact hBlank.erased i (by omega)
      rw [hErased]
      decide

/-- The commit word turns the record into a published epoch. -/
theorem Laid.published {f : MemoryFlash} {slot : Nat} {attempt generation reserved : Nat} {appendEnabled : Bool}
    (h : Laid f slot record) (hWhole : f.slotSize % 4 = 0)
    (hSealed : SealedRecord provider key (nonce attempt) ⟨appendEnabled, generation, attempt, data.length + 16⟩ data record)
    (hFits : data.length + overhead ≤ f.slotSize) (hShort : data.length + 16 < 2 ^ 32)
    (hPositive : 0 < attempt) (hReserved : attempt ≤ reserved) (hBounded : generation < 2 ^ 64)
    (hAnchored : appendEnabled = true → anchor generation true ≠ 0 ∧ sequence generation ≠ 0) :
    Published provider key appendEnabled (overwrite (f.slots slot) (f.slotSize - committed) zeroWord 4) f.slotSize
      reserved (newEpoch attempt generation data) false false := by
  have hLength := hSealed.length
  have hRoom := hFits
  simp only [headerBytes] at hLength
  simp only [overhead, recordOverhead, headerBytes, tailBytes] at hRoom
  have hFront : range (overwrite (f.slots slot) (f.slotSize - committed) zeroWord 4) 0 record.length = record := by
    rw [range_overwrite_disjoint, h.front]
    simp only [committed, tailBytes]
    omega
  obtain ⟨hHeader, hOpens⟩ := hSealed.at hFront
  have hErased : ∀ i, record.length ≤ i → i < f.slotSize - committed →
      overwrite (f.slots slot) (f.slotSize - committed) zeroWord 4 i = 0xff := by
    intro i hLow hHigh
    rw [overwrite_outside (.inl hHigh)]
    exact h.rest i hLow (by omega)
  have hFlag : ∀ offset, 8 ≤ offset → offset ≤ 12 →
      FlagAt (overwrite (f.slots slot) (f.slotSize - committed) zeroWord 4) (f.slotSize - offset) false := by
    intro offset hLow hHigh
    refine range_eq_erasedWord_iff.2 fun i hi hi' => hErased i (by omega) ?_
    simp only [committed, tailBytes]
    omega
  refine ⟨⟨⟨hPositive, hBounded, hAnchored, hShort, hFits, hHeader, ?_⟩, ?_, fun _ => ⟨Frames.nil .., ?_⟩,
    fun _ => ⟨rfl, rfl⟩⟩, hReserved, hFlag _ (by decide) (by decide), hFlag _ (by decide) (by decide), fun h => h⟩
  · rw [Nat.zero_add] at hOpens
    exact hOpens
  · exact range_overwrite_self (f.slots slot) (f.slotSize - committed) zeroWord
  · intro i hLow hHigh
    refine hErased i ?_ ?_
    · simp only [newEpoch, wordAlign, headerBytes] at hLow
      omega
    · simp only [committed, tailBytes] at hHigh ⊢
      omega

end Snapshot

section Sealing

/-- A journal like `j` whose flash satisfies `R`. -/
def On (j : Journal) (R : MemoryFlash → Prop) (j' : Journal) : Prop :=
  ∃ f, j' = { j with flash := f } ∧ R f

theorem onFlash_spec {α : Type} {j : Journal} {R : MemoryFlash → Prop} {operation : FlashM α}
    {Q : α → MemoryFlash → Prop} {C : Error → MemoryFlash → Prop} (h : Triple R operation Q C) :
    Triple (On j R) (onFlash operation) (fun a => On j (Q a)) (fun e => On j (C e)) := by
  rintro _ ⟨f, rfl, hf⟩
  have hRun := h f hf
  unfold onFlash
  simp only
  split at hRun
  · rename_i a g hOk
    rw [hOk]
    exact ⟨g, rfl, hRun⟩
  · rename_i e g hError
    rw [hError]
    exact ⟨g, rfl, hRun⟩

theorem onFlash_at {α : Type} {j : Journal} {operation : FlashM α} {Q : α → MemoryFlash → Prop}
    {C : Error → MemoryFlash → Prop} (h : Triple (fun f => f = j.flash) operation Q C) :
    Triple (fun s => s = j) (onFlash operation) (fun a => On j (Q a)) (fun e => On j (C e)) := by
  refine (onFlash_spec h).conseq ?_ (fun _ _ h => h) (fun _ _ h => h)
  rintro _ rfl
  exact ⟨_, rfl, rfl⟩

/-- Decryption undoes encryption. Nothing else is assumed of a provider: it may
fail at any time, and what it refuses does not matter to a crash. -/
def CryptoProvider.Correct (provider : CryptoProvider) : Prop :=
  ∀ key label aad plaintext ciphertext, provider.aesCcmEncrypt key label aad plaintext = .ok ciphertext →
    provider.aesCcmDecrypt key label aad ciphertext = .ok plaintext

theorem encryptRecord_spec {provider : CryptoProvider} (hCorrect : provider.Correct) {key label : List Byte}
    {header : RecordHeader} {data record : List Byte}
    (h : encryptRecord key header label data provider = .ok record) :
    SealedRecord provider key label header data record := by
  unfold encryptRecord at h
  cases hSeal : provider.aesCcmEncrypt key label header.encode data with
  | error e =>
      simp only [hSeal, bind, Except.bind] at h
      cases h
  | ok ciphertext =>
      simp only [hSeal, bind, Except.bind, failIf] at h
      split at h
      · cases h
      rename_i hPass
      split at hPass
      · cases hPass
      rename_i hLength
      injection h with h
      exact ⟨ciphertext, h.symm, by omega, hCorrect _ _ _ _ _ hSeal⟩

/-- The provider seals `data` under any header and nonce. -/
def CryptoProvider.Seals (provider : CryptoProvider) (key data : List Byte) : Prop :=
  ∀ label aad, ∃ ciphertext, provider.aesCcmEncrypt key label aad data = .ok ciphertext ∧
    ciphertext.length = data.length + 16

theorem encryptRecord_seals {provider : CryptoProvider} {key data : List Byte} (h : provider.Seals key data)
    (label : List Byte) (header : RecordHeader) :
    ∃ record, encryptRecord key header label data provider = .ok record := by
  obtain ⟨ciphertext, hSeal, hLength⟩ := h label header.encode
  refine ⟨header.encode ++ ciphertext, ?_⟩
  unfold encryptRecord
  simp only [hSeal, bind, Except.bind, failIf, hLength]
  rw [if_neg (by simp)]
  rfl

/-- A condition on the flash that a nonce reservation cannot disturb. -/
structure Reservable (R : MemoryFlash → Nat → Prop) : Prop where
  whole : ∀ f n, R f n → f.slotSize % 4 = 0
  counter : ∀ f n, R f n → CounterIs f.nonces f.slotSize n
  reserve : ∀ f n c x v, R f n → CounterIs c f.slotSize v → n ≤ v → x.isSome = f.armed →
    R { f with nonces := c, failAfter := x } v
  note : ∀ f n a, R f n → R (noteAttempt a f) n

variable {provider : CryptoProvider} {data : List Byte} {generation : Nat} {token : Option Nat} {j : Journal}
  {n : Nat} {R : MemoryFlash → Nat → Prop}

/-- Sealing reserves at most one nonce and programs nothing. -/
theorem sealRecord_spec (hCorrect : provider.Correct) (hR : Reservable R) (hFlash : R j.flash n) :
    Triple (fun s => s = j) (sealRecord data generation provider token)
      (fun sealed j' => data.length + 16 < 2 ^ 32 ∧ 0 < sealed.2 ∧
        SealedRecord provider j.key (nonce sealed.2) ⟨j.appendEnabled, generation, sealed.2, data.length + 16⟩ data
          sealed.1 ∧
        On j (fun f => (∃ v, R f v ∧ sealed.2 ≤ v) ∧ f.trace.attempts = sealed.2 :: j.flash.trace.attempts) j')
      (fun _ j' => On j (fun f => ∃ v, R f v) j' ∧
        (j.flash.armed = true ∨ ¬(token = none ∧ data.length + 16 < 2 ^ 32 ∧ 4 * (n + 1) ≤ j.flash.slotSize ∧
          provider.Seals j.key data))) := by
  have hStay : On j (fun f => ∃ v, R f v) j := ⟨j.flash, rfl, n, hFlash⟩
  have hCurrent : j.flash.nonceGeneration = .ok n := (hR.counter _ _ hFlash).decode (hR.whole _ _ hFlash) j.flash.bounded
  refine Triple.readOnly_bind (fun payloadLength hPrepared => ?_) fun e hQuota => ?_
  swap
  · rintro _ rfl
    refine ⟨hStay, .inr fun hAll => ?_⟩
    rw [prepareRecord, if_pos hAll.2.1] at hQuota
    cases hQuota
  have hShort : data.length + 16 < 2 ^ 32 ∧ payloadLength = data.length + 16 := by
    unfold prepareRecord at hPrepared
    split at hPrepared
    · rename_i hLt
      injection hPrepared with hPrepared
      exact ⟨hLt, hPrepared.symm⟩
    · cases hPrepared
  obtain ⟨hLt, rfl⟩ := hShort
  refine Triple.get fun s hs => ?_
  subst hs
  refine Triple.bind (Q := fun attempt j' => 0 < attempt ∧ On s (fun f => (∃ v, R f v ∧ attempt ≤ v) ∧
    f.trace.attempts = s.flash.trace.attempts) j') ?_ fun attempt => ?_
  · unfold snapshotAttempt
    cases token with
    | some value =>
        have hRefused : ∀ j', j' = s → On s (fun f => ∃ v, R f v) j' ∧
            (s.flash.armed = true ∨ ¬(some value = none ∧ data.length + 16 < 2 ^ 32 ∧
              4 * (n + 1) ≤ s.flash.slotSize ∧ provider.Seals s.key data)) := by
          rintro _ rfl
          exact ⟨hStay, .inr fun hAll => nomatch hAll.1⟩
        refine Triple.failIf_bind (fun _ => hRefused) fun hNonzero => ?_
        refine Triple.get fun s' hs' => ?_
        subst hs'
        refine Triple.readOnly_bind (fun current hOk => ?_) fun _ _ => hRefused
        rw [hCurrent] at hOk
        injection hOk with hOk
        subst hOk
        refine Triple.failIf_bind (fun _ => hRefused) fun hSame => ?_
        refine Triple.ret ?_
        rintro _ rfl
        exact ⟨by omega, _, rfl, ⟨n, hFlash, by omega⟩, rfl⟩
    | none =>
        refine (onFlash_at (reserveNonce_spec (hR.counter _ _ hFlash) (hR.whole _ _ hFlash))).conseq
          (fun _ h => h) ?_ ?_
        · rintro attempt _ ⟨f, rfl, rfl, c, x, rfl, hx, hCounter⟩
          exact ⟨by omega, _, rfl, ⟨n + 1, hR.reserve _ _ _ _ _ hFlash hCounter (by omega) hx, Nat.le_refl _⟩, rfl⟩
        · rintro e _ ⟨f, rfl, ⟨c, x, v, rfl, hx, hCounter, hv⟩, hWhy⟩
          refine ⟨⟨_, rfl, v, hR.reserve _ _ _ _ _ hFlash hCounter (by omega) hx⟩, ?_⟩
          rcases hWhy with hArmed | hFull
          · exact .inl hArmed
          · exact .inr fun hAll => by omega
  · refine Triple.bind (Q := fun _ j' => 0 < attempt ∧ On s (fun f => (∃ v, R f v ∧ attempt ≤ v) ∧
      f.trace.attempts = attempt :: s.flash.trace.attempts) j') ?_ fun _ => ?_
    · rintro _ ⟨hPos, f, rfl, ⟨v, hf, hv⟩, hAttempts⟩
      exact ⟨hPos, _, rfl, ⟨v, hR.note _ _ attempt hf, hv⟩, congrArg (attempt :: ·) hAttempts⟩
    refine Triple.readOnly_bind (fun record hRecord => ?_) fun e hError => ?_
    · refine Triple.ret ?_
      rintro _ ⟨hPos, hOn⟩
      exact ⟨hLt, hPos, encryptRecord_spec hCorrect hRecord, hOn⟩
    · rintro _ ⟨hPos, f, rfl, ⟨v, hf, -⟩, -⟩
      refine ⟨⟨f, rfl, v, hf⟩, .inr fun hAll => ?_⟩
      obtain ⟨record, hRecord⟩ := encryptRecord_seals hAll.2.2.2 (nonce attempt)
        ⟨s.appendEnabled, generation, attempt, data.length + 16⟩
      rw [hRecord] at hError
      cases hError

end Sealing

section Commit

variable {provider : CryptoProvider} {data record : List Byte}

/-- What a cut may leave in the slot that is being replaced. -/
def Abandoned (f g : MemoryFlash) (slot : Nat) : Prop :=
  g.slots slot = f.slots slot ∨ g.slots slot 0 = 0xff ∨ Vacant (g.slots slot) g.slotSize

/-- The trace of a cut that published nothing: the record is not complete, or it
is the last thing that was programmed. -/
def Unpublished (f g : MemoryFlash) (label record : List Byte) : Prop :=
  g.trace.records = f.trace.records ∨ g.trace.records = (label, record) :: f.trace.records ∧ Dangling g

/-- Erasing a slot, laying a sealed record and setting the commit word. -/
theorem replaceSlot_bind {α : Type} {j : Journal} {f : MemoryFlash} {slot attempt generation reserved : Nat}
    {next : JournalM α} {Q : α → Journal → Prop} {C : Error → Journal → Prop} (New : MemoryFlash → Prop)
    (hWhole : f.slotSize % 4 = 0)
    (hSealed : SealedRecord provider j.key (nonce attempt) ⟨j.appendEnabled, generation, attempt, data.length + 16⟩
      data record)
    (hFits : data.length + overhead ≤ f.slotSize) (hShort : data.length + 16 < 2 ^ 32)
    (hPositive : 0 < attempt) (hReserved : attempt ≤ reserved) (hBounded : generation < 2 ^ 64)
    (hAnchored : j.appendEnabled = true → anchor generation true ≠ 0 ∧ sequence generation ≠ 0)
    (hOld : ∀ e g, SlotOnly f g slot → Abandoned f g slot → Unpublished f g (nonce attempt) record →
      f.armed = true → C e { j with flash := g })
    (hNew : ∀ g, SlotOnly f g slot → g.trace.records = (nonce attempt, record) :: f.trace.records →
      Published provider j.key j.appendEnabled (g.slots slot) g.slotSize reserved (newEpoch attempt generation data)
        false false → FreshWrites (g.slots slot) (g.slotWordWrites slot) g.slotSize → New g)
    (hNext : Triple (On j New) next Q C) :
    Triple (On j (fun g => g = f)) (do
      onFlash (erase slot)
      onFlash (program (some (nonce attempt)) slot 0 record)
      onFlash (program none slot (f.slotSize - committed) zeroWord)
      next) Q C := by
  have hLength := hSealed.length
  have hRoom := hFits
  simp only [headerBytes] at hLength
  simp only [overhead, recordOverhead, headerBytes, tailBytes] at hRoom
  refine Triple.bind (Q := fun _ => On j fun g => SlotOnly f g slot ∧ g.trace.records = f.trace.records ∧
    Blank g slot) ?_ fun _ => ?_
  · refine (onFlash_spec (eraseSlot_spec f slot)).conseq (fun _ h => h) (fun _ _ h => h) ?_
    rintro e _ ⟨g, rfl, ⟨hOnly, hRecords, hKept⟩, hArmed⟩
    refine hOld e g hOnly ?_ (.inl hRecords) hArmed
    rcases hKept with hSame | hWiped
    · exact .inl hSame
    · exact .inr (.inl hWiped)
  refine Triple.bind (Q := fun _ => On j fun g => SlotOnly f g slot ∧ Laid g slot record ∧
    g.trace.records = (nonce attempt, record) :: f.trace.records ∧ Dangling g) ?_ fun _ => ?_
  · refine Triple.of_state ?_
    rintro _ ⟨g, rfl, hOnly, hRecords, hBlank⟩
    have hLay := layRecord_spec hBlank (hOnly.slotSize ▸ hWhole) hSealed (hOnly.slotSize ▸ hFits) (nonce attempt)
    refine (onFlash_spec (j := j) hLay).conseq ?_ ?_ ?_
    · rintro _ rfl
      exact ⟨g, rfl, rfl⟩
    · rintro _ _ ⟨g', rfl, hOnly', hLaid, hDone, hDangling⟩
      exact ⟨g', rfl, hOnly.trans hOnly', hLaid, hRecords ▸ hDone, hDangling⟩
    · rintro e _ ⟨g', rfl, ⟨hOnly', hCut, hVacant⟩, hArmed⟩
      exact hOld e g' (hOnly.trans hOnly') (.inr (.inr hVacant)) (.inl (hCut.trans hRecords)) (hOnly.armed ▸ hArmed)
  refine Triple.bind (Q := fun _ => On j New) ?_ fun _ => hNext
  refine Triple.of_state ?_
  rintro _ ⟨g, rfl, hOnly, hLaid, hRecords, hDangling⟩
  have hSize := hOnly.slotSize
  have hErased : range (g.slots slot) (f.slotSize - committed) 4 = erasedWord := by
    rw [range_eq_erasedWord_iff]
    intro i hLow hHigh
    simp only [committed, tailBytes] at hLow hHigh
    exact hLaid.rest i (by omega) (by omega)
  have hMark : Triple (fun s => s = g) (program none slot (f.slotSize - committed) zeroWord) _ _ :=
    markWord_spec (hSize ▸ hWhole) (by simp only [committed, tailBytes]; omega)
      (by simp only [committed, tailBytes]; omega) hLaid.fresh (.inl hErased)
  refine (onFlash_spec (j := j) hMark).conseq ?_ ?_ ?_
  · rintro _ rfl
    exact ⟨g, rfl, rfl⟩
  · rintro _ _ ⟨g', rfl, hMarked⟩
    refine ⟨g', rfl, hNew g' (hOnly.trans hMarked.only) (hMarked.records.trans hRecords) ?_ hMarked.fresh⟩
    rw [hMarked.slots, hMarked.only.slotSize, ← hSize]
    exact hLaid.published (hSize ▸ hWhole) hSealed (hSize ▸ hFits) hShort hPositive hReserved hBounded hAnchored
  · rintro e _ ⟨g', rfl, hSame, hArmed⟩
    refine hOld e g' (hOnly.trans hSame.only) (.inr (.inr ⟨?_, ?_⟩)) (.inr ⟨hSame.records.trans hRecords, ?_⟩)
      (hOnly.armed ▸ hArmed)
    · have hMagic : range (g'.slots slot) 0 4 = magic (if j.appendEnabled then 0x39 else 0x38) := by
        refine hSealed.magic_at fun i hi _ => ?_
        rw [hSame.slots]
        exact (range_eq_iff.1 hLaid.front).2 i hi
      rw [hMagic]
      cases j.appendEnabled <;> rfl
    · rw [hSame.slots, hSame.only.slotSize, hSize, hErased]
      decide
    · obtain ⟨w, rest, hWords, hLabel⟩ := hDangling
      exact ⟨w, rest, hSame.words.trans hWords, hLabel⟩

/-- What a commit needs besides power: an intact journal, room for the record, a
generation, a nonce of its own and a provider that seals. -/
structure Accepts (provider : CryptoProvider) (j : Journal) (data : List Byte) (durability : Durability)
    (token : Option Nat) : Prop where
  intact : j.poisoned = false
  fits : data.length + overhead ≤ j.flash.slotSize
  short : data.length + 16 < 2 ^ 32
  generation : ∃ next, nextGeneration j.generation j.appendEnabled durability = .ok next ∧
    anchor next j.appendEnabled ≤ j.flash.monotonicCapacity
  untokened : token = none
  nonce : ∃ n, j.flash.nonceGeneration = .ok n ∧ n < j.flash.nonceCapacity
  seals : provider.Seals j.key data

section Rotation

variable {key : List Byte} {appendEnabled : Bool} {f g : MemoryFlash} {active : Nat} {e : Epoch}
  {started : Bool} {reserved anchored : Nat}

theorem next_slot_ne (h : Stored provider key appendEnabled f active e started reserved anchored) :
    (active + 1) % f.slotCount ≠ active ∧ (active + 1) % f.slotCount < f.slotCount := by
  have hTwo := h.two_le
  have hActive := h.active_lt
  refine ⟨fun hEq => ?_, Nat.mod_lt _ (by omega)⟩
  rcases Nat.lt_or_ge (active + 1) f.slotCount with hLt | hGe
  · rw [Nat.mod_eq_of_lt hLt] at hEq
    omega
  · have : active + 1 = f.slotCount := by omega
    rw [this, Nat.mod_self] at hEq
    omega

/-- While the reclaim is announced, whatever a cut leaves in the next slot keeps
the chain stored. -/
theorem Stored.abandoned (h : Stored provider key appendEnabled f active e true reserved anchored)
    (hOnly : SlotOnly f g ((active + 1) % f.slotCount)) (hKept : Abandoned f g ((active + 1) % f.slotCount)) :
    Stored provider key appendEnabled g active e true reserved anchored := by
  refine h.other_slot hOnly (next_slot_ne h).1 fun hLt => ?_
  rcases hKept with hSame | hWiped | hVacant
  · rw [hSame, hOnly.slotSize, hOnly.slotCount]
    exact h.others _ hLt (next_slot_ne h).1
  · exact .reclaimed (by simp [hOnly.slotCount]) hWiped
  · exact .vacant hVacant

/-- Publishing a newer epoch in the next slot hands the chain over to it. -/
theorem Stored.rotate (h : Stored provider key appendEnabled f active e true reserved anchored)
    (hOnly : SlotOnly f g ((active + 1) % f.slotCount)) {e' : Epoch}
    (hPublished : Published provider key appendEnabled (g.slots ((active + 1) % f.slotCount)) g.slotSize reserved e'
      false false)
    (hWrites : FreshWrites (g.slots ((active + 1) % f.slotCount)) (g.slotWordWrites ((active + 1) % f.slotCount))
      g.slotSize)
    (hNewer : e.generation < e'.generation)
    (hAnchor : anchor e'.generation appendEnabled = anchored ∨ anchor e'.generation appendEnabled = anchored + 1)
    (hRoom : 4 * anchor e'.generation appendEnabled ≤ f.slotSize) :
    Stored provider key appendEnabled g ((active + 1) % f.slotCount) e' false reserved anchored := by
  refine ⟨hOnly.slotCount ▸ h.two_le, hOnly.slotCount ▸ h.le_eight, hOnly.slotSize ▸ h.whole,
    hOnly.slotSize ▸ h.large, ?_, ?_, hAnchor, hOnly.slotSize ▸ hRoom, hOnly.slotCount ▸ (next_slot_ne h).2,
    hPublished, hWrites, fun t ht hNe => ?_⟩
  · rw [hOnly.nonces, hOnly.slotSize]
    exact h.nonces
  · rw [hOnly.monotonic, hOnly.slotSize]
    exact h.monotonic
  · rw [hOnly.slotCount] at ht
    rw [hOnly.slots t hNe, hOnly.slotSize]
    by_cases hOld : t = active
    · subst hOld
      exact .older e true false h.published hNewer
    · refine (h.others t ht hOld).mono (Nat.le_refl _) hNewer.le fun hBoth => ?_
      simp only [Bool.true_and, decide_eq_true_eq] at hBoth
      exact absurd hBoth hNe

end Rotation

end Commit

section CommitLive
variable {provider : CryptoProvider} {data : List Byte} {durability : Durability} {token : Option Nat}
  {j : Journal} {active : Nat} {e : Epoch} {started : Bool} {reserved : Nat}

/-- Journals with the same key and mode, equally exposed to a power cut. -/
structure SameDevice (j j' : Journal) : Prop where
  key : j'.key = j.key
  appendEnabled : j'.appendEnabled = j.appendEnabled
  armed : j'.flash.armed = j.flash.armed

/-- The state after the newer epoch is published: only the anchor may lag. -/
theorem Stored.keeps_poisoned {j : Journal} {anchored : Nat} (hPoisoned : j.poisoned = true)
    (h : Stored provider j.key j.appendEnabled j.flash active e started reserved anchored) : Keeps provider j e :=
  ⟨active, started, reserved, anchored, h, fun hClean => by rw [hClean] at hPoisoned; cases hPoisoned⟩

/-- Setting the completion word of the replaced record. -/
theorem markComplete_spec {key : List Byte} {appendEnabled : Bool} {f : MemoryFlash} {slot old : Nat} {e' : Epoch}
    {anchored : Nat} (h : Stored provider key appendEnabled f slot e' false reserved anchored) (hNe : old ≠ slot)
    (hOld : Published provider key appendEnabled (f.slots old) f.slotSize reserved e true false)
    (hWrites : FreshWrites (f.slots old) (f.slotWordWrites old) f.slotSize) (hLt : e.generation < e'.generation) :
    Triple (fun s => s = f) (program none old (f.slotSize - reclaimComplete) zeroWord)
      (fun _ g => SlotOnly f g old ∧ g.trace.records = f.trace.records ∧
        Stored provider key appendEnabled g slot e' false reserved anchored)
      (fun _ g => (SlotOnly f g old ∧ g.trace.records = f.trace.records ∧
        Stored provider key appendEnabled g slot e' false reserved anchored) ∧ f.armed = true) := by
  have hWhole := h.whole
  have hLarge := h.large
  simp only [overhead, recordOverhead, headerBytes, tailBytes] at hLarge
  refine (markWord_spec hWhole ?_ ?_ hWrites hOld.completeFlag.word).conseq (fun _ h => h) ?_ ?_
  · simp only [reclaimComplete, tailBytes]
    omega
  · simp only [reclaimComplete, tailBytes]
    omega
  · intro _ g hMarked
    refine ⟨hMarked.only, hMarked.records, h.other_slot hMarked.only hNe fun _ => ?_⟩
    rw [hMarked.slots, hMarked.only.slotSize]
    exact .older e true true (hOld.mark hWhole false fun _ => rfl) hLt
  · rintro _ g ⟨hSame, hArmed⟩
    refine ⟨⟨hSame.only, hSame.records, h.other_slot hSame.only hNe fun _ => ?_⟩, hArmed⟩
    rw [hSame.slots, hSame.only.slotSize]
    exact .older e true false hOld hLt

/-- The last writes of a commit: the anchor advances unless the record is an
ordinary one, and the journal is live again. -/
theorem anchorNew_spec {s : Journal} {f : MemoryFlash} {slot attempt generation reserved : Nat} {anchored : Nat}
    (h : Stored provider s.key s.appendEnabled f slot (newEpoch attempt generation data) false reserved anchored)
    (hArmed : f.armed = s.flash.armed) (hCount : s.slotCount = f.slotCount)
    (hAnchor : anchor generation s.appendEnabled = anchored + if durability = .anchored then 1 else 0) :
    Triple (On { s with
        generation := generation
        baseAttempt := some attempt
        active := some slot
        appendOffset := some (wordAlign (headerBytes + (data.length + 16)))
        poisoned := true } (fun g => g = f))
      (do
        let journal ← get
        onlyIf (durability = .anchored) (onFlash (advanceMonotonic (anchor generation journal.appendEnabled)))
        modify fun journal => { journal with poisoned := false })
      (fun _ j' => SameDevice s j' ∧ j'.flash.trace = f.trace ∧
        Live provider j' slot (newEpoch attempt generation data) false reserved)
      (fun _ j' => SameDevice s j' ∧ j'.flash.trace = f.trace ∧
        Keeps provider j' (newEpoch attempt generation data) ∧ s.flash.armed = true) := by
  have hRoom : 4 * anchor generation s.appendEnabled ≤ f.slotSize := h.anchor_le
  refine Triple.get ?_
  rintro _ ⟨k, rfl, rfl⟩
  refine Triple.bind (Q := fun _ => On { s with
      generation := generation
      baseAttempt := some attempt
      active := some slot
      appendOffset := some (wordAlign (headerBytes + (data.length + 16)))
      poisoned := true } fun g => g.armed = s.flash.armed ∧ g.slotCount = s.slotCount ∧ g.trace = k.trace ∧
        Stored provider s.key s.appendEnabled g slot (newEpoch attempt generation data) false reserved
          (anchor generation s.appendEnabled)) ?_ fun _ => ?_
  · refine Triple.onlyIf (fun hDurable => ?_) fun hOrdinary => ?_
    · rw [if_pos hDurable] at hAnchor
      have hAdvance := advanceMonotonic_spec h.monotonic (by omega)
      simp only [hAnchor]
      refine (onFlash_at hAdvance).conseq (fun _ h => h) ?_ ?_
      · rintro _ _ ⟨g, rfl, c, x, rfl, hx, hCounter⟩
        exact ⟨_, rfl, hx.trans hArmed, hCount.symm, rfl, h.withMonotonic x hCounter (.inl hAnchor)⟩
      · rintro _ _ ⟨g, rfl, ⟨c, x, v, rfl, hx, hCounter, hMoved⟩, hCut⟩
        refine ⟨⟨rfl, rfl, hx.trans hArmed⟩, rfl, ?_, hArmed ▸ hCut⟩
        refine Stored.keeps_poisoned rfl (h.withMonotonic x hCounter ?_)
        simp only [newEpoch, hAnchor]
        omega
    · rintro _ rfl
      rw [if_neg hOrdinary, Nat.add_zero] at hAnchor
      exact ⟨_, rfl, hArmed, hCount.symm, rfl, hAnchor ▸ h⟩
  · refine Triple.update ?_
    rintro _ ⟨g, rfl, hSame, hSlots, hTrace, hStored⟩
    refine ⟨⟨rfl, rfl, hSame⟩, hTrace, ⟨hStored, rfl, rfl, rfl, rfl, hSlots.symm, fun _ offset hOffset => ?_⟩⟩
    injection hOffset with hOffset
    exact ⟨hOffset.symm, rfl, rfl⟩

/-- The writes of a commit over a stored chain. -/
theorem replaceRecord_spec {s : Journal} {f : MemoryFlash} {attempt generation : Nat} {record : List Byte}
    (hStored : Stored provider s.key s.appendEnabled f active e started reserved (anchor e.generation s.appendEnabled))
    (hArmed : f.armed = s.flash.armed) (hCount : s.slotCount = f.slotCount)
    (hSealed : SealedRecord provider s.key (nonce attempt) ⟨s.appendEnabled, generation, attempt, data.length + 16⟩
      data record)
    (hFits : data.length + overhead ≤ f.slotSize) (hShort : data.length + 16 < 2 ^ 32)
    (hPositive : 0 < attempt) (hReserved : attempt ≤ reserved)
    (hGranted : Granted e.generation generation s.appendEnabled durability)
    (hRoom : 4 * anchor generation s.appendEnabled ≤ f.slotSize)
    (hMode : s.appendEnabled = false → durability = .anchored) :
    Triple (On s (fun g => g = f))
      (replaceRecord (some active) ((active + 1) % f.slotCount) f.slotSize generation attempt durability record)
      (fun _ j' => SameDevice s j' ∧ j'.flash.trace.attempts = f.trace.attempts ∧
        j'.flash.trace.records = (nonce attempt, record) :: f.trace.records ∧
        Live provider j' ((active + 1) % f.slotCount) (newEpoch attempt generation data) false reserved)
      (fun _ j' => SameDevice s j' ∧ j'.flash.trace.attempts = f.trace.attempts ∧
        (Keeps provider j' e ∧ Unpublished f j'.flash (nonce attempt) record ∨
          Keeps provider j' (newEpoch attempt generation data) ∧
            j'.flash.trace.records = (nonce attempt, record) :: f.trace.records) ∧ s.flash.armed = true) := by
  have hAnchor : anchor generation s.appendEnabled =
      anchor e.generation s.appendEnabled + if durability = .anchored then 1 else 0 := by
    rw [hGranted.anchor_eq]
    by_cases hDurable : durability = .anchored
    · simp [hDurable]
    · cases hFlag : s.appendEnabled with
      | true => simp [hDurable]
      | false => exact absurd (hMode hFlag) hDurable
  have hAnchors : anchor generation s.appendEnabled = anchor e.generation s.appendEnabled ∨
      anchor generation s.appendEnabled = anchor e.generation s.appendEnabled + 1 := by
    rw [hAnchor]
    split <;> omega
  have hNe := (next_slot_ne hStored).1
  unfold replaceRecord
  refine Triple.bind (Q := fun _ => On { s with poisoned := true } fun g => g = f) (Triple.update ?_) fun _ => ?_
  · rintro _ ⟨_, rfl, rfl⟩
    exact ⟨_, rfl, rfl⟩
  refine Triple.bind (Q := fun _ => On { s with poisoned := true } fun g => SlotOnly f g active ∧
    g.trace.records = f.trace.records ∧
    Stored provider s.key s.appendEnabled g active e true reserved (anchor e.generation s.appendEnabled)) ?_ fun _ => ?_
  · refine (onFlash_spec (markStarted_spec hStored)).conseq (fun _ h => h) (fun _ _ h => h) ?_
    rintro _ _ ⟨g, rfl, ⟨hOnly, hRecords, hKept⟩, hCut⟩
    exact ⟨⟨rfl, rfl, hOnly.armed.trans hArmed⟩, hOnly.attempts,
      .inl ⟨Stored.keeps_poisoned rfl hKept, .inl hRecords⟩, hArmed ▸ hCut⟩
  refine Triple.of_state ?_
  rintro _ ⟨g, rfl, hFirst, hSameRecords, hMarked⟩
  have hSize := hFirst.slotSize
  rw [← hFirst.slotCount] at hNe ⊢
  rw [← hSize]
  refine Triple.conseq (replaceSlot_bind (j := { s with poisoned := true }) (f := g)
    (fun h => SlotOnly g h ((active + 1) % g.slotCount) ∧
      h.trace.records = (nonce attempt, record) :: f.trace.records ∧ Stored provider s.key s.appendEnabled h
      ((active + 1) % g.slotCount) (newEpoch attempt generation data) false reserved
      (anchor e.generation s.appendEnabled)) hMarked.whole hSealed (hSize ▸ hFits) hShort hPositive hReserved
      hGranted.bounded hGranted.anchored ?_ ?_ ?_) ?_ (fun _ _ h => h) (fun _ _ h => h)
  · intro _ h hOnly hKept hUnpublished hCut
    refine ⟨⟨rfl, rfl, hOnly.armed.trans (hFirst.armed.trans hArmed)⟩, hOnly.attempts.trans hFirst.attempts,
      .inl ⟨Stored.keeps_poisoned rfl (hMarked.abandoned hOnly hKept), ?_⟩, (hFirst.armed.trans hArmed) ▸ hCut⟩
    rw [Unpublished, ← hSameRecords]
    exact hUnpublished
  · intro h hOnly hRecords hPublished hWrites
    exact ⟨hOnly, hSameRecords ▸ hRecords,
      hMarked.rotate hOnly hPublished hWrites hGranted.lt hAnchors (hSize ▸ hRoom)⟩
  · refine Triple.of_state ?_
    rintro _ ⟨h, rfl, hOnly, hRecords, hNew⟩
    have hOld : Published provider s.key s.appendEnabled (h.slots active) h.slotSize reserved e true false := by
      rw [hOnly.slots active (Ne.symm hNe), hOnly.slotSize]
      exact hMarked.published
    have hOldWrites : FreshWrites (h.slots active) (h.slotWordWrites active) h.slotSize := by
      rw [hOnly.slots active (Ne.symm hNe), hOnly.writes active (Ne.symm hNe), hOnly.slotSize]
      exact hMarked.writes
    have hComplete := markComplete_spec hNew (Ne.symm hNe) hOld hOldWrites hGranted.lt
    rw [hOnly.slotSize] at hComplete
    refine Triple.bind (Q := fun _ => On { s with poisoned := true } fun k => SlotOnly h k active ∧
      k.trace.records = h.trace.records ∧ Stored provider s.key s.appendEnabled k ((active + 1) % g.slotCount) (newEpoch attempt generation data) false
        reserved (anchor e.generation s.appendEnabled)) ?_ fun _ => ?_
    · refine (onFlash_at hComplete).conseq (fun _ h => h) (fun _ _ h => h) ?_
      rintro _ _ ⟨k, rfl, ⟨hLast, hSameLog, hKept⟩, hCut⟩
      have hSame : h.armed = s.flash.armed := hOnly.armed.trans (hFirst.armed.trans hArmed)
      exact ⟨⟨rfl, rfl, hLast.armed.trans hSame⟩, hLast.attempts.trans (hOnly.attempts.trans hFirst.attempts),
        .inr ⟨Stored.keeps_poisoned rfl hKept, hSameLog.trans hRecords⟩, hSame ▸ hCut⟩
    refine Triple.of_state ?_
    rintro _ ⟨k, rfl, hLast, hSameLog, hDone⟩
    refine Triple.bind (Q := fun _ => On { s with
        generation := generation
        baseAttempt := some attempt
        active := some ((active + 1) % g.slotCount)
        appendOffset := some (wordAlign (headerBytes + (data.length + 16)))
        poisoned := true } fun k' => k' = k) (Triple.update ?_) fun _ => ?_
    · rintro _ rfl
      refine ⟨k, ?_, rfl⟩
      simp only [hSealed.length]
    · have hSame : k.armed = s.flash.armed :=
        hLast.armed.trans (hOnly.armed.trans (hFirst.armed.trans hArmed))
      have hSlots : s.slotCount = k.slotCount :=
        hCount.trans (hFirst.slotCount.symm.trans (hOnly.slotCount.symm.trans hLast.slotCount.symm))
      have hAttempts : k.trace.attempts = f.trace.attempts :=
        hLast.attempts.trans (hOnly.attempts.trans hFirst.attempts)
      have hLog := hSameLog.trans hRecords
      refine (anchorNew_spec hDone hSame hSlots hAnchor).conseq (fun _ h => h) ?_ ?_
      · rintro _ j' ⟨hDevice, hTrace, hLive⟩
        exact ⟨hDevice, by rw [hTrace, hAttempts], by rw [hTrace, hLog], hLive⟩
      · rintro _ j' ⟨hDevice, hTrace, hKept, hCut⟩
        exact ⟨hDevice, by rw [hTrace, hAttempts], .inr ⟨hKept, by rw [hTrace, hLog]⟩, hCut⟩
  · rintro _ rfl
    exact ⟨g, rfl, rfl⟩

/-- The trace of a commit that completed its record. -/
structure SnapshotLogged (provider : CryptoProvider) (j j' : Journal) (attempt generation : Nat) (data : List Byte) :
    Prop where
  record : ∃ record, SealedRecord provider j.key (nonce attempt)
      ⟨j.appendEnabled, generation, attempt, data.length + 16⟩ data record ∧
    j'.flash.trace.records = (nonce attempt, record) :: j.flash.trace.records
  attempts : j'.flash.trace.attempts = attempt :: j.flash.trace.attempts

/-- A commit on a live journal publishes exactly `data`, or leaves the old chain
or the new one behind. Without a cut it fails only when it is refused. -/
theorem commitOwnedWithNonce_spec (hCorrect : provider.Correct)
    (hLive : Live provider j active e started reserved)
    (hMode : j.appendEnabled = false → durability = .anchored) :
    Triple (fun s => s = j) (commitOwnedWithNonce data durability provider token)
      (fun _ j' => SameDevice j j' ∧ ∃ attempt generation reserved',
        nextGeneration e.generation j.appendEnabled durability = .ok generation ∧
        SnapshotLogged provider j j' attempt generation data ∧
        Live provider j' ((active + 1) % j.flash.slotCount) (newEpoch attempt generation data) false reserved')
      (fun _ j' => SameDevice j j' ∧
        (Keeps provider j' e ∧ j'.flash.trace.records = j.flash.trace.records ∨ ∃ attempt generation,
          nextGeneration e.generation j.appendEnabled durability = .ok generation ∧
          SnapshotLogged provider j j' attempt generation data ∧
          (Keeps provider j' e ∧ Dangling j'.flash ∨ Keeps provider j' (newEpoch attempt generation data))) ∧
        (j.flash.armed = true ∨ ¬Accepts provider j data durability token)) := by
  have hStored := hLive.stored
  have hStay : ∀ j', j' = j → SameDevice j j' ∧
      (Keeps provider j' e ∧ j'.flash.trace.records = j.flash.trace.records ∨ ∃ attempt generation,
        nextGeneration e.generation j.appendEnabled durability = .ok generation ∧
        SnapshotLogged provider j j' attempt generation data ∧
        (Keeps provider j' e ∧ Dangling j'.flash ∨ Keeps provider j' (newEpoch attempt generation data))) := by
    rintro _ rfl
    exact ⟨⟨rfl, rfl, rfl⟩, .inl ⟨hLive.keeps, rfl⟩⟩
  refine Triple.get fun s hs => ?_
  subst hs
  refine Triple.failIf_bind (fun hPoisoned => ?_) fun _ => ?_
  · rw [hLive.poisoned] at hPoisoned
    cases hPoisoned
  refine Triple.failIf_bind (fun hLarge s' hs' => ⟨(hStay s' hs').1, (hStay s' hs').2, .inr fun hAll => ?_⟩)
    fun hFits => ?_
  · have := hAll.fits
    omega
  refine Triple.readOnly_bind (fun generation hNext => ?_)
    fun error hError s' hs' => ⟨(hStay s' hs').1, (hStay s' hs').2, .inr fun hAll => ?_⟩
  swap
  · obtain ⟨next, hNext, -⟩ := hAll.generation
    rw [hNext] at hError
    cases hError
  refine Triple.failIf_bind (fun hOver s' hs' => ⟨(hStay s' hs').1, (hStay s' hs').2, .inr fun hAll => ?_⟩)
    fun hCapacity => ?_
  · obtain ⟨next, hSame, hLe⟩ := hAll.generation
    rw [hNext] at hSame
    injection hSame with hSame
    subst hSame
    omega
  have hGranted := nextGeneration_spec hNext
  rw [hLive.generation] at hNext hGranted
  have hAnchors : anchor generation s.appendEnabled = anchor e.generation s.appendEnabled ∨
      anchor generation s.appendEnabled = anchor e.generation s.appendEnabled + 1 := by
    rw [hGranted.anchor_eq]
    split <;> omega
  have hRoom : 4 * anchor generation s.appendEnabled ≤ s.flash.slotSize := by
    have hWhole := hStored.whole
    simp only [MemoryFlash.monotonicCapacity] at hCapacity
    omega
  have hReservable : Reservable fun f v => Stored provider s.key s.appendEnabled f active e started v
      (anchor e.generation s.appendEnabled) ∧ f.armed = s.flash.armed ∧ f.slotSize = s.flash.slotSize ∧
      f.slotCount = s.flash.slotCount ∧ f.trace.records = s.flash.trace.records :=
    ⟨fun f n h => h.1.whole, fun f n h => h.1.nonces,
      fun f n c x v h hCounter hLe hx => ⟨h.1.withNonces x hCounter hLe, hx.trans h.2.1, h.2.2⟩,
      fun f n a h => ⟨{ h.1 with }, h.2⟩⟩
  refine Triple.bind (Triple.conseq (sealRecord_spec hCorrect hReservable ⟨hStored, rfl, rfl, rfl, rfl⟩) (fun _ h => h)
    (fun _ _ h => h) ?_) fun sealed => ?_
  · rintro error _ ⟨⟨f, rfl, v, hf⟩, hWhy⟩
    refine ⟨⟨rfl, rfl, hf.2.1⟩, .inl ⟨⟨active, started, v, _, hf.1, fun _ => ?_⟩, hf.2.2.2.2⟩, ?_⟩
    · exact { hLive with stored := hf.1, slotCount := hLive.slotCount.trans hf.2.2.2.1.symm }
    · rcases hWhy with hArmed | hRefused
      · exact .inl hArmed
      · refine .inr fun hAll => hRefused ⟨hAll.untokened, hAll.short, ?_, hAll.seals⟩
        obtain ⟨n, hCurrent, hLt⟩ := hAll.nonce
        rw [hStored.nonceGeneration] at hCurrent
        injection hCurrent with hCurrent
        subst hCurrent
        have hWhole := hStored.whole
        simp only [MemoryFlash.nonceCapacity, MemoryFlash.monotonicCapacity] at hLt
        omega
  obtain ⟨record, attempt⟩ := sealed
  refine Triple.of_state ?_
  rintro _ ⟨hShort, hPositive, hSealed, f, rfl, ⟨v, ⟨hf, hArmed, hSize, hCount, hRecords⟩, hReserved⟩, hAttempts⟩
  have hSlot : s.nextSlot = (active + 1) % f.slotCount := by
    simp only [Journal.nextSlot, hLive.active]
    rw [hLive.slotCount, hCount]
  have hReplace := replaceRecord_spec hf hArmed (hLive.slotCount.trans hCount.symm) hSealed (by omega) hShort
    hPositive hReserved hGranted (hSize ▸ hRoom) hMode
  rw [← hLive.active] at hReplace
  rw [hSlot, ← hSize, ← hCount]
  refine Triple.bind (Q := fun _ j' => SameDevice s j' ∧ ∃ attempt generation reserved',
      nextGeneration e.generation s.appendEnabled durability = .ok generation ∧
      SnapshotLogged provider s j' attempt generation data ∧
      Live provider j' ((active + 1) % f.slotCount) (newEpoch attempt generation data) false reserved') ?_
    fun _ => Triple.ret fun _ h => h
  refine hReplace.conseq ?_ ?_ ?_
  · rintro _ rfl
    exact ⟨f, rfl, rfl⟩
  · rintro _ j' ⟨hSame, hNoted, hLog, hNew⟩
    exact ⟨hSame, attempt, generation, v, hNext,
      ⟨⟨record, hSealed, hLog.trans (by rw [hRecords])⟩, hNoted.trans hAttempts⟩, hNew⟩
  · rintro _ j' ⟨hSame, hNoted, hKept, hCut⟩
    refine ⟨hSame, ?_, .inl hCut⟩
    have hLogged : j'.flash.trace.records = (nonce attempt, record) :: f.trace.records →
        SnapshotLogged provider s j' attempt generation data :=
      fun hLog => ⟨⟨record, hSealed, hLog.trans (by rw [hRecords])⟩, hNoted.trans hAttempts⟩
    rcases hKept with ⟨hOld, hNone | ⟨hLog, hDangling⟩⟩ | ⟨hNew, hLog⟩
    · exact .inl ⟨hOld, hNone.trans hRecords⟩
    · exact .inr ⟨attempt, generation, hNext, hLogged hLog, .inl ⟨hOld, hDangling⟩⟩
    · exact .inr ⟨attempt, generation, hNext, hLogged hLog, .inr hNew⟩
end CommitLive

end MicroCard.Journal
