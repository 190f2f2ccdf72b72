import MicroCard.Journal.Rollback
import MicroCard.Library.Checks

/-! The room a journal still has: for one more frame, for frames behind a snapshot that is
yet to be written, and for checkpoints as its counters allow them. -/
namespace MicroCard.Journal

set_option linter.dupNamespace false

open Bytes CrashTriple

section Room

/-- What the next frame may carry. -/
def Journal.appendCapacity (journal : Journal) : Except Error Nat := do
  failIf journal.poisoned .storage
  let start ← orFail journal.appendOffset .quota
  failIf (!journal.appendEnabled) .incompatibleState
  let available := (journal.flash.slotSize - tailBytes - start) / 4 * 4
  let capacity := available - minFrameBytes
  failIf (capacity = 0) .quota
  pure (min capacity maxPayload)

/-- What a frame behind a snapshot of so many bytes could carry. -/
def Journal.appendCapacityAfterSnapshot (journal : Journal) (payloadLength : Nat) : Except Error Nat := do
  let recordEnd ← orFail (checkedAdd64 payloadLength recordOverhead) .quota
  let available := journal.flash.slotSize - tailBytes - wordAlign recordEnd
  pure (min (available - minFrameBytes) maxPayload)

/-- How many frames of the largest size are left in the slot. -/
def Journal.remainingAppendFrames (journal : Journal) : Except Error Nat := do
  failIf (journal.poisoned ∨ ¬journal.appendEnabled) .storage
  match journal.appendOffset with
  | none => pure 0
  | some start => pure ((journal.flash.slotSize - tailBytes - start) / maxFrameBytes)

/-- How many commits both counters allow. -/
def Journal.remainingCommits (journal : Journal) : Except Error Nat := do
  failIf journal.poisoned .storage
  let current ← journal.flash.monotonicGeneration
  let anchored := anchor journal.generation journal.appendEnabled
  failIf (current ≠ anchored) .storage
  failIf (journal.flash.monotonicCapacity < anchored) .storage
  let attempt ← journal.flash.nonceGeneration
  failIf (journal.flash.nonceCapacity < attempt) .storage
  pure (min (journal.flash.monotonicCapacity - anchored) (journal.flash.nonceCapacity - attempt))

/-- The space check of an append. -/
def Journal.Fits (journal : Journal) (length : Nat) : Prop :=
  ∃ start stop, journal.appendOffset = some start ∧ frameEnd journal.flash start length = .ok stop

/-- A capacity where no room at all counts as none. -/
def roomOf : Except Error Nat → Except Error Nat
  | .error .quota => .ok 0
  | result => result

end Room

section Aligned

/-- Frames start at whole words. -/
def AlignedOffset (offset : Option Nat) : Prop := ∀ start, offset = some start → start % 4 = 0

theorem wordAlign_aligned (length : Nat) : wordAlign length % 4 = 0 := Nat.mul_mod_left _ _

theorem frameEnd_aligned {flash : MemoryFlash} {start length stop : Nat} (h : frameEnd flash start length = .ok stop) :
    stop % 4 = 0 := by
  unfold frameEnd at h
  split at h
  · cases h
  split at h
  · cases h
  simp only at h
  split at h
  · cases h
    exact Nat.mul_mod_left _ _
  · cases h

variable {σ : Type} {provider : CryptoProvider} {replay : Replay σ}

/-- An operation that keeps the append offset at a whole word. -/
abbrev KeepsAligned {α : Type} (operation : JournalM α) : Prop :=
  Invariant (fun j : Journal => AlignedOffset j.appendOffset) operation

theorem onFlash_aligned {α : Type} (operation : FlashM α) : KeepsAligned (onFlash operation) := by
  intro j hj
  simp only [onFlash]
  cases operation j.flash with
  | ok a flash => exact hj
  | error e flash => exact hj

theorem replayFrom_aligned {flash : MemoryFlash} {key : List Byte} {slot attempt fuel start generation last reserved : Nat}
    {state final : σ} {offset : Option Nat} (hReserved : flash.nonceGeneration = .ok reserved) (hStart : start % 4 = 0)
    (h : replayFrom flash key slot attempt provider replay fuel start generation state = .ok (last, offset, final)) :
    AlignedOffset offset := by
  induction fuel generalizing start generation state with
  | zero => cases h
  | succ fuel ih =>
      unfold replayFrom at h
      split at h
      · cases h
        intro _ hNone
        cases hNone
      · obtain ⟨frame, hFrame, hRest⟩ := Checks.bind_ok.1 h
        cases frame with
        | none =>
            obtain ⟨available, -, hEnd⟩ := Checks.bind_ok.1 hRest
            cases hEnd
            intro found hFound
            split at hFound
            · cases hFound
              exact hStart
            · cases hFound
        | some record =>
            obtain ⟨next, -, hLater⟩ := Checks.bind_ok.1 hRest
            obtain ⟨length, hRecord⟩ := readFrame_some hReserved hFrame
            exact ih (frameEnd_aligned hRecord.stop) hLater

/-- Recovery offers the place behind the last frame, or nothing. -/
theorem selectCandidate_aligned {flash : MemoryFlash} {key : List Byte} {appendEnabled : Bool} {candidate : CandidateMeta}
    {state : σ} (h : selectCandidate flash key appendEnabled provider replay = .ok (some (candidate, state))) :
    AlignedOffset candidate.appendOffset := by
  obtain ⟨reserved, hReserved⟩ : ∃ reserved, flash.nonceGeneration = .ok reserved := by
    obtain ⟨-, -, h⟩ := Checks.bind_ok.1 h
    obtain ⟨-, -, h⟩ := Checks.bind_ok.1 h
    obtain ⟨reserved, hReserved, -⟩ := Checks.bind_ok.1 h
    exact ⟨reserved, hReserved⟩
  obtain ⟨plaintext, offset, -, -, hReplay, hOffset⟩ := (selectCandidate_accepted hReserved h).opens
  intro start hStart
  have hSame := hOffset start hStart
  subst hSame
  cases appendEnabled with
  | false =>
      simp only [Bool.false_eq_true, if_false] at hReplay
      have hNone := congrArg (fun result => result.2.1) (Except.ok.inj hReplay)
      cases hNone
  | true =>
      simp only [if_true] at hReplay
      unfold replayEpoch at hReplay
      split at hReplay
      · cases hReplay
      · exact replayFrom_aligned hReserved (wordAlign_aligned _) hReplay start rfl

theorem recover_aligned (allowUnreconciled : Bool) :
    KeepsAligned (recoverWithReplayMode provider replay allowUnreconciled) := by
  apply Invariant.bind
  · exact Invariant.update fun _ hj => hj
  intro _
  apply Invariant.get
  intro journal
  apply Triple.readOnly_bind
  · intro selected hSelected
    apply Triple.bind (Q := fun _ j => AlignedOffset j.appendOffset)
    · exact Triple.capture (onFlash_aligned _)
    intro reconciled
    apply Triple.bind (Q := fun _ j => AlignedOffset j.appendOffset)
    · apply Triple.update
      intro _ _
      cases selected with
      | none =>
          intro _ hNone
          cases hNone
      | some found => exact selectCandidate_aligned hSelected
    intro _
    cases reconciled with
    | ok _ => exact Invariant.ret _
    | error e =>
        cases allowUnreconciled with
        | true => exact Invariant.ret _
        | false => exact Triple.raise fun _ hj => hj
  · exact fun _ _ _ hj => hj

theorem reserve_aligned : KeepsAligned reserveIdentityNonce := by
  apply Invariant.get
  intro journal
  apply Invariant.bind (Invariant.failIf _ _)
  intro _
  apply Invariant.bind (onFlash_aligned _)
  intro value
  apply Invariant.get
  intro journal'
  apply Invariant.bind (Invariant.failIf _ _)
  intro _
  exact Invariant.ret _

theorem sealRecord_aligned (data : List Byte) (generation : Nat) (reserved : Option Nat) :
    KeepsAligned (sealRecord data generation provider reserved) := by
  apply Invariant.bind (Invariant.readOnly _)
  intro payloadLength
  apply Invariant.get
  intro journal
  have hAttempt : KeepsAligned (snapshotAttempt reserved) := by
    cases reserved with
    | none => exact onFlash_aligned _
    | some value =>
        apply Invariant.bind (Invariant.failIf _ _)
        intro _
        apply Invariant.get
        intro journal'
        apply Invariant.bind (Invariant.readOnly _)
        intro current
        apply Invariant.bind (Invariant.failIf _ _)
        intro _
        exact Invariant.ret _
  apply Invariant.bind hAttempt
  intro attempt
  apply Invariant.bind (onFlash_aligned _)
  intro _
  apply Invariant.bind (Invariant.readOnly _)
  intro record
  exact Invariant.ret _

theorem markReclaim_aligned (active : Option Nat) (offset : Nat) : KeepsAligned (markReclaim active offset) := by
  cases active with
  | none => exact Invariant.ret _
  | some slot => exact onFlash_aligned _

/-- A commit offers the place behind its record. -/
theorem replaceRecord_aligned (active : Option Nat) (slot size generation attempt : Nat) (durability : Durability)
    (record : List Byte) : KeepsAligned (replaceRecord active slot size generation attempt durability record) := by
  apply Invariant.bind
  · exact Invariant.update fun _ hj => hj
  intro _
  apply Invariant.bind (markReclaim_aligned _ _)
  intro _
  apply Invariant.bind (onFlash_aligned _)
  intro _
  apply Invariant.bind (onFlash_aligned _)
  intro _
  apply Invariant.bind (onFlash_aligned _)
  intro _
  apply Invariant.bind (markReclaim_aligned _ _)
  intro _
  apply Invariant.bind
  · apply Invariant.update
    intro _ _ start hStart
    cases hStart
    exact wordAlign_aligned _
  intro _
  apply Invariant.get
  intro journal
  apply Invariant.bind (Invariant.onlyIf (onFlash_aligned _))
  intro _
  exact Invariant.update fun _ hj => hj

theorem commit_aligned (data : List Byte) (durability : Durability) (reserved : Option Nat) :
    KeepsAligned (commitOwnedWithNonce data durability provider reserved) := by
  apply Invariant.get
  intro journal
  apply Invariant.bind (Invariant.failIf _ _)
  intro _
  apply Invariant.bind (Invariant.failIf _ _)
  intro _
  apply Invariant.bind (Invariant.readOnly _)
  intro generation
  apply Invariant.bind (Invariant.failIf _ _)
  intro _
  apply Invariant.bind (sealRecord_aligned _ _ _)
  intro sealed
  apply Invariant.bind (replaceRecord_aligned _ _ _ _ _ _ _)
  intro _
  exact Invariant.ret _

/-- An append offers the place behind its frame. -/
theorem append_aligned (data : List Byte) (durability : Durability) : KeepsAligned (appendWith data durability provider) := by
  apply Invariant.get
  intro journal
  apply Invariant.bind (Invariant.failIf _ _)
  intro _
  apply Invariant.bind (Invariant.orFail _ _)
  intro start
  have hPrepare : KeepsAligned (prepareAppend start data.length durability) := by
    apply Invariant.get
    intro journal'
    apply Invariant.bind (Invariant.failIf _ _)
    intro _
    apply Invariant.bind (Invariant.failIf _ _)
    intro _
    apply Invariant.bind (Invariant.orFail _ _)
    intro slot
    apply Invariant.bind (Invariant.readOnly _)
    intro stop
    apply Invariant.bind (Invariant.readOnly _)
    intro generation
    apply Invariant.bind (Invariant.failIf _ _)
    intro _
    apply Invariant.bind (Invariant.readOnly _)
    intro free
    apply Invariant.bind (Invariant.failIf _ _)
    intro _
    exact Invariant.ret _
  apply Invariant.bind hPrepare
  intro prepared
  apply Invariant.bind (Invariant.orFail _ _)
  intro attempt
  apply Invariant.bind (Invariant.readOnly _)
  intro payloadLength
  apply Invariant.bind (Invariant.readOnly _)
  intro label
  apply Invariant.bind (Invariant.readOnly _)
  intro record
  have hPublish : KeepsAligned (publish label prepared.1 start prepared.2.1 prepared.2.2 durability record) := by
    apply Invariant.bind
    · exact Invariant.update fun _ hj => hj
    intro _
    apply Invariant.bind (onFlash_aligned _)
    intro _
    apply Invariant.bind (onFlash_aligned _)
    intro _
    apply Invariant.bind (Invariant.onlyIf (onFlash_aligned _))
    intro _
    exact Invariant.update fun _ hj => hj
  apply Invariant.bind hPublish
  intro _
  apply Invariant.update
  intro j _ found hFound
  cases hEnd : frameEnd j.flash start data.length with
  | ok stop =>
      simp only [hEnd, Except.toOption, Option.some.injEq] at hFound
      subst hFound
      exact frameEnd_aligned hEnd
  | error e =>
      simp only [hEnd, Except.toOption] at hFound
      cases hFound

end Aligned

section Offered

variable {provider : CryptoProvider}

/-- What a journal reports about its next frame: its mode and where the frame starts. -/
structure Offers (journal : Journal) (appendEnabled : Bool) (offset : Option Nat) : Prop where
  intact : journal.poisoned = false
  appendEnabled : journal.appendEnabled = appendEnabled
  appendOffset : journal.appendOffset = offset

/-- The mode of a journal is fixed when it is opened. -/
abbrev KeepsMode (appendEnabled : Bool) {α : Type} (operation : JournalM α) : Prop :=
  Invariant (fun j : Journal => j.appendEnabled = appendEnabled) operation

theorem onFlash_mode {appendEnabled : Bool} {α : Type} (operation : FlashM α) :
    KeepsMode appendEnabled (onFlash operation) := by
  intro j hj
  simp only [onFlash]
  cases operation j.flash with
  | ok a flash => exact hj
  | error e flash => exact hj

/-- A sealed record is its data with the header and the tag. -/
theorem encryptRecord_length {key label data record : List Byte} {header : RecordHeader}
    (h : encryptRecord key header label data provider = .ok record) : record.length = data.length + recordOverhead := by
  obtain ⟨ciphertext, -, hRest⟩ := Checks.bind_ok.1 h
  obtain ⟨_, hLength, hRecord⟩ := Checks.bind_ok.1 hRest
  cases hRecord
  rw [List.length_append, RecordHeader.length_encode, not_not.1 (Checks.failIf_ok.1 hLength)]
  simp only [recordOverhead]
  omega

theorem sealRecord_offers {appendEnabled : Bool} (data : List Byte) (generation : Nat) (reserved : Option Nat) :
    Triple (fun j => j.appendEnabled = appendEnabled) (sealRecord data generation provider reserved)
      (fun sealed j => j.appendEnabled = appendEnabled ∧ sealed.1.length = data.length + recordOverhead) fun _ _ => True := by
  apply Triple.readOnly_bind
  · intro payloadLength _
    apply Triple.get
    intro journal hMode
    have hAttempt : KeepsMode appendEnabled (snapshotAttempt reserved) := by
      cases reserved with
      | none => exact onFlash_mode _
      | some value =>
          apply Invariant.bind (Invariant.failIf _ _)
          intro _
          apply Invariant.get
          intro journal'
          apply Invariant.bind (Invariant.readOnly _)
          intro current
          apply Invariant.bind (Invariant.failIf _ _)
          intro _
          exact Invariant.ret _
    apply Triple.bind (Q := fun _ j => j.appendEnabled = appendEnabled)
    · exact (hAttempt.at hMode).conseq (fun _ h => h) (fun _ _ h => h) fun _ _ _ => trivial
    intro attempt
    apply Triple.bind (Q := fun _ j => j.appendEnabled = appendEnabled)
    · exact (onFlash_mode _).conseq (fun _ h => h) (fun _ _ h => h) fun _ _ _ => trivial
    intro _
    apply Triple.readOnly_bind
    · intro record hRecord
      apply Triple.ret
      intro j hj
      exact ⟨hj, encryptRecord_length hRecord⟩
    · exact fun _ _ _ _ => trivial
  · exact fun _ _ _ _ => trivial

/-- A replaced record leaves the place behind it to the next frame. -/
theorem replaceRecord_offers {appendEnabled : Bool} (active : Option Nat) (slot size generation attempt : Nat)
    (durability : Durability) (record : List Byte) :
    Triple (fun j => j.appendEnabled = appendEnabled)
      (replaceRecord active slot size generation attempt durability record)
      (fun _ j => Offers j appendEnabled (some (wordAlign record.length))) fun _ _ => True := by
  have hWrites : ∀ {α : Type} {operation : JournalM α}, KeepsMode appendEnabled operation →
      Triple (fun j => j.appendEnabled = appendEnabled) operation (fun _ j => j.appendEnabled = appendEnabled)
        fun _ _ => True :=
    fun h => Triple.conseq h (fun _ h => h) (fun _ _ h => h) fun _ _ _ => trivial
  have hMark : ∀ offset, KeepsMode appendEnabled (markReclaim active offset) := by
    intro offset
    cases active with
    | none => exact Invariant.ret _
    | some active => exact onFlash_mode _
  apply Triple.bind (Q := fun _ j => j.appendEnabled = appendEnabled)
  · exact Triple.update fun _ hj => hj
  intro _
  apply Triple.bind (hWrites (hMark _))
  intro _
  apply Triple.bind (hWrites (onFlash_mode _))
  intro _
  apply Triple.bind (hWrites (onFlash_mode _))
  intro _
  apply Triple.bind (hWrites (onFlash_mode _))
  intro _
  apply Triple.bind (hWrites (hMark _))
  intro _
  apply Triple.bind (Q := fun _ j => j.appendEnabled = appendEnabled ∧ j.appendOffset = some (wordAlign record.length))
  · apply Triple.update
    intro j hj
    exact ⟨hj, rfl⟩
  intro _
  apply Triple.get
  intro journal hJournal
  apply Triple.bind (Q := fun _ j => j.appendEnabled = appendEnabled ∧ j.appendOffset = some (wordAlign record.length))
  · apply Triple.onlyIf
    · intro _ s hs
      subst hs
      simp only [onFlash]
      cases advanceMonotonic (anchor generation s.appendEnabled) s.flash with
      | ok _ flash => exact hJournal
      | error _ flash => trivial
    · rintro - s rfl
      exact hJournal
  intro _
  apply Triple.update
  intro j hj
  exact ⟨rfl, hj.1, hj.2⟩

/-- After a commit the next frame starts behind the committed record. -/
theorem commit_offers {journal : Journal} (data : List Byte) (durability : Durability) (reserved : Option Nat) :
    Triple (fun j => j = journal) (commitOwnedWithNonce data durability provider reserved)
      (fun _ j => Offers j journal.appendEnabled (some (wordAlign (data.length + recordOverhead))) ∧
        data.length + overhead ≤ journal.flash.slotSize) fun _ _ => True := by
  apply Triple.get
  rintro s rfl
  apply Triple.failIf_bind (fun _ _ _ => trivial)
  intro _
  apply Triple.failIf_bind (fun _ _ _ => trivial)
  intro hFits
  apply Triple.readOnly_bind
  · intro generation _
    apply Triple.failIf_bind (fun _ _ _ => trivial)
    intro _
    apply Triple.bind
    · apply (sealRecord_offers data generation reserved).at
      rfl
    intro sealed
    apply Triple.of_state
    rintro s' ⟨hMode, hLength⟩
    rw [← hLength]
    apply Triple.bind ((replaceRecord_offers _ _ _ _ _ _ _).at hMode)
    intro _
    apply Triple.ret
    intro j hj
    exact ⟨hj, by omega⟩
  · exact fun _ _ _ _ => trivial

end Offered

section Exact

variable {provider : CryptoProvider} {journal : Journal}

/-- Journals in the hands of their owner: opened on any flash with any replay, and
operated on by any provider, whatever the power did in between. -/
inductive Handled : Journal → Prop where
  | opened {σ : Type} {flash : MemoryFlash} {key : List Byte} {provider : CryptoProvider} {appendEnabled : Bool}
      {replay : Replay σ} {state : Option σ} {journal : Journal}
      (hOpen : openMode flash key provider appendEnabled replay = .ok state journal) : Handled journal
  | committed {journal : Journal} (hHandled : Handled journal) (provider : CryptoProvider) (budget : Option Nat)
      (data : List Byte) (durability : Durability) (reserved : Option Nat) :
      Handled (finalState (commitOwnedWithNonce data durability provider reserved (journal.withBudget budget)))
  | appended {journal : Journal} (hHandled : Handled journal) (provider : CryptoProvider) (budget : Option Nat)
      (data : List Byte) (durability : Durability) :
      Handled (finalState (appendWith data durability provider (journal.withBudget budget)))
  | reserved {journal : Journal} (hHandled : Handled journal) (budget : Option Nat) :
      Handled (finalState (reserveIdentityNonce (journal.withBudget budget)))
  | recovered {σ : Type} {journal : Journal} (hHandled : Handled journal) (provider : CryptoProvider)
      (replay : Replay σ) (allowUnreconciled : Bool) (budget : Option Nat) :
      Handled (finalState (recoverWithReplayMode provider replay allowUnreconciled (journal.withBudget budget)))

theorem KeepsAligned.finalState {α : Type} {operation : JournalM α} (h : KeepsAligned operation)
    (hAligned : AlignedOffset journal.appendOffset) (budget : Option Nat) :
    AlignedOffset (finalState (operation (journal.withBudget budget))).appendOffset :=
  Triple.finalState (P := fun j => AlignedOffset j.appendOffset) (h.at hAligned)

/-- Whatever happened to a journal, the next frame starts at a whole word. -/
theorem Handled.aligned (hHandled : Handled journal) : AlignedOffset journal.appendOffset := by
  induction hHandled with
  | @opened σ flash key provider appendEnabled replay state journal hOpen =>
      apply Triple.ok (recover_aligned false) _ hOpen
      intro start hStart
      cases hStart
  | committed _ _ budget data durability reserved ih => exact (commit_aligned data durability reserved).finalState ih budget
  | appended _ _ budget data durability ih => exact (append_aligned data durability).finalState ih budget
  | reserved _ budget ih => exact reserve_aligned.finalState ih budget
  | recovered _ _ _ allowUnreconciled budget ih => exact (recover_aligned allowUnreconciled).finalState ih budget

/-- A frame fits when its words fit in front of the tail. -/
theorem frameEnd_fits {flash : MemoryFlash} {start length : Nat} (hAligned : start % 4 = 0) :
    (∃ stop, frameEnd flash start length = .ok stop) ↔
      length ≤ maxPayload ∧ length + minFrameBytes ≤ (flash.slotSize - tailBytes - start) / 4 * 4 := by
  unfold frameEnd
  rw [if_neg (by omega)]
  by_cases hLong : maxPayload < length
  · rw [if_pos hLong]
    simp only [reduceCtorEq, exists_false, false_iff]
    omega
  rw [if_neg hLong]
  by_cases hRoom : (start + minFrameBytes + length + 3) / 4 * 4 ≤ flash.slotSize - tailBytes
  · simp only [if_pos hRoom, Except.ok.injEq, exists_eq', true_iff]
    omega
  · simp only [if_neg hRoom, reduceCtorEq, exists_false, false_iff]
    simp only [tailBytes, minFrameBytes, headerBytes, markerBytes] at hRoom ⊢
    omega

/-- The offered capacity and the space check agree on every length. -/
theorem appendCapacity_exact {start : Nat} (hOffers : Offers journal true (some start)) (hAligned : start % 4 = 0) :
    (∃ capacity, journal.appendCapacity = .ok capacity ∧ ∀ length, journal.Fits length ↔ length ≤ capacity) ∨
      journal.appendCapacity = .error .quota ∧ ∀ length, journal.Fits length → length = 0 := by
  have hFits : ∀ length, journal.Fits length ↔
      length ≤ maxPayload ∧ length + minFrameBytes ≤ (journal.flash.slotSize - tailBytes - start) / 4 * 4 := by
    intro length
    rw [← frameEnd_fits hAligned]
    constructor
    · rintro ⟨found, stop, hFound, hStop⟩
      cases hOffers.appendOffset.symm.trans hFound
      exact ⟨stop, hStop⟩
    · rintro ⟨stop, hStop⟩
      exact ⟨start, stop, hOffers.appendOffset, hStop⟩
  have hCapacity : journal.appendCapacity = (do
      let capacity := (journal.flash.slotSize - tailBytes - start) / 4 * 4 - minFrameBytes
      failIf (capacity = 0) .quota
      pure (min capacity maxPayload)) := by
    simp only [Journal.appendCapacity, hOffers.intact, hOffers.appendEnabled, hOffers.appendOffset, failIf, orFail, bind,
      Except.bind, pure, Except.pure, Bool.not_true, Bool.false_eq_true, if_false]
  rw [hCapacity]
  by_cases hNone : (journal.flash.slotSize - tailBytes - start) / 4 * 4 - minFrameBytes = 0
  · right
    constructor
    · simp only [failIf, hNone, if_true]
      rfl
    · intro length hLength
      have hRoom := ((hFits length).1 hLength).2
      omega
  · left
    apply Exists.intro
    constructor
    · simp only [failIf, hNone, if_false]
      rfl
    · intro length
      rw [hFits, le_min_iff]
      omega

/-- The estimate for a snapshot is the capacity behind that snapshot. -/
theorem appendCapacityAfterSnapshot_exact {next : Journal} {length : Nat} (hWhole : journal.flash.slotSize % 4 = 0)
    (hSame : next.flash.slotSize = journal.flash.slotSize)
    (hFits : length + recordOverhead < 2 ^ 64)
    (hOffers : Offers next true (some (wordAlign (length + recordOverhead)))) :
    ∃ room, journal.appendCapacityAfterSnapshot length = .ok room ∧ roomOf next.appendCapacity = .ok room := by
  have hAligned := wordAlign_aligned (length + recordOverhead)
  have hRoom : (next.flash.slotSize - tailBytes - wordAlign (length + recordOverhead)) / 4 * 4 =
      journal.flash.slotSize - tailBytes - wordAlign (length + recordOverhead) := by
    simp only [hSame, tailBytes]
    omega
  constructor
  constructor
  · simp only [Journal.appendCapacityAfterSnapshot, checkedAdd64, orFail]
    rw [if_pos hFits]
    rfl
  · simp only [Journal.appendCapacity, hOffers.intact, hOffers.appendEnabled, hOffers.appendOffset, failIf, orFail, bind,
      Except.bind, pure, Except.pure, Bool.not_true, Bool.false_eq_true, if_false, hRoom]
    by_cases hNone : journal.flash.slotSize - tailBytes - wordAlign (length + recordOverhead) - minFrameBytes = 0
    · simp only [hNone, Nat.zero_min]
      rfl
    · simp only [if_neg hNone]
      rfl

/-- Append capacity is exact: it admits the lengths that the space check of an append
admits, and the estimate for a snapshot is what a commit of it then offers. -/
theorem append_capacity_exact (hHandled : Handled journal) (hIntact : journal.poisoned = false)
    (hMode : journal.appendEnabled = true) :
    ((∃ capacity, journal.appendCapacity = .ok capacity ∧ ∀ length, journal.Fits length ↔ length ≤ capacity) ∨
      journal.appendCapacity = .error .quota ∧ ∀ length, journal.Fits length → length = 0) ∧
    ∀ (provider : CryptoProvider) (data : List Byte) (durability : Durability) (reserved budget : Option Nat)
      (record : List Byte) (next : Journal), journal.flash.slotSize % 4 = 0 →
      commitOwnedWithNonce data durability provider reserved (journal.withBudget budget) = .ok record next →
      ∃ room, journal.appendCapacityAfterSnapshot data.length = .ok room ∧ roomOf next.appendCapacity = .ok room := by
  constructor
  · cases hOffset : journal.appendOffset with
    | none =>
        right
        constructor
        · simp only [Journal.appendCapacity, hIntact, hOffset, failIf, orFail]
          rfl
        · rintro length ⟨start, stop, hStart, -⟩
          rw [hOffset] at hStart
          cases hStart
    | some start => exact appendCapacity_exact ⟨hIntact, hMode, hOffset⟩ (hHandled.aligned start hOffset)
  · intro provider data durability reserved budget record next hWhole hCommit
    obtain ⟨hOffers, hFits⟩ := Triple.ok (commit_offers data durability reserved) rfl hCommit
    have hWorn := Triple.ok (commitOwnedWithNonce_worn (f := journal.flash) data durability provider reserved)
      (s := journal.withBudget budget) ⟨rfl, fun _ h => h⟩ hCommit
    have hSmall : data.length + recordOverhead < 2 ^ 64 := by
      have hBounded := (journal.withBudget budget).flash.bounded
      simp only [overhead] at hFits
      omega
    rw [show (journal.withBudget budget).appendEnabled = true from hMode] at hOffers
    exact appendCapacityAfterSnapshot_exact hWhole hWorn.1 hSmall hOffers

theorem handled_of_succeeded {σ : Type} {flash : MemoryFlash} {key : List Byte} {appendEnabled : Bool} {replay : Replay σ}
    (h : succeeded (openMode flash key provider appendEnabled replay) = true) :
    Handled (finalState (openMode flash key provider appendEnabled replay)) := by
  cases hOpen : openMode flash key provider appendEnabled replay with
  | ok state journal => exact Handled.opened hOpen
  | error e journal =>
      rw [hOpen] at h
      cases h

/-- Two slots of 112 bytes with a snapshot of one byte. -/
def snapshotJournal : Journal :=
  finalState (commitOwnedWithNonce [1] .anchored plainProvider none
    ((finalState (openMode (MemoryFlash.withSlots 112 2 shortSlot_bounded) [] plainProvider true recorder)).withBudget none))

/-- Behind the snapshot is room for twelve bytes. -/
theorem append_capacity_exact_snapshot : snapshotJournal.Fits 12 ∧ ¬snapshotJournal.Fits 13 := by
  have hHandled : Handled snapshotJournal :=
    Handled.committed (handled_of_succeeded erasedFlash_opens) plainProvider none [1] .anchored none
  have hJournal : snapshotJournal.appendCapacity = .ok 12 ∧ snapshotJournal.poisoned = false ∧
      snapshotJournal.appendEnabled = true := by decide +kernel
  obtain ⟨hRoom, hIntact, hMode⟩ := hJournal
  rcases (append_capacity_exact hHandled hIntact hMode).1 with ⟨capacity, hCapacity, hExact⟩ | ⟨hNone, -⟩
  · rw [hRoom] at hCapacity
    cases hCapacity
    exact ⟨(hExact 12).2 le_rfl, fun hFits => by simpa using (hExact 13).1 hFits⟩
  · rw [hRoom] at hNone
    cases hNone

end Exact

end MicroCard.Journal
