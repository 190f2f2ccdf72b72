import MicroCard.Journal.Reopening

/-! Checkpoint admission. Before a command may change protected state the card asks
whether so many checkpoints can still be recorded. The answer counts what is left of the
two word counters; the sequence and the anchor of a generation have limits of their own. -/
namespace MicroCard.Journal

set_option linter.dupNamespace false

open Bytes CrashTriple

variable {provider : CryptoProvider} {j next : Journal} {past : Past}

section Checkpoints

/-- One checkpoint: a patch behind the active snapshot, or a whole snapshot. -/
inductive Checkpoint where
  | append (data : List Byte) (durability : Durability)
  | snapshot (data : List Byte) (durability : Durability)

def Checkpoint.run (provider : CryptoProvider) : Checkpoint → JournalM Unit
  | .append data durability => appendWith data durability provider
  | .snapshot data durability => do
      let _ ← commitOwnedWithNonce data durability provider none

/-- The checkpoint fits in space: the frame has a place in the slot that its nonce can
name, or the record fits in a slot and its length in a header. -/
def Checkpoint.Fits (j : Journal) : Checkpoint → Prop
  | .append data _ => ∃ start stop, j.appendOffset = some start ∧ start < 2 ^ 32 ∧
      frameEnd j.flash start data.length = .ok stop
  | .snapshot data _ => data.length + overhead ≤ j.flash.slotSize ∧ data.length + 16 < 2 ^ 32

/-- Admission of `count` checkpoints. -/
def Journal.ensureCheckpointCapacity (j : Journal) (count : Nat) : Except Error Unit := do
  let remaining ← j.remainingCommits
  failIf (remaining < count) .quota

/-- As long as they fit in space, the checkpoints are recorded one after another. -/
def Completes (provider : CryptoProvider) : Journal → List Checkpoint → Prop
  | _, [] => True
  | j, checkpoint :: rest =>
      checkpoint.Fits j → ∃ next, checkpoint.run provider j = .ok () next ∧ Completes provider next rest

/-- A provider that seals every plaintext. -/
def CryptoProvider.SealsAll (provider : CryptoProvider) : Prop := ∀ key data, provider.Seals key data

end Checkpoints

section Reservations

/-- The reservation counter of a journal. -/
def ReservedTo (value : Nat) (flash : MemoryFlash) : Prop := CounterIs flash.nonces flash.slotSize value

theorem reservedTo_anchorStable (value : Nat) : AnchorStable (ReservedTo value) where
  slots := by
    intro f g hSize _ hNonces hReserved
    rw [ReservedTo, hSize, hNonces]
    exact hReserved
  clear := fun _ _ h => h

theorem CounterIs.unique {counter : Nat → Byte} {size value other : Nat} (h : CounterIs counter size value)
    (h' : CounterIs counter size other) (hWhole : size % 4 = 0) (hBounded : size < 2 ^ 63) : value = other := by
  have hSame := (h.decode hWhole hBounded).symm.trans (h'.decode hWhole hBounded)
  exact Except.ok.inj hSame

/-- A commit reserves one nonce. -/
theorem commit_reserves {reserved : Nat} (data : List Byte) (durability : Durability)
    (hReserved : CounterIs j.flash.nonces j.flash.slotSize reserved) (hWhole : j.flash.slotSize % 4 = 0) :
    Triple (fun s => s = j) (commitOwnedWithNonce data durability provider none)
      (fun _ j' => ReservedTo (reserved + 1) j'.flash) fun _ _ => True := by
  apply Triple.get
  rintro s rfl
  apply Triple.failIf_bind (fun _ _ _ => trivial)
  intro _
  apply Triple.failIf_bind (fun _ _ _ => trivial)
  intro _
  apply Triple.readOnly_bind _ (fun _ _ _ _ => trivial)
  intro generation _
  apply Triple.failIf_bind (fun _ _ _ => trivial)
  intro _
  apply Triple.bind (Q := fun _ j' => ReservedTo (reserved + 1) j'.flash)
  · apply Triple.readOnly_bind _ (fun _ _ _ _ => trivial)
    intro payloadLength _
    apply Triple.get
    rintro s' rfl
    apply Triple.bind (Q := fun _ j' => ReservedTo (reserved + 1) j'.flash)
    · apply (onFlash_at (reserveNonce_spec hReserved hWhole)).conseq (fun _ h => h)
      · rintro _ _ ⟨f, rfl, -, c, x, rfl, -, hCounter⟩
        exact hCounter
      · exact fun _ _ _ => trivial
    intro attempt
    apply Triple.bind (Q := fun _ j' => ReservedTo (reserved + 1) j'.flash)
    · exact fun _ h => h
    intro _
    apply Triple.readOnly_bind _ (fun _ _ _ _ => trivial)
    intro record _
    exact Triple.ret fun _ h => h
  intro sealed
  apply Triple.bind (Q := fun _ j' => ReservedTo (reserved + 1) j'.flash)
  · apply ((reservedTo_anchorStable (reserved + 1)).replaceRecord _ _ _ _ _ _ _).conseq (fun _ h => h)
    · exact fun _ _ h => h
    · exact fun _ _ _ => trivial
  intro _
  exact Triple.ret fun _ h => h

end Reservations

section Steps

variable {active reserved : Nat} {started : Bool} {e : Epoch}

/-- With the power on a live journal appends what fits, as far as its generation goes. -/
theorem Live.appended (hCorrect : provider.Correct) (hLive : Live provider j active e started reserved)
    (hUncut : j.flash.armed = false) (hMode : j.appendEnabled = true) {data : List Byte} {durability : Durability}
    (hFits : (Checkpoint.append data durability).Fits j) {generation : Nat}
    (hNext : nextGeneration e.generation true durability = .ok generation)
    (hRoom : anchor generation true ≤ j.flash.monotonicCapacity) (hSeals : provider.Seals j.key data) :
    ∃ next, appendWith data durability provider j = .ok () next := by
  have hSpec : Triple (fun s => s = j) (appendWith data durability provider) (fun _ _ => True) fun _ _ => False := by
    obtain ⟨start, stop, hOffset, hNamed, hEnd⟩ := hFits
    obtain ⟨rfl, hOpen, rfl⟩ := hLive.appendOffset hMode start hOffset
    have hStored := hLive.stored
    rw [hMode] at hStored
    obtain ⟨hAligned, hStop, hFree⟩ := hStored.tail hOpen
    obtain ⟨-, hShort, rfl, hBounds⟩ := frameEnd_ok hEnd
    apply Triple.get
    rintro s rfl
    apply Triple.failIf_bind
    · intro hPoisoned
      exact absurd (hLive.poisoned.symm.trans hPoisoned) (by decide)
    intro _
    apply Triple.orFail_bind
    · intro hNone
      exact absurd (hNone.symm.trans hOffset) (by simp)
    intro start hStart
    cases hOffset.symm.trans hStart
    apply Triple.bind (Q := fun prepared s' => s' = s ∧ prepared = (active, frameStop e.stop data.length, generation))
    · apply Triple.get
      rintro s' rfl
      apply Triple.failIf_bind
      · intro hPoisoned
        exact absurd (hLive.poisoned.symm.trans hPoisoned) (by decide)
      intro _
      apply Triple.failIf_bind
      · intro hLegacy
        rw [hMode] at hLegacy
        cases hLegacy
      intro _
      apply Triple.orFail_bind
      · intro hNone
        exact absurd (hNone.symm.trans hLive.active) (by simp)
      intro slot hSlot
      cases hLive.active.symm.trans hSlot
      apply Triple.readOnly_of_ok hEnd
      apply Triple.readOnly_of_ok (hLive.generation.symm ▸ hNext)
      apply Triple.failIf_bind
      · intro hOver
        omega
      intro _
      -- the rest of the slot is still erased
      have hErased : erased s'.flash active e.stop (frameStop e.stop data.length) = .ok true := by
        have hReadable := hStored.readable hStored.active_lt
        have hRead := @Readable.read _ _ _ _ _ hReadable e.stop (frameStop e.stop data.length - e.stop)
          (by simp only [tailBytes, frameStop, minFrameBytes, headerBytes, markerBytes] at hBounds ⊢; omega)
        simp only [erased, hRead, bind, Except.bind, pure, Except.pure]
        congr 1
        rw [range_all_iff]
        intro i hi
        rw [hFree _ (by omega) (by omega)]
      apply Triple.readOnly_of_ok hErased
      apply Triple.failIf_bind
      · intro hNot
        cases hNot
      intro _
      exact Triple.ret fun _ hs => ⟨hs, rfl⟩
    intro prepared
    apply Triple.of_state
    rintro s' ⟨hSame, rfl⟩
    subst hSame
    apply Triple.orFail_bind
    · intro hNone
      exact absurd (hNone.symm.trans hLive.baseAttempt) (by simp)
    intro attempt hAttempt
    cases hLive.baseAttempt.symm.trans hAttempt
    have hPrepared : prepareRecord data = .ok (data.length + 16) := by
      simp only [maxPayload, maxFrameBytes, minFrameBytes, headerBytes, markerBytes] at hShort
      exact if_pos (by omega)
    have hLabel : appendNonce e.attempt e.stop = .ok ([0x41] ++ toLE 8 e.attempt ++ toLE 4 e.stop) := if_pos hNamed
    obtain ⟨record, hRecord⟩ := encryptRecord_seals hSeals ([0x41] ++ toLE 8 e.attempt ++ toLE 4 e.stop)
      ⟨true, generation, e.attempt, data.length + 16⟩
    apply Triple.readOnly_of_ok hPrepared
    apply Triple.readOnly_of_ok hLabel
    apply Triple.readOnly_of_ok hRecord
    have hPublish := publish_spec hStored hMode hOpen hShort hBounds hLabel (encryptRecord_spec hCorrect hRecord)
      (nextGeneration_spec hNext) (by
        have hWhole := hStored.whole
        simp only [MemoryFlash.monotonicCapacity] at hRoom
        omega)
    apply Triple.bind
    · apply hPublish.conseq (fun _ h => h) (fun _ _ h => h)
      rintro _ j' ⟨-, hArmed, -⟩
      rw [hUncut] at hArmed
      cases hArmed
    intro _
    exact Triple.update fun _ _ => trivial
  cases hRun : appendWith data durability provider j with
  | ok _ next => exact ⟨next, rfl⟩
  | error err failed => exact (Triple.error hSpec rfl hRun).elim

/-- What a chain says about its last generation. -/
theorem Frames.numbered {key : List Byte} {memory : Nat → Byte} {size attempt start generation stop last : Nat}
    {payloads : List (List Byte)} (h : Frames provider key memory size attempt start generation payloads stop last)
    (hFirst : anchor generation true ≠ 0 ∧ generation < 2 ^ 64) : anchor last true ≠ 0 ∧ last < 2 ^ 64 := by
  induction h with
  | nil _ _ => exact hFirst
  | cons head _ ih => exact ih ⟨head.follows.anchored, head.follows.bounded⟩

theorem Live.numbered (hLive : Live provider j active e started reserved) (hMode : j.appendEnabled = true) :
    anchor e.generation true ≠ 0 ∧ anchor e.generation true < 2 ^ 32 := by
  have hEpoch := hLive.stored.published.epoch
  obtain ⟨hAnchored, hBounded⟩ := (hEpoch.chain hMode).1.numbered ⟨(hEpoch.anchored hMode).1, hEpoch.base_lt⟩
  apply And.intro hAnchored
  simp only [anchor, if_true]
  omega

/-- What both word counters leave. -/
theorem Live.remainingCommits (hLive : Live provider j active e started reserved) : j.remainingCommits =
    .ok (min (j.flash.monotonicCapacity - anchor e.generation j.appendEnabled) (j.flash.nonceCapacity - reserved)) := by
  have hAnchor := hLive.stored.anchor_le
  have hNonces := hLive.stored.nonces.fits
  have hGeneration := hLive.stored.monotonicGeneration
  have hReserved := hLive.stored.nonceGeneration
  have hFirst : ¬j.flash.monotonicCapacity < anchor e.generation j.appendEnabled := by
    simp only [MemoryFlash.monotonicCapacity]
    omega
  have hSecond : ¬j.flash.nonceCapacity < reserved := by
    simp only [MemoryFlash.nonceCapacity, MemoryFlash.monotonicCapacity]
    omega
  simp only [Journal.remainingCommits, hLive.poisoned, hLive.generation, hGeneration, hReserved, failIf, bind, Except.bind,
    pure, Except.pure, ne_eq, not_true_eq_false, Bool.false_eq_true, hFirst, hSecond, if_false]

/-- A generation has a successor while its two halves have one. -/
theorem nextGeneration_numbered {generation : Nat} {durability : Durability} (hSequence : sequence generation + 1 < 2 ^ 32)
    (hAnchored : anchor generation true ≠ 0) (hAnchor : anchor generation true + 1 < 2 ^ 32) :
    ∃ next, nextGeneration generation true durability = .ok next := by
  have hAdd : checkedAdd64 (anchor generation true) (if durability = .anchored then 1 else 0) =
      some (anchor generation true + if durability = .anchored then 1 else 0) := by
    apply if_pos
    split <;> omega
  have hBounds : ¬((anchor generation true + if durability = .anchored then 1 else 0) = 0 ∨
      2 ^ 32 - 1 < anchor generation true + if durability = .anchored then 1 else 0) := by
    split <;> omega
  have hNext : checkedAdd32 (sequence generation) 1 = some (sequence generation + 1) := if_pos hSequence
  refine ⟨(anchor generation true + if durability = .anchored then 1 else 0) * 2 ^ 32 + (sequence generation + 1), ?_⟩
  simp only [nextGeneration, Bool.not_true, Bool.false_eq_true, if_false, hNext, hAdd, if_neg hBounds]

/-- A journal that can still record `count` checkpoints. -/
structure Headroom (provider : CryptoProvider) (j : Journal) (count : Nat) : Prop where
  mode : j.appendEnabled = true
  uncut : j.flash.armed = false
  live : ∃ active e started reserved, Live provider j active e started reserved ∧
    sequence e.generation + count < 2 ^ 32 ∧ anchor e.generation true + count < 2 ^ 32 ∧
    anchor e.generation true + count ≤ j.flash.monotonicCapacity ∧ reserved + count ≤ j.flash.nonceCapacity

/-- One checkpoint takes one from what is left. -/
theorem Headroom.records (hCorrect : provider.Correct) (hSeals : provider.SealsAll) {count : Nat}
    (h : Headroom provider j (count + 1)) {checkpoint : Checkpoint} (hFits : checkpoint.Fits j) :
    ∃ next, checkpoint.run provider j = .ok () next ∧ Headroom provider next count := by
  obtain ⟨active, e, started, reserved, hLive, hSequence, hAnchor, hCapacity, hNonces⟩ := h.live
  have hMode := h.mode
  obtain ⟨hAnchored, -⟩ := hLive.numbered hMode
  have hStep : ∀ {durability generation}, nextGeneration e.generation true durability = .ok generation →
      sequence generation = sequence e.generation + 1 ∧ anchor generation true ≤ anchor e.generation true + 1 := by
    intro durability generation hNext
    have hGranted := nextGeneration_spec hNext
    have hEq := hGranted.anchor_eq
    apply And.intro (hGranted.follows rfl).sequence
    split at hEq <;> omega
  cases checkpoint with
  | append data durability =>
      obtain ⟨generation, hNext⟩ := @nextGeneration_numbered _ durability (by omega) hAnchored (by omega)
      obtain ⟨hSequenceEq, hAnchorLe⟩ := hStep hNext
      obtain ⟨next, hRun⟩ := hLive.appended hCorrect h.uncut hMode hFits hNext (by omega) (hSeals _ _)
      obtain ⟨hSame, generation', stop, hGeneration, -, hNew⟩ := Triple.ok (appendWith_spec hCorrect hLive) rfl hRun
      have hWorn := Triple.ok ((worn_anchorStable j.flash).appendWith data durability provider) (s := j)
        ⟨rfl, fun _ h => h⟩ hRun
      rw [hMode, hNext] at hGeneration
      cases hGeneration
      refine ⟨next, hRun, hSame.appendEnabled.trans hMode, hSame.armed.trans h.uncut, active, _, _, _, hNew, ?_⟩
      simp only [Epoch.extend, MemoryFlash.nonceCapacity, MemoryFlash.monotonicCapacity, hWorn.1] at hCapacity hNonces ⊢
      omega
  | snapshot data durability =>
      obtain ⟨generation, hNext⟩ := @nextGeneration_numbered _ durability (by omega) hAnchored (by omega)
      obtain ⟨hSequenceEq, hAnchorLe⟩ := hStep hNext
      have hLegacy : j.appendEnabled = false → durability = .anchored := by
        intro hFalse
        exact absurd (hMode.symm.trans hFalse) (by decide)
      have hAccepts : Accepts provider j data durability none :=
        ⟨hLive.poisoned, hFits.1, hFits.2, ⟨generation, by rw [hLive.generation, hMode, hNext], by rw [hMode]; omega⟩, rfl,
          ⟨reserved, hLive.stored.nonceGeneration, by omega⟩, hSeals _ _⟩
      obtain ⟨record, next, hRun⟩ := hLive.committed hCorrect h.uncut hLegacy hAccepts
      obtain ⟨hSame, attempt, generation', reserved', hGeneration, -, hNew⟩ :=
        Triple.ok (commitOwnedWithNonce_spec hCorrect hLive hLegacy) rfl hRun
      have hWorn := Triple.ok (commitOwnedWithNonce_worn (f := j.flash) data durability provider none) (s := j)
        ⟨rfl, fun _ h => h⟩ hRun
      have hReserved := Triple.ok (commit_reserves data durability hLive.stored.nonces hLive.stored.whole) rfl hRun
      have hOne := hNew.stored.nonces.unique hReserved hNew.stored.whole next.flash.bounded
      rw [hMode, hNext] at hGeneration
      cases hGeneration
      refine ⟨next, ?_, hSame.appendEnabled.trans hMode, hSame.armed.trans h.uncut, _, _, _, _, hNew, ?_⟩
      · simp only [Checkpoint.run, bind, EStateM.bind, hRun]
        rfl
      · simp only [newEpoch, MemoryFlash.nonceCapacity, MemoryFlash.monotonicCapacity, hWorn.1] at hCapacity hNonces ⊢
        omega

theorem Headroom.completes (hCorrect : provider.Correct) (hSeals : provider.SealsAll) {checkpoints : List Checkpoint}
    (h : Headroom provider j checkpoints.length) : Completes provider j checkpoints := by
  induction checkpoints generalizing j with
  | nil => trivial
  | cons checkpoint rest ih =>
      intro hFits
      obtain ⟨next, hRun, hLess⟩ := h.records hCorrect hSeals hFits
      exact ⟨next, hRun, ih hLess⟩

end Steps

section Admission

variable {active reserved : Nat} {started : Bool} {e : Epoch}

/-- The generation of a journal can be followed `count` times: it names an anchor, and
neither half is exhausted on the way. -/
def Journal.Numbers (j : Journal) (count : Nat) : Prop :=
  anchor j.generation true ≠ 0 ∧ sequence j.generation + count < 2 ^ 32 ∧ anchor j.generation true + count < 2 ^ 32

/-- Empty snapshots fit in every slot. -/
theorem snapshot_fits {flash : MemoryFlash} {durability : Durability} (hFlash : j.flash = flash)
    (hLarge : overhead ≤ flash.slotSize) : (Checkpoint.snapshot [] durability).Fits j := by
  rw [Checkpoint.Fits, hFlash]
  exact ⟨by simpa using hLarge, by simp⟩

theorem snapshot_run {data : List Byte} {durability : Durability}
    (h : (Checkpoint.snapshot data durability).run provider j = .ok () next) :
    ∃ record, commitOwnedWithNonce data durability provider none j = .ok record next := by
  simp only [Checkpoint.run, bind, EStateM.bind] at h
  cases hRun : commitOwnedWithNonce data durability provider none j with
  | ok record next' =>
      rw [hRun] at h
      cases h
      exact ⟨record, rfl⟩
  | error err failed =>
      rw [hRun] at h
      cases h

/-- Anchored snapshots use up both halves of the generation. -/
theorem Live.exhausts (hCorrect : provider.Correct) {count : Nat} (hLive : Live provider j active e started reserved)
    (hMode : j.appendEnabled = true)
    (hCompletes : Completes provider j (List.replicate count (.snapshot [] .anchored))) :
    sequence e.generation + count < 2 ^ 32 ∧ anchor e.generation true + count < 2 ^ 32 := by
  induction count generalizing j active e started reserved with
  | zero => exact ⟨Nat.mod_lt _ (by decide), (hLive.numbered hMode).2⟩
  | succ count ih =>
      obtain ⟨next, hRun, hRest⟩ := hCompletes (snapshot_fits rfl hLive.stored.large)
      obtain ⟨record, hCommit⟩ := snapshot_run hRun
      obtain ⟨hSame, attempt, generation, reserved', hNext, -, hNew⟩ :=
        Triple.ok (commitOwnedWithNonce_spec hCorrect hLive fun _ => rfl) rfl hCommit
      obtain ⟨hSequence, hAnchor⟩ := ih hNew (hSame.appendEnabled.trans hMode) hRest
      rw [hMode] at hNext
      have hGranted := nextGeneration_spec hNext
      have hFollows := (hGranted.follows rfl).sequence
      have hAnchored := hGranted.anchor_eq
      simp only [newEpoch] at hSequence hAnchor
      simp only [or_true, if_true] at hAnchored
      omega

/-- Admission counts the word counters and not the generation. On an admitted journal
every sequence of `count` checkpoints that fit in space is recorded if and only if the
generation can be followed that often. -/
theorem checkpoints_admitted_iff (hCorrect : provider.Correct) (hSeals : provider.SealsAll)
    (hHistory : History provider j past) (hMode : j.appendEnabled = true) {count : Nat}
    (hAdmitted : j.ensureCheckpointCapacity count = .ok ()) :
    (∀ checkpoints : List Checkpoint, checkpoints.length = count → Completes provider (j.withBudget none) checkpoints) ↔
      count = 0 ∨ j.Numbers count := by
  obtain ⟨remaining, hRemaining, hEnough⟩ := Checks.bind_ok.1 hAdmitted
  have hCount := Checks.failIf_ok.1 hEnough
  have hIntact : j.poisoned = false := by
    cases hPoisoned : j.poisoned with
    | false => rfl
    | true =>
        simp only [Journal.remainingCommits, hPoisoned, failIf, if_true] at hRemaining
        cases hRemaining
  cases count with
  | zero =>
      apply iff_of_true _ (.inl rfl)
      intro checkpoints hLength
      rw [List.length_eq_zero_iff.1 hLength]
      trivial
  | succ count =>
      rcases hHistory.young_or_keeps hCorrect with ⟨reserved, -, hUnwritten⟩ | ⟨e, active, started, reserved, -, -, hLive⟩
      · have hNew := hUnwritten hIntact
        apply iff_of_false
        · intro hAll
          obtain ⟨next, hRun, -⟩ := hAll (List.replicate (count + 1) (.snapshot [] .ordinary)) List.length_replicate
            (snapshot_fits rfl hNew.flash.large)
          obtain ⟨record, hCommit⟩ := snapshot_run hRun
          have hStart : Unwritten (j.withBudget none) reserved := { hNew with flash := { hNew.flash with } }
          have hLegacy : (j.withBudget none).appendEnabled = false → Durability.ordinary = .anchored := by
            intro hFalse
            exact absurd (hMode.symm.trans hFalse) (by decide)
          obtain ⟨-, attempt, generation, reserved', hNext, -⟩ :=
            Triple.ok (commit_first_spec hCorrect hStart hLegacy) rfl hCommit
          rw [show (j.withBudget none).appendEnabled = true from hMode] at hNext
          exact absurd hNext (by simp [nextGeneration, sequence, anchor, checkedAdd32, checkedAdd64])
        · rintro (hNone | ⟨hAnchored, -⟩)
          · cases hNone
          · rw [hNew.generation] at hAnchored
            exact hAnchored rfl
      · have hLive := hLive hIntact
        have hPowered : Live provider (j.withBudget none) active e started reserved :=
          { hLive with stored := { hLive.stored with } }
        obtain ⟨hAnchored, -⟩ := hLive.numbered hMode
        rw [hLive.remainingCommits, hMode] at hRemaining
        have hLeft := Except.ok.inj hRemaining
        rw [Journal.Numbers, hLive.generation]
        constructor
        · intro hAll
          have hBoth := hPowered.exhausts hCorrect hMode (hAll _ List.length_replicate)
          exact .inr ⟨hAnchored, hBoth⟩
        · rintro (hNone | ⟨-, hSequence, hAnchor⟩) checkpoints hLength
          · cases hNone
          apply Headroom.completes hCorrect hSeals
          rw [hLength]
          refine ⟨hMode, rfl, active, e, started, reserved, hPowered, hSequence, hAnchor, ?_⟩
          simp only [Journal.withBudget, MemoryFlash.nonceCapacity, MemoryFlash.monotonicCapacity] at hLeft ⊢
          omega

theorem plainProvider_sealsAll : plainProvider.SealsAll :=
  fun _ data _ _ => ⟨data ++ List.replicate 16 0, rfl, by simp⟩

theorem blankJournal_history : History plainProvider blankJournal ⟨[], [], [], []⟩ := by
  obtain ⟨contents, hOpened⟩ := ok_of_succeeded erasedFlash_opens
  exact History.opened hOpened

/-- With a first snapshot behind it, the journal of two slots records two more checkpoints. -/
theorem checkpoints_admitted_iff_second :
    Completes plainProvider
      ((finalState ((Operation.commit [1] none).run plainProvider (blankJournal.withBudget none))).withBudget none)
      [.snapshot [1] .ordinary, .snapshot [2] .ordinary] := by
  have hHistory := History.operate blankJournal_history (.commit [1] none) trivial
    (fun value hToken => by cases hToken) none
  have hFirst : let j := finalState ((Operation.commit [1] none).run plainProvider (blankJournal.withBudget none))
      j.ensureCheckpointCapacity 2 = .ok () ∧ j.appendEnabled = true ∧ anchor j.generation true ≠ 0 ∧
        sequence j.generation + 2 < 2 ^ 32 ∧ anchor j.generation true + 2 < 2 ^ 32 := by decide +kernel
  obtain ⟨hAdmitted, hMode, hNumbers⟩ := hFirst
  apply (checkpoints_admitted_iff plainProvider_correct plainProvider_sealsAll hHistory hMode hAdmitted).2
  · exact .inr hNumbers
  · rfl

/-- A journal just opened on erased flash admits a checkpoint and refuses an ordinary one:
no generation has an anchor of zero. -/
theorem first_checkpoint_refused : History plainProvider blankJournal ⟨[], [], [], []⟩ ∧
    blankJournal.ensureCheckpointCapacity 1 = .ok () ∧
    (Checkpoint.snapshot [1] .ordinary).Fits (blankJournal.withBudget none) ∧
    (∃ failed, (Checkpoint.snapshot [1] .ordinary).run plainProvider (blankJournal.withBudget none) = .error .quota failed) ∧
    ¬Completes plainProvider (blankJournal.withBudget none) [.snapshot [1] .ordinary] := by
  have hChecked : ([1].length + overhead ≤ (blankJournal.withBudget none).flash.slotSize ∧ [1].length + 16 < 2 ^ 32) ∧
      (match (Checkpoint.snapshot [1] .ordinary).run plainProvider (blankJournal.withBudget none) with
        | .ok _ _ => false
        | .error err _ => err = .quota) = true ∧ blankJournal.ensureCheckpointCapacity 1 = .ok () := by
    decide +kernel
  obtain ⟨hFits, hQuota, hOne⟩ := hChecked
  have hRefused : ∃ failed, (Checkpoint.snapshot [1] .ordinary).run plainProvider (blankJournal.withBudget none) =
      .error .quota failed := by
    cases hRun : (Checkpoint.snapshot [1] .ordinary).run plainProvider (blankJournal.withBudget none) with
    | ok _ next =>
        rw [hRun] at hQuota
        cases hQuota
    | error err failed =>
        rw [hRun] at hQuota
        have hErr : err = .quota := by simpa using hQuota
        exact ⟨failed, by rw [hErr]⟩
  refine ⟨blankJournal_history, hOne, hFits, hRefused, ?_⟩
  intro hCompletes
  obtain ⟨next, hRun, -⟩ := hCompletes hFits
  obtain ⟨failed, hError⟩ := hRefused
  rw [hRun] at hError
  cases hError

end Admission

end MicroCard.Journal
