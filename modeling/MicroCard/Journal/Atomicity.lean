import MicroCard.Journal.AppendSpec

/-! Crash atomicity over whole runs. A journal may be cut at every flash step of
every operation, reopened, and cut again while it is being reopened; what it
stores is the state before the operation or the state after it. -/
namespace MicroCard.Journal

open Bytes CrashTriple

set_option linter.dupNamespace false

section Fresh

/-- Erased slots and an anchor that has never moved. -/
structure FreshFlash (f : MemoryFlash) (reserved : Nat) : Prop where
  two_le : 2 ≤ f.slotCount
  le_eight : f.slotCount ≤ 8
  whole : f.slotSize % 4 = 0
  large : overhead ≤ f.slotSize
  nonces : CounterIs f.nonces f.slotSize reserved
  monotonic : CounterIs f.monotonic f.slotSize 0
  erased : ∀ slot < f.slotCount, ∀ i < f.slotSize, f.slots slot i = 0xff

/-- A journal opened on a fresh flash that has committed nothing. -/
structure Unwritten (j : Journal) (reserved : Nat) : Prop where
  flash : FreshFlash j.flash reserved
  intact : j.poisoned = false
  generation : j.generation = 0
  active : j.active = none
  appendOffset : j.appendOffset = none
  slotCount : j.slotCount = j.flash.slotCount

variable {provider : CryptoProvider} {f : MemoryFlash} {key : List Byte} {appendEnabled : Bool} {reserved : Nat}

theorem vacant_of_erased {slot : Nat} (h : ∀ i < f.slotSize, f.slots slot i = 0xff) (hLarge : overhead ≤ f.slotSize) :
    Vacant (f.slots slot) f.slotSize := by
  simp only [overhead, recordOverhead, headerBytes, tailBytes] at hLarge
  have hWord : ∀ offset, offset + 4 ≤ f.slotSize → range (f.slots slot) offset 4 = erasedWord :=
    fun offset hBound => range_eq_erasedWord_iff.2 fun i _ hHigh => h i (by omega)
  refine ⟨?_, ?_⟩
  · rw [hWord 0 (by omega)]
    decide
  · rw [hWord _ (by simp only [committed, tailBytes]; omega)]
    decide

theorem FreshFlash.readable (h : FreshFlash f reserved) {slot : Nat} (hSlot : slot < f.slotCount) :
    Readable f slot (f.slots slot) f.slotSize reserved := by
  refine ⟨hSlot, rfl, rfl, h.whole, h.large, h.nonces.decode h.whole f.bounded, ?_⟩
  have hFits := h.nonces.fits
  simp only [MemoryFlash.nonceCapacity, MemoryFlash.monotonicCapacity]
  omega

theorem FreshFlash.scan (h : FreshFlash f reserved) : ∀ k ≤ f.slotCount, (List.range k).foldlM
    (scanSlot f key appendEnabled provider recorder reserved) ⟨none, false, false⟩ = .ok ⟨none, false, false⟩
  | 0, _ => rfl
  | k + 1, hk => by
      have hErased : f.isErased k = .ok true := by
        rw [MemoryFlash.isErased, if_pos (by omega)]
        congr 1
        rw [range_all_iff]
        exact fun i hi => h.erased k (by omega) _ (by omega)
      have hVacant := vacant_of_erased (h.erased k (by omega)) h.large
      rw [List.range_succ, List.foldlM_append, h.scan k (by omega)]
      simp only [bind, Except.bind, List.foldlM_cons, List.foldlM_nil, scanSlot, hErased,
        readCandidate_vacant (h.readable (by omega)) hVacant.notOld hVacant.uncommitted, pure, Except.pure, if_true]

theorem FreshFlash.selectCandidate (h : FreshFlash f reserved) :
    selectCandidate f key appendEnabled provider recorder = .ok none := by
  have hTwo := h.two_le
  have hEight := h.le_eight
  have hLarge := h.large
  have hRead : Readable f 0 (f.slots 0) f.slotSize reserved := h.readable (by omega)
  unfold Journal.selectCandidate
  simp only [bind, Except.bind, failIf, hRead.nonces, h.scan f.slotCount (Nat.le_refl _)]
  rw [if_neg (by omega)]
  simp only [pure, Except.pure]
  rw [if_neg (by omega)]
  simp only
  rw [if_neg (by have := hRead.capacity; omega)]
  rfl

/-- Opening a fresh flash writes nothing. -/
theorem FreshFlash.openMode (h : FreshFlash f reserved) : openMode f key provider appendEnabled recorder =
    .ok none { Journal.unopened f key appendEnabled with slotCount := f.slotCount, poisoned := false } := by
  have hAnchor : anchor 0 appendEnabled = 0 := by cases appendEnabled <;> rfl
  have hGeneration : f.monotonicGeneration = .ok 0 := h.monotonic.decode h.whole f.bounded
  have hReconcile : reconcileGeneration 0 f = .ok () f := by
    unfold reconcileGeneration
    simp [bind, EStateM.bind, get, getThe, MonadStateOf.get, EStateM.get, readOnly, hGeneration, failIf, orFail,
      checkedAdd64, onlyIf, pure, EStateM.pure]
  unfold Journal.openMode recoverWithReplay recoverWithReplayMode
  simp only [bind, EStateM.bind, modify, modifyGet, MonadStateOf.modifyGet, EStateM.modifyGet, get, getThe,
    MonadStateOf.get, EStateM.get, readOnly, Journal.unopened, h.selectCandidate, capture, onFlash, hAnchor, hReconcile,
    pure, EStateM.pure]
  rfl

/-- Opening a fresh flash gives a journal without a record. -/
theorem openMode_fresh (h : FreshFlash f reserved) {contents : Option Contents} {j : Journal}
    (hOpen : openMode f key provider appendEnabled recorder = .ok contents j) :
    contents = none ∧ Unwritten j reserved ∧ j.key = key ∧ j.appendEnabled = appendEnabled ∧ j.flash = f := by
  rw [h.openMode] at hOpen
  injection hOpen with hContents hJournal
  subst hJournal
  exact ⟨hContents.symm, ⟨h, rfl, rfl, rfl, rfl, rfl⟩, rfl, rfl, rfl⟩

/-- What recovery checks before it looks at any slot. -/
theorem selectCandidate_checks {σ : Type} {replay : Replay σ} {selected : Option (CandidateMeta × σ)}
    (h : selectCandidate f key appendEnabled provider replay = .ok selected) :
    (2 ≤ f.slotCount ∧ f.slotCount ≤ 8) ∧ overhead ≤ f.slotSize ∧ f.slotSize % 4 = 0 := by
  unfold Journal.selectCandidate at h
  simp only [bind, Except.bind, failIf] at h
  by_cases hCount : ¬(2 ≤ f.slotCount ∧ f.slotCount ≤ 8)
  · rw [if_pos hCount] at h
    cases h
  rw [if_neg hCount] at h
  by_cases hLarge : f.slotSize < overhead
  · simp only [pure, Except.pure] at h
    rw [if_pos hLarge] at h
    cases h
  refine ⟨not_not.1 hCount, by omega, ?_⟩
  by_contra hWhole
  have hNonces : f.nonceGeneration = .error .storage := by
    rw [MemoryFlash.nonceGeneration, decodeMonotonicWords, length_range, if_pos hWhole]
  simp only [pure, Except.pure, hNonces] at h
  rw [if_neg hLarge] at h
  cases h

theorem openMode_selects {σ : Type} {replay : Replay σ} {state : Option σ} {j : Journal}
    (h : openMode f key provider appendEnabled replay = .ok state j) :
    ∃ selected, selectCandidate f key appendEnabled provider replay = .ok selected := by
  cases hSelect : selectCandidate f key appendEnabled provider replay with
  | ok selected => exact ⟨selected, rfl⟩
  | error e =>
      unfold openMode recoverWithReplay recoverWithReplayMode at h
      simp only [bind, EStateM.bind, modify, modifyGet, MonadStateOf.modifyGet, EStateM.modifyGet, get, getThe,
        MonadStateOf.get, EStateM.get, readOnly, Journal.unopened, hSelect] at h
      cases h

/-- A flash that opens at all was fresh in the sense above. -/
theorem withSlots_fresh {σ : Type} {replay : Replay σ} {size slotCount : Nat} {bounded : size < 2 ^ 63}
    {state : Option σ} {j : Journal}
    (hOpen : openMode (MemoryFlash.withSlots size slotCount bounded) key provider appendEnabled replay =
      .ok state j) : FreshFlash (MemoryFlash.withSlots size slotCount bounded) 0 := by
  obtain ⟨selected, hSelect⟩ := openMode_selects hOpen
  obtain ⟨hCount, hLarge, hWhole⟩ := selectCandidate_checks hSelect
  have hCounter : CounterIs (fun _ => 0xff) size 0 :=
    ⟨Nat.zero_le _, fun w hw => absurd hw (Nat.not_lt_zero w), fun _ _ _ => rfl⟩
  exact ⟨hCount.1, hCount.2, hWhole, hLarge, hCounter, hCounter, fun _ _ _ _ => rfl⟩

/-- A flash on which no commit was completed: at most slot zero was begun. -/
structure Nascent (f : MemoryFlash) (reserved : Nat) : Prop where
  two_le : 2 ≤ f.slotCount
  le_eight : f.slotCount ≤ 8
  whole : f.slotSize % 4 = 0
  large : overhead ≤ f.slotSize
  nonces : CounterIs f.nonces f.slotSize reserved
  monotonic : CounterIs f.monotonic f.slotSize 0
  others : ∀ slot < f.slotCount, slot ≠ 0 → ∀ i < f.slotSize, f.slots slot i = 0xff
  first : (∀ i < f.slotSize, f.slots 0 i = 0xff) ∨ f.slots 0 0 = 0xff ∨ Vacant (f.slots 0) f.slotSize

theorem Nascent.readable (h : Nascent f reserved) {slot : Nat} (hSlot : slot < f.slotCount) :
    Readable f slot (f.slots slot) f.slotSize reserved := by
  have hFits := h.nonces.fits
  apply Readable.mk hSlot rfl rfl h.whole h.large (h.nonces.decode h.whole f.bounded)
  simp only [MemoryFlash.nonceCapacity, MemoryFlash.monotonicCapacity]
  omega

theorem FreshFlash.nascent (h : FreshFlash f reserved) : Nascent f reserved where
  two_le := h.two_le
  le_eight := h.le_eight
  whole := h.whole
  large := h.large
  nonces := h.nonces
  monotonic := h.monotonic
  others := fun slot hSlot _ => h.erased slot hSlot
  first := .inl (h.erased 0 (by have := h.two_le; omega))

/-- A journal before its first commit is done. Unless it is poisoned, its flash
is still fresh. -/
def Young (j : Journal) : Prop :=
  ∃ reserved, Nascent j.flash reserved ∧ (j.poisoned = false → Unwritten j reserved)

theorem Unwritten.young {j : Journal} (h : Unwritten j reserved) : Young j :=
  ⟨reserved, h.flash.nascent, fun _ => h⟩

theorem Nascent.abandoned {g : MemoryFlash} (h : FreshFlash f reserved) (hOnly : SlotOnly f g 0)
    (hKept : Abandoned f g 0) : Nascent g reserved where
  two_le := hOnly.slotCount ▸ h.two_le
  le_eight := hOnly.slotCount ▸ h.le_eight
  whole := hOnly.slotSize ▸ h.whole
  large := hOnly.slotSize ▸ h.large
  nonces := by
    rw [hOnly.nonces, hOnly.slotSize]
    exact h.nonces
  monotonic := by
    rw [hOnly.monotonic, hOnly.slotSize]
    exact h.monotonic
  others := by
    intro slot hSlot hNe
    rw [hOnly.slots slot hNe, hOnly.slotSize]
    exact h.erased slot (hOnly.slotCount ▸ hSlot)
  first := by
    rcases hKept with hSame | hWiped | hVacant
    · left
      rw [hSame, hOnly.slotSize]
      exact h.erased 0 (by have := h.two_le; omega)
    · exact .inr (.inl hWiped)
    · exact .inr (.inr hVacant)

/-- The first commit publishes its data in slot zero, or leaves that slot behind
for a recovery that refuses it. -/
theorem commit_first_spec {j : Journal} {data : List Byte} {durability : Durability} {token : Option Nat}
    (hCorrect : provider.Correct) (hNew : Unwritten j reserved)
    (hMode : j.appendEnabled = false → durability = .anchored) :
    Triple (fun s => s = j) (commitOwnedWithNonce data durability provider token)
      (fun _ j' => SameDevice j j' ∧ ∃ attempt generation reserved',
        nextGeneration 0 j.appendEnabled durability = .ok generation ∧
        SnapshotLogged provider j j' attempt generation data ∧
        Live provider j' 0 (newEpoch attempt generation data) false reserved')
      (fun _ j' => SameDevice j j' ∧
        (Young j' ∧ j'.flash.trace.records = j.flash.trace.records ∨ ∃ attempt generation,
          nextGeneration 0 j.appendEnabled durability = .ok generation ∧
          SnapshotLogged provider j j' attempt generation data ∧
          (Young j' ∧ Dangling j'.flash ∨ Keeps provider j' (newEpoch attempt generation data)))) := by
  have hFresh := hNew.flash
  have hZero : anchor 0 j.appendEnabled = 0 := by cases j.appendEnabled <;> rfl
  have hStay : ∀ j', j' = j → SameDevice j j' ∧
      (Young j' ∧ j'.flash.trace.records = j.flash.trace.records ∨ ∃ attempt generation,
        nextGeneration 0 j.appendEnabled durability = .ok generation ∧
        SnapshotLogged provider j j' attempt generation data ∧
        (Young j' ∧ Dangling j'.flash ∨ Keeps provider j' (newEpoch attempt generation data))) := by
    intro j' hj'
    rw [hj']
    exact ⟨⟨rfl, rfl, rfl⟩, .inl ⟨hNew.young, rfl⟩⟩
  refine Triple.get fun s hs => ?_
  subst hs
  refine Triple.failIf_bind (fun _ => hStay) fun _ => ?_
  refine Triple.failIf_bind (fun _ => hStay) fun hFits => ?_
  refine Triple.readOnly_bind (fun generation hNext => ?_) fun _ _ => hStay
  refine Triple.failIf_bind (fun _ => hStay) fun hCapacity => ?_
  rw [hNew.generation] at hNext
  have hGranted := nextGeneration_spec hNext
  have hAnchor : anchor generation s.appendEnabled = 0 + if durability = .anchored then 1 else 0 := by
    rw [hGranted.anchor_eq, hZero]
    by_cases hDurable : durability = .anchored
    · simp [hDurable]
    · cases hFlag : s.appendEnabled with
      | true => simp [hDurable]
      | false => exact absurd (hMode hFlag) hDurable
  have hReservable : Reservable fun f v => FreshFlash f v ∧ f.armed = s.flash.armed ∧
      f.slotSize = s.flash.slotSize ∧ f.slotCount = s.flash.slotCount ∧ f.trace.records = s.flash.trace.records :=
    ⟨fun f n h => h.1.whole, fun f n h => h.1.nonces,
      fun f n c x v h hCounter _ hx => ⟨{ h.1 with nonces := hCounter }, hx.trans h.2.1, h.2.2⟩,
      fun f n a h => ⟨{ h.1 with }, h.2⟩⟩
  refine Triple.bind (Triple.conseq (sealRecord_spec hCorrect hReservable ⟨hFresh, rfl, rfl, rfl, rfl⟩) (fun _ h => h)
    (fun _ _ h => h) ?_) fun sealed => ?_
  · rintro _ _ ⟨⟨f, rfl, v, hf⟩, -⟩
    refine ⟨⟨rfl, rfl, hf.2.1⟩, .inl ⟨?_, hf.2.2.2.2⟩⟩
    exact Unwritten.young { hNew with flash := hf.1, slotCount := hNew.slotCount.trans hf.2.2.2.1.symm }
  obtain ⟨record, attempt⟩ := sealed
  refine Triple.of_state ?_
  rintro _ ⟨hShort, hPositive, hSealed, f, rfl, ⟨v, ⟨hf, hArmed, hSize, hCount, hRecords⟩, hReserved⟩, hAttempts⟩
  have hLogged : ∀ {j' : Journal}, j'.flash.trace.records = (nonce attempt, record) :: f.trace.records →
      j'.flash.trace.attempts = f.trace.attempts → SnapshotLogged provider s j' attempt generation data :=
    fun hLog hNoted => ⟨⟨record, hSealed, hLog.trans (by rw [hRecords])⟩, hNoted.trans hAttempts⟩
  have hSlot : s.nextSlot = 0 := by
    simp only [Journal.nextSlot, hNew.active]
  have hActive := hNew.active
  rw [hSlot, ← hSize]
  refine Triple.bind (Q := fun _ j' => SameDevice s j' ∧ ∃ attempt generation reserved',
      nextGeneration 0 s.appendEnabled durability = .ok generation ∧
      SnapshotLogged provider s j' attempt generation data ∧
      Live provider j' 0 (newEpoch attempt generation data) false reserved') ?_
    fun _ => Triple.ret fun _ h => h
  unfold replaceRecord
  simp only [hActive, markReclaim]
  refine Triple.bind (Q := fun _ => On { s with poisoned := true } fun g => g = f) (Triple.update ?_) fun _ => ?_
  · rintro _ rfl
    refine ⟨f, ?_, rfl⟩
    simp only [hActive]
  refine Triple.bind (Q := fun _ => On { s with poisoned := true } fun g => g = f) (Triple.ret fun _ h => h) fun _ => ?_
  refine replaceSlot_bind (j := { s with poisoned := true }) (fun g => SlotOnly f g 0 ∧
    g.trace.records = (nonce attempt, record) :: f.trace.records ∧ Stored provider s.key s.appendEnabled g 0
    (newEpoch attempt generation data) false v 0) hf.whole hSealed (by omega) hShort hPositive hReserved
    hGranted.bounded hGranted.anchored ?_ (fun g hOnly hLog hPublished hWrites => ⟨hOnly, hLog, ?_⟩) ?_
  · intro _ g hOnly hKept hUnpublished hCut
    have hYoung : Young { s with poisoned := true, flash := g } :=
      ⟨v, Nascent.abandoned hf hOnly hKept, fun hIntact => by cases hIntact⟩
    refine ⟨⟨rfl, rfl, hOnly.armed.trans hArmed⟩, ?_⟩
    rcases hUnpublished with hNone | ⟨hLog, hDangling⟩
    · exact .inl ⟨hYoung, hNone.trans hRecords⟩
    · exact .inr ⟨attempt, generation, hNext, hLogged hLog hOnly.attempts, .inl ⟨hYoung, hDangling⟩⟩
  · have hWhole := hf.whole
    refine ⟨hOnly.slotCount ▸ hf.two_le, hOnly.slotCount ▸ hf.le_eight, hOnly.slotSize ▸ hf.whole,
      hOnly.slotSize ▸ hf.large, ?_, ?_, ?_, ?_, ?_, hPublished, hWrites, fun t ht hNe => .vacant ?_⟩
    · rw [hOnly.nonces, hOnly.slotSize]
      exact hf.nonces
    · rw [hOnly.monotonic, hOnly.slotSize]
      exact hf.monotonic
    · simp only [newEpoch, hAnchor]
      split <;> simp
    · simp only [newEpoch, hOnly.slotSize, hSize]
      simp only [MemoryFlash.monotonicCapacity] at hCapacity
      omega
    · have := hf.two_le
      rw [hOnly.slotCount]
      omega
    · rw [hOnly.slots t hNe, hOnly.slotSize]
      exact vacant_of_erased (hf.erased t (hOnly.slotCount ▸ ht)) hf.large
  · refine Triple.of_state ?_
    rintro _ ⟨g, rfl, hOnly, hLog, hStored⟩
    refine Triple.bind (Q := fun _ s' => s' = { s with poisoned := true, flash := g }) (Triple.ret fun _ h => h) fun _ => ?_
    refine Triple.bind (Q := fun _ => On { s with
        generation := generation
        baseAttempt := some attempt
        active := some 0
        appendOffset := some (wordAlign (headerBytes + (data.length + 16)))
        poisoned := true } fun k => k = g) (Triple.update ?_) fun _ => ?_
    · rintro _ rfl
      refine ⟨g, ?_, rfl⟩
      simp only [hSealed.length]
    · refine (anchorNew_spec hStored (hOnly.armed.trans hArmed) ?_ hAnchor).conseq (fun _ h => h) ?_ ?_
      · rw [hNew.slotCount, hOnly.slotCount, hCount]
      · rintro _ j' ⟨hDevice, hTrace, hLive⟩
        exact ⟨hDevice, attempt, generation, v, hNext,
          hLogged (by rw [hTrace, hLog]) (by rw [hTrace, hOnly.attempts]), hLive⟩
      · rintro _ j' ⟨hDevice, hTrace, hKept, -⟩
        exact ⟨hDevice, .inr ⟨attempt, generation, hNext,
          hLogged (by rw [hTrace, hLog]) (by rw [hTrace, hOnly.attempts]), .inr hKept⟩⟩

end Fresh
section Runs

/-- What a caller sees of a journal. -/
structure Logical where
  generation : Nat
  contents : Contents
  deriving DecidableEq, Repr

/-- The operations of a journal. A `compact` is a commit with the durability of
its checkpoint reason; its only caller opens journals with append frames. -/
inductive Operation where
  | commit (data : List Byte) (token : Option Nat)
  | compact (data : List Byte) (durability : Durability)
  | append (data : List Byte) (durability : Durability)
  | recover (allowUnreconciled : Bool)
  | reserve

def Operation.run (provider : CryptoProvider) : Operation → JournalM Unit
  | .commit data token => do
      let _ ← commitOwnedWithNonce data .anchored provider token
  | .compact data durability => do
      let _ ← commitOwnedWithNonce data durability provider none
  | .append data durability => appendWith data durability provider
  | .recover allowUnreconciled => do
      let _ ← recoverWithReplayMode provider recorder allowUnreconciled
  | .reserve => do
      let _ ← reserveIdentityNonce

/-- The callers of an operation, by the mode their journal was opened in. -/
def Operation.Offered (appendEnabled : Bool) : Operation → Prop
  | .compact _ _ => appendEnabled = true
  | _ => True

/-- The state an operation is meant to reach, when there is a generation for it. -/
def Operation.after (appendEnabled : Bool) (before : Logical) : Operation → Option Logical
  | .commit data _ =>
      (nextGeneration before.generation appendEnabled .anchored).toOption.map fun g => ⟨g, data, []⟩
  | .compact data durability =>
      (nextGeneration before.generation appendEnabled durability).toOption.map fun g => ⟨g, data, []⟩
  | .append data durability =>
      (nextGeneration before.generation appendEnabled durability).toOption.map fun g =>
        ⟨g, before.contents.snapshot, before.contents.appended ++ [data]⟩
  | .recover _ => some before
  | .reserve => some before

/-- The state a run reached, whether it succeeded or not. -/
def finalState {α : Type} : EStateM.Result Error Journal α → Journal
  | .ok _ j => j
  | .error _ j => j

def succeeded {α : Type} : EStateM.Result Error Journal α → Bool
  | .ok _ _ => true
  | .error _ _ => false

theorem Triple.finalState {α : Type} {program : JournalM α} {j : Journal} {P : Journal → Prop}
    (h : Triple (fun s => s = j) program (fun _ => P) fun _ => P) : P (finalState (program j)) := by
  have hRun := h j rfl
  split at hRun
  · rename_i hOk
    rw [hOk]
    exact hRun
  · rename_i hError
    rw [hError]
    exact hRun

/-- The same journal with its power failing after `budget` more mutations. -/
def Journal.withBudget (j : Journal) (budget : Option Nat) : Journal :=
  { j with flash := { j.flash with failAfter := budget } }

/-- Open the flash of `j` again, as far as the budget lasts. -/
def reopen (provider : CryptoProvider) (j : Journal) (budget : Option Nat) :
    EStateM.Result Error Journal (Option Contents) :=
  openMode { j.flash with failAfter := budget } j.key provider j.appendEnabled recorder

/-- What opening the flash of `j` with the power restored yields. -/
def durable (provider : CryptoProvider) (j : Journal) : Option Logical :=
  match reopen provider j none with
  | .ok (some contents) opened => some ⟨opened.generation, contents⟩
  | _ => none

/-- Journals before their first commit. -/
inductive Opened (provider : CryptoProvider) : Journal → Prop where
  | fresh {size slotCount : Nat} {bounded : size < 2 ^ 63} {key : List Byte} {appendEnabled : Bool}
      {contents : Option Contents} {j : Journal}
      (opened : openMode (MemoryFlash.withSlots size slotCount bounded) key provider appendEnabled recorder =
        .ok contents j) : Opened provider j
  | reserve {j : Journal} (opened : Opened provider j)
      (ok : succeeded (Operation.reserve.run provider j) = true) :
      Opened provider (finalState (Operation.reserve.run provider j))

/-- Every journal state after a first successful commit, over any sequence of
operations and reopenings with the power cut at any step of any of them. -/
inductive Reachable (provider : CryptoProvider) : Journal → Prop where
  | first {j : Journal} {operation : Operation} (opened : Opened provider j)
      (offered : operation.Offered j.appendEnabled)
      (writes : (∃ data token, operation = .commit data token) ∨ ∃ data durability, operation = .compact data durability)
      (ok : succeeded (operation.run provider j) = true) :
      Reachable provider (finalState (operation.run provider j))
  | operate {j : Journal} {operation : Operation} (reachable : Reachable provider j)
      (offered : operation.Offered j.appendEnabled) (budget : Option Nat) :
      Reachable provider (finalState (operation.run provider (j.withBudget budget)))
  | reopen {j : Journal} (reachable : Reachable provider j) (budget : Option Nat) :
      Reachable provider (finalState (reopen provider j budget))

end Runs

section Atomicity

variable {provider : CryptoProvider} {j : Journal} {e : Epoch}

def Epoch.logical (e : Epoch) : Logical := ⟨e.generation, e.contents⟩

theorem Keeps.withBudget (h : Keeps provider j e) (budget : Option Nat) : Keeps provider (j.withBudget budget) e := by
  obtain ⟨active, started, reserved, anchored, hStored, hLive⟩ := h
  exact ⟨active, started, reserved, anchored, { hStored with },
    fun hIntact => { hLive hIntact with stored := { (hLive hIntact).stored with } }⟩

theorem Keeps.unopened (h : Keeps provider j e) (budget : Option Nat) :
    Keeps provider (Journal.unopened { j.flash with failAfter := budget } j.key j.appendEnabled) e := by
  obtain ⟨active, started, reserved, anchored, hStored, -⟩ := h
  exact ⟨active, started, reserved, anchored, { hStored with }, fun hIntact => nomatch hIntact⟩

/-- Opening with the power on succeeds and yields the stored chain. -/
theorem Keeps.reopen (h : Keeps provider j e) : ∃ opened active started reserved,
    reopen provider j none = .ok (some e.contents) opened ∧ Live provider opened active e started reserved := by
  have hSpec := recoverWithReplayMode_spec false (h.unopened none) _ rfl
  have hRun : Journal.reopen provider j none = recoverWithReplayMode provider recorder false
    (Journal.unopened { j.flash with failAfter := none } j.key j.appendEnabled) := rfl
  rw [hRun]
  split at hSpec
  · rename_i contents opened hOk
    obtain ⟨rfl, -, -, -, -, hLive⟩ := hSpec
    obtain ⟨active, started, reserved, hLive⟩ := hLive rfl
    exact ⟨opened, active, started, reserved, hOk, hLive⟩
  · obtain ⟨-, -, -, -, hArmed⟩ := hSpec
    cases hArmed

theorem Keeps.durable (h : Keeps provider j e) : durable provider j = some e.logical := by
  obtain ⟨opened, active, started, reserved, hOpen, hLive⟩ := h.reopen
  rw [Journal.durable, hOpen]
  simp only [hLive.generation]
  rfl

theorem Keeps.reopen_uncut (h : Keeps provider j e) {contents : Option Contents} {opened : Journal}
    (hOpen : Journal.reopen provider j none = .ok contents opened) : opened.flash.armed = false := by
  have hSpec := recoverWithReplayMode_spec false (h.unopened none) _ rfl
  have hRun : Journal.reopen provider j none = recoverWithReplayMode provider recorder false
    (Journal.unopened { j.flash with failAfter := none } j.key j.appendEnabled) := rfl
  rw [← hRun, hOpen] at hSpec
  exact hSpec.2.2.2.2.1

theorem commit_refused {data : List Byte} {durability : Durability} {token : Option Nat} (hPoisoned : j.poisoned = true) :
    commitOwnedWithNonce data durability provider token j = .error .storage j := by
  simp only [commitOwnedWithNonce, bind, EStateM.bind, get, getThe, MonadStateOf.get, EStateM.get, failIf, hPoisoned,
    if_true, throw, throwThe, MonadExceptOf.throw, EStateM.throw]

/-- With the power on a live journal commits whatever it accepts. -/
theorem Live.committed (hCorrect : provider.Correct) {active reserved : Nat} {started : Bool}
    (h : Live provider j active e started reserved) (hUncut : j.flash.armed = false) {data : List Byte}
    {durability : Durability} (hMode : j.appendEnabled = false → durability = .anchored)
    (hAccepts : Accepts provider j data durability none) :
    ∃ record next, commitOwnedWithNonce data durability provider none j = .ok record next := by
  have hSpec : Triple (fun s => s = j) (commitOwnedWithNonce data durability provider none) _ _ :=
    commitOwnedWithNonce_spec hCorrect h hMode
  have hSpec := hSpec j rfl
  cases hRun : commitOwnedWithNonce data durability provider none j with
  | ok record next => exact ⟨record, next, rfl⟩
  | error err failed =>
      rw [hRun] at hSpec
      rcases hSpec.2.2 with hArmed | hRefused
      · rw [hUncut] at hArmed
        cases hArmed
      · exact absurd hAccepts hRefused

theorem Live.commits (hCorrect : provider.Correct) {active reserved : Nat} {started : Bool}
    (h : Live provider j active e started reserved) (hUncut : j.flash.armed = false) {data : List Byte}
    (hAccepts : Accepts provider j data .anchored none) :
    succeeded ((Operation.commit data none).run provider j) = true := by
  obtain ⟨record, next, hRun⟩ := h.committed hCorrect hUncut (fun _ => rfl) hAccepts
  simp only [Operation.run, bind, EStateM.bind, hRun]
  rfl

/-- Opening may be cut at any step and still keeps the chain. -/
theorem Keeps.reopen_cut (h : Keeps provider j e) (budget : Option Nat) :
    Keeps provider (finalState (Journal.reopen provider j budget)) e := by
  have hSpec := recoverWithReplayMode_spec false (h.unopened budget) _ rfl
  have hRun : Journal.reopen provider j budget = recoverWithReplayMode provider recorder false
    (Journal.unopened { j.flash with failAfter := budget } j.key j.appendEnabled) := rfl
  rw [hRun]
  split at hSpec
  · rename_i contents opened hOk
    rw [hOk]
    exact hSpec.2.1
  · rename_i error failed hError
    rw [hError]
    exact hSpec.1

/-- The same journal with its reservation counter at `value`. -/
def Reserves (j : Journal) (value : Nat) (j' : Journal) : Prop :=
  ∃ c x, j' = { j with flash := { j.flash with nonces := c, failAfter := x } } ∧ CounterIs c j.flash.slotSize value

/-- A reservation moves the counter and nothing else. -/
theorem reserveIdentityNonce_moves {reserved : Nat} (hCounter : CounterIs j.flash.nonces j.flash.slotSize reserved)
    (hWhole : j.flash.slotSize % 4 = 0) :
    Triple (fun s => s = j) reserveIdentityNonce (fun _ j' => Reserves j (reserved + 1) j')
      (fun _ j' => ∃ value, reserved ≤ value ∧ Reserves j value j') := by
  apply Triple.get
  intro s hs
  subst hs
  apply Triple.failIf_bind
  · rintro - _ rfl
    exact ⟨reserved, Nat.le_refl _, _, _, rfl, hCounter⟩
  intro _
  apply Triple.bind (Q := fun _ j' => Reserves s (reserved + 1) j')
  · apply (onFlash_at (reserveNonce_spec hCounter hWhole)).conseq (fun _ h => h)
    · rintro _ _ ⟨g, rfl, -, c, x, rfl, -, hMoved⟩
      exact ⟨c, x, rfl, hMoved⟩
    · rintro _ _ ⟨g, rfl, ⟨c, x, v, rfl, -, hMoved, hValue⟩, -⟩
      exact ⟨v, by omega, c, x, rfl, hMoved⟩
  intro value
  apply Triple.get
  intro s' hMoved
  apply Triple.failIf_bind
  · rintro - _ rfl
    exact ⟨reserved + 1, Nat.le_succ _, hMoved⟩
  intro _
  apply Triple.ret
  rintro _ rfl
  exact hMoved

theorem Keeps.reserves {value : Nat} {j' : Journal} {active started reserved anchored}
    (hStored : Stored provider j.key j.appendEnabled j.flash active e started reserved anchored)
    (hLive : j.poisoned = false → Live provider j active e started reserved) (hLe : reserved ≤ value)
    (hMoved : Reserves j value j') : Keeps provider j' e := by
  obtain ⟨c, x, rfl, hCounter⟩ := hMoved
  exact ⟨active, started, value, anchored, hStored.withNonces x hCounter hLe,
    fun hIntact => { hLive hIntact with stored := (hLive hIntact).stored.withNonces x hCounter hLe }⟩

theorem reserveIdentityNonce_spec (h : Keeps provider j e) :
    Triple (fun s => s = j) reserveIdentityNonce (fun _ j' => Keeps provider j' e) (fun _ j' => Keeps provider j' e) := by
  obtain ⟨active, started, reserved, anchored, hStored, hLive⟩ := h
  apply (reserveIdentityNonce_moves hStored.nonces hStored.whole).conseq (fun _ h => h)
  · intro _ j' hMoved
    exact Keeps.reserves hStored hLive (Nat.le_succ _) hMoved
  · rintro _ j' ⟨value, hLe, hMoved⟩
    exact Keeps.reserves hStored hLive hLe hMoved

/-- A commit on any journal that keeps a chain; a poisoned one refuses. -/
theorem commit_logical (hCorrect : provider.Correct) (h : Keeps provider j e) {data : List Byte}
    {durability : Durability} {token : Option Nat} (hMode : j.appendEnabled = false → durability = .anchored) :
    Triple (fun s => s = j) (commitOwnedWithNonce data durability provider token)
      (fun _ j' => ∃ e', Keeps provider j' e' ∧
        (nextGeneration e.generation j.appendEnabled durability).toOption.map (fun g => Logical.mk g ⟨data, []⟩) =
          some e'.logical)
      (fun _ j' => ∃ e', Keeps provider j' e' ∧ (e'.logical = e.logical ∨
        (nextGeneration e.generation j.appendEnabled durability).toOption.map (fun g => Logical.mk g ⟨data, []⟩) =
          some e'.logical)) := by
  by_cases hIntact : j.poisoned = false
  · obtain ⟨active, started, reserved, anchored, -, hLive⟩ := h
    refine (commitOwnedWithNonce_spec hCorrect (hLive hIntact) hMode).conseq (fun _ h => h) ?_ ?_
    · rintro _ j' ⟨-, attempt, generation, reserved', hNext, -, hNew⟩
      refine ⟨_, hNew.keeps, ?_⟩
      rw [hNext]
      rfl
    · rintro _ j' ⟨-, hKept, -⟩
      rcases hKept with ⟨hOld, -⟩ | ⟨attempt, generation, hNext, -, ⟨hOld, -⟩ | hNew⟩
      · exact ⟨e, hOld, .inl rfl⟩
      · exact ⟨e, hOld, .inl rfl⟩
      · refine ⟨_, hNew, .inr ?_⟩
        rw [hNext]
        rfl
  · refine Triple.get fun s hs => ?_
    subst hs
    refine Triple.failIf_bind (fun _ => ?_) fun hClean => ?_
    · rintro _ rfl
      exact ⟨e, h, .inl rfl⟩
    · exact absurd (by simpa using hClean) hIntact

theorem append_logical (hCorrect : provider.Correct) (h : Keeps provider j e) {data : List Byte}
    {durability : Durability} :
    Triple (fun s => s = j) (appendWith data durability provider)
      (fun _ j' => ∃ e', Keeps provider j' e' ∧
        (nextGeneration e.generation j.appendEnabled durability).toOption.map (fun g =>
          Logical.mk g ⟨e.contents.snapshot, e.contents.appended ++ [data]⟩) = some e'.logical)
      (fun _ j' => ∃ e', Keeps provider j' e' ∧ (e'.logical = e.logical ∨
        (nextGeneration e.generation j.appendEnabled durability).toOption.map (fun g =>
          Logical.mk g ⟨e.contents.snapshot, e.contents.appended ++ [data]⟩) = some e'.logical)) := by
  by_cases hIntact : j.poisoned = false
  · obtain ⟨active, started, reserved, anchored, -, hLive⟩ := h
    refine (appendWith_spec hCorrect (hLive hIntact)).conseq (fun _ h => h) ?_ ?_
    · rintro _ j' ⟨-, generation, stop, hNext, -, hNew⟩
      refine ⟨_, hNew.keeps, ?_⟩
      rw [hNext]
      rfl
    · rintro _ j' ⟨-, hKept⟩
      have hOlder : Keeps provider j' e ∨ Keeps provider j' e.closed →
          ∃ e', Keeps provider j' e' ∧ e'.logical = e.logical := by
        intro hOld
        rcases hOld with hSame | hClosed
        · exact ⟨e, hSame, rfl⟩
        · exact ⟨e.closed, hClosed, rfl⟩
      rcases hKept with ⟨hOld, -⟩ | ⟨generation, stop, hNext, -, ⟨hOld, -⟩ | hNew⟩
      · obtain ⟨e', hKept, hSame⟩ := hOlder hOld
        exact ⟨e', hKept, .inl hSame⟩
      · obtain ⟨e', hKept, hSame⟩ := hOlder hOld
        exact ⟨e', hKept, .inl hSame⟩
      · refine ⟨_, hNew, .inr ?_⟩
        rw [hNext]
        rfl
  · refine Triple.get fun s hs => ?_
    subst hs
    refine Triple.failIf_bind (fun _ => ?_) fun hClean => ?_
    · rintro _ rfl
      exact ⟨e, h, .inl rfl⟩
    · exact absurd (by simpa using hClean) hIntact

/-- One operation, however it ends: the stored chain is the one before it or the
one it was to reach, and the latter if it succeeded. -/
theorem Operation.run_spec (hCorrect : provider.Correct) (h : Keeps provider j e) {operation : Operation}
    (hOffered : operation.Offered j.appendEnabled) :
    Triple (fun s => s = j) (operation.run provider)
      (fun _ j' => ∃ e', Keeps provider j' e' ∧ operation.after j.appendEnabled e.logical = some e'.logical)
      (fun _ j' => ∃ e', Keeps provider j' e' ∧
        (e'.logical = e.logical ∨ operation.after j.appendEnabled e.logical = some e'.logical)) := by
  cases operation with
  | commit data token =>
      exact Triple.bind (commit_logical hCorrect h fun _ => rfl) fun _ => Triple.ret fun _ h => h
  | compact data durability =>
      refine Triple.bind (commit_logical hCorrect h fun hLegacy => ?_) fun _ => Triple.ret fun _ h => h
      have hMode : j.appendEnabled = true := hOffered
      rw [hLegacy] at hMode
      cases hMode
  | append data durability => exact append_logical hCorrect h
  | recover allowUnreconciled =>
      refine Triple.bind ((recoverWithReplayMode_spec allowUnreconciled h).conseq (fun _ h => h) (fun _ _ h => h) ?_)
        fun _ => Triple.ret ?_
      · exact fun _ _ hKept => ⟨e, hKept.1, .inl rfl⟩
      · exact fun _ hKept => ⟨e, hKept.2.1, rfl⟩
  | reserve =>
      refine Triple.bind ((reserveIdentityNonce_spec h).conseq (fun _ h => h) (fun _ _ h => h) ?_)
        fun _ => Triple.ret ?_
      · exact fun _ _ hKept => ⟨e, hKept, .inl rfl⟩
      · exact fun _ hKept => ⟨e, hKept, rfl⟩

theorem Unwritten.reserves {reserved value : Nat} {j' : Journal} (h : Unwritten j reserved) (hMoved : Reserves j value j') :
    Unwritten j' value := by
  obtain ⟨c, x, rfl, hCounter⟩ := hMoved
  exact { h with flash := { h.flash with nonces := hCounter } }

theorem Opened.unwritten (h : Opened provider j) : ∃ reserved, Unwritten j reserved := by
  induction h with
  | fresh opened => exact ⟨0, (openMode_fresh (withSlots_fresh opened) opened).2.1⟩
  | @reserve j opened ok ih =>
      obtain ⟨reserved, hNew⟩ := ih
      have hSpec : Triple (fun s => s = j) (Operation.reserve.run provider)
          (fun _ j' => ∃ reserved, Unwritten j' reserved) (fun _ _ => True) := by
        apply Triple.bind (Q := fun _ j' => ∃ reserved, Unwritten j' reserved)
        · apply (reserveIdentityNonce_moves hNew.flash.nonces hNew.flash.whole).conseq (fun _ h => h)
          · exact fun _ j' hMoved => ⟨_, hNew.reserves hMoved⟩
          · exact fun _ _ _ => trivial
        · exact fun _ => Triple.ret fun _ h => h
      have hRun := hSpec j rfl
      split at hRun
      · rename_i hOk
        rw [hOk]
        exact hRun
      · rename_i hError
        rw [hError] at ok
        cases ok

/-- Every reachable journal keeps some chain. -/
theorem Reachable.keeps (hCorrect : provider.Correct) (h : Reachable provider j) : ∃ e, Keeps provider j e := by
  induction h with
  | @first j operation opened offered writes ok =>
      obtain ⟨reserved, hNew⟩ := opened.unwritten
      have hSpec : Triple (fun s => s = j) (operation.run provider) (fun _ j' => ∃ e, Keeps provider j' e)
          (fun _ _ => True) := by
        have hCommit : ∀ data durability token, (j.appendEnabled = false → durability = .anchored) →
            Triple (fun s => s = j) (commitOwnedWithNonce data durability provider token)
              (fun _ j' => ∃ e, Keeps provider j' e) (fun _ _ => True) := by
          intro data durability token hMode
          refine (commit_first_spec hCorrect hNew hMode).conseq (fun _ h => h) ?_ fun _ _ _ => trivial
          rintro _ j' ⟨-, attempt, generation, reserved', -, -, hLive⟩
          exact ⟨_, hLive.keeps⟩
        rcases writes with ⟨data, token, rfl⟩ | ⟨data, durability, rfl⟩
        · exact Triple.bind (hCommit _ _ _ fun _ => rfl) fun _ => Triple.ret fun _ h => h
        · refine Triple.bind (hCommit _ _ _ fun hLegacy => ?_) fun _ => Triple.ret fun _ h => h
          have hMode : j.appendEnabled = true := offered
          rw [hLegacy] at hMode
          cases hMode
      have hRun := hSpec j rfl
      split at hRun
      · rename_i hOk
        rw [hOk]
        exact hRun
      · rename_i hError
        rw [hError] at ok
        cases ok
  | @operate j operation reachable offered budget ih =>
      obtain ⟨e, hKeeps⟩ := ih
      have hRun := Operation.run_spec hCorrect (hKeeps.withBudget budget) offered _ rfl
      split at hRun
      · rename_i hOk
        rw [hOk]
        exact ⟨hRun.choose, hRun.choose_spec.1⟩
      · rename_i hError
        rw [hError]
        exact ⟨hRun.choose, hRun.choose_spec.1⟩
  | @reopen j reachable budget ih =>
      obtain ⟨e, hKeeps⟩ := ih
      exact ⟨e, hKeeps.reopen_cut budget⟩

/-- Crash atomicity. Whatever operation runs on a reachable journal and wherever
the power fails in it, opening the flash again succeeds and yields the logical
state from before the operation or from after it, the latter if the operation
succeeded; the state is reachable again, and the reopened journal commits
whatever its counters and its provider permit. -/
theorem journal_crash_atomicity (hCorrect : provider.Correct) (hReachable : Reachable provider j)
    (operation : Operation) (hOffered : operation.Offered j.appendEnabled) (budget : Option Nat) :
    ∃ before now opened,
      durable provider j = some before ∧
      (j.poisoned = false → j.generation = before.generation) ∧
      reopen provider (finalState (operation.run provider (j.withBudget budget))) none = .ok (some now.contents) opened ∧
      opened.generation = now.generation ∧
      (now = before ∨ operation.after j.appendEnabled before = some now) ∧
      (succeeded (operation.run provider (j.withBudget budget)) = true →
        operation.after j.appendEnabled before = some now) ∧
      Reachable provider (finalState (operation.run provider (j.withBudget budget))) ∧
      Reachable provider opened ∧
      ∀ data, Accepts provider opened data .anchored none →
        succeeded ((Operation.commit data none).run provider opened) = true := by
  obtain ⟨e, hKeeps⟩ := hReachable.keeps hCorrect
  have hRun := Operation.run_spec hCorrect (hKeeps.withBudget budget) hOffered _ rfl
  have hEnd : ∃ e', Keeps provider (finalState (operation.run provider (j.withBudget budget))) e' ∧
      (e'.logical = e.logical ∨ operation.after j.appendEnabled e.logical = some e'.logical) ∧
      (succeeded (operation.run provider (j.withBudget budget)) = true →
        operation.after j.appendEnabled e.logical = some e'.logical) := by
    split at hRun
    · rename_i hOk
      obtain ⟨e', hKept, hAfter⟩ := hRun
      rw [hOk]
      exact ⟨e', hKept, .inr hAfter, fun _ => hAfter⟩
    · rename_i hError
      obtain ⟨e', hKept, hEither⟩ := hRun
      rw [hError]
      exact ⟨e', hKept, hEither, fun hNo => nomatch hNo⟩
  obtain ⟨e', hKept, hEither, hAfter⟩ := hEnd
  obtain ⟨opened, active, started, reserved, hOpen, hLive⟩ := hKept.reopen
  have hReach := Reachable.operate hReachable hOffered budget
  have hReachOpened : Reachable provider opened := by
    have hAgain := hReach.reopen none
    rwa [hOpen] at hAgain
  refine ⟨e.logical, e'.logical, opened, hKeeps.durable, fun hIntact => ?_, hOpen, hLive.generation, hEither, hAfter,
    hReach, hReachOpened, fun data hAccepts => hLive.commits hCorrect (hKept.reopen_uncut hOpen) hAccepts⟩
  obtain ⟨_, _, _, _, -, hLive⟩ := hKeeps
  exact (hLive hIntact).generation

/-- A provider whose tag is sixteen zero bytes. -/
def plainProvider : CryptoProvider where
  aesCcmEncrypt := fun _ _ _ plaintext => .ok (plaintext ++ List.replicate 16 0)
  aesCcmDecrypt := fun _ _ _ ciphertext =>
    if ciphertext.drop (ciphertext.length - 16) = List.replicate 16 0 then
      .ok (ciphertext.take (ciphertext.length - 16))
    else .error .authentication

theorem plainProvider_correct : plainProvider.Correct := by
  intro key label aad plaintext ciphertext h
  injection h with h
  subst h
  simp [plainProvider]

/-- Two erased slots open. -/
theorem erasedFlash_opens :
    succeeded (openMode (MemoryFlash.withSlots 112 2 shortSlot_bounded) [] plainProvider true recorder) = true := by
  decide +kernel

/-- Two slots with one committed byte. -/
def twoSlotJournal : Journal :=
  finalState ((Operation.commit [1] none).run plainProvider
    (finalState (openMode (MemoryFlash.withSlots 112 2 shortSlot_bounded) [] plainProvider true recorder)))

theorem opened_of_succeeded {size slotCount : Nat} {bounded : size < 2 ^ 63} {key : List Byte} {appendEnabled : Bool}
    (h : succeeded (openMode (MemoryFlash.withSlots size slotCount bounded) key provider appendEnabled recorder) =
      true) :
    Opened provider
      (finalState (openMode (MemoryFlash.withSlots size slotCount bounded) key provider appendEnabled recorder)) := by
  cases hOpen : openMode (MemoryFlash.withSlots size slotCount bounded) key provider appendEnabled recorder with
  | ok contents j => exact Opened.fresh hOpen
  | error e j =>
      rw [hOpen] at h
      cases h

theorem twoSlotJournal_reachable : Reachable plainProvider twoSlotJournal :=
  Reachable.first (opened_of_succeeded erasedFlash_opens) trivial (.inl ⟨_, _, rfl⟩) (by decide +kernel)

/-- An append cut inside its record. -/
theorem journal_crash_atomicity_torn_append : ∃ before now opened,
    durable plainProvider twoSlotJournal = some before ∧
    reopen plainProvider (finalState ((Operation.append [2] .anchored).run plainProvider
      (twoSlotJournal.withBudget (some 30)))) none = .ok (some now.contents) opened ∧
    (now = before ∨ (Operation.append [2] .anchored).after twoSlotJournal.appendEnabled before = some now) := by
  obtain ⟨before, now, opened, hBefore, -, hOpen, -, hEither, -⟩ := journal_crash_atomicity plainProvider_correct
    twoSlotJournal_reachable (.append [2] .anchored) trivial (some 30)
  exact ⟨before, now, opened, hBefore, hOpen, hEither⟩

end Atomicity

end MicroCard.Journal
