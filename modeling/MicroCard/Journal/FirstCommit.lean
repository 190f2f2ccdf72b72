import MicroCard.Journal.Atomicity
import MicroCard.Journal.PowerBudget

/-! The first commit of an erased region. No older record exists, and recovery
refuses a slot that is not erased when it finds no record at all; so a cut
inside the first record leaves a journal that never opens again. -/
namespace MicroCard.Journal

open Bytes CrashTriple

set_option linter.dupNamespace false

section Conditions

variable (provider : CryptoProvider)

/-- The nonce the next record is sealed under, if the counter grants one. -/
def Journal.nextAttempt (journal : Journal) (reserved : Option Nat) : Except Error Nat := do
  let current ← journal.flash.nonceGeneration
  match reserved with
  | some value => if value = 0 ∨ current ≠ value then .error .storage else .ok value
  | none => if journal.flash.slotSize < 4 * (current + 1) then .error .quota else .ok (current + 1)

/-- The record of the given generation, sealed under that nonce. -/
def Journal.nextSealed (journal : Journal) (generation : Nat) (data : List Byte) (reserved : Option Nat) :
    Except Error (List Byte) := do
  let payloadLength ← prepareRecord data
  let attempt ← journal.nextAttempt reserved
  encryptRecord journal.key
    { appendEnabled := journal.appendEnabled, generation := generation, attempt := attempt,
      payloadLength := payloadLength } (nonce attempt) data provider

/-- The record a commit is going to program, if nothing refuses the commit. -/
def Journal.nextRecord (journal : Journal) (data : List Byte) (durability : Durability) (reserved : Option Nat) :
    Except Error (List Byte) := do
  failIf journal.poisoned .storage
  let size := journal.flash.slotSize
  failIf (size < overhead ∨ size - overhead < data.length) .quota
  let generation ← nextGeneration journal.generation journal.appendEnabled durability
  failIf (journal.flash.monotonicCapacity < anchor generation journal.appendEnabled) .quota
  journal.nextSealed provider generation data reserved

/-- The mutations a first commit makes before its record: the nonce, unless it
was reserved earlier, and the erase. -/
def Journal.recordStart (journal : Journal) (reserved : Option Nat) : Nat :=
  (if reserved = none then 4 else 0) + journal.flash.slotSize

/-- The power lasts for the first word of the record. -/
def Begins (journal : Journal) (data : List Byte) (durability : Durability) (reserved : Option Nat) : Prop :=
  ∃ record, journal.nextRecord provider data durability reserved = .ok record ∧
    Lasts journal.flash.failAfter (journal.recordStart reserved + 4)

/-- The power fails between the first word of the record and its commit word. -/
def CutInside (journal : Journal) (data : List Byte) (durability : Durability) (reserved : Option Nat) : Prop :=
  ∃ record, journal.nextRecord provider data durability reserved = .ok record ∧
    Lasts journal.flash.failAfter (journal.recordStart reserved + 4) ∧
    ¬Lasts journal.flash.failAfter (journal.recordStart reserved + programmedBytes record + 4)

end Conditions

section Torn

variable {provider : CryptoProvider} {f : MemoryFlash} {key : List Byte} {appendEnabled : Bool} {reserved : Nat}

/-- A flash on which the first record was begun and not committed. -/
structure Torn (f : MemoryFlash) (reserved : Nat) : Prop extends Nascent f reserved where
  begun : f.slots 0 0 ≠ 0xff
  vacant : Vacant (f.slots 0) f.slotSize

/-- The scan sees a slot that is not erased and finds no record. -/
theorem Torn.scan (h : Torn f reserved) : ∀ k < f.slotCount, (List.range (k + 1)).foldlM
    (scanSlot f key appendEnabled provider recorder reserved) ⟨none, false, false⟩ = .ok ⟨none, true, false⟩
  | 0, hk => by
      have hLarge := h.large
      have hBegun : f.isErased 0 = .ok false := by
        rw [MemoryFlash.isErased, if_pos hk]
        congr 1
        rw [Bool.eq_false_iff]
        intro hAll
        rw [range_all_iff] at hAll
        simp only [overhead, recordOverhead, headerBytes, tailBytes] at hLarge
        exact h.begun (hAll 0 (by omega))
      simp only [bind, Except.bind, List.range_succ, List.range_zero, List.nil_append, List.foldlM_cons, List.foldlM_nil,
        scanSlot, hBegun, readCandidate_vacant (h.readable hk) h.vacant.notOld h.vacant.uncommitted, pure, Except.pure]
      rfl
  | k + 1, hk => by
      have hErased : f.isErased (k + 1) = .ok true := by
        rw [MemoryFlash.isErased, if_pos hk]
        congr 1
        rw [range_all_iff]
        exact fun i hi => h.others (k + 1) hk (by omega) _ (by omega)
      have hVacant := vacant_of_erased (h.others (k + 1) hk (by omega)) h.large
      rw [List.range_succ, List.foldlM_append, h.scan k (by omega)]
      simp only [bind, Except.bind, List.foldlM_cons, List.foldlM_nil, scanSlot, hErased,
        readCandidate_vacant (h.readable hk) hVacant.notOld hVacant.uncommitted, pure, Except.pure, if_true]

theorem Torn.selectCandidate (h : Torn f reserved) :
    selectCandidate f key appendEnabled provider recorder = .error .storage := by
  have hTwo := h.two_le
  have hEight := h.le_eight
  have hLarge := h.large
  have hRead : Readable f 0 (f.slots 0) f.slotSize reserved := h.readable (by omega)
  have hScan := @Torn.scan provider f key appendEnabled reserved h (f.slotCount - 1) (by omega)
  rw [Nat.sub_add_cancel (by omega)] at hScan
  unfold Journal.selectCandidate
  simp only [bind, Except.bind, failIf, hRead.nonces, hScan]
  rw [if_neg (by omega)]
  simp only [pure, Except.pure]
  rw [if_neg (by omega)]
  simp only
  rw [if_neg (by have := hRead.capacity; omega)]
  rfl

/-- Opening a torn flash fails and changes nothing on it. -/
theorem Torn.openMode (h : Torn f reserved) : openMode f key provider appendEnabled recorder =
    .error .storage (Journal.unopened f key appendEnabled) := by
  unfold Journal.openMode recoverWithReplay recoverWithReplayMode
  simp only [bind, EStateM.bind, modify, modifyGet, MonadStateOf.modifyGet, EStateM.modifyGet, get, getThe,
    MonadStateOf.get, EStateM.get, readOnly, Journal.unopened, h.selectCandidate]

theorem Torn.withBudget (h : Torn f reserved) (budget : Option Nat) : Torn { f with failAfter := budget } reserved :=
  { h with }

end Torn

section Sealing

variable {provider : CryptoProvider} {data : List Byte} {generation reserved : Nat} {token : Option Nat} {j : Journal}
  {f : MemoryFlash}

theorem FreshFlash.withNonces (h : FreshFlash f reserved) {counter : Nat → Byte} {value : Nat} (budget : Option Nat)
    (hCounter : CounterIs counter f.slotSize value) :
    FreshFlash { f with nonces := counter, failAfter := budget } value :=
  { h with nonces := hCounter }

/-- A flash that still looks untouched, of the size of another. -/
def Clean (f g : MemoryFlash) : Prop :=
  (∃ reserved, FreshFlash g reserved) ∧ g.slotSize = f.slotSize ∧ g.slotCount = f.slotCount

theorem nonceGeneration_fresh (h : FreshFlash f reserved) : f.nonceGeneration = .ok reserved :=
  h.nonces.decode h.whole f.bounded

/-- Taking the attempt costs the reservation and is refused as `nextAttempt` says. -/
theorem snapshotAttempt_clean (hFresh : FreshFlash j.flash reserved) :
    Triple (fun s => s = j) (snapshotAttempt token)
      (fun attempt s => j.nextAttempt token = .ok attempt ∧ On j (fun g => Clean j.flash g ∧
        Spent j.flash.failAfter (if token = none then 4 else 0) g) s)
      (fun _ s => On j (Clean j.flash) s ∧ (¬Lasts j.flash.failAfter (if token = none then 4 else 0) ∨
        ∀ attempt, j.nextAttempt token ≠ .ok attempt)) := by
  have hCurrent := nonceGeneration_fresh hFresh
  have hStay : On j (Clean j.flash) j := ⟨j.flash, rfl, ⟨reserved, hFresh⟩, rfl, rfl⟩
  unfold snapshotAttempt
  cases token with
  | some value =>
      have hNext : j.nextAttempt (some value) =
          if value = 0 ∨ reserved ≠ value then .error .storage else .ok value := by
        simp only [Journal.nextAttempt, hCurrent, bind, Except.bind]
      have hRefused : (value = 0 ∨ reserved ≠ value) → ∀ s, s = j → On j (Clean j.flash) s ∧
          (¬Lasts j.flash.failAfter (if some value = none then 4 else 0) ∨
            ∀ attempt, j.nextAttempt (some value) ≠ .ok attempt) := by
        rintro hBad _ rfl
        refine ⟨hStay, .inr fun attempt hOk => ?_⟩
        rw [hNext, if_pos hBad] at hOk
        cases hOk
      apply Triple.failIf_bind
      · exact fun hZero => hRefused (.inl hZero)
      intro hNonzero
      apply Triple.get
      intro s hs
      subst hs
      apply Triple.readOnly_bind
      · intro current hOk
        rw [hCurrent] at hOk
        injection hOk with hOk
        subst hOk
        apply Triple.failIf_bind
        · exact fun hOther => hRefused (.inr hOther)
        intro hSame
        apply Triple.ret
        rintro _ rfl
        refine ⟨?_, _, rfl, ⟨⟨_, hFresh⟩, rfl, rfl⟩, spent_zero _⟩
        rw [hNext, if_neg (by omega)]
      · intro e hError
        rw [hCurrent] at hError
        cases hError
  | none =>
      have hNext : j.nextAttempt none =
          if j.flash.slotSize < 4 * (reserved + 1) then .error .quota else .ok (reserved + 1) := by
        simp only [Journal.nextAttempt, hCurrent, bind, Except.bind]
      have hSpec := onFlash_at ((reserveNonce_spec hFresh.nonces hFresh.whole).and
        (reserveNonce_spent hFresh.nonces hFresh.whole (spent_zero j.flash)))
      apply hSpec.conseq (fun _ h => h)
      · rintro attempt _ ⟨g, rfl, ⟨rfl, c, x, rfl, -, hCounter⟩, hSpent⟩
        refine ⟨?_, _, rfl, ⟨⟨_, hFresh.withNonces x hCounter⟩, rfl, rfl⟩, ?_⟩
        · rw [hNext, if_neg (by have := hCounter.fits; omega)]
        · rw [Nat.zero_add] at hSpent
          exact hSpent
      · rintro e _ ⟨g, rfl, ⟨⟨c, x, v, rfl, -, hCounter, -⟩, -⟩, hWhy⟩
        refine ⟨⟨_, rfl, ⟨_, hFresh.withNonces x hCounter⟩, rfl, rfl⟩, ?_⟩
        rcases hWhy with hShort | hFull
        · rw [Nat.zero_add] at hShort
          exact .inl hShort
        · refine .inr fun attempt hOk => ?_
          rw [hNext, if_pos hFull] at hOk
          cases hOk

/-- Sealing yields `nextSealed`, programs nothing and costs the reservation. -/
theorem sealRecord_clean (hFresh : FreshFlash j.flash reserved) :
    Triple (fun s => s = j) (sealRecord data generation provider token)
      (fun sealed s => j.nextSealed provider generation data token = .ok sealed.1 ∧ data.length + 16 < 2 ^ 32 ∧
        encryptRecord j.key ⟨j.appendEnabled, generation, sealed.2, data.length + 16⟩ (nonce sealed.2) data provider =
          .ok sealed.1 ∧
        On j (fun g => Clean j.flash g ∧ Spent j.flash.failAfter (if token = none then 4 else 0) g) s)
      (fun _ s => On j (Clean j.flash) s ∧ (¬Lasts j.flash.failAfter (if token = none then 4 else 0) ∨
        ∀ record, j.nextSealed provider generation data token ≠ .ok record)) := by
  have hStay : On j (Clean j.flash) j := ⟨j.flash, rfl, ⟨reserved, hFresh⟩, rfl, rfl⟩
  apply Triple.readOnly_bind
  swap
  · rintro e hPrepared _ rfl
    refine ⟨hStay, .inr fun record hOk => ?_⟩
    simp only [Journal.nextSealed, hPrepared, bind, Except.bind] at hOk
    cases hOk
  intro payloadLength hPrepared
  have hShort : data.length + 16 < 2 ^ 32 ∧ payloadLength = data.length + 16 := by
    unfold prepareRecord at hPrepared
    split at hPrepared
    · rename_i hLt
      injection hPrepared with hPrepared
      exact ⟨hLt, hPrepared.symm⟩
    · cases hPrepared
  obtain ⟨hLt, rfl⟩ := hShort
  apply Triple.get
  intro s hs
  subst hs
  apply Triple.bind ((snapshotAttempt_clean hFresh).conseq (fun _ h => h) (fun _ _ h => h) _)
  swap
  · rintro e s' ⟨hOn, hWhy⟩
    refine ⟨hOn, ?_⟩
    rcases hWhy with hCut | hRefused
    · exact .inl hCut
    · refine .inr fun record hOk => ?_
      simp only [Journal.nextSealed, hPrepared, bind, Except.bind] at hOk
      cases hAttempt : s.nextAttempt token with
      | ok attempt => exact hRefused attempt hAttempt
      | error e =>
          rw [hAttempt] at hOk
          cases hOk
  intro attempt
  apply Triple.bind (Q := fun _ s' => s.nextAttempt token = .ok attempt ∧ On s (fun g => Clean s.flash g ∧
    Spent s.flash.failAfter (if token = none then 4 else 0) g) s')
  · rintro _ ⟨hAttempt, g, rfl, ⟨⟨v, hClean⟩, hSize, hCount⟩, hSpent⟩
    exact ⟨hAttempt, _, rfl, ⟨⟨v, { hClean with }⟩, hSize, hCount⟩, hSpent.same rfl⟩
  intro _
  apply Triple.of_state
  rintro s' ⟨hAttempt, hOn⟩
  have hSealed : s.nextSealed provider generation data token = encryptRecord s.key
      ⟨s.appendEnabled, generation, attempt, data.length + 16⟩ (nonce attempt) data provider := by
    simp only [Journal.nextSealed, hPrepared, hAttempt, bind, Except.bind]
  apply Triple.readOnly_bind
  · intro record hRecord
    apply Triple.ret
    rintro _ rfl
    exact ⟨hSealed.trans hRecord, hLt, hRecord, hOn⟩
  · rintro e hError _ rfl
    obtain ⟨g, rfl, hClean, -⟩ := hOn
    refine ⟨⟨g, rfl, hClean⟩, .inr fun record hOk => ?_⟩
    rw [hSealed, hError] at hOk
    cases hOk

end Sealing

section Writing

variable {provider : CryptoProvider} {data record label tag : List Byte} {header : RecordHeader} {key : List Byte}
  {reserved start : Nat} {cut : Option Nat} {j : Journal} {f g : MemoryFlash}

/-- The first record is committed in slot zero. -/
structure Written (g : MemoryFlash) : Prop where
  begun : g.slots 0 0 ≠ 0xff
  committed : range (g.slots 0) (g.slotSize - committed) 4 = zeroWord

theorem FreshFlash.slotOnly (h : FreshFlash f reserved) (hOnly : SlotOnly f g 0)
    (hSlot : ∀ i < f.slotSize, g.slots 0 i = 0xff) : FreshFlash g reserved where
  two_le := hOnly.slotCount ▸ h.two_le
  le_eight := hOnly.slotCount ▸ h.le_eight
  whole := hOnly.slotSize ▸ h.whole
  large := hOnly.slotSize ▸ h.large
  nonces := by
    rw [hOnly.nonces, hOnly.slotSize]
    exact h.nonces
  monotonic := by
    rw [hOnly.monotonic, hOnly.slotSize]
    exact h.monotonic
  erased := by
    intro slot hLt i hi
    rw [hOnly.slotSize] at hi
    by_cases hZero : slot = 0
    · rw [hZero]
      exact hSlot i hi
    · rw [hOnly.slots slot hZero]
      exact h.erased slot (hOnly.slotCount ▸ hLt) i hi

theorem FreshFlash.clean (h : FreshFlash f reserved) (hOnly : SlotOnly f g 0)
    (hSlot : ∀ i < f.slotSize, g.slots 0 i = 0xff) : Clean f g :=
  ⟨⟨reserved, h.slotOnly hOnly hSlot⟩, hOnly.slotSize, hOnly.slotCount⟩

theorem FreshFlash.torn (h : FreshFlash f reserved) (hOnly : SlotOnly f g 0) (hBegun : g.slots 0 0 ≠ 0xff)
    (hVacant : Vacant (g.slots 0) g.slotSize) : Torn g reserved where
  toNascent := Nascent.abandoned h hOnly (.inr (.inr hVacant))
  begun := hBegun
  vacant := hVacant

/-- The first word of a record is programmed, since it holds the magic. -/
theorem SealedRecord.wordCost_zero (h : SealedRecord provider key label header data record) : wordCost record 0 = 4 := by
  obtain ⟨hPos, hFirst⟩ := h.first
  rw [wordCost, if_neg]
  intro hAll
  have hByte := List.all_eq_true.1 hAll 0 (by decide)
  rw [List.getD_eq_getElem _ _ hPos, hFirst] at hByte
  exact absurd hByte (by decide)

theorem SealedRecord.four_le (h : SealedRecord provider key label header data record) {words : Nat} (hPos : 0 < words) :
    4 ≤ programmedWords record words := by
  have hMono := @programmedWords_mono record 1 _ hPos
  rw [programmedWords, programmedWords, h.wordCost_zero] at hMono
  exact hMono

/-- Erase, record and commit word of a first commit, by where the power fails. -/
theorem writeFirst_bind {α : Type} {next : JournalM α} {Q : α → Journal → Prop} {C : Error → Journal → Prop}
    (hFresh : FreshFlash f reserved) (hSealed : SealedRecord provider key label header data record)
    (hFits : data.length + overhead ≤ f.slotSize) (hSpent : Spent cut start f)
    (hClean : ∀ e g, Clean f g → ¬Lasts cut (start + f.slotSize + 4) → C e { j with flash := g })
    (hTorn : ∀ e g, Torn g reserved → Lasts cut (start + f.slotSize + 4) →
      ¬Lasts cut (start + f.slotSize + programmedBytes record + 4) → C e { j with flash := g })
    (hNext : Triple (On j fun g => SlotOnly f g 0 ∧ Written g ∧ Spent cut (start + f.slotSize + programmedBytes record + 4) g) next Q C) :
    Triple (On j (fun g => g = f)) (do
      onFlash (erase 0)
      onFlash (program (some tag) 0 0 record)
      onFlash (program none 0 (f.slotSize - committed) zeroWord)
      next) Q C := by
  have hWhole := hFresh.whole
  have hLength := hSealed.length
  have hRoom := hFits
  simp only [headerBytes] at hLength
  simp only [overhead, recordOverhead, headerBytes, tailBytes] at hRoom
  obtain ⟨hPos, hFirst⟩ := hSealed.first
  have hZero : 0 < f.slotCount := by
    have hTwo := hFresh.two_le
    omega
  -- the erase of a slot that is erased already
  apply Triple.bind (Q := fun _ => On j fun g => SlotOnly f g 0 ∧ Blank g 0 ∧ Spent cut (start + f.slotSize) g)
  · apply (onFlash_spec ((eraseSlot_spec f 0).and ((erase_spec f 0).and (erase_spent 0 hSpent)))).conseq
    · rintro _ ⟨g, rfl, hg⟩
      exact ⟨g, rfl, hg⟩
    · rintro _ _ ⟨g, rfl, ⟨hOnly, -, hBlank⟩, -, hCost⟩
      exact ⟨g, rfl, hOnly, hBlank, hCost⟩
    · rintro e _ ⟨_, rfl, ⟨⟨hOnly, -⟩, -⟩, ⟨⟨k, x, rfl, -, -⟩, -⟩, hShort⟩
      refine hClean e _ (hFresh.clean hOnly fun i hi => ?_) fun hAll => hShort (hAll.mono (by omega))
      simp only [erasedPrefix, Function.update_self, wiped]
      split
      · rfl
      · exact hFresh.erased 0 hZero i hi
  intro _
  -- the record, word by word
  apply Triple.bind (Q := fun _ => On j fun g => SlotOnly f g 0 ∧ Laid g 0 record ∧
    Spent cut (start + f.slotSize + programmedBytes record) g)
  · apply Triple.of_state
    rintro _ ⟨g, rfl, hOnly, hBlank, hCost⟩
    have hSize := hOnly.slotSize
    have hReady : Programmable 0 0 record g := by
      refine ⟨⟨hSize ▸ hWhole, rfl, by omega⟩, fun i hi => .inl ?_, fun w _ hw => by rw [hBlank.unwritten w]; omega⟩
      rw [Nat.zero_add]
      exact hBlank.erased i (by omega)
    have hFree : Free g 0 0 record := fun i _ _ hi => hBlank.erased i hi
    have hLay := layRecord_spec hBlank (hSize ▸ hWhole) hSealed (hSize ▸ hFits) tag
    apply (onFlash_at (j := { j with flash := g }) (hLay.and (program_spent hReady hFree hCost))).conseq (fun _ h => h)
    · rintro _ _ ⟨g', rfl, ⟨hOnly', hLaid, -⟩, hDone⟩
      exact ⟨g', rfl, hOnly.trans hOnly', hLaid, hDone⟩
    · rintro e _ ⟨g', rfl, ⟨⟨hOnly', -, hVacant⟩, -⟩, k, hk, hWrote, hLasts, hShort⟩
      have hSlots : g'.slots 0 = overwrite (g.slots 0) 0 record (4 * k) := by
        rw [hWrote.slots, Function.update_self]
      rcases Nat.eq_zero_or_pos k with rfl | hBegun
      · rw [programmedWords, programmedWords, hSealed.wordCost_zero, Nat.zero_add] at hShort
        refine hClean e g' (hFresh.clean (hOnly.trans hOnly') fun i hi => ?_) hShort
        rw [hSlots, Nat.mul_zero, overwrite_zero]
        exact hBlank.erased i (by omega)
      · have hFour := hSealed.four_le hBegun
        have hAll : programmedWords record (k + 1) ≤ programmedBytes record :=
          programmedWords_mono record (by omega)
        have hByte : g'.slots 0 0 ≠ 0xff := by
          have hInside : overwrite (g.slots 0) 0 record (4 * k) (0 + 0) = record[0] := overwrite_inside (by omega) hPos
          rw [hSlots, hInside, hFirst]
          decide
        apply hTorn e g' (hFresh.torn (hOnly.trans hOnly') hByte hVacant) (hLasts.mono (by omega))
        exact fun hPower => hShort (hPower.mono (by omega))
  intro _
  -- the commit word
  apply Triple.bind (Q := fun _ => On j fun g => SlotOnly f g 0 ∧ Written g ∧ Spent cut (start + f.slotSize + programmedBytes record + 4) g)
  swap
  · exact fun _ => hNext
  apply Triple.of_state
  rintro _ ⟨g, rfl, hOnly, hLaid, hCost⟩
  have hSize := hOnly.slotSize
  have hErased : ∀ i, f.slotSize - committed ≤ i → i < f.slotSize → g.slots 0 i = 0xff := by
    intro i hLow hHigh
    simp only [committed, tailBytes] at hLow
    exact hLaid.rest i (by omega) (by omega)
  have hWord : range (g.slots 0) (f.slotSize - committed) 4 = erasedWord := by
    rw [range_eq_erasedWord_iff]
    intro i hLow hHigh
    simp only [committed, tailBytes] at hLow hHigh
    exact hErased i (by simp only [committed, tailBytes]; omega) (by omega)
  have hByte : g.slots 0 0 ≠ 0xff := by
    have hFront := (range_eq_iff.1 hLaid.front).2 0 hPos
    rw [Nat.zero_add, hFirst] at hFront
    rw [hFront]
    decide
  have hBounds : f.slotSize - committed + 4 ≤ g.slotSize := by
    simp only [committed, tailBytes]
    omega
  have hAligned : (f.slotSize - committed) % 4 = 0 := by
    simp only [committed, tailBytes]
    omega
  have hReady : Programmable 0 (f.slotSize - committed) zeroWord g := by
    refine ⟨⟨hSize ▸ hWhole, hAligned, hBounds⟩, fun i hi => .inl ?_, fun w _ hw => ?_⟩
    · simp only [zeroWord, List.length_cons, List.length_nil] at hi
      exact hErased _ (by omega) (by omega)
    · simp only [zeroWord, List.length_cons, List.length_nil] at hw
      exact (hLaid.fresh w (by omega)).1
  have hFree : Free g 0 (f.slotSize - committed) zeroWord := fun i hLow _ hi => hErased i hLow (by omega)
  have hMark := markWord_spec (hSize ▸ hWhole) hAligned hBounds hLaid.fresh (.inl hWord)
  have hSpend := @program_spent _ _ none _ _ _ _ hReady hFree hCost
  apply (onFlash_at (j := { j with flash := g }) (hMark.and hSpend)).conseq (fun _ h => h)
  · rintro _ _ ⟨g', rfl, hMarked, hDone⟩
    refine ⟨g', rfl, hOnly.trans hMarked.only, ⟨?_, ?_⟩, hDone⟩
    · rw [hMarked.slots, overwrite_outside (by simp only [committed, tailBytes]; omega)]
      exact hByte
    · rw [hMarked.slots, hMarked.only.slotSize, hSize]
      exact range_overwrite_self (g.slots 0) (f.slotSize - committed) zeroWord
  · rintro e _ ⟨g', rfl, ⟨hSame, -⟩, k, hk, -, -, hShort⟩
    have hFour : 4 ≤ programmedBytes record := hSealed.four_le (by omega)
    have hVacant : Vacant (g'.slots 0) g'.slotSize := by
      refine ⟨?_, ?_⟩
      · have hMagic : range (g'.slots 0) 0 4 = magic (if header.appendEnabled then 0x39 else 0x38) := by
          apply hSealed.magic_at
          intro i hi _
          rw [hSame.slots]
          exact (range_eq_iff.1 hLaid.front).2 i hi
        rw [hMagic]
        cases header.appendEnabled <;> rfl
      · rw [hSame.slots, hSame.only.slotSize, hSize, hWord]
        decide
    have hLast : programmedWords zeroWord (k + 1) ≤ 4 := by
      have hMono := @programmedWords_mono zeroWord (k + 1) 1 (by
        simp only [zeroWord, List.length_cons, List.length_nil] at hk
        omega)
      exact hMono.trans (by decide)
    apply hTorn e g' (hFresh.torn (hOnly.trans hSame.only) (by rw [hSame.slots]; exact hByte) hVacant)
      (hCost.lasts.mono (by omega))
    exact fun hPower => hShort (hPower.mono (by omega))

end Writing

section Commit

variable {provider : CryptoProvider} {data : List Byte} {durability : Durability} {reserved : Nat} {token : Option Nat}
  {j : Journal}

theorem Journal.nextRecord_eq {generation : Nat} (hIntact : j.poisoned = false)
    (hFits : ¬(j.flash.slotSize < overhead ∨ j.flash.slotSize - overhead < data.length))
    (hNext : nextGeneration j.generation j.appendEnabled durability = .ok generation)
    (hCapacity : ¬j.flash.monotonicCapacity < anchor generation j.appendEnabled) :
    j.nextRecord provider data durability token = j.nextSealed provider generation data token := by
  unfold Journal.nextRecord
  simp only [failIf, hIntact, hNext, bind, Except.bind, pure, Except.pure]
  rw [if_neg (by simp)]
  simp only
  rw [if_neg hFits]
  simp only
  rw [if_neg hCapacity]

theorem Journal.nextRecord_ok {record : List Byte} (h : j.nextRecord provider data durability token = .ok record) :
    ¬(j.flash.slotSize < overhead ∨ j.flash.slotSize - overhead < data.length) ∧
      ∃ generation, nextGeneration j.generation j.appendEnabled durability = .ok generation ∧
        ¬j.flash.monotonicCapacity < anchor generation j.appendEnabled ∧
        j.nextSealed provider generation data token = .ok record := by
  unfold Journal.nextRecord at h
  simp only [failIf, bind, Except.bind, pure, Except.pure] at h
  by_cases hPoisoned : j.poisoned = true
  · rw [if_pos hPoisoned] at h
    cases h
  rw [if_neg hPoisoned] at h
  simp only at h
  by_cases hLarge : j.flash.slotSize < overhead ∨ j.flash.slotSize - overhead < data.length
  · rw [if_pos hLarge] at h
    cases h
  rw [if_neg hLarge] at h
  simp only at h
  cases hNext : nextGeneration j.generation j.appendEnabled durability with
  | error e =>
      rw [hNext] at h
      cases h
  | ok generation =>
      rw [hNext] at h
      simp only at h
      by_cases hFull : j.flash.monotonicCapacity < anchor generation j.appendEnabled
      · rw [if_pos hFull] at h
        cases h
      · rw [if_neg hFull] at h
        exact ⟨hLarge, generation, rfl, hFull, h⟩

/-- The anchor advance behind a committed first record leaves the record alone. -/
theorem anchorFirst_spec {generation : Nat} {s : Journal} (hWritten : Written s.flash) (hWhole : 4 ≤ s.flash.slotSize)
    (hCounter : CounterIs s.flash.monotonic s.flash.slotSize 0)
    (hAnchor : durability = .anchored → anchor generation s.appendEnabled = 1) :
    Triple (fun s' => s' = s) (do
        let journal ← get
        onlyIf (durability = .anchored) (onFlash (advanceMonotonic (anchor generation journal.appendEnabled)))
        modify fun journal => { journal with poisoned := false })
      (fun _ s' => Written s'.flash) (fun _ s' => Written s'.flash ∧ s.flash.armed = true) := by
  apply Triple.get
  intro s' hs'
  subst hs'
  apply Triple.bind (Q := fun _ s'' => Written s''.flash)
  · apply Triple.onlyIf
    · intro hDurable
      rw [hAnchor hDurable]
      apply (onFlash_at (advanceMonotonic_spec hCounter (by omega))).conseq (fun _ h => h)
      · rintro _ _ ⟨g, rfl, c, x, rfl, -⟩
        exact { hWritten with }
      · rintro _ _ ⟨g, rfl, ⟨c, x, v, rfl, -⟩, hArmed⟩
        exact ⟨{ hWritten with }, hArmed⟩
    · rintro - _ rfl
      exact hWritten
  · exact fun _ => Triple.update fun _ h => { h with }

/-- Where a first commit stops, by the power it has: nothing is programmed, the
record is torn, or the record is committed. -/
theorem commit_first_cut (hCorrect : provider.Correct) (hNew : Unwritten j reserved) :
    Triple (fun s => s = j) (commitOwnedWithNonce data durability provider token)
      (fun _ _ => Begins provider j data durability token ∧ ¬CutInside provider j data durability token)
      (fun _ s => (∃ g poisoned, s = { j with flash := g, poisoned := poisoned } ∧ Clean j.flash g) ∧
          ¬Begins provider j data durability token ∨
        (∃ v, Torn s.flash v) ∧ CutInside provider j data durability token ∨
        Written s.flash ∧ Begins provider j data durability token ∧
          ¬CutInside provider j data durability token ∧ j.flash.armed = true) := by
  have hFresh := hNew.flash
  have hStay : (∀ record, j.nextRecord provider data durability token ≠ .ok record) → ∀ s, s = j →
      (∃ g poisoned, s = { j with flash := g, poisoned := poisoned } ∧ Clean j.flash g) ∧
          ¬Begins provider j data durability token ∨
        (∃ v, Torn s.flash v) ∧ CutInside provider j data durability token ∨
        Written s.flash ∧ Begins provider j data durability token ∧
          ¬CutInside provider j data durability token ∧ j.flash.armed = true := by
    rintro hRefused _ rfl
    refine .inl ⟨⟨_, _, rfl, ⟨reserved, hFresh⟩, rfl, rfl⟩, ?_⟩
    rintro ⟨record, hOk, -⟩
    exact hRefused record hOk
  apply Triple.get
  intro s hs
  subst hs
  apply Triple.failIf_bind
  · intro hPoisoned
    rw [hNew.intact] at hPoisoned
    cases hPoisoned
  intro _
  apply Triple.failIf_bind
  · exact fun hLarge => hStay fun record hOk => (Journal.nextRecord_ok hOk).1 hLarge
  intro hFits
  apply Triple.readOnly_bind
  swap
  · intro e hError
    apply hStay
    intro record hOk
    obtain ⟨-, generation, hNext, -⟩ := Journal.nextRecord_ok hOk
    rw [hError] at hNext
    cases hNext
  intro generation hNext
  apply Triple.failIf_bind
  · intro hFull
    apply hStay
    intro record hOk
    obtain ⟨-, generation', hNext', hCapacity, -⟩ := Journal.nextRecord_ok hOk
    rw [hNext] at hNext'
    injection hNext' with hNext'
    exact hCapacity (hNext' ▸ hFull)
  intro hCapacity
  have hRecord := @Journal.nextRecord_eq provider data _ token _ _ hNew.intact hFits hNext
    hCapacity
  -- sealing, which programs nothing
  apply Triple.bind ((@sealRecord_clean _ _ generation _ _ _ hFresh).conseq (fun _ h => h) (fun _ _ h => h) _)
  swap
  · rintro _ _ ⟨⟨g, rfl, hClean⟩, hWhy⟩
    refine .inl ⟨⟨g, s.poisoned, rfl, hClean⟩, ?_⟩
    rintro ⟨record, hOk, hLasts⟩
    rcases hWhy with hShort | hRefused
    · apply hShort
      apply hLasts.mono
      rw [Journal.recordStart]
      omega
    · exact hRefused record (hRecord ▸ hOk)
  rintro ⟨record, attempt⟩
  apply Triple.of_state
  rintro _ ⟨hSealed, hShort, hEncrypted, f, rfl, ⟨⟨v, hFresh'⟩, hSize, hCount⟩, hSpent⟩
  have hOk : s.nextRecord provider data durability token = .ok record := hRecord.trans hSealed
  have hLaid : SealedRecord provider s.key (nonce attempt) ⟨s.appendEnabled, generation, attempt, data.length + 16⟩ data
      record := encryptRecord_spec hCorrect hEncrypted
  have hStart : (if token = none then 4 else 0) + f.slotSize = s.recordStart token := by
    rw [Journal.recordStart, hSize]
  have hWritten : Lasts s.flash.failAfter (s.recordStart token + programmedBytes record + 4) →
      ¬CutInside provider s data durability token := by
    rintro hLasts ⟨record', hOk', -, hCut⟩
    rw [hOk] at hOk'
    injection hOk' with hOk'
    exact hCut (hOk' ▸ hLasts)
  apply Triple.bind (Q := fun _ _ => Begins provider s data durability token ∧
    ¬CutInside provider s data durability token) _
    fun _ => Triple.ret fun _ h => h
  have hActive := hNew.active
  have hSlot : s.nextSlot = 0 := by simp only [Journal.nextSlot, hActive]
  rw [hSlot, ← hSize]
  unfold replaceRecord
  simp only [hActive, markReclaim]
  apply Triple.bind (Q := fun _ => On { s with poisoned := true } fun g => g = f)
  · apply Triple.update
    rintro _ rfl
    refine ⟨f, ?_, rfl⟩
    simp only [hActive]
  intro _
  apply Triple.bind (Q := fun _ => On { s with poisoned := true } fun g => g = f)
  · exact Triple.ret fun _ h => h
  intro _
  apply writeFirst_bind (j := { s with poisoned := true }) hFresh' hLaid (by omega) hSpent
  · rintro e g ⟨⟨w, hClean⟩, hSize', hCount'⟩ hCut
    refine .inl ⟨⟨g, true, ?_, ⟨w, hClean⟩, hSize'.trans hSize, hCount'.trans hCount⟩, ?_⟩
    · simp only [hActive]
    rintro ⟨record', -, hLasts⟩
    rw [hStart] at hCut
    exact hCut hLasts
  · intro e g hTorn hLasts hCut
    rw [hStart] at hLasts hCut
    exact .inr (.inl ⟨⟨v, hTorn⟩, record, hOk, hLasts, hCut⟩)
  · apply Triple.of_state
    rintro _ ⟨g, rfl, hOnly, hDone, hCost⟩
    have hAll := hWritten (hStart ▸ hCost.lasts)
    have hBegins : Begins provider s data durability token := by
      obtain ⟨hPos, -⟩ := hLaid.first
      have hFour : 4 ≤ programmedBytes record := hLaid.four_le (by omega)
      have hLasts := hCost.lasts
      rw [hStart] at hLasts
      exact ⟨record, hOk, hLasts.mono (by omega)⟩
    have hLarge := hFresh'.large
    have hCounter := hFresh'.monotonic
    simp only [overhead, recordOverhead, headerBytes, tailBytes] at hLarge
    rw [← hOnly.monotonic, ← hOnly.slotSize] at hCounter
    have hGranted := nextGeneration_spec hNext
    have hAnchor : durability = .anchored → anchor generation s.appendEnabled = 1 := by
      intro hDurable
      rw [hGranted.anchor_eq, hNew.generation, hDurable]
      cases s.appendEnabled <;> rfl
    apply Triple.bind (Q := fun _ => On { s with poisoned := true } fun g' => g' = g)
    · apply Triple.ret
      rintro _ rfl
      exact ⟨g, rfl, rfl⟩
    intro _
    apply Triple.bind (Q := fun _ s' => s' = { s with
      generation := generation
      baseAttempt := some attempt
      active := some 0
      appendOffset := some (wordAlign record.length)
      poisoned := true
      flash := g })
    · apply Triple.update
      rintro _ ⟨_, rfl, rfl⟩
      rfl
    intro _
    have hRest := anchorFirst_spec (s := { s with
      generation := generation
      baseAttempt := some attempt
      active := some 0
      appendOffset := some (wordAlign record.length)
      poisoned := true
      flash := g }) hDone (by rw [hOnly.slotSize]; omega) hCounter hAnchor
    apply hRest.conseq (fun _ h => h)
    · exact fun _ _ _ => ⟨hBegins, hAll⟩
    · rintro _ _ ⟨hStill, hArmed⟩
      exact .inr (.inr ⟨hStill, hBegins, hAll, hCost.armed.symm.trans hArmed⟩)

end Commit

section Runs

variable (provider : CryptoProvider)

/-- Runs on an erased region before its first record: openings, nonce
reservations and commits, each with its own power, where no commit gets as far
as the first word of its record. -/
inductive Unbegun : Journal → Prop where
  | fresh {size slotCount : Nat} {bounded : size < 2 ^ 63} {key : List Byte} {appendEnabled : Bool}
      {contents : Option Contents} {j : Journal}
      (opened : openMode (MemoryFlash.withSlots size slotCount bounded) key provider appendEnabled recorder =
        .ok contents j) : Unbegun j
  | reserve {j : Journal} (run : Unbegun j) (budget : Option Nat) :
      Unbegun (finalState (reserveIdentityNonce (j.withBudget budget)))
  | reopen {j : Journal} (run : Unbegun j) (budget : Option Nat) : Unbegun (finalState (reopen provider j budget))
  | attempt {j : Journal} (run : Unbegun j) (data : List Byte) (durability : Durability) (reserved : Option Nat)
      (budget : Option Nat) (unbegun : ¬Begins provider (j.withBudget budget) data durability reserved) :
      Unbegun (finalState (commitOwnedWithNonce data durability provider reserved (j.withBudget budget)))

/-- Opening succeeds with the empty state or the given record, and the opened
journal commits whatever its counters and its provider permit. -/
def Recovers (j : Journal) (data : List Byte) : Prop :=
  ∃ contents opened, reopen provider j none = .ok contents opened ∧
    (contents = none ∨ contents = some ⟨data, []⟩) ∧
    ∀ next, Accepts provider opened next .anchored none →
      succeeded ((Operation.commit next none).run provider opened) = true

variable {provider} {j : Journal} {data : List Byte} {durability : Durability} {token : Option Nat}

/-- An untouched flash under a journal that is poisoned or has just been opened. -/
def Idle (j : Journal) : Prop :=
  ∃ reserved, FreshFlash j.flash reserved ∧ (j.poisoned = false → Unwritten j reserved)

theorem FreshFlash.withBudget {f : MemoryFlash} {reserved : Nat} (h : FreshFlash f reserved) (budget : Option Nat) :
    FreshFlash { f with failAfter := budget } reserved :=
  { h with }

theorem Idle.withBudget (h : Idle j) (budget : Option Nat) : Idle (j.withBudget budget) := by
  obtain ⟨reserved, hFresh, hNew⟩ := h
  exact ⟨reserved, hFresh.withBudget budget, fun hIntact =>
    { hNew hIntact with flash := (hNew hIntact).flash.withBudget budget }⟩

/-- Opening an untouched flash succeeds and writes nothing. -/
theorem FreshFlash.reopen {reserved : Nat} (h : FreshFlash j.flash reserved) (budget : Option Nat) :
    ∃ opened, Journal.reopen provider j budget = .ok none opened ∧ Unwritten opened reserved ∧
      opened.flash.failAfter = budget := by
  have hOpen := @FreshFlash.openMode provider _ j.key j.appendEnabled _ (h.withBudget budget)
  obtain ⟨-, hNew, -, -, hFlash⟩ := openMode_fresh (h.withBudget budget) hOpen
  refine ⟨_, hOpen, hNew, ?_⟩
  rw [hFlash]

theorem Journal.nextRecord_poisoned (hPoisoned : j.poisoned = true) {record : List Byte} :
    j.nextRecord provider data durability token ≠ .ok record := by
  unfold Journal.nextRecord
  simp only [failIf, bind, Except.bind, hPoisoned, if_true]
  exact fun h => by cases h

theorem CutInside.begins (h : CutInside provider j data durability token) : Begins provider j data durability token := by
  obtain ⟨record, hOk, hLasts, -⟩ := h
  exact ⟨record, hOk, hLasts⟩

theorem Idle.reserve (h : Idle j) : Idle (finalState (reserveIdentityNonce j)) := by
  obtain ⟨reserved, hFresh, hNew⟩ := h
  cases hPoisoned : j.poisoned with
  | true =>
      have hRefused : reserveIdentityNonce j = .error .storage j := by
        simp only [reserveIdentityNonce, bind, EStateM.bind, get, getThe, MonadStateOf.get, EStateM.get, failIf,
          hPoisoned, if_true, throw, throwThe, MonadExceptOf.throw, EStateM.throw]
      rw [hRefused]
      exact ⟨reserved, hFresh, hNew⟩
  | false =>
      have hOpen := hNew hPoisoned
      have hKept : ∀ {c : Nat → Byte} {x : Option Nat} {v : Nat}, CounterIs c j.flash.slotSize v →
          Idle { j with flash := { j.flash with nonces := c, failAfter := x } } :=
        fun hCounter => ⟨_, hFresh.withNonces _ hCounter, fun _ =>
          { hOpen with flash := hFresh.withNonces _ hCounter }⟩
      have hSpec : Triple (fun s => s = j) reserveIdentityNonce (fun _ s => Idle s) (fun _ s => Idle s) := by
        apply Triple.get
        intro s hs
        subst hs
        apply Triple.failIf_bind
        · rintro - _ rfl
          exact ⟨reserved, hFresh, hNew⟩
        intro _
        apply Triple.bind (Q := fun _ s' => Idle s')
        · apply (onFlash_at (reserveNonce_spec hFresh.nonces hFresh.whole)).conseq (fun _ h => h)
          · rintro _ _ ⟨g, rfl, -, c, x, rfl, -, hCounter⟩
            exact hKept hCounter
          · rintro _ _ ⟨g, rfl, ⟨c, x, v, rfl, -, hCounter, -⟩, -⟩
            exact hKept hCounter
        intro value
        apply Triple.get
        intro s' hs'
        apply Triple.failIf_bind
        · rintro - _ rfl
          exact hs'
        · intro _
          apply Triple.ret
          rintro _ rfl
          exact hs'
      exact Triple.finalState hSpec

/-- A run that began no record leaves the flash untouched. -/
theorem Unbegun.idle (hCorrect : provider.Correct) (h : Unbegun provider j) : Idle j := by
  induction h with
  | fresh opened =>
      obtain ⟨-, hNew, -⟩ := openMode_fresh (withSlots_fresh opened) opened
      exact ⟨0, hNew.flash, fun _ => hNew⟩
  | reserve run budget ih => exact (ih.withBudget budget).reserve
  | reopen run budget ih =>
      obtain ⟨reserved, hFresh, -⟩ := ih
      obtain ⟨opened, hOpen, hNew, -⟩ := @FreshFlash.reopen provider _ _ hFresh budget
      rw [hOpen]
      exact ⟨reserved, hNew.flash, fun _ => hNew⟩
  | attempt run data durability token budget unbegun ih =>
      obtain ⟨reserved, hFresh, hNew⟩ := ih.withBudget budget
      cases hPoisoned : (Journal.withBudget _ budget).poisoned with
      | true =>
          rw [commit_refused hPoisoned]
          exact ⟨reserved, hFresh, hNew⟩
      | false =>
          have hOpen := hNew hPoisoned
          have hRun := @commit_first_cut _ data durability _ token _ hCorrect hOpen _ rfl
          split at hRun
          · exact absurd hRun.1 unbegun
          · rename_i e s hError
            rw [hError]
            rcases hRun with ⟨⟨g, poisoned, rfl, ⟨v, hClean⟩, -, hCount⟩, -⟩ | ⟨-, hInside⟩ | ⟨-, hBegins, -⟩
            · exact ⟨v, hClean, fun hIntact => { hOpen with
                flash := hClean
                intact := hIntact
                slotCount := hOpen.slotCount.trans hCount.symm }⟩
            · exact absurd hInside.begins unbegun
            · exact absurd hBegins unbegun

/-- With the power on an opened journal without a record commits whatever it
accepts. -/
theorem Unwritten.commits (hCorrect : provider.Correct) {reserved : Nat} (h : Unwritten j reserved)
    (hUncut : j.flash.failAfter = none) (hAccepts : Accepts provider j data .anchored none) :
    succeeded ((Operation.commit data none).run provider j) = true := by
  have hPower : ∀ cost, Lasts j.flash.failAfter cost := by
    intro cost budget hCut
    rw [hUncut] at hCut
    cases hCut
  have hBegins : Begins provider j data .anchored none := by
    obtain ⟨generation, hNext, hCapacity⟩ := hAccepts.generation
    obtain ⟨n, hNonce, hRoom⟩ := hAccepts.nonce
    have hFits := hAccepts.fits
    have hRecord := @Journal.nextRecord_eq provider data _ none _ _ h.intact (by omega) hNext
      (by omega)
    obtain ⟨record, hSeal⟩ := encryptRecord_seals hAccepts.seals (nonce (n + 1))
      ⟨j.appendEnabled, generation, n + 1, data.length + 16⟩
    refine ⟨record, ?_, hPower _⟩
    rw [hRecord]
    simp only [MemoryFlash.nonceCapacity, MemoryFlash.monotonicCapacity] at hRoom
    simp only [Journal.nextSealed, prepareRecord, Journal.nextAttempt, hNonce, bind, Except.bind]
    rw [if_pos hAccepts.short]
    simp only
    rw [if_neg (by omega)]
    exact hSeal
  have hRun := @commit_first_cut _ data .anchored _ none _ hCorrect h _ rfl
  simp only [Operation.run, bind, EStateM.bind]
  split at hRun
  · rename_i hOk
    rw [hOk]
    rfl
  · exfalso
    rcases hRun with ⟨-, hNone⟩ | ⟨-, hInside⟩ | ⟨-, -, -, hArmed⟩
    · exact hNone hBegins
    · obtain ⟨record, -, -, hCut⟩ := hInside
      exact hCut (hPower _)
    · rw [MemoryFlash.armed, hUncut] at hArmed
      cases hArmed

theorem FreshFlash.recovers (hCorrect : provider.Correct) {reserved : Nat} (h : FreshFlash j.flash reserved) :
    Recovers provider j data := by
  obtain ⟨opened, hOpen, hNew, hUncut⟩ := h.reopen none
  exact ⟨none, opened, hOpen, .inl rfl, fun next hAccepts => hNew.commits hCorrect hUncut hAccepts⟩

theorem Keeps.recovers (hCorrect : provider.Correct) {attempt generation : Nat}
    (h : Keeps provider j (newEpoch attempt generation data)) : Recovers provider j data := by
  obtain ⟨opened, active, started, reserved, hOpen, hLive⟩ := h.reopen
  exact ⟨_, opened, hOpen, .inr rfl, fun next hAccepts => hLive.commits hCorrect (h.reopen_uncut hOpen) hAccepts⟩

/-- A torn journal refuses to open, and stays torn. -/
theorem Torn.reopen {reserved : Nat} (h : Torn j.flash reserved) (budget : Option Nat) :
    ∃ j', Journal.reopen provider j budget = .error .storage j' ∧ Torn j'.flash reserved :=
  ⟨_, (h.withBudget budget).openMode, h.withBudget budget⟩

/-- A commit that was cut inside its first record leaves a torn flash. -/
theorem CutInside.torn (hCorrect : provider.Correct) (h : Unbegun provider j) {cut : Option Nat}
    (hInside : CutInside provider (j.withBudget cut) data durability token) :
    ∃ v, Torn (finalState (commitOwnedWithNonce data durability provider token (j.withBudget cut))).flash v := by
  obtain ⟨reserved, hFresh, hNew⟩ := (h.idle hCorrect).withBudget cut
  cases hPoisoned : (j.withBudget cut).poisoned with
  | true =>
      obtain ⟨record, hOk, -⟩ := hInside
      exact absurd hOk (Journal.nextRecord_poisoned hPoisoned)
  | false =>
      have hRun := @commit_first_cut _ data durability _ token _ hCorrect (hNew hPoisoned) _
        rfl
      split at hRun
      · exact absurd hInside hRun.2
      · rename_i e s hError
        rw [hError]
        rcases hRun with ⟨-, hNone⟩ | ⟨hTorn, -⟩ | ⟨-, -, hOutside, -⟩
        · exact absurd hInside.begins hNone
        · exact hTorn
        · exact absurd hInside hOutside

/-- Two erased slots, just opened. -/
def erasedJournal : Journal :=
  finalState (openMode (MemoryFlash.withSlots 112 2 shortSlot_bounded) [] plainProvider true recorder)

end Runs

end MicroCard.Journal
