import MicroCard.Journal.Epoch
import MicroCard.Journal.FlashSpec

/-! Recovery. A flash stores one chain when a slot holds its newest epoch, every
other slot holds something recovery may pass over, and the anchor counter is at
most one advance behind the chain. -/
namespace MicroCard.Journal

open Bytes CrashTriple

variable (provider : CryptoProvider) (key : List Byte) (appendEnabled : Bool)

/-- An authenticated slot together with its reclaim words. -/
structure Published (memory : Nat → Byte) (size reserved : Nat) (e : Epoch) (started complete : Bool) : Prop where
  epoch : EpochAt provider key appendEnabled memory size e
  attempt_le : e.attempt ≤ reserved
  startedFlag : FlagAt memory (size - reclaimStarted) started
  completeFlag : FlagAt memory (size - reclaimComplete) complete
  order : complete = true → started = true

/-- A slot without a commit word. -/
structure Vacant (memory : Nat → Byte) (size : Nat) : Prop where
  notOld : oldMagic (range memory 0 4) = false
  uncommitted : range memory (size - committed) 4 ≠ zeroWord

/-- What recovery may find in a slot other than the newest: an older epoch, a
vacant slot or, while the newest epoch has announced a reclaim, a slot whose
erase was begun. -/
inductive Passable (memory : Nat → Byte) (size reserved generation : Nat) (reclaiming : Bool) : Prop where
  | older (e : Epoch) (started complete : Bool)
      (published : Published provider key appendEnabled memory size reserved e started complete)
      (lt : e.generation < generation)
  | vacant (vacant : Vacant memory size)
  | reclaimed (reclaiming : reclaiming = true) (wiped : memory 0 = 0xff)

/-- No word was written twice, and an erased word was never written. -/
def FreshWrites (memory : Nat → Byte) (writes : Nat → Nat) (size : Nat) : Prop :=
  ∀ w, 4 * w < size → writes w ≤ 1 ∧ (range memory (4 * w) 4 = erasedWord → writes w = 0)

/-- A flash that stores the chain of `e`, newest in slot `active`. -/
structure Stored (f : MemoryFlash) (active : Nat) (e : Epoch) (started : Bool) (reserved anchored : Nat) : Prop where
  two_le : 2 ≤ f.slotCount
  le_eight : f.slotCount ≤ 8
  whole : f.slotSize % 4 = 0
  large : overhead ≤ f.slotSize
  nonces : CounterIs f.nonces f.slotSize reserved
  monotonic : CounterIs f.monotonic f.slotSize anchored
  anchor_eq : anchor e.generation appendEnabled = anchored ∨ anchor e.generation appendEnabled = anchored + 1
  anchor_le : 4 * anchor e.generation appendEnabled ≤ f.slotSize
  active_lt : active < f.slotCount
  published : Published provider key appendEnabled (f.slots active) f.slotSize reserved e started false
  writes : FreshWrites (f.slots active) (f.slotWordWrites active) f.slotSize
  others : ∀ slot < f.slotCount, slot ≠ active →
    Passable provider key appendEnabled (f.slots slot) f.slotSize reserved e.generation
      (started && decide (slot = (active + 1) % f.slotCount))

variable {provider key appendEnabled}
variable {f : MemoryFlash} {active : Nat} {e : Epoch} {started : Bool} {reserved anchored : Nat}

theorem Stored.nonceGeneration (h : Stored provider key appendEnabled f active e started reserved anchored) :
    f.nonceGeneration = .ok reserved :=
  h.nonces.decode h.whole f.bounded

theorem Stored.monotonicGeneration (h : Stored provider key appendEnabled f active e started reserved anchored) :
    f.monotonicGeneration = .ok anchored :=
  h.monotonic.decode h.whole f.bounded

theorem Stored.nonceCapacity (h : Stored provider key appendEnabled f active e started reserved anchored) :
    reserved ≤ f.nonceCapacity := by
  have hFits := h.nonces.fits
  simp only [MemoryFlash.nonceCapacity, MemoryFlash.monotonicCapacity]
  omega

theorem Stored.readable (h : Stored provider key appendEnabled f active e started reserved anchored)
    {slot : Nat} (hSlot : slot < f.slotCount) : Readable f slot (f.slots slot) f.slotSize reserved :=
  ⟨hSlot, rfl, rfl, h.whole, h.large, h.nonceGeneration, h.nonceCapacity⟩

theorem Stored.read_active (h : Stored provider key appendEnabled f active e started reserved anchored) :
    readCandidate f key appendEnabled provider recorder active f.slotSize reserved =
      .ok (.valid (e.candidate appendEnabled f.slotSize active started false) e.contents) :=
  readCandidate_epochAt (h.readable h.active_lt) h.published.epoch h.published.attempt_le
    h.published.startedFlag h.published.completeFlag h.published.order

/-- What the scan has found after the slots below `k`. -/
structure ScanInvariant (f : MemoryFlash) (active : Nat) (e : Epoch) (started : Bool) (appendEnabled : Bool)
    (k : Nat) (scan : Scan) : Prop where
  found : active < k → scan.selected = some (e.candidate appendEnabled f.slotSize active started false)
  before : k ≤ active → ∀ c, scan.selected = some c → c.generation < e.generation
  corrupt : scan.sawCorruptCommitted = true → started = true

theorem Stored.scanSlot (h : Stored provider key appendEnabled f active e started reserved anchored)
    {k : Nat} (hk : k < f.slotCount) {scan : Scan} (hScan : ScanInvariant f active e started appendEnabled k scan) :
    ∃ next, scanSlot f key appendEnabled provider recorder reserved scan k = .ok next ∧
      ScanInvariant f active e started appendEnabled (k + 1) next := by
  have hErased : f.isErased k = .ok ((range (f.slots k) 0 f.slotSize).all (· == 0xff)) := by
    rw [MemoryFlash.isErased, if_pos hk]
  unfold Journal.scanSlot
  simp only [bind, Except.bind, hErased]
  generalize hNoted : (if (range (f.slots k) 0 f.slotSize).all (· == 0xff) = true then scan
    else { scan with sawNonErased := true }) = noted
  have hSelected : noted.selected = scan.selected := by
    rw [← hNoted]
    split <;> rfl
  have hCorrupt : noted.sawCorruptCommitted = scan.sawCorruptCommitted := by
    rw [← hNoted]
    split <;> rfl
  by_cases hActive : k = active
  · subst hActive
    rw [h.read_active]
    simp only
    refine ⟨{ noted with selected := some (e.candidate appendEnabled f.slotSize k started false) }, ?_, ?_⟩
    · cases hOld : noted.selected with
      | none => rfl
      | some c =>
          rw [hSelected] at hOld
          have hLess := hScan.before (Nat.le_refl _) c hOld
          exact if_pos hLess
    · exact ⟨fun _ => rfl, fun hLe => by omega, fun hSaw => hScan.corrupt (hCorrupt ▸ hSaw)⟩
  · have hSkip : ∀ next : Scan, next.selected = scan.selected →
        (next.sawCorruptCommitted = true → started = true) →
        ScanInvariant f active e started appendEnabled (k + 1) next := by
      intro next hSame hSaw
      refine ⟨fun hLt => ?_, fun hLe c hc => ?_, hSaw⟩
      · rw [hSame]
        exact hScan.found (by omega)
      · rw [hSame] at hc
        exact hScan.before (by omega) c hc
    have hKeep : noted.sawCorruptCommitted = true → started = true := fun hSaw => hScan.corrupt (hCorrupt ▸ hSaw)
    cases h.others k hk hActive with
    | older older oldStarted oldComplete published lt =>
        rw [readCandidate_epochAt (h.readable hk) published.epoch published.attempt_le published.startedFlag
          published.completeFlag published.order]
        simp only
        cases hOld : noted.selected with
        | none =>
            refine ⟨_, rfl, ⟨fun hLt => ?_, fun hLe c hc => ?_, hKeep⟩⟩
            · rw [hSelected, hScan.found (by omega)] at hOld
              cases hOld
            · injection hc with hc
              rw [← hc]
              exact lt
        | some current =>
            simp only
            by_cases hMore : current.generation < (older.candidate appendEnabled f.slotSize k oldStarted oldComplete).generation
            · rw [if_pos hMore]
              refine ⟨_, rfl, ⟨fun hLt => ?_, fun hLe c hc => ?_, hKeep⟩⟩
              · rw [hSelected, hScan.found (by omega)] at hOld
                injection hOld with hOld
                rw [← hOld] at hMore
                simp only [Epoch.candidate] at hMore
                omega
              · injection hc with hc
                rw [← hc]
                exact lt
            · rw [if_neg hMore]
              exact ⟨noted, rfl, hSkip noted hSelected hKeep⟩
    | vacant vacant =>
        rw [readCandidate_vacant (h.readable hk) vacant.notOld vacant.uncommitted]
        exact ⟨noted, rfl, hSkip noted hSelected hKeep⟩
    | reclaimed reclaiming wiped =>
        rw [Bool.and_eq_true] at reclaiming
        rcases readCandidate_wiped (h.readable hk) wiped with hRead | hRead
        · rw [hRead]
          exact ⟨noted, rfl, hSkip noted hSelected hKeep⟩
        · rw [hRead]
          exact ⟨_, rfl, hSkip _ hSelected fun _ => reclaiming.1⟩

theorem Stored.scan (h : Stored provider key appendEnabled f active e started reserved anchored) :
    ∀ k ≤ f.slotCount, ∃ scan, (List.range k).foldlM
      (Journal.scanSlot f key appendEnabled provider recorder reserved) ⟨none, false, false⟩ = .ok scan ∧
        ScanInvariant f active e started appendEnabled k scan
  | 0, _ => ⟨_, rfl, ⟨fun hLt => absurd hLt (by omega), fun _ c hc => (nomatch hc), fun hSaw => (nomatch hSaw)⟩⟩
  | k + 1, hk => by
      obtain ⟨scan, hFold, hScan⟩ := h.scan k (by omega)
      obtain ⟨next, hNext, hInvariant⟩ := h.scanSlot (by omega) hScan
      refine ⟨next, ?_, hInvariant⟩
      rw [List.range_succ, List.foldlM_append, hFold]
      simp only [bind, Except.bind, List.foldlM_cons, List.foldlM_nil, hNext, pure, Except.pure]

/-- Recovery selects the stored chain. -/
theorem Stored.selectCandidate (h : Stored provider key appendEnabled f active e started reserved anchored) :
    selectCandidate f key appendEnabled provider recorder =
      .ok (some (e.candidate appendEnabled f.slotSize active started false, e.contents)) := by
  obtain ⟨scan, hFold, hScan⟩ := h.scan f.slotCount (Nat.le_refl _)
  have hSelected := hScan.found h.active_lt
  have hAccepted : ¬((scan.sawCorruptCommitted && !scan.interruptedReclaim) ||
      (scan.sawNonErased && scan.selected.isNone)) = true := by
    rw [Scan.interruptedReclaim, hSelected]
    cases hSaw : scan.sawCorruptCommitted with
    | false => simp
    | true => simp [Epoch.candidate, hScan.corrupt hSaw]
  have hTwo := h.two_le
  have hEight := h.le_eight
  have hLarge := h.large
  have hCapacity := h.nonceCapacity
  unfold Journal.selectCandidate
  simp only [bind, Except.bind, failIf, h.nonceGeneration, hFold]
  rw [if_neg (by omega)]
  simp only [pure, Except.pure]
  rw [if_neg (by omega)]
  simp only
  rw [if_neg (by omega)]
  simp only
  rw [if_neg hAccepted]
  simp only [hSelected]
  have hRead := h.read_active
  simp only [Epoch.candidate] at hRead ⊢
  rw [hRead]
  simp

/-- The anchor counter may move as long as it stays within one of the chain. -/
theorem Stored.withMonotonic (h : Stored provider key appendEnabled f active e started reserved anchored)
    {counter : Nat → Byte} {value : Nat} (budget : Option Nat) (hCounter : CounterIs counter f.slotSize value)
    (hAnchor : anchor e.generation appendEnabled = value ∨ anchor e.generation appendEnabled = value + 1) :
    Stored provider key appendEnabled { f with monotonic := counter, failAfter := budget } active e started
      reserved value :=
  { h with monotonic := hCounter, anchor_eq := hAnchor }

/-- Reconciliation brings the counter up to the chain, or leaves it where it may
still be brought up to it. -/
theorem reconcileGeneration_spec (h : Stored provider key appendEnabled f active e started reserved anchored) :
    Triple (fun g => g = f) (reconcileGeneration (anchor e.generation appendEnabled))
      (fun _ g => g.armed = f.armed ∧
        Stored provider key appendEnabled g active e started reserved (anchor e.generation appendEnabled))
      (fun _ g => (g.armed = f.armed ∧ ∃ value, Stored provider key appendEnabled g active e started reserved value) ∧
        f.armed = true) := by
  have hBounded := f.bounded
  have hFits := h.monotonic.fits
  have hChain := h.anchor_le
  refine Triple.get fun g hg => ?_
  subst hg
  refine Triple.readOnly_bind (fun value hValue => ?_) fun error hError => ?_
  · rw [h.monotonicGeneration] at hValue
    injection hValue with hValue
    subst hValue
    refine Triple.failIf_bind (fun hOver => ?_) fun _ => ?_
    · simp only [MemoryFlash.monotonicCapacity] at hOver
      omega
    refine Triple.orFail_bind (fun hNone => ?_) fun next hNext => ?_
    · rw [checkedAdd64, if_pos (by omega)] at hNone
      cases hNone
    rw [checkedAdd64, if_pos (by omega)] at hNext
    injection hNext with hNext
    subst hNext
    refine Triple.failIf_bind (fun hOutside => ?_) fun _ => ?_
    · have := h.anchor_eq
      omega
    refine Triple.onlyIf (fun hBehind => ?_) fun hLevel => ?_
    · rw [hBehind]
      refine (advanceMonotonic_spec h.monotonic (by omega)).conseq (fun _ h => h) ?_ ?_
      · rintro _ _ ⟨c, x, rfl, hx, hCounter⟩
        exact ⟨hx, h.withMonotonic x hCounter (.inl hBehind)⟩
      · rintro _ _ ⟨⟨c, x, v, rfl, hx, hCounter, hMoved⟩, hArmed⟩
        exact ⟨⟨hx, v, h.withMonotonic x hCounter (by omega)⟩, hArmed⟩
    · rintro _ rfl
      have hEq : anchor e.generation appendEnabled = anchored := by
        have := h.anchor_eq
        omega
      rw [hEq]
      exact ⟨rfl, h⟩
  · rw [h.monotonicGeneration] at hError
    cases hError

section Recover

variable (provider)

/-- A recovered journal whose memory agrees with what its flash stores. -/
structure Live (j : Journal) (active : Nat) (e : Epoch) (started : Bool) (reserved : Nat) : Prop where
  stored : Stored provider j.key j.appendEnabled j.flash active e started reserved
    (anchor e.generation j.appendEnabled)
  poisoned : j.poisoned = false
  generation : j.generation = e.generation
  baseAttempt : j.baseAttempt = some e.attempt
  active : j.active = some active
  slotCount : j.slotCount = j.flash.slotCount
  appendOffset : j.appendEnabled = true → ∀ offset, j.appendOffset = some offset →
    offset = e.stop ∧ e.free = true ∧ started = false

/-- A journal whose flash stores `e`. Unless it is poisoned it is live. -/
def Keeps (j : Journal) (e : Epoch) : Prop :=
  ∃ active started reserved anchored,
    Stored provider j.key j.appendEnabled j.flash active e started reserved anchored ∧
      (j.poisoned = false → Live provider j active e started reserved)

variable {provider}

theorem Live.keeps {j : Journal} (h : Live provider j active e started reserved) : Keeps provider j e :=
  ⟨active, started, reserved, _, h.stored, fun _ => h⟩

theorem offered_eq_some {size stop offset : Nat} {free : Bool} (h : offered size stop free = some offset) :
    offset = stop ∧ free = true := by
  unfold offered at h
  split at h
  · rename_i hFree
    injection h with h
    exact ⟨h.symm, hFree.1⟩
  · cases h

/-- Recovery of a stored chain returns its plaintexts and a live journal. It
fails only by a power cut, which leaves the chain stored. -/
theorem recoverWithReplayMode_spec {j : Journal} (allowUnreconciled : Bool) (hKeeps : Keeps provider j e) :
    Triple (fun s => s = j) (recoverWithReplayMode provider recorder allowUnreconciled)
      (fun contents j' => contents = some e.contents ∧ Keeps provider j' e ∧ j'.key = j.key ∧
        j'.appendEnabled = j.appendEnabled ∧ j'.flash.armed = j.flash.armed ∧
        (j.flash.armed = false → ∃ active started reserved, Live provider j' active e started reserved))
      (fun _ j' => Keeps provider j' e ∧ j'.key = j.key ∧ j'.appendEnabled = j.appendEnabled ∧
        j'.flash.armed = j.flash.armed ∧ j.flash.armed = true) := by
  obtain ⟨active, started, reserved, anchored, hStored, -⟩ := hKeeps
  intro s hs
  rw [hs]
  have hReconcile := reconcileGeneration_spec hStored j.flash rfl
  unfold recoverWithReplayMode
  simp only [bind, EStateM.bind, modify, modifyGet, MonadStateOf.modifyGet, EStateM.modifyGet, get, getThe,
    MonadStateOf.get, EStateM.get, readOnly, hStored.selectCandidate, capture, onFlash, Epoch.candidate]
  cases hRun : reconcileGeneration (anchor e.generation j.appendEnabled) j.flash with
  | ok a flash =>
      rw [hRun] at hReconcile
      obtain ⟨hArmed, hLevel⟩ := hReconcile
      simp only
      refine ⟨rfl, ?_⟩
      have hLive : Live provider (Journal.mk flash e.generation (some e.attempt) (some active)
          (if started then none else if j.appendEnabled then offered j.flash.slotSize e.stop e.free else none)
          j.appendEnabled flash.slotCount false j.key) active e started reserved := by
        refine ⟨hLevel, rfl, rfl, rfl, rfl, rfl, fun hMode offset hOffset => ?_⟩
        simp only at hMode hOffset
        rw [hMode] at hOffset
        cases hFlag : started with
        | true => simp [hFlag] at hOffset
        | false =>
            simp only [hFlag, if_true] at hOffset
            obtain ⟨hEq, hFree⟩ := offered_eq_some hOffset
            exact ⟨hEq, hFree, rfl⟩
      exact ⟨hLive.keeps, rfl, rfl, hArmed, fun _ => ⟨_, _, _, hLive⟩⟩
  | error err flash =>
      rw [hRun] at hReconcile
      obtain ⟨⟨hArmed, value, hStill⟩, hCut⟩ := hReconcile
      have hKept : Keeps provider (Journal.mk flash e.generation (some e.attempt) (some active)
          (if started then none else if j.appendEnabled then offered j.flash.slotSize e.stop e.free else none)
          j.appendEnabled flash.slotCount true j.key) e :=
        ⟨active, started, reserved, value, hStill, fun hClean => by cases hClean⟩
      cases allowUnreconciled with
      | true => exact ⟨rfl, hKept, rfl, rfl, hArmed, fun hUncut => by rw [hUncut] at hCut; cases hCut⟩
      | false => exact ⟨hKept, rfl, rfl, hArmed, hCut⟩

end Recover

section Inversion

variable {σ : Type} {f : MemoryFlash} {key : List Byte} {appendEnabled : Bool} {provider : CryptoProvider}
  {replay : Replay σ} {slot reserved : Nat} {candidate : CandidateMeta} {state : σ}

theorem read_ok {offset count : Nat} {bytes : List Byte} (h : f.read slot offset count = .ok bytes) :
    slot < f.slotCount ∧ offset + count ≤ f.slotSize ∧ bytes = range (f.slots slot) offset count := by
  unfold MemoryFlash.read at h
  split at h
  · rename_i hBounds
    injection h with h
    exact ⟨hBounds.1, hBounds.2, h.symm⟩
  · cases h

/-- What a slot must hold for recovery to accept it, whatever wrote it there. -/
structure Accepted (f : MemoryFlash) (key : List Byte) (appendEnabled : Bool) (provider : CryptoProvider)
    (replay : Replay σ) (slot reserved : Nat) (candidate : CandidateMeta) (state : σ) : Prop where
  slot_lt : slot < f.slotCount
  slot_eq : candidate.slot = slot
  committed : range (f.slots slot) (f.slotSize - committed) 4 = zeroWord
  large : overhead ≤ f.slotSize
  header : RecordHeader.decode (range (f.slots slot) 0 headerBytes) (f.slotSize - headerBytes - tailBytes) reserved =
    .ok ⟨appendEnabled, candidate.baseGeneration, candidate.attempt, candidate.payloadLength⟩
  opens : ∃ plaintext offset, provider.aesCcmDecrypt key (nonce candidate.attempt) (range (f.slots slot) 0 headerBytes)
      (range (f.slots slot) headerBytes candidate.payloadLength) = .ok plaintext ∧
    plaintext.length = candidate.payloadLength - 16 ∧
    (if appendEnabled then replayEpoch f key slot (wordAlign (headerBytes + candidate.payloadLength))
        candidate.baseGeneration candidate.attempt provider replay (replay.init plaintext)
      else .ok (candidate.baseGeneration, none, replay.init plaintext)) = .ok (candidate.generation, offset, state) ∧
    (∀ o, candidate.appendOffset = some o → offset = some o)

theorem judgeFlags_valid {tail : List Byte} {given : CandidateMeta} {given' : σ}
    (h : judgeFlags tail given given' = .valid candidate state) :
    state = given' ∧ candidate.slot = given.slot ∧ candidate.baseGeneration = given.baseGeneration ∧
      candidate.attempt = given.attempt ∧ candidate.payloadLength = given.payloadLength ∧
      candidate.generation = given.generation ∧ ∀ o, candidate.appendOffset = some o → given.appendOffset = some o := by
  unfold judgeFlags at h
  simp only at h
  split at h
  · cases h
  split at h
  · cases h
  injection h with hCandidate hState
  subst hCandidate
  refine ⟨hState.symm, rfl, rfl, rfl, rfl, rfl, fun o ho => ?_⟩
  simp only at ho
  split at ho
  · cases ho
  · exact ho

theorem readCandidate_valid (hLarge : overhead ≤ f.slotSize)
    (h : readCandidate f key appendEnabled provider replay slot f.slotSize reserved = .ok (.valid candidate state)) :
    Accepted f key appendEnabled provider replay slot reserved candidate state := by
  unfold readCandidate at h
  simp only [bind, Except.bind, failIf] at h
  split at h
  · cases h
  rename_i header hHeader
  obtain ⟨hSlot, -, rfl⟩ := read_ok hHeader
  split at h
  · cases h
  split at h
  · cases h
  rename_i tail hTail
  obtain ⟨-, hTailBounds, hTailEq⟩ := read_ok hTail
  split at h
  · cases h
  rename_i hCommit
  split at h
  · cases h
  · cases h
  rename_i decoded hDecoded
  split at h
  · cases h
  rename_i hMode
  split at hMode
  · cases hMode
  rename_i hMode'
  split at h
  · cases h
  rename_i ciphertext hCipher
  obtain ⟨-, -, rfl⟩ := read_ok hCipher
  split at h
  · cases h
  · cases h
  rename_i plaintext hPlain
  split at h
  · cases h
  rename_i hLength
  split at hLength
  · cases hLength
  rename_i hLength'
  split at h
  · cases h
  · cases h
  · cases h
  rename_i generation offset result hReplay
  injection h with h
  obtain ⟨rfl, hSlotEq, hBase, hAttempt, hPayload, hGeneration, hOffset⟩ := judgeFlags_valid h
  simp only at hSlotEq hBase hAttempt hPayload hGeneration hOffset
  have hCommitted : range (f.slots slot) (f.slotSize - Journal.committed) 4 = zeroWord := by
    have hDrop : tail.drop (tailBytes - Journal.committed) = range (f.slots slot) (f.slotSize - Journal.committed) 4 := by
      rw [hTailEq, range_drop _ (by decide)]
      simp only [tailBytes, Journal.committed, overhead, recordOverhead, headerBytes] at hLarge ⊢
      congr 1
      omega
    rw [← hDrop]
    exact not_not.1 hCommit
  refine ⟨hSlot, hSlotEq, hCommitted, hLarge, ?_, plaintext, offset, ?_, ?_, ?_, hOffset⟩
  · rw [hDecoded]
    have hSame : decoded.appendEnabled = appendEnabled := by simpa using hMode'
    rw [hBase, hAttempt, hPayload, ← hSame]
  · rw [hAttempt, hPayload]
    exact hPlain
  · rw [hPayload]
    omega
  · rw [hAttempt, hPayload, hBase, hGeneration]
    exact hReplay

/-- The selected candidate was read from its slot. -/
theorem selectCandidate_accepted {n : Nat} (hReserved : f.nonceGeneration = .ok n)
    (h : selectCandidate f key appendEnabled provider replay = .ok (some (candidate, state))) :
    Accepted f key appendEnabled provider replay candidate.slot n candidate state := by
  unfold selectCandidate at h
  simp only [bind, Except.bind, failIf, hReserved] at h
  split at h
  · cases h
  split at h
  · cases h
  rename_i hLarge
  split at hLarge
  · cases hLarge
  rename_i hLarge'
  split at h
  · cases h
  split at h
  · cases h
  rename_i scan hScan
  split at h
  · cases h
  split at h
  · cases h
  rename_i chosen hChosen
  split at h
  · cases h
  rename_i read hRead
  split at h
  · rename_i reloaded result
    split at h
    · rename_i hSame
      injection h with h
      injection h with h
      injection h with hCandidate hState
      subst hCandidate hState hSame
      exact readCandidate_valid (by omega) hRead
    · cases h
  · cases h

/-- What a frame must hold for replay to take it, whatever wrote it there. -/
structure FrameAccepted (f : MemoryFlash) (key : List Byte) (provider : CryptoProvider)
    (slot start generation attempt reserved : Nat) (record : DecodedAppend) (length : Nat) : Prop where
  header : RecordHeader.decode (range (f.slots slot) start headerBytes) (maxPayload + 16) reserved =
    .ok ⟨true, record.generation, attempt, length⟩
  stop : frameEnd f start (length - 16) = .ok record.stop
  sequence : sequence record.generation = Journal.sequence generation + 1
  anchor : anchor record.generation true = Journal.anchor generation true ∨
    Journal.anchor record.generation true = Journal.anchor generation true + 1
  opens : ∃ label, appendNonce attempt start = .ok label ∧
    provider.aesCcmDecrypt key label (range (f.slots slot) start headerBytes)
      (range (f.slots slot) (start + headerBytes) length) = .ok record.payload
  size : record.payload.length = length - 16

theorem readFrame_some {start generation attempt : Nat} {record : DecodedAppend} {n : Nat}
    (hReserved : f.nonceGeneration = .ok n)
    (h : readFrame f key slot start generation attempt provider = .ok (some record)) :
    ∃ length, FrameAccepted f key provider slot start generation attempt n record length := by
  unfold readFrame at h
  simp only [bind, Except.bind, failIf, orFail, hReserved] at h
  split at h
  · cases h
  split at h
  · cases h
  rename_i bytes hRead
  obtain ⟨-, -, rfl⟩ := read_ok hRead
  split at h
  · cases h
  split at h
  · cases h
  split at h
  · cases h
  · cases h
  rename_i header hHeader
  split at h
  · cases h
  · cases h
  rename_i stop hStop
  split at h
  · cases h
  split at h
  · cases h
  split at h
  · cases h
  rename_i next hNext
  split at h
  · cases h
  rename_i hChecks
  split at hChecks
  · cases hChecks
  rename_i hFields
  split at h
  · cases h
  rename_i payload hPayload
  obtain ⟨-, -, rfl⟩ := read_ok hPayload
  split at h
  · cases h
  rename_i label hLabel
  split at h
  · cases h
  rename_i plaintext hPlain
  split at h
  · cases h
  rename_i hLength
  split at hLength
  · cases hLength
  rename_i hSize
  injection h with h
  injection h with h
  subst h
  have hNext' : next = Journal.sequence generation + 1 := by
    split at hNext
    · rename_i hChecked
      injection hNext with hNext
      unfold checkedAdd32 at hChecked
      split at hChecked
      · injection hChecked with hChecked
        omega
      · cases hChecked
    · cases hNext
  simp only [not_or, not_not] at hFields
  obtain ⟨hEnabled, hSequence, hAnchor, hAttempt⟩ := hFields
  refine ⟨header.payloadLength, ?_, hStop, hSequence.trans hNext', ?_, ⟨label, hLabel, hPlain⟩, ?_⟩
  · rw [hHeader, ← hAttempt]
    simp only [Bool.not_eq_true, Bool.not_eq_false'] at hEnabled
    rw [← hEnabled]
  · by_cases hSame : Journal.anchor header.generation true = Journal.anchor generation true
    · exact .inl hSame
    · exact .inr (Classical.byContradiction fun hNew => hAnchor ⟨hSame, hNew⟩)
  · rw [length_range] at hSize
    exact not_not.1 hSize

theorem frameEnd_le {start length stop : Nat} (h : frameEnd f start length = .ok stop) : start ≤ stop := by
  simp only [frameEnd] at h
  split at h
  · cases h
  split at h
  · cases h
  split at h
  · injection h with h
    simp only [minFrameBytes, headerBytes, markerBytes] at h
    omega
  · cases h

/-- Replay offers only places behind the one it starts from. -/
theorem replayFrom_offset {attempt : Nat} {o n : Nat} (hReserved : f.nonceGeneration = .ok n) : ∀ (fuel start generation : Nat) (current : σ)
    {last : Nat} {final : σ},
    replayFrom f key slot attempt provider replay fuel start generation current = .ok (last, some o, final) → start ≤ o
  | 0, _, _, _, _, _, h => by
      unfold replayFrom at h
      cases h
  | fuel + 1, start, generation, current, last, final, h => by
      unfold replayFrom at h
      split at h
      · cases h
      simp only [bind, Except.bind] at h
      split at h
      · cases h
      rename_i frame hFrame
      cases frame with
      | none =>
          simp only at h
          split at h
          · cases h
          rename_i available _
          cases available with
          | false => cases h
          | true =>
              simp only [pure, Except.pure, if_true, Except.ok.injEq, Prod.mk.injEq, Option.some.injEq] at h
              exact Nat.le_of_eq h.2.1
      | some record =>
          simp only at h
          split at h
          · cases h
          have hNext := replayFrom_offset hReserved fuel record.stop record.generation _ h
          obtain ⟨length, hTaken⟩ := readFrame_some hReserved hFrame
          exact (frameEnd_le hTaken.stop).trans hNext

theorem Accepted.offset_le (h : Accepted f key appendEnabled provider replay slot reserved candidate state) {o : Nat}
    (hReserved : f.nonceGeneration = .ok reserved) (ho : candidate.appendOffset = some o) : headerBytes ≤ o := by
  obtain ⟨plaintext, offset, -, -, hReplay, hOffset⟩ := h.opens
  rw [hOffset o ho] at hReplay
  cases appendEnabled with
  | false =>
      injection hReplay with hReplay
      simp at hReplay
  | true =>
      simp only [if_true, replayEpoch] at hReplay
      split at hReplay
      · cases hReplay
      have hStart := replayFrom_offset hReserved _ _ _ _ hReplay
      simp only [wordAlign] at hStart
      omega

end Inversion

end MicroCard.Journal
