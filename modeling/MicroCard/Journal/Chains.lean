import MicroCard.Journal.Nonces
import MicroCard.Library.Lineage

/-! The states that can be read back from what was completely programmed. Slots
and markers are not trusted here: whoever writes the flash may pair any snapshot
with any frames. What binds a frame to its place is its nonce, which names the
epoch and the offset, so the readable states of an epoch form one chain. -/
namespace MicroCard.Journal

open Bytes CrashTriple Relation

/-- No two completed records share a nonce. -/
def UniqueLabels (records : List (List Byte × List Byte)) : Prop :=
  ∀ label first second, (label, first) ∈ records → (label, second) ∈ records → first = second

section Chains

variable (provider : CryptoProvider) (key : List Byte) (appendEnabled : Bool) (size : Nat)
  (records : List (List Byte × List Byte))

/-- A completed snapshot: where frames may follow it, and the state it holds. -/
def Base (attempt : Nat) (node : Nat × Logical) : Prop :=
  ∃ record generation data, attempt < 2 ^ 64 ∧ generation < 2 ^ 64 ∧ (nonce attempt, record) ∈ records ∧
    SealedRecord provider key (nonce attempt) ⟨appendEnabled, generation, attempt, data.length + 16⟩ data record ∧
    node = (wordAlign (headerBytes + (data.length + 16)), ⟨generation, data, []⟩)

/-- A completed frame of an epoch, and the state it adds to. -/
def FrameStep (attempt : Nat) (node next : Nat × Logical) : Prop :=
  ∃ label record generation data, appendNonce attempt node.1 = .ok label ∧ generation < 2 ^ 64 ∧
    (label, record) ∈ records ∧
    SealedRecord provider key label ⟨true, generation, attempt, data.length + 16⟩ data record ∧
    frameStop node.1 data.length ≤ size - tailBytes ∧
    next = (frameStop node.1 data.length,
      ⟨generation, node.2.contents.snapshot, node.2.contents.appended ++ [data]⟩)

/-- A state that can be read from the completed records of one epoch. -/
def Chained (attempt : Nat) (node : Nat × Logical) : Prop :=
  ∃ base, Base provider key appendEnabled records attempt base ∧
    ReflTransGen (FrameStep provider key size records attempt) base node

/-- A state that can be read from the completed records. -/
def ReadableState (state : Logical) : Prop :=
  ∃ attempt stop, Chained provider key appendEnabled size records attempt (stop, state)

variable {provider key appendEnabled size records}
variable {attempt : Nat} {node next : Nat × Logical}

/-- A record determines its header's generation and its plaintext. -/
theorem SealedRecord.unique {label record data data' : List Byte} {mode mode' : Bool} {generation generation' : Nat}
    {length length' : Nat} (hBounded : generation < 2 ^ 64) (hBounded' : generation' < 2 ^ 64)
    (h : SealedRecord provider key label ⟨mode, generation, attempt, length⟩ data record)
    (h' : SealedRecord provider key label ⟨mode', generation', attempt, length'⟩ data' record) :
    generation = generation' ∧ data = data' := by
  obtain ⟨ciphertext, hRecord, -, hOpens⟩ := h.split
  obtain ⟨ciphertext', hRecord', -, hOpens'⟩ := h'.split
  have hSame := hRecord.symm.trans hRecord'
  obtain ⟨hHeader, hCiphertext⟩ := List.append_inj hSame (by rw [RecordHeader.length_encode, RecordHeader.length_encode])
  rw [hHeader, hCiphertext, hOpens'] at hOpens
  injection hOpens with hData
  refine ⟨?_, hData.symm⟩
  have hGeneration := congrArg (fun bytes => (bytes.drop 4).take 8) hHeader
  simp only [RecordHeader.encode_generation] at hGeneration
  exact toLE_injective (by simpa using hBounded) (by simpa using hBounded') hGeneration

theorem Base.unique (hUnique : UniqueLabels records) (h : Base provider key appendEnabled records attempt node)
    (h' : Base provider key appendEnabled records attempt next) : node = next := by
  obtain ⟨record, generation, data, -, hBounded, hMem, hSealed, rfl⟩ := h
  obtain ⟨record', generation', data', -, hBounded', hMem', hSealed', rfl⟩ := h'
  rw [hUnique _ _ _ hMem hMem'] at hSealed
  obtain ⟨rfl, rfl⟩ := hSealed.unique hBounded hBounded' hSealed'
  rfl

theorem FrameStep.rightUnique (hUnique : UniqueLabels records) :
    Relator.RightUnique (FrameStep provider key size records attempt) := by
  intro x y z h h'
  obtain ⟨label, record, generation, data, hLabel, hBounded, hMem, hSealed, -, rfl⟩ := h
  obtain ⟨label', record', generation', data', hLabel', hBounded', hMem', hSealed', -, rfl⟩ := h'
  rw [hLabel] at hLabel'
  injection hLabel' with hLabel'
  subst hLabel'
  rw [hUnique _ _ _ hMem hMem'] at hSealed
  obtain ⟨rfl, rfl⟩ := hSealed.unique hBounded hBounded' hSealed'
  rfl

theorem lt_frameStop (start length : Nat) : start < frameStop start length := by
  simp only [frameStop, minFrameBytes, headerBytes, markerBytes]
  omega

theorem FrameStep.lt (h : FrameStep provider key size records attempt node next) : node.1 < next.1 := by
  obtain ⟨label, record, generation, data, -, -, -, -, -, rfl⟩ := h
  exact lt_frameStop ..

theorem FrameStep.le_of_reaches (h : ReflTransGen (FrameStep provider key size records attempt) node next) :
    node.1 ≤ next.1 := by
  induction h with
  | refl => exact Nat.le_refl _
  | tail _ last ih => exact ih.trans last.lt.le

theorem FrameStep.eq_of_reaches (h : ReflTransGen (FrameStep provider key size records attempt) node next)
    (hStop : node.1 = next.1) : node = next := by
  cases h using ReflTransGen.head_induction_on with
  | refl => rfl
  | head first rest =>
      have hLt := first.lt
      have hLe := FrameStep.le_of_reaches rest
      omega

/-- An epoch has at most one readable state behind each offset. -/
theorem Chained.unique (hUnique : UniqueLabels records) {stop : Nat} {first second : Logical}
    (h : Chained provider key appendEnabled size records attempt (stop, first))
    (h' : Chained provider key appendEnabled size records attempt (stop, second)) : first = second := by
  obtain ⟨base, hBase, hReach⟩ := h
  obtain ⟨base', hBase', hReach'⟩ := h'
  rw [hBase'.unique hUnique hBase] at hReach'
  rcases ReflTransGen.total_of_right_unique (FrameStep.rightUnique hUnique) hReach hReach' with hPath | hPath
  · exact congrArg Prod.snd (FrameStep.eq_of_reaches hPath rfl)
  · exact congrArg Prod.snd (FrameStep.eq_of_reaches hPath rfl).symm

theorem Chained.mono {records' : List (List Byte × List Byte)} (hSub : ∀ r ∈ records, r ∈ records')
    (h : Chained provider key appendEnabled size records attempt node) :
    Chained provider key appendEnabled size records' attempt node := by
  obtain ⟨base, ⟨record, generation, data, hAttempt, hBounded, hMem, hRest⟩, hReach⟩ := h
  refine ⟨base, ⟨record, generation, data, hAttempt, hBounded, hSub _ hMem, hRest⟩, ?_⟩
  refine ReflTransGen.mono ?_ _ _ hReach
  rintro x y ⟨label, record, generation, data, hLabel, hBounded, hMem, hRest⟩
  exact ⟨label, record, generation, data, hLabel, hBounded, hSub _ hMem, hRest⟩

/-- A new snapshot under an attempt without frames adds one readable state. -/
theorem chained_cons_snapshot {fresh generation : Nat} {record data : List Byte} (hFresh : fresh < 2 ^ 64)
    (hBounded : generation < 2 ^ 64)
    (hSealed : SealedRecord provider key (nonce fresh) ⟨appendEnabled, generation, fresh, data.length + 16⟩ data record)
    (hNone : ∀ offset label bytes, appendNonce fresh offset = .ok label → (label, bytes) ∉ records)
    (h : Chained provider key appendEnabled size ((nonce fresh, record) :: records) attempt node) :
    Chained provider key appendEnabled size records attempt node ∨ node.2 = ⟨generation, data, []⟩ := by
  obtain ⟨base, hBase, hReach⟩ := h
  have hStep : ∀ {x y}, FrameStep provider key size ((nonce fresh, record) :: records) attempt x y →
      FrameStep provider key size records attempt x y ∧ attempt ≠ fresh := by
    rintro x y ⟨label, bytes, g, d, hLabel, hg, hMem, hRest⟩
    have hOld : (label, bytes) ∈ records := by
      rcases List.mem_cons.1 hMem with hEq | hOld
      · injection hEq with hEq
        rw [hEq] at hLabel
        exact absurd hLabel (appendNonce_ne_nonce _ _ _)
      · exact hOld
    refine ⟨⟨label, bytes, g, d, hLabel, hg, hOld, hRest⟩, fun hSame => ?_⟩
    exact hNone x.1 label bytes (hSame ▸ hLabel) hOld
  obtain ⟨bytes, g, d, hAttempt, hg, hMem, hBaseSealed, rfl⟩ := hBase
  rcases List.mem_cons.1 hMem with hEq | hOld
  · injection hEq with hNonce hBytes
    have hSame := nonce_injective hAttempt hFresh hNonce
    subst hSame hBytes
    obtain ⟨rfl, rfl⟩ := hBaseSealed.unique hg hBounded hSealed
    cases hReach using ReflTransGen.head_induction_on with
    | refl => exact .inr rfl
    | head first _ => exact absurd rfl (hStep first).2
  · exact .inl ⟨_, ⟨bytes, g, d, hAttempt, hg, hOld, hBaseSealed, rfl⟩, ReflTransGen.mono (fun _ _ h => (hStep h).1) _ _ hReach⟩

/-- A new frame at the end of an epoch adds one readable state. -/
theorem chained_cons_frame {epoch start generation : Nat} {label record data : List Byte} {state : Logical}
    (hUnique : UniqueLabels records) (hEpoch : epoch < 2 ^ 64) (hBounded : generation < 2 ^ 64)
    (hLabel : appendNonce epoch start = .ok label)
    (hSealed : SealedRecord provider key label ⟨true, generation, epoch, data.length + 16⟩ data record)
    (hLast : ∀ offset label bytes, start ≤ offset → offset + minFrameBytes ≤ size - tailBytes →
      appendNonce epoch offset = .ok label → (label, bytes) ∉ records)
    (hState : Chained provider key appendEnabled size records epoch (start, state))
    (h : Chained provider key appendEnabled size ((label, record) :: records) attempt node) :
    Chained provider key appendEnabled size records attempt node ∨
      node.2 = ⟨generation, state.contents.snapshot, state.contents.appended ++ [data]⟩ := by
  obtain ⟨base, ⟨bytes, g, d, hAttempt, hg, hMem, hRest⟩, hReach⟩ := h
  have hOldBase : (nonce attempt, bytes) ∈ records := by
    rcases List.mem_cons.1 hMem with hEq | hOld
    · injection hEq with hEq
      rw [← hEq] at hLabel
      exact absurd hLabel (appendNonce_ne_nonce _ _ _)
    · exact hOld
  -- the new frame is the last step of every chain that uses it
  have hChain : Chained provider key appendEnabled size records attempt node ∨ (attempt = epoch ∧ start < node.1 ∧
      node.2 = ⟨generation, state.contents.snapshot, state.contents.appended ++ [data]⟩) := by
    induction hReach with
    | refl => exact .inl ⟨base, ⟨bytes, g, d, hAttempt, hg, hOldBase, hRest⟩, ReflTransGen.refl⟩
    | @tail x y _ last ih =>
        obtain ⟨stepLabel, stepBytes, g', d', hStepLabel, hg', hStepMem, hStepSealed, hRoom, rfl⟩ := last
        have hPlace : x.1 + minFrameBytes ≤ size - tailBytes := by
          simp only [frameStop, minFrameBytes, headerBytes, markerBytes] at hRoom ⊢
          omega
        rcases ih with hOld | ⟨rfl, hLt, -⟩
        · rcases List.mem_cons.1 hStepMem with hEq | hStepOld
          · injection hEq with hSameLabel hSameBytes
            subst hSameLabel hSameBytes
            obtain ⟨rfl, hOffset⟩ := appendNonce_injective hAttempt hEpoch hStepLabel hLabel
            obtain ⟨offset, before⟩ := x
            simp only at hOffset hStepLabel hRoom
            subst hOffset
            obtain ⟨rfl, rfl⟩ := hStepSealed.unique hg' hBounded hSealed
            rw [hOld.unique hUnique hState]
            exact .inr ⟨rfl, lt_frameStop .., rfl⟩
          · obtain ⟨b, hb, hPath⟩ := hOld
            exact .inl ⟨b, hb, hPath.tail ⟨stepLabel, stepBytes, g', d', hStepLabel, hg', hStepOld, hStepSealed,
              hRoom, rfl⟩⟩
        · rcases List.mem_cons.1 hStepMem with hEq | hStepOld
          · injection hEq with hSameLabel _
            subst hSameLabel
            have hOffset := (appendNonce_injective hAttempt hEpoch hStepLabel hLabel).2
            omega
          · exact absurd hStepOld (hLast x.1 stepLabel stepBytes hLt.le hPlace hStepLabel)
  rcases hChain with hOld | ⟨-, -, hNew⟩
  · exact .inl hOld
  · exact .inr hNew

end Chains
section Reading

variable {provider : CryptoProvider} {key : List Byte} {appendEnabled : Bool} {f : MemoryFlash}
  {records : List (List Byte × List Byte)} {slot attempt reserved : Nat}

/-- Whatever opens anywhere on the flash was completely programmed before, under
the nonce it opens with. Torn data and data sealed elsewhere do not open. -/
def Authentic (provider : CryptoProvider) (key : List Byte) (slots : Nat → Nat → Byte)
    (records : List (List Byte × List Byte)) : Prop :=
  ∀ slot offset length label plaintext,
    provider.aesCcmDecrypt key label (range (slots slot) offset headerBytes)
      (range (slots slot) (offset + headerBytes) length) = .ok plaintext →
    (label, range (slots slot) offset (headerBytes + length)) ∈ records

theorem sealedRecord_of_opens {memory : Nat → Byte} {offset length : Nat} {label data : List Byte} {header : RecordHeader}
    (hHeader : header.encode = range memory offset headerBytes) (hLength : data.length + 16 = length)
    (hOpens : provider.aesCcmDecrypt key label (range memory offset headerBytes)
      (range memory (offset + headerBytes) length) = .ok data) :
    SealedRecord provider key label header data (range memory offset (headerBytes + length)) := by
  refine ⟨range memory (offset + headerBytes) length, ?_, ?_, ?_⟩
  · rw [hHeader, range_add]
  · rw [length_range, hLength]
  · rw [hHeader]
    exact hOpens

theorem FrameAccepted.step (hAuthentic : Authentic provider key f.slots records) {start generation length : Nat}
    {contents : Contents} {record : DecodedAppend}
    (h : FrameAccepted f key provider slot start generation attempt reserved record length) :
    FrameStep provider key f.slotSize records attempt (start, ⟨generation, contents⟩)
      (record.stop, ⟨record.generation, contents.snapshot, contents.appended ++ [record.payload]⟩) := by
  obtain ⟨hEncode, hFields⟩ := RecordHeader.encode_decode (length_range _ _ _) h.header
  have hMin := hFields.payload_min
  have hSize := h.size
  simp only at hMin
  have hLength : record.payload.length + 16 = length := by omega
  obtain ⟨label, hLabel, hOpens⟩ := h.opens
  obtain ⟨-, -, hStop, hRoom⟩ := frameEnd_ok h.stop
  rw [← hSize] at hStop
  refine ⟨label, _, record.generation, record.payload, hLabel, hFields.generation,
    hAuthentic slot start length label _ hOpens, ?_, hStop ▸ hRoom, ?_⟩
  · rw [hLength]
    exact sealedRecord_of_opens hEncode hLength hOpens
  · rw [hStop]

/-- Replay stays among the readable states of the epoch it started in. -/
theorem replayFrom_chained (hAuthentic : Authentic provider key f.slots records)
    (hReserved : f.nonceGeneration = .ok reserved) : ∀ (fuel start generation : Nat) (contents : Contents)
    {last : Nat} {offset : Option Nat} {final : Contents},
    replayFrom f key slot attempt provider recorder fuel start generation contents = .ok (last, offset, final) →
    Chained provider key appendEnabled f.slotSize records attempt (start, ⟨generation, contents⟩) →
    ∃ stop, Chained provider key appendEnabled f.slotSize records attempt (stop, ⟨last, final⟩)
  | 0, _, _, _, _, _, _, h, _ => by
      unfold replayFrom at h
      cases h
  | fuel + 1, start, generation, contents, last, offset, final, h, hChained => by
      unfold replayFrom at h
      split at h
      · injection h with h
        injection h with hLast hRest
        injection hRest with _ hFinal
        rw [← hLast, ← hFinal]
        exact ⟨start, hChained⟩
      simp only [bind, Except.bind] at h
      split at h
      · cases h
      rename_i frame hFrame
      cases frame with
      | none =>
          simp only at h
          split at h
          · cases h
          simp only [pure, Except.pure, Except.ok.injEq, Prod.mk.injEq] at h
          rw [← h.1, ← h.2.2]
          exact ⟨start, hChained⟩
      | some record =>
          obtain ⟨length, hTaken⟩ := readFrame_some hReserved hFrame
          obtain ⟨base, hBase, hReach⟩ := hChained
          exact replayFrom_chained hAuthentic hReserved fuel record.stop record.generation _ h
            ⟨base, hBase, hReach.tail (hTaken.step hAuthentic)⟩

/-- An accepted slot holds a readable state. -/
theorem Accepted.readable (hAuthentic : Authentic provider key f.slots records)
    (hReserved : f.nonceGeneration = .ok reserved) {candidate : CandidateMeta} {contents : Contents}
    (h : Accepted f key appendEnabled provider recorder slot reserved candidate contents) :
    ReadableState provider key appendEnabled f.slotSize records ⟨candidate.generation, contents⟩ := by
  obtain ⟨hEncode, hFields⟩ := RecordHeader.encode_decode (length_range _ _ _) h.header
  have hMin := hFields.payload_min
  simp only at hMin
  obtain ⟨plaintext, offset, hOpens, hSize, hReplay, -⟩ := h.opens
  have hLength : plaintext.length + 16 = candidate.payloadLength := by omega
  have hBase : Base provider key appendEnabled records candidate.attempt
      (wordAlign (headerBytes + candidate.payloadLength), ⟨candidate.baseGeneration, plaintext, []⟩) := by
    have hPlace : 0 + headerBytes = headerBytes := Nat.zero_add _
    rw [← hPlace] at hOpens
    refine ⟨_, candidate.baseGeneration, plaintext, hFields.attempt_lt, hFields.generation,
      hAuthentic slot 0 _ _ _ hOpens, ?_, by rw [hLength]⟩
    rw [hLength]
    exact sealedRecord_of_opens hEncode hLength hOpens
  refine ⟨candidate.attempt, ?_⟩
  cases appendEnabled with
  | false =>
      injection hReplay with hReplay
      injection hReplay with hGeneration hRest
      injection hRest with _ hContents
      rw [← hGeneration, ← hContents]
      exact ⟨_, _, hBase, ReflTransGen.refl⟩
  | true =>
      simp only [if_true, replayEpoch] at hReplay
      split at hReplay
      · cases hReplay
      exact replayFrom_chained hAuthentic hReserved _ _ _ _ hReplay ⟨_, hBase, ReflTransGen.refl⟩

end Reading

section Opening

variable {provider : CryptoProvider} {key : List Byte} {appendEnabled : Bool} {f : MemoryFlash}

/-- What a successful opening selected and reconciled. -/
theorem openMode_ok {σ : Type} {replay : Replay σ} {state : Option σ} {j : Journal}
    (h : openMode f key provider appendEnabled replay = .ok state j) :
    ∃ selected, selectCandidate f key appendEnabled provider replay = .ok selected ∧ state = selected.map Prod.snd ∧
      j.generation = (selected.map fun pair => pair.1.generation).getD 0 ∧
      reconcileGeneration (anchor j.generation appendEnabled) f = .ok () j.flash := by
  obtain ⟨selected, hSelect⟩ := openMode_selects h
  unfold openMode recoverWithReplay recoverWithReplayMode at h
  simp only [bind, EStateM.bind, modify, modifyGet, MonadStateOf.modifyGet, EStateM.modifyGet, get, getThe,
    MonadStateOf.get, EStateM.get, readOnly, Journal.unopened, hSelect, capture, onFlash] at h
  refine ⟨selected, hSelect, ?_⟩
  cases selected with
  | none =>
      cases hReconcile : reconcileGeneration (anchor 0 appendEnabled) f with
      | error e flash =>
          simp only [hReconcile] at h
          cases h
      | ok done flash =>
          simp only [hReconcile] at h
          injection h with hState hJournal
          subst hJournal
          exact ⟨hState.symm, rfl, hReconcile⟩
  | some chosen =>
      cases hReconcile : reconcileGeneration (anchor chosen.1.generation appendEnabled) f with
      | error e flash =>
          simp only [hReconcile] at h
          cases h
      | ok done flash =>
          simp only [hReconcile] at h
          injection h with hState hJournal
          subst hJournal
          exact ⟨hState.symm, rfl, hReconcile⟩

/-- A reconciliation that succeeds leaves the counter at the anchor it was given,
which was the counter or one above it. -/
theorem reconcileGeneration_counter {m generation : Nat} (hWhole : f.slotSize % 4 = 0)
    (hCounter : CounterIs f.monotonic f.slotSize m) :
    Triple (fun s => s = f) (reconcileGeneration generation)
      (fun _ g => (generation = m ∨ generation = m + 1) ∧ CounterIs g.monotonic f.slotSize generation ∧
        g.slotSize = f.slotSize)
      (fun _ _ => True) := by
  have hBounded := f.bounded
  have hFits := hCounter.fits
  apply Triple.get
  intro s hs
  rw [hs]
  refine Triple.readOnly_bind (fun anchored hAnchored => ?_) fun _ _ _ _ => trivial
  rw [show f.monotonicGeneration = .ok m from hCounter.decode hWhole f.bounded] at hAnchored
  injection hAnchored with hAnchored
  subst hAnchored
  refine Triple.failIf_bind (fun _ _ _ => trivial) fun _ => ?_
  refine Triple.orFail_bind (fun _ _ _ => trivial) fun next hNext => ?_
  rw [checkedAdd64, if_pos (by omega)] at hNext
  injection hNext with hNext
  refine Triple.failIf_bind (fun _ _ _ => trivial) fun hWindow => ?_
  refine Triple.onlyIf (fun hBehind => ?_) fun hLevel => ?_
  · have hEq : generation = m + 1 := hBehind.trans hNext.symm
    rw [hEq]
    by_cases hRoom : 4 * (m + 1) ≤ f.slotSize
    · refine (advanceMonotonic_spec hCounter (by omega)).conseq (fun _ h => h) ?_ fun _ _ _ => trivial
      rintro _ _ ⟨c, x, rfl, -, hAdvanced⟩
      exact ⟨.inr rfl, hAdvanced, rfl⟩
    · -- the counter is worn out, so the advance is refused
      refine Triple.failIf_bind (fun _ _ _ => trivial) fun _ => ?_
      refine Triple.failIf_bind (fun _ _ _ => trivial) fun _ => ?_
      apply Triple.get
      intro s' hs'
      rw [hs']
      refine Triple.failIf_bind (fun _ _ _ => trivial) fun hFull => ?_
      omega
  · intro g hg
    rw [hg]
    have hEq : generation = m := by omega
    rw [hEq]
    exact ⟨.inl rfl, hCounter, rfl⟩

end Opening

end MicroCard.Journal
