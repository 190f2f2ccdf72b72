import MicroCard.Journal.Commit

/-! Appending behind the newest epoch. A frame is invisible until its marker; a
frame cut short closes the epoch but keeps everything published before it. -/
namespace MicroCard.Journal

open Bytes CrashTriple

variable {provider : CryptoProvider} {key : List Byte}

/-- The epoch after one more frame. -/
def Epoch.extend (e : Epoch) (generation stop : Nat) (payload : List Byte) : Epoch :=
  { e with
    contents := { e.contents with appended := e.contents.appended ++ [payload] }
    generation := generation
    stop := stop }

/-- The epoch after a frame was cut short. -/
def Epoch.closed (e : Epoch) : Epoch := { e with free := false }

/-- Where the frame of a payload ends. -/
def frameStop (start length : Nat) : Nat := (start + minFrameBytes + length + 3) / 4 * 4

section Frame

variable {memory : Nat → Byte} {size start attempt generation : Nat} {data record label : List Byte}

/-- Any leading words of a frame leave a torn tail, up to the whole record. -/
theorem tornAt_overwrite {count : Nat} (hAligned : start % 4 = 0) (hShort : data.length ≤ maxPayload)
    (hBounds : frameStop start data.length ≤ size - tailBytes)
    (hSealed : SealedRecord provider key label ⟨true, generation, attempt, data.length + 16⟩ data record)
    (hFree : ∀ i, start ≤ i → i < size - tailBytes → memory i = 0xff)
    (hCount : 4 ≤ count ∧ (count ≤ 20 ∨ 24 ≤ count)) :
    TornAt (overwrite memory start record count) size start := by
  have hLength := hSealed.length
  have hRoom := hBounds
  simp only [headerBytes] at hLength
  simp only [frameStop, minFrameBytes, headerBytes, markerBytes, tailBytes] at hRoom
  refine ⟨hAligned, ?_, ?_, ?_⟩
  · simp only [minFrameBytes, headerBytes, markerBytes, tailBytes]
    omega
  · refine hSealed.magic_at fun i hi hFour => ?_
    rw [overwrite_inside (by omega) hi]
  · rcases hCount.2 with hSmall | hLarge
    · left
      rw [range_eq_erasedWord_iff]
      intro i hLow hHigh
      rw [overwrite_outside (by omega)]
      exact hFree i (by omega) (by simp only [tailBytes]; omega)
    · right
      refine ⟨data.length, hShort, ?_, hBounds, ?_⟩
      · obtain ⟨ciphertext, hRecord, -, -⟩ := hSealed.split
        have hHeader : (RecordHeader.encode ⟨true, generation, attempt, data.length + 16⟩).length = 24 :=
          RecordHeader.length_encode _
        have hField := RecordHeader.encode_payloadLength ⟨true, generation, attempt, data.length + 16⟩
        simp only at hField
        rw [range_eq_iff, ← hField]
        refine ⟨by simp [hHeader], fun i hi => ?_⟩
        have hFour : i < 4 := by
          simp only [List.length_take, List.length_drop, hHeader] at hi
          omega
        rw [Nat.add_assoc, overwrite_inside (by omega) (by omega), List.getElem_take, List.getElem_drop]
        simp only [hRecord]
        rw [List.getElem_append_left]
      · refine range_eq_erasedWord_iff.2 fun i hLow hHigh => ?_
        simp only [minFrameBytes, headerBytes, markerBytes] at hLow hHigh
        rw [overwrite_outside (by omega)]
        exact hFree i (by omega) (by simp only [tailBytes]; omega)

/-- The marker turns a whole record into a published frame. -/
theorem frameAt_overwrite {next : Nat} (hAligned : start % 4 = 0) (hShort : data.length ≤ maxPayload)
    (hBounds : frameStop start data.length ≤ size - tailBytes) (hLabel : appendNonce attempt start = .ok label)
    (hSealed : SealedRecord provider key label ⟨true, next, attempt, data.length + 16⟩ data record)
    (hFollows : Follows generation next) :
    FrameAt provider key
      (overwrite (overwrite memory start record record.length) (frameStop start data.length - markerBytes) zeroWord 4)
      size attempt start generation data (frameStop start data.length) next := by
  have hLength := hSealed.length
  have hRoom := hBounds
  simp only [headerBytes] at hLength
  simp only [frameStop, minFrameBytes, headerBytes, markerBytes, tailBytes] at hRoom
  have hRecord : range (overwrite (overwrite memory start record record.length)
      (frameStop start data.length - markerBytes) zeroWord 4) start record.length = record := by
    rw [range_overwrite_disjoint, range_overwrite_self]
    simp only [frameStop, minFrameBytes, headerBytes, markerBytes]
    omega
  obtain ⟨hHeader, hOpens⟩ := hSealed.at hRecord
  exact ⟨hAligned, hShort, rfl, hBounds, hHeader, hFollows, range_overwrite_self _ _ zeroWord,
    label, hLabel, hOpens⟩

end Frame

section Stages

variable {f g : MemoryFlash} {active : Nat} {e : Epoch} {reserved anchored generation : Nat}
  {data record label : List Byte}

/-- An open tail of an append-enabled epoch starts at an aligned offset. -/
theorem Stored.tail (h : Stored provider key true f active e false reserved anchored) (hOpen : e.free = true) :
    e.stop % 4 = 0 ∧ e.stop ≤ f.slotSize - tailBytes ∧
      ∀ i, e.stop ≤ i → i < f.slotSize - tailBytes → f.slots active i = 0xff := by
  obtain ⟨hFrames, hTail⟩ := h.published.epoch.chain rfl
  have hStart := h.published.epoch.toSnapshotAt.start_le h.whole
  have hStop := hFrames.inBounds hStart.1 hStart.2
  rw [hOpen] at hTail
  exact ⟨hStop.2, hStop.1, hTail⟩

/-- Everything of an epoch below its end survives a change behind it. -/
theorem Published.change_tail {memory memory' : Nat → Byte} {size : Nat} {started complete : Bool} {e' : Epoch}
    (h : Published provider key true memory size reserved e started complete) (hWhole : size % 4 = 0)
    (hBelow : ∀ i, i < e.stop → memory i = memory' i) (hAbove : ∀ i, size - tailBytes ≤ i → memory i = memory' i)
    (hFrames : Frames provider key memory' size e.attempt e.start e.base e.contents.appended e.stop e.generation →
      Frames provider key memory' size e.attempt e.start e.base e'.contents.appended e'.stop e'.generation)
    (hTail : TailAt memory' size e'.stop e'.free) (hAttempt : e'.attempt = e.attempt) (hBase : e'.base = e.base)
    (hSnapshot : e'.contents.snapshot = e.contents.snapshot) :
    Published provider key true memory' size reserved e' started complete := by
  have hStart := h.epoch.toSnapshotAt.start_le hWhole
  have hChain := (h.epoch.chain rfl).1
  have hStop := hChain.le
  have hStartEq : e'.start = e.start := by simp only [Epoch.start, hSnapshot]
  have hRange : ∀ offset, size - tailBytes ≤ offset → range memory' offset 4 = range memory offset 4 :=
    fun offset hLow => range_congr fun i _ => (hAbove _ (by omega)).symm
  have hSnap : SnapshotAt provider key true memory' size e := by
    refine h.epoch.toSnapshotAt.congr fun i hi => hBelow i ?_
    have : headerBytes + (e.contents.snapshot.length + 16) ≤ e.start := by
      simp only [Epoch.start, wordAlign]
      omega
    omega
  have hHeader : e'.header true = e.header true := by simp only [Epoch.header, hAttempt, hBase, hSnapshot]
  refine ⟨⟨⟨hAttempt ▸ hSnap.attempt_pos, hBase ▸ hSnap.base_lt, hBase ▸ hSnap.anchored, hSnapshot ▸ hSnap.short,
    hSnapshot ▸ hSnap.fits, hHeader ▸ hSnap.header, ?_⟩, ?_, fun _ => ⟨?_, hTail⟩, fun hFalse => by cases hFalse⟩,
    hAttempt ▸ h.attempt_le, ?_, ?_, h.order⟩
  · rw [hHeader, hAttempt, hSnapshot]
    exact hSnap.opens
  · rw [hRange _ (by simp only [committed, tailBytes]; omega)]
    exact h.epoch.committed
  · rw [hStartEq, hAttempt, hBase]
    exact hFrames (hChain.congr fun i _ hHigh => hBelow i hHigh)
  · rw [FlagAt, hRange _ (by simp only [reclaimStarted]; omega)]
    exact h.startedFlag
  · rw [FlagAt, hRange _ (by simp only [reclaimComplete, tailBytes]; omega)]
    exact h.completeFlag

/-- A cut inside the record closes the epoch, or leaves it untouched. -/
theorem Stored.torn (h : Stored provider key true f active e false reserved anchored) (hOpen : e.free = true)
    (hShort : data.length ≤ maxPayload) (hBounds : frameStop e.stop data.length ≤ f.slotSize - tailBytes)
    (hSealed : SealedRecord provider key label ⟨true, generation, e.attempt, data.length + 16⟩ data record)
    {tag : Option (List Byte)} {count : Nat} {finished : Bool} (hWrote : Wrote tag active e.stop record f g count finished)
    (hCount : 4 ≤ count ∧ (count ≤ 20 ∨ 24 ≤ count)) (hFull : count ≤ record.length + 3) :
    Stored provider key true g active e.closed false reserved anchored ∧
      g.slots active = overwrite (f.slots active) e.stop record count := by
  obtain ⟨hAligned, hStop, hFree⟩ := h.tail hOpen
  have hLength := hSealed.length
  have hRoom := hBounds
  simp only [headerBytes] at hLength
  simp only [frameStop, minFrameBytes, headerBytes, markerBytes, tailBytes] at hRoom
  have hSlots : g.slots active = overwrite (f.slots active) e.stop record count := by
    rw [hWrote.slots, Function.update_self]
  have hFresh : FreshWrites (g.slots active) (g.slotWordWrites active) g.slotSize := by
    refine hWrote.freshWrites h.writes fun w hLow hHigh => .inl ?_
    rw [range_eq_erasedWord_iff]
    exact fun i hi hi' => hFree i (by omega) (by simp only [tailBytes]; omega)
  refine ⟨h.active_slot hWrote.slotOnly ?_ hFresh (Nat.le_refl _) (fun h => h) h.anchor_eq h.anchor_le, hSlots⟩
  rw [hSlots, hWrote.slotSize]
  refine h.published.change_tail h.whole (fun i hi => ?_) (fun i hi => ?_) (fun hFrames => hFrames) ?_ rfl rfl rfl
  · exact (overwrite_outside (.inl hi)).symm
  · exact (overwrite_outside (by simp only [tailBytes] at hi; omega)).symm
  · exact tornAt_overwrite hAligned hShort hBounds hSealed hFree hCount

/-- The marker publishes the frame. -/
theorem Stored.extend (h : Stored provider key true f active e false reserved anchored) (hOpen : e.free = true)
    (hShort : data.length ≤ maxPayload) (hBounds : frameStop e.stop data.length ≤ f.slotSize - tailBytes)
    (hLabel : appendNonce e.attempt e.stop = .ok label)
    (hSealed : SealedRecord provider key label ⟨true, generation, e.attempt, data.length + 16⟩ data record)
    (hFollows : Follows e.generation generation) (hLt : e.generation < generation)
    (hAnchor : anchor generation true = anchored ∨ anchor generation true = anchored + 1)
    (hRoom : 4 * anchor generation true ≤ f.slotSize) (hOnly : SlotOnly f g active)
    (hSlots : g.slots active = overwrite (overwrite (f.slots active) e.stop record record.length)
      (frameStop e.stop data.length - markerBytes) zeroWord 4)
    (hFresh : FreshWrites (g.slots active) (g.slotWordWrites active) g.slotSize) :
    Stored provider key true g active (e.extend generation (frameStop e.stop data.length) data) false reserved
      anchored := by
  obtain ⟨hAligned, hStop, hFree⟩ := h.tail hOpen
  have hLength := hSealed.length
  have hInside := hBounds
  simp only [headerBytes] at hLength
  simp only [frameStop, minFrameBytes, headerBytes, markerBytes, tailBytes] at hInside
  have hWord : zeroWord.length = 4 := rfl
  have hOutside : ∀ i, i < e.stop ∨ frameStop e.stop data.length ≤ i → g.slots active i = f.slots active i := by
    intro i hi
    simp only [frameStop, minFrameBytes, headerBytes, markerBytes] at hi
    rw [hSlots, overwrite_outside, overwrite_outside]
    · omega
    · simp only [frameStop, minFrameBytes, headerBytes, markerBytes, hWord]
      omega
  refine h.active_slot hOnly ?_ hFresh hLt.le (fun h => h) hAnchor hRoom
  rw [hOnly.slotSize]
  refine h.published.change_tail h.whole (fun i hi => (hOutside i (.inl hi)).symm)
    (fun i hi => (hOutside i (.inr (by omega))).symm) (fun hFrames => ?_) ?_ rfl rfl rfl
  · refine hFrames.snoc ?_
    rw [hSlots]
    exact frameAt_overwrite hAligned hShort hBounds hLabel hSealed hFollows
  · have hTail : e.free = true := hOpen
    simp only [Epoch.extend, TailAt, hTail, if_true]
    intro i hLow hHigh
    rw [hOutside i (.inr hLow)]
    refine hFree i ?_ hHigh
    simp only [frameStop, minFrameBytes, headerBytes, markerBytes] at hLow
    omega

end Stages

section Append

variable {data : List Byte} {durability : Durability} {j : Journal} {active : Nat} {e : Epoch} {started : Bool}
  {reserved : Nat}

/-- The writes of an append. -/
theorem publish_spec {generation : Nat} {label record : List Byte}
    (hStored : Stored provider j.key true j.flash active e false reserved (anchor e.generation true))
    (hMode : j.appendEnabled = true) (hOpen : e.free = true) (hShort : data.length ≤ maxPayload)
    (hBounds : frameStop e.stop data.length ≤ j.flash.slotSize - tailBytes)
    (hLabel : appendNonce e.attempt e.stop = .ok label)
    (hSealed : SealedRecord provider j.key label ⟨true, generation, e.attempt, data.length + 16⟩ data record)
    (hGranted : Granted e.generation generation true durability)
    (hRoom : 4 * anchor generation true ≤ j.flash.slotSize) :
    Triple (fun s => s = j)
      (publish label active e.stop (frameStop e.stop data.length) generation durability record)
      (fun _ j' => ∃ f, j' = { j with flash := f, generation := generation, poisoned := false } ∧
        f.armed = j.flash.armed ∧ f.slotCount = j.flash.slotCount ∧ f.slotSize = j.flash.slotSize ∧
        f.trace.records = (label, record) :: j.flash.trace.records ∧
        Stored provider j.key true f active (e.extend generation (frameStop e.stop data.length) data) false reserved
          (anchor generation true))
      (fun _ j' => SameDevice j j' ∧ j.flash.armed = true ∧
        ((Keeps provider j' e ∨ Keeps provider j' e.closed) ∧ Unpublished j.flash j'.flash label record ∨
          Keeps provider j' (e.extend generation (frameStop e.stop data.length) data) ∧
            j'.flash.trace.records = (label, record) :: j.flash.trace.records)) := by
  obtain ⟨hAligned, hStop, hFree⟩ := hStored.tail hOpen
  have hWhole := hStored.whole
  have hLength := hSealed.length
  have hInside := hBounds
  simp only [headerBytes] at hLength
  simp only [frameStop, minFrameBytes, headerBytes, markerBytes, tailBytes] at hInside
  have hAnchor : anchor generation true = anchor e.generation true + if durability = .anchored then 1 else 0 := by
    rw [hGranted.anchor_eq]
    simp
  have hAnchors : anchor generation true = anchor e.generation true ∨
      anchor generation true = anchor e.generation true + 1 := by
    rw [hAnchor]
    split <;> omega
  have hReady : Programmable active e.stop record j.flash := by
    refine ⟨⟨hWhole, hAligned, by omega⟩, fun i hi => .inl ?_, fun w hLow hHigh => ?_⟩
    · exact hFree _ (by omega) (by simp only [tailBytes]; omega)
    · exact (hStored.writes w (by omega)).1
  have hPoisoned : ∀ {f : MemoryFlash} {e' : Epoch} {anchored : Nat}, f.armed = j.flash.armed →
      Stored provider j.key true f active e' false reserved anchored →
      SameDevice j { j with flash := f, poisoned := true } ∧ Keeps provider { j with flash := f, poisoned := true } e' := by
    intro f e' anchored hArmed h
    rw [← hMode] at h
    exact ⟨⟨rfl, rfl, hArmed⟩, Stored.keeps_poisoned rfl h⟩
  unfold publish
  refine Triple.bind (Q := fun _ => On { j with poisoned := true } fun g => g = j.flash) (Triple.update ?_) fun _ => ?_
  · rintro _ rfl
    exact ⟨_, rfl, rfl⟩
  refine Triple.bind (Q := fun _ => On { j with poisoned := true } fun g =>
    SlotOnly j.flash g active ∧ Stored provider j.key true g active e.closed false reserved (anchor e.generation true) ∧
      g.slots active = overwrite (j.flash.slots active) e.stop record record.length ∧
      g.trace.records = (label, record) :: j.flash.trace.records ∧ Dangling g) ?_ fun _ => ?_
  · refine (onFlash_spec (program_spec hReady)).conseq (fun _ h => h) ?_ ?_
    · rintro _ _ ⟨g, rfl, hWrote⟩
      obtain ⟨hTorn, hSlots⟩ := hStored.torn hOpen hShort hBounds hSealed hWrote (by omega) (by omega)
      rw [overwrite_of_le _ _ (by omega)] at hSlots
      refine ⟨g, rfl, hWrote.slotOnly, hTorn, hSlots, hWrote.records, hWrote.dangling (i := e.stop + 0) ?_⟩
      obtain ⟨hPos, hFirst⟩ := hSealed.first
      rw [hSlots, overwrite_inside hPos hPos, hFirst, hFree _ (by omega) (by simp only [tailBytes]; omega)]
      decide
    · rintro _ _ ⟨g, rfl, ⟨k, hk, hWrote⟩, hCut⟩
      rcases Nat.eq_zero_or_pos k with rfl | hPos
      · have hSame : Untouched j.flash g active := by
          have hSlots : g.slots active = j.flash.slots active := by
            rw [hWrote.slots, Function.update_self, Nat.mul_zero, overwrite_zero]
          exact ⟨hWrote.slotOnly, hWrote.records, hWrote.words_of_zero, hSlots,
            hWrote.freshWrites hStored.writes fun _ _ _ => .inr fun _ _ _ => by rw [hSlots]⟩
        obtain ⟨hDevice, hKept⟩ := hPoisoned hWrote.armed (hStored.untouched hSame)
        exact ⟨hDevice, hCut, .inl ⟨.inl hKept, .inl hWrote.records⟩⟩
      · obtain ⟨hTorn, -⟩ := hStored.torn hOpen hShort hBounds hSealed hWrote (by omega) (by omega)
        obtain ⟨hDevice, hKept⟩ := hPoisoned hWrote.armed hTorn
        exact ⟨hDevice, hCut, .inl ⟨.inr hKept, .inl hWrote.records⟩⟩
  refine Triple.of_state ?_
  rintro _ ⟨g, rfl, hOnly, hTorn, hSlots, hRecords, hDangling⟩
  have hSize := hOnly.slotSize
  have hMarker : range (g.slots active) (frameStop e.stop data.length - markerBytes) 4 = erasedWord := by
    rw [range_eq_erasedWord_iff, hSlots]
    intro i hLow hHigh
    simp only [frameStop, minFrameBytes, headerBytes, markerBytes] at hLow hHigh
    rw [overwrite_outside (by omega)]
    exact hFree i (by omega) (by simp only [tailBytes]; omega)
  have hMark : Triple (fun s => s = g) (program none active (frameStop e.stop data.length - markerBytes) zeroWord) _ _ :=
    markWord_spec hTorn.whole (by simp only [frameStop, minFrameBytes, headerBytes, markerBytes]; omega)
      (by simp only [frameStop, minFrameBytes, headerBytes, markerBytes]; omega) hTorn.writes (.inl hMarker)
  refine Triple.bind (Q := fun _ => On { j with poisoned := true } fun h => SlotOnly j.flash h active ∧
    h.trace.records = (label, record) :: j.flash.trace.records ∧ Stored provider j.key true h active (e.extend generation (frameStop e.stop data.length) data) false reserved
      (anchor e.generation true)) ?_ fun _ => ?_
  · refine (onFlash_at hMark).conseq (fun _ h => h) ?_ ?_
    · rintro _ _ ⟨h, rfl, hMarked⟩
      refine ⟨h, rfl, hOnly.trans hMarked.only, hMarked.records.trans hRecords, ?_⟩
      refine hStored.extend hOpen hShort hBounds hLabel hSealed (hGranted.follows rfl) hGranted.lt hAnchors hRoom
        (hOnly.trans hMarked.only) ?_ hMarked.fresh
      rw [hMarked.slots, hSlots]
    · rintro _ _ ⟨h, rfl, hSame, hCut⟩
      obtain ⟨hDevice, hKept⟩ := hPoisoned (hSame.only.armed.trans hOnly.armed) (hTorn.untouched hSame)
      obtain ⟨w, rest, hWords, hTag⟩ := hDangling
      exact ⟨hDevice, hOnly.armed ▸ hCut, .inl ⟨.inr hKept, .inr ⟨hSame.records.trans hRecords,
        w, rest, hSame.words.trans hWords, hTag⟩⟩⟩
  refine Triple.of_state ?_
  rintro _ ⟨h, rfl, hOnly', hLog, hNew⟩
  refine Triple.bind (Q := fun _ => On { j with poisoned := true } fun k => k.armed = j.flash.armed ∧
    k.slotCount = j.flash.slotCount ∧ k.slotSize = j.flash.slotSize ∧
    k.trace.records = (label, record) :: j.flash.trace.records ∧ Stored provider j.key true k active (e.extend generation (frameStop e.stop data.length) data) false reserved
      (anchor generation true)) ?_ fun _ => ?_
  · refine Triple.onlyIf (fun hDurable => ?_) fun hOrdinary => ?_
    · rw [if_pos hDurable] at hAnchor
      rw [hAnchor]
      have hSizeEq := hOnly'.slotSize
      refine (onFlash_at (advanceMonotonic_spec hNew.monotonic (by simp only; omega))).conseq (fun _ h => h) ?_ ?_
      · rintro _ _ ⟨k, rfl, c, x, rfl, hx, hCounter⟩
        exact ⟨_, rfl, hx.trans hOnly'.armed, hOnly'.slotCount, hOnly'.slotSize, hLog,
          hNew.withMonotonic x hCounter (.inl hAnchor)⟩
      · rintro _ _ ⟨k, rfl, ⟨c, x, v, rfl, hx, hCounter, hMoved⟩, hCut⟩
        have hKeptNew := hNew.withMonotonic x hCounter (by simp only [Epoch.extend, hAnchor]; omega)
        obtain ⟨hDevice, hKept⟩ := hPoisoned (f := { h with monotonic := c, failAfter := x })
          (hx.trans hOnly'.armed) hKeptNew
        exact ⟨hDevice, hOnly'.armed ▸ hCut, .inr ⟨hKept, hLog⟩⟩
    · rintro _ rfl
      rw [if_neg hOrdinary, Nat.add_zero] at hAnchor
      exact ⟨h, rfl, hOnly'.armed, hOnly'.slotCount, hOnly'.slotSize, hLog, hAnchor ▸ hNew⟩
  · refine Triple.update ?_
    rintro _ ⟨k, rfl, hArmed, hCount, hSizeEq, hLog', hDone⟩
    exact ⟨k, rfl, hArmed, hCount, hSizeEq, hLog', hDone⟩

/-- The trace of an append that completed its record behind `e`. -/
structure FrameLogged (provider : CryptoProvider) (j j' : Journal) (active : Nat) (e : Epoch) (generation stop : Nat)
    (data : List Byte) : Prop where
  record : ∃ label record, appendNonce e.attempt e.stop = .ok label ∧
    SealedRecord provider j.key label ⟨true, generation, e.attempt, data.length + 16⟩ data record ∧
    j'.flash.trace.records = (label, record) :: j.flash.trace.records
  stop_eq : stop = frameStop e.stop data.length
  inBounds : stop ≤ j.flash.slotSize - tailBytes
  mode : j.appendEnabled = true
  blank : ∀ i, e.stop ≤ i → i < j.flash.slotSize - tailBytes → j.flash.slots active i = 0xff

/-- An append on a live journal adds exactly one payload, or leaves the old
chain, possibly closed for appends, or the extended one behind. -/
theorem appendWith_spec (hCorrect : provider.Correct) (hLive : Live provider j active e started reserved) :
    Triple (fun s => s = j) (appendWith data durability provider)
      (fun _ j' => SameDevice j j' ∧ ∃ generation stop,
        nextGeneration e.generation j.appendEnabled durability = .ok generation ∧
        FrameLogged provider j j' active e generation stop data ∧
        Live provider j' active (e.extend generation stop data) false reserved)
      (fun _ j' => SameDevice j j' ∧
        ((Keeps provider j' e ∨ Keeps provider j' e.closed) ∧ j'.flash.trace.records = j.flash.trace.records ∨
          ∃ generation stop, nextGeneration e.generation j.appendEnabled durability = .ok generation ∧
            FrameLogged provider j j' active e generation stop data ∧
            ((Keeps provider j' e ∨ Keeps provider j' e.closed) ∧ Dangling j'.flash ∨
              Keeps provider j' (e.extend generation stop data)))) := by
  have hStay : ∀ j', j' = j → SameDevice j j' ∧
      ((Keeps provider j' e ∨ Keeps provider j' e.closed) ∧ j'.flash.trace.records = j.flash.trace.records ∨
        ∃ generation stop, nextGeneration e.generation j.appendEnabled durability = .ok generation ∧
          FrameLogged provider j j' active e generation stop data ∧
          ((Keeps provider j' e ∨ Keeps provider j' e.closed) ∧ Dangling j'.flash ∨
            Keeps provider j' (e.extend generation stop data))) := by
    rintro _ rfl
    exact ⟨⟨rfl, rfl, rfl⟩, .inl ⟨.inl hLive.keeps, rfl⟩⟩
  refine Triple.get fun s hs => ?_
  subst hs
  refine Triple.failIf_bind (fun _ => hStay) fun _ => ?_
  refine Triple.orFail_bind (fun _ => hStay) fun start hStart => ?_
  refine Triple.bind (Q := fun prepared s' => s' = s ∧ s.appendEnabled = true ∧ prepared.1 = active ∧
    frameEnd s.flash start data.length = .ok prepared.2.1 ∧
    nextGeneration s.generation true durability = .ok prepared.2.2 ∧
    anchor prepared.2.2 true ≤ s.flash.monotonicCapacity) ?_ fun prepared => ?_
  · refine Triple.get fun s' hs' => ?_
    subst hs'
    refine Triple.failIf_bind (fun _ => hStay) fun _ => ?_
    refine Triple.failIf_bind (fun _ => hStay) fun hMode => ?_
    refine Triple.orFail_bind (fun _ => hStay) fun slot hSlot => ?_
    refine Triple.readOnly_bind (fun stop hEnd => ?_) fun _ _ => hStay
    refine Triple.readOnly_bind (fun generation hNext => ?_) fun _ _ => hStay
    refine Triple.failIf_bind (fun _ => hStay) fun hCapacity => ?_
    refine Triple.readOnly_bind (fun free _ => ?_) fun _ _ => hStay
    refine Triple.failIf_bind (fun _ => hStay) fun _ => ?_
    refine Triple.ret fun s' hs' => ?_
    rw [hLive.active] at hSlot
    injection hSlot with hSlot
    exact ⟨hs', by simpa using hMode, hSlot.symm, hEnd, hNext, by simpa using hCapacity⟩
  obtain ⟨slot, stop, generation⟩ := prepared
  refine Triple.of_state fun s' hs' => ?_
  simp only at hs'
  obtain ⟨hSame, hMode, hSlot, hEnd, hNext, hCapacity⟩ := hs'
  rw [hSame]
  subst hSlot
  obtain ⟨rfl, hOpen, rfl⟩ := hLive.appendOffset hMode start hStart
  have hStored := hLive.stored
  rw [hMode] at hStored
  rw [hLive.generation] at hNext
  have hFrame : e.stop % 4 = 0 ∧ data.length ≤ maxPayload ∧ stop = frameStop e.stop data.length ∧
      frameStop e.stop data.length ≤ s.flash.slotSize - tailBytes := by
    simp only [frameEnd] at hEnd
    split at hEnd
    · cases hEnd
    split at hEnd
    · cases hEnd
    split at hEnd
    · injection hEnd with hEnd
      exact ⟨by omega, by omega, hEnd.symm, by assumption⟩
    · cases hEnd
  obtain ⟨-, hShort, rfl, hBounds⟩ := hFrame
  have hRoom : 4 * anchor generation true ≤ s.flash.slotSize := by
    have hWhole := hStored.whole
    simp only [MemoryFlash.monotonicCapacity] at hCapacity
    omega
  refine Triple.orFail_bind (fun _ => hStay) fun attempt hAttempt => ?_
  rw [hLive.baseAttempt] at hAttempt
  injection hAttempt with hAttempt
  subst hAttempt
  refine Triple.readOnly_bind (fun payloadLength hPrepared => ?_) fun _ _ => hStay
  have hLength : payloadLength = data.length + 16 := by
    unfold prepareRecord at hPrepared
    split at hPrepared
    · injection hPrepared with hPrepared
      exact hPrepared.symm
    · cases hPrepared
  subst hLength
  refine Triple.readOnly_bind (fun label hLabel => ?_) fun _ _ => hStay
  refine Triple.readOnly_bind (fun record hRecord => ?_) fun _ _ => hStay
  have hSealed := encryptRecord_spec hCorrect hRecord
  obtain ⟨-, -, hBlank⟩ := hStored.tail hOpen
  have hPublish := publish_spec hStored hMode hOpen hShort hBounds hLabel hSealed (nextGeneration_spec hNext) hRoom
  rw [hMode]
  refine Triple.bind (hPublish.conseq (fun _ h => h) (fun _ _ h => h) ?_) fun _ => Triple.update ?_
  · rintro _ j' ⟨hDevice, -, hKept⟩
    refine ⟨hDevice, ?_⟩
    rcases hKept with ⟨hOld, hNone | ⟨hLog, hDangling⟩⟩ | ⟨hNew, hLog⟩
    · exact .inl ⟨hOld, hNone⟩
    · exact .inr ⟨generation, _, hNext, ⟨⟨label, record, hLabel, hSealed, hLog⟩, rfl, hBounds, hMode, hBlank⟩,
        .inl ⟨hOld, hDangling⟩⟩
    · exact .inr ⟨generation, _, hNext, ⟨⟨label, record, hLabel, hSealed, hLog⟩, rfl, hBounds, hMode, hBlank⟩, .inr hNew⟩
  · rintro _ ⟨f, rfl, hArmed, hCount, hSize, hLog, hNew⟩
    refine ⟨⟨rfl, rfl, hArmed⟩, generation, frameStop e.stop data.length, hNext,
      ⟨⟨label, record, hLabel, hSealed, hLog⟩, rfl, hBounds, hMode, hBlank⟩, ?_⟩
    refine ⟨?_, rfl, rfl, hLive.baseAttempt, hLive.active, hLive.slotCount.trans hCount.symm, fun _ offset hOffset => ?_⟩
    · simp only [hMode]
      exact hNew
    · have hSame : frameEnd f e.stop data.length = .ok (frameStop e.stop data.length) := by
        rw [← hEnd]
        simp only [frameEnd, hSize]
      simp only [hSame, Except.toOption] at hOffset
      injection hOffset with hOffset
      exact ⟨hOffset.symm, hOpen, rfl⟩

end Append
end MicroCard.Journal
