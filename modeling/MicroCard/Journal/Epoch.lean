import MicroCard.Journal.Journal

/-! What a slot holds. An epoch is one committed snapshot and the published
frames behind it; behind the last frame the slot is erased, or holds the leading
words of one frame that never got its marker. Each shape is matched with what
recovery reads from it. -/
namespace MicroCard.Journal

open Bytes CrashTriple

def erasedWord : List Byte := [0xff, 0xff, 0xff, 0xff]

/-- The plaintexts an epoch stands for: one snapshot and the changes behind it. -/
structure Contents where
  snapshot : List Byte
  appended : List (List Byte)
  deriving DecidableEq, Repr

/-- A replay that keeps everything it is given. -/
def recorder : Replay Contents where
  init := fun snapshot => ⟨snapshot, []⟩
  apply := fun contents _ payload => .ok { contents with appended := contents.appended ++ [payload] }

/-- `next` may follow `generation` in one chain. -/
structure Follows (generation next : Nat) : Prop where
  room : sequence generation + 1 < 2 ^ 32
  sequence : sequence next = sequence generation + 1
  anchor : anchor next true = anchor generation true ∨ anchor next true = anchor generation true + 1
  anchored : Journal.anchor next true ≠ 0
  bounded : next < 2 ^ 64

section Frames

variable (provider : CryptoProvider) (key : List Byte) (memory : Nat → Byte) (size attempt : Nat)

/-- A published frame from `start` to `stop`. -/
structure FrameAt (start generation : Nat) (payload : List Byte) (stop next : Nat) : Prop where
  aligned : start % 4 = 0
  short : payload.length ≤ maxPayload
  stop_eq : stop = (start + minFrameBytes + payload.length + 3) / 4 * 4
  inBounds : stop ≤ size - tailBytes
  header : range memory start headerBytes = RecordHeader.encode ⟨true, next, attempt, payload.length + 16⟩
  follows : Follows generation next
  marker : range memory (stop - markerBytes) markerBytes = zeroWord
  opens : ∃ label, appendNonce attempt start = .ok label ∧
    provider.aesCcmDecrypt key label (RecordHeader.encode ⟨true, next, attempt, payload.length + 16⟩)
      (range memory (start + headerBytes) (payload.length + 16)) = .ok payload

/-- A chain of published frames from `start` to `stop`. -/
inductive Frames : Nat → Nat → List (List Byte) → Nat → Nat → Prop where
  | nil (start generation : Nat) : Frames start generation [] start generation
  | cons {start generation : Nat} {payload : List Byte} {middle next : Nat} {rest : List (List Byte)}
      {stop last : Nat} (head : FrameAt provider key memory size attempt start generation payload middle next)
      (tail : Frames middle next rest stop last) :
      Frames start generation (payload :: rest) stop last

end Frames

/-- The leading words of a frame whose marker was never written. Either the
header's length word is still erased, or the whole header stands there and the
marker word behind the record is erased. -/
structure TornAt (memory : Nat → Byte) (size start : Nat) : Prop where
  aligned : start % 4 = 0
  inBounds : start + minFrameBytes ≤ size - tailBytes
  magic : range memory start 4 = magic 0x39
  unpublished : range memory (start + 20) 4 = erasedWord ∨
    ∃ length, length ≤ maxPayload ∧ range memory (start + 20) 4 = toLE 4 (length + 16) ∧
      (start + minFrameBytes + length + 3) / 4 * 4 ≤ size - tailBytes ∧
      range memory ((start + minFrameBytes + length + 3) / 4 * 4 - markerBytes) markerBytes = erasedWord

/-- The rest of the slot behind the last published frame. -/
def TailAt (memory : Nat → Byte) (size stop : Nat) (free : Bool) : Prop :=
  if free then ∀ i, stop ≤ i → i < size - tailBytes → memory i = 0xff else TornAt memory size stop

/-- Facts about a flash that reading slot `slot` relies on. -/
structure Readable (f : MemoryFlash) (slot : Nat) (memory : Nat → Byte) (size reserved : Nat) : Prop where
  slot_lt : slot < f.slotCount
  slots : f.slots slot = memory
  slotSize : f.slotSize = size
  whole : size % 4 = 0
  large : overhead ≤ size
  nonces : f.nonceGeneration = .ok reserved
  capacity : reserved ≤ f.nonceCapacity

section Read
variable {f : MemoryFlash} {slot : Nat} {memory : Nat → Byte} {size reserved : Nat}

theorem Readable.read (h : Readable f slot memory size reserved) {offset count : Nat}
    (hBounds : offset + count ≤ size) : f.read slot offset count = .ok (range memory offset count) := by
  rw [MemoryFlash.read, if_pos ⟨h.slot_lt, by rw [h.slotSize]; exact hBounds⟩, h.slots]

theorem Readable.frameEnd_ok (h : Readable f slot memory size reserved) {start length : Nat}
    (hAligned : start % 4 = 0) (hShort : length ≤ maxPayload)
    (hBounds : (start + minFrameBytes + length + 3) / 4 * 4 ≤ size - tailBytes) :
    frameEnd f start length = .ok ((start + minFrameBytes + length + 3) / 4 * 4) := by
  rw [frameEnd, if_neg (by omega), if_neg (by omega), h.slotSize]
  simp only
  rw [if_pos hBounds]

variable {provider : CryptoProvider} {key : List Byte} {attempt : Nat}

/-- A published frame is read back with its payload and generation. -/
theorem readFrame_frameAt (h : Readable f slot memory size reserved) (hPositive : 0 < attempt)
    (hReserved : attempt ≤ reserved) {start generation stop next : Nat} {payload : List Byte}
    (hFrame : FrameAt provider key memory size attempt start generation payload stop next) :
    readFrame f key slot start generation attempt provider = .ok (some ⟨payload, stop, next⟩) := by
  obtain ⟨label, hLabel, hOpens⟩ := hFrame.opens
  have hAligned := hFrame.aligned
  have hShort := hFrame.short
  have hStop := hFrame.stop_eq
  have hBounds := hFrame.inBounds
  have hLarge := h.large
  have hBounded := f.bounded
  have hCapacity := h.capacity
  have hSize := h.slotSize
  simp only [minFrameBytes, headerBytes, markerBytes, maxPayload, maxFrameBytes, tailBytes, overhead,
    recordOverhead, MemoryFlash.nonceCapacity, MemoryFlash.monotonicCapacity] at hShort hStop hBounds hLarge hCapacity
  have hEmpty : frameEnd f start 0 = .ok ((start + minFrameBytes + 0 + 3) / 4 * 4) :=
    h.frameEnd_ok hAligned (Nat.zero_le _) (by simp only [minFrameBytes, headerBytes, markerBytes, tailBytes]; omega)
  have hEnd : frameEnd f start (payload.length + 16 - 16) = .ok stop := by
    rw [Nat.add_sub_cancel, hFrame.stop_eq]
    exact h.frameEnd_ok hAligned hFrame.short (hFrame.stop_eq ▸ hFrame.inBounds)
  have hWell : RecordHeader.Wellformed ⟨true, next, attempt, payload.length + 16⟩ (maxPayload + 16) reserved := by
    refine ⟨hFrame.follows.bounded, hPositive, hReserved, by simp only; omega, by simp only; omega, ?_, ?_, ?_⟩
    · simp only [maxPayload, maxFrameBytes, minFrameBytes, headerBytes, markerBytes]
      omega
    · simp only
      omega
    · refine fun _ => ⟨hFrame.follows.anchored, ?_⟩
      simp only [hFrame.follows.sequence]
      omega
  have hNotErased : (RecordHeader.encode ⟨true, next, attempt, payload.length + 16⟩).all (· == 0xff) = false := by
    rfl
  have hHeader : f.read slot start headerBytes = .ok (RecordHeader.encode ⟨true, next, attempt, payload.length + 16⟩) := by
    rw [h.read (by simp only [headerBytes]; omega), hFrame.header]
  have hMarker : f.read slot (stop - markerBytes) markerBytes = .ok zeroWord := by
    rw [h.read (by simp only [markerBytes]; omega), hFrame.marker]
  have hPayload : f.read slot (start + headerBytes) (payload.length + 16) =
      .ok (range memory (start + headerBytes) (payload.length + 16)) :=
    h.read (by simp only [headerBytes]; omega)
  have hNext : checkedAdd32 (sequence generation) 1 = some (sequence next) := by
    rw [checkedAdd32, if_pos hFrame.follows.room, hFrame.follows.sequence]
  unfold readFrame
  simp only [bind, Except.bind, hEmpty, hHeader, hNotErased, h.nonces, RecordHeader.decode_encode hWell, hEnd, hMarker,
    hPayload, hLabel, hOpens, pure, Except.pure, failIf, orFail, hNext]
  rw [if_neg (by simp), if_neg (by have := h.capacity; omega), if_neg (by simp [zeroWord]), if_neg]
  · rw [if_neg (by simp)]
  · rcases hFrame.follows.anchor with hSame | hNext <;> simp [*]

/-- An erased place holds no frame. -/
theorem readFrame_free (h : Readable f slot memory size reserved) {start generation : Nat}
    (hAligned : start % 4 = 0) (hRoom : (start + minFrameBytes + 0 + 3) / 4 * 4 ≤ size - tailBytes)
    (hFree : ∀ i, start ≤ i → i < size - tailBytes → memory i = 0xff) :
    readFrame f key slot start generation attempt provider = .ok none := by
  have hEnd := h.frameEnd_ok hAligned (Nat.zero_le _) hRoom
  simp only [minFrameBytes, headerBytes, markerBytes, tailBytes] at hRoom hFree
  have hHeader : f.read slot start headerBytes = .ok (range memory start headerBytes) :=
    h.read (by simp only [headerBytes]; omega)
  have hErased : (range memory start headerBytes).all (· == 0xff) = true := by
    rw [range_all_iff]
    exact fun i hi => hFree _ (by omega) (by simp only [headerBytes] at hi; omega)
  unfold readFrame
  simp only [bind, Except.bind, hEnd, hHeader, hErased, pure, Except.pure, if_true]

theorem fromLE_erasedWord : fromLE erasedWord = 2 ^ 32 - 1 := by decide

/-- A frame without its marker is not a frame, whatever the nonce counter says. -/
theorem readFrame_torn (h : Readable f slot memory size reserved) {start generation : Nat}
    (hTorn : TornAt memory size start) :
    readFrame f key slot start generation attempt provider = .ok none := by
  have hAligned := hTorn.aligned
  have hBounds := hTorn.inBounds
  have hEnd : frameEnd f start 0 = .ok ((start + minFrameBytes + 0 + 3) / 4 * 4) := by
    have hWhole := h.whole
    refine h.frameEnd_ok hAligned (Nat.zero_le _) ?_
    simp only [minFrameBytes, headerBytes, markerBytes, tailBytes] at hBounds ⊢
    omega
  simp only [minFrameBytes, headerBytes, markerBytes, tailBytes] at hBounds
  have hHeader : f.read slot start headerBytes = .ok (range memory start headerBytes) :=
    h.read (by simp only [headerBytes]; omega)
  have hTake : (range memory start headerBytes).take 4 = magic 0x39 := by
    rw [range_take memory (by decide), hTorn.magic]
  have hLengthWord : ((range memory start headerBytes).drop 20).take 4 = range memory (start + 20) 4 := by
    rw [range_drop memory (by decide), range_take memory (by decide)]
  have hNotErased : (range memory start headerBytes).all (· == 0xff) = false := by
    rw [Bool.eq_false_iff]
    intro hAll
    rw [range_all_iff] at hAll
    have hFirst := hAll 0 (by decide)
    have hMagic := (range_eq_iff.1 hTorn.magic).2 0 (by decide)
    rw [hFirst] at hMagic
    exact absurd hMagic (by decide)
  unfold readFrame
  simp only [bind, Except.bind, hEnd, hHeader, hNotErased, h.nonces, failIf]
  rw [if_neg (by simp), if_neg (by have := h.capacity; omega)]
  -- a decoded header carries the length word, which leads to the erased marker
  cases hDecode : RecordHeader.decode (range memory start headerBytes) (maxPayload + 16) reserved with
  | error e =>
      have hNotOld : e ≠ .incompatibleState := by
        rintro rfl
        unfold RecordHeader.decode at hDecode
        rw [hTake, if_neg (by decide), if_neg (by decide)] at hDecode
        simp only at hDecode
        split at hDecode
        · cases hDecode
        · split at hDecode <;> cases hDecode
      cases e <;> first | rfl | exact absurd rfl hNotOld
  | ok header =>
      have hDecoded := RecordHeader.encode_decode (length_range ..) hDecode
      have hLength : range memory (start + 20) 4 = toLE 4 header.payloadLength := by
        rw [← hLengthWord, ← hDecoded.1, RecordHeader.encode_payloadLength]
      have hMax := hDecoded.2.payload_max
      have hLt := hDecoded.2.payload_lt
      simp only
      rcases hTorn.unpublished with hErased | ⟨length, hShort, hSame, hFits, hMarker⟩
      · rw [hErased] at hLength
        have hBig := congrArg fromLE hLength
        rw [fromLE_erasedWord, fromLE_toLE_of_lt (by simpa using hLt)] at hBig
        simp only [maxPayload, maxFrameBytes, minFrameBytes, headerBytes, markerBytes] at hMax
        omega
      · rw [hSame] at hLength
        have hLengthBound := hShort
        simp only [maxPayload, maxFrameBytes, minFrameBytes, headerBytes, markerBytes] at hLengthBound
        have hEq := toLE_injective (by norm_num; omega) (by simpa using hLt) hLength
        have hStop : frameEnd f start (header.payloadLength - 16) =
            .ok ((start + minFrameBytes + length + 3) / 4 * 4) := by
          rw [← hEq, Nat.add_sub_cancel]
          exact h.frameEnd_ok hAligned hShort hFits
        have hRead : f.read slot ((start + minFrameBytes + length + 3) / 4 * 4 - markerBytes) markerBytes =
            .ok erasedWord := by
          rw [h.read, hMarker]
          simp only [minFrameBytes, headerBytes, markerBytes, tailBytes] at hFits ⊢
          omega
        simp only [hStop, hRead]
        rw [if_pos (by decide)]
        rfl

/-- The append offset recovery offers behind the last published frame. -/
def offered (size stop : Nat) (free : Bool) : Option Nat :=
  if free ∧ (stop + minFrameBytes + 0 + 3) / 4 * 4 ≤ size - tailBytes then some stop else none

/-- Where the chain ends, replay ends too. -/
theorem replayFrom_tail (h : Readable f slot memory size reserved) {stop generation fuel : Nat} {free : Bool}
    (hAligned : stop % 4 = 0) (hTail : TailAt memory size stop free) (contents : Contents) :
    replayFrom f key slot attempt provider recorder (fuel + 1) stop generation contents =
      .ok (generation, offered size stop free, contents) := by
  unfold replayFrom
  by_cases hRoom : (stop + minFrameBytes + 0 + 3) / 4 * 4 ≤ size - tailBytes
  · rw [h.frameEnd_ok hAligned (Nat.zero_le _) hRoom]
    have hRead : f.read slot stop (f.slotSize - tailBytes - stop) =
        .ok (range memory stop (size - tailBytes - stop)) := by
      rw [h.slotSize]
      refine h.read ?_
      simp only [minFrameBytes, headerBytes, markerBytes, tailBytes] at hRoom ⊢
      omega
    cases free with
    | true =>
        have hFree : (range memory stop (size - tailBytes - stop)).all (· == 0xff) = true := by
          rw [range_all_iff]
          exact fun i hi => hTail _ (by omega) (by omega)
        simp only [bind, Except.bind, readFrame_free h hAligned hRoom hTail, erased, hRead, hFree, pure,
          Except.pure, offered]
        simp [hRoom]
    | false =>
        have hUsed : (range memory stop (size - tailBytes - stop)).all (· == 0xff) = false := by
          rw [Bool.eq_false_iff]
          intro hAll
          rw [range_all_iff] at hAll
          have hFirst := hAll 0 (by
            simp only [minFrameBytes, headerBytes, markerBytes, tailBytes] at hRoom ⊢
            omega)
          have hMagic := (range_eq_iff.1 (TornAt.magic hTail)).2 0 (by decide)
          rw [hFirst] at hMagic
          exact absurd hMagic (by decide)
        simp only [bind, Except.bind, readFrame_torn h hTail, erased, hRead, hUsed, pure, Except.pure, offered]
        simp
  · have hEnd : frameEnd f stop 0 = .error .quota := by
      rw [frameEnd, if_neg (by omega), if_neg (by omega), h.slotSize]
      simp only
      rw [if_neg hRoom]
    rw [hEnd]
    simp [offered, hRoom]

/-- Replay follows the chain frame by frame and keeps every payload. -/
theorem replayFrom_frames (h : Readable f slot memory size reserved) (hPositive : 0 < attempt)
    (hReserved : attempt ≤ reserved) {start generation stop last : Nat} {payloads : List (List Byte)}
    (hFrames : Frames provider key memory size attempt start generation payloads stop last)
    (hAligned : start % 4 = 0) (hStart : start ≤ size) {free : Bool} (hTail : TailAt memory size stop free)
    (fuel : Nat) (hFuel : size < fuel + start) (contents : Contents) :
    replayFrom f key slot attempt provider recorder fuel start generation contents =
      .ok (last, offered size stop free, { contents with appended := contents.appended ++ payloads }) := by
  induction hFrames generalizing fuel contents with
  | nil start generation =>
      obtain ⟨fuel, rfl⟩ : ∃ n, fuel = n + 1 := ⟨fuel - 1, by omega⟩
      rw [replayFrom_tail h hAligned hTail, List.append_nil]
  | @cons start generation payload middle next rest stop last head tail ih =>
      obtain ⟨fuel, rfl⟩ : ∃ n, fuel = n + 1 := ⟨fuel - 1, by omega⟩
      have hStop := head.stop_eq
      have hBounds := head.inBounds
      have hEmpty : frameEnd f start 0 = .ok ((start + minFrameBytes + 0 + 3) / 4 * 4) :=
        h.frameEnd_ok hAligned (Nat.zero_le _) (by omega)
      simp only [minFrameBytes, headerBytes, markerBytes] at hStop
      unfold replayFrom
      simp only [hEmpty, bind, Except.bind, readFrame_frameAt h hPositive hReserved head, recorder]
      have hRest := ih (by omega) (by omega) hTail fuel (by omega)
        { contents with appended := contents.appended ++ [payload] }
      simp only [recorder] at hRest
      rw [hRest, List.append_assoc]
      rfl

end Read
/-- One epoch as recovery should read it. `stop` is where the chain ends and
`free` says that nothing was started behind it. -/
structure Epoch where
  attempt : Nat
  base : Nat
  contents : Contents
  generation : Nat
  stop : Nat
  free : Bool

def Epoch.header (e : Epoch) (appendEnabled : Bool) : RecordHeader :=
  ⟨appendEnabled, e.base, e.attempt, e.contents.snapshot.length + 16⟩

@[simp] theorem Epoch.header_appendEnabled (e : Epoch) (appendEnabled : Bool) :
    (e.header appendEnabled).appendEnabled = appendEnabled := rfl

@[simp] theorem Epoch.header_generation (e : Epoch) (appendEnabled : Bool) :
    (e.header appendEnabled).generation = e.base := rfl

@[simp] theorem Epoch.header_attempt (e : Epoch) (appendEnabled : Bool) :
    (e.header appendEnabled).attempt = e.attempt := rfl

@[simp] theorem Epoch.header_payloadLength (e : Epoch) (appendEnabled : Bool) :
    (e.header appendEnabled).payloadLength = e.contents.snapshot.length + 16 := rfl

/-- Where the frames behind the snapshot start. -/
def Epoch.start (e : Epoch) : Nat := wordAlign (headerBytes + (e.contents.snapshot.length + 16))

/-- The snapshot at the front of a slot, committed or not. -/
structure SnapshotAt (provider : CryptoProvider) (key : List Byte) (appendEnabled : Bool) (memory : Nat → Byte)
    (size : Nat) (e : Epoch) : Prop where
  attempt_pos : 0 < e.attempt
  base_lt : e.base < 2 ^ 64
  anchored : appendEnabled = true → anchor e.base true ≠ 0 ∧ sequence e.base ≠ 0
  short : e.contents.snapshot.length + 16 < 2 ^ 32
  fits : e.contents.snapshot.length + overhead ≤ size
  header : range memory 0 headerBytes = (e.header appendEnabled).encode
  opens : provider.aesCcmDecrypt key (nonce e.attempt) (e.header appendEnabled).encode
    (range memory headerBytes (e.contents.snapshot.length + 16)) = .ok e.contents.snapshot

/-- A committed epoch. -/
structure EpochAt (provider : CryptoProvider) (key : List Byte) (appendEnabled : Bool) (memory : Nat → Byte)
    (size : Nat) (e : Epoch) : Prop extends SnapshotAt provider key appendEnabled memory size e where
  committed : range memory (size - committed) 4 = zeroWord
  chain : appendEnabled = true →
    Frames provider key memory size e.attempt e.start e.base e.contents.appended e.stop e.generation ∧
      TailAt memory size e.stop e.free
  legacy : appendEnabled = false → e.contents.appended = [] ∧ e.generation = e.base

/-- A reclaim word that is set or still erased. -/
def FlagAt (memory : Nat → Byte) (offset : Nat) (set : Bool) : Prop :=
  range memory offset 4 = if set then zeroWord else erasedWord

/-- What the scan keeps of an epoch. -/
def Epoch.candidate (e : Epoch) (appendEnabled : Bool) (size slot : Nat) (started complete : Bool) :
    CandidateMeta where
  slot := slot
  baseGeneration := e.base
  attempt := e.attempt
  payloadLength := e.contents.snapshot.length + 16
  generation := e.generation
  appendOffset := if started then none else if appendEnabled then offered size e.stop e.free else none
  reclaimStarted := started
  reclaimComplete := complete

section Congruence
variable {provider : CryptoProvider} {key : List Byte} {appendEnabled : Bool} {first second : Nat → Byte}
  {size attempt : Nat}

theorem FrameAt.le_stop {start generation stop next : Nat} {payload : List Byte}
    (h : FrameAt provider key first size attempt start generation payload stop next) :
    start + minFrameBytes + payload.length ≤ stop := by
  have := h.stop_eq
  omega

theorem FrameAt.congr {start generation stop next : Nat} {payload : List Byte}
    (h : FrameAt provider key first size attempt start generation payload stop next)
    (hSame : ∀ i, start ≤ i → i < stop → first i = second i) :
    FrameAt provider key second size attempt start generation payload stop next := by
  have hStart := h.le_stop
  simp only [minFrameBytes, headerBytes, markerBytes] at hStart
  have hRange : ∀ offset count, start ≤ offset → offset + count ≤ stop →
      range first offset count = range second offset count := by
    intro offset count hLow hHigh
    exact range_congr fun i hi => hSame _ (by omega) (by omega)
  refine { h with
    header := ?_
    marker := ?_
    opens := ?_ }
  · rw [← hRange _ _ (by omega) (by simp only [headerBytes]; omega), h.header]
  · rw [← hRange _ _ (by simp only [markerBytes]; omega) (by simp only [markerBytes]; omega), h.marker]
  · obtain ⟨label, hLabel, hOpens⟩ := h.opens
    refine ⟨label, hLabel, ?_⟩
    rw [← hRange _ _ (by omega) (by simp only [headerBytes]; omega), hOpens]

theorem Frames.le {start generation stop last : Nat} {payloads : List (List Byte)}
    (h : Frames provider key first size attempt start generation payloads stop last) : start ≤ stop := by
  induction h with
  | nil => exact Nat.le_refl _
  | cons head tail ih =>
      have := head.le_stop
      omega

theorem Frames.congr {start generation stop last : Nat} {payloads : List (List Byte)}
    (h : Frames provider key first size attempt start generation payloads stop last)
    (hSame : ∀ i, start ≤ i → i < stop → first i = second i) :
    Frames provider key second size attempt start generation payloads stop last := by
  induction h with
  | nil => exact Frames.nil ..
  | cons head tail ih =>
      have hHead := head.le_stop
      have hTail := tail.le
      exact Frames.cons (head.congr fun i hLow hHigh => hSame i hLow (by omega))
        (ih fun i hLow hHigh => hSame i (by omega) hHigh)

/-- A frame published at the end of a chain extends it. -/
theorem Frames.snoc {start generation stop last : Nat} {payloads : List (List Byte)}
    (h : Frames provider key first size attempt start generation payloads stop last)
    {payload : List Byte} {stop' next : Nat}
    (hFrame : FrameAt provider key first size attempt stop last payload stop' next) :
    Frames provider key first size attempt start generation (payloads ++ [payload]) stop' next := by
  induction h with
  | nil => exact Frames.cons hFrame (Frames.nil ..)
  | cons head tail ih => exact Frames.cons head (ih hFrame)

theorem Frames.inBounds {start generation stop last : Nat} {payloads : List (List Byte)}
    (h : Frames provider key first size attempt start generation payloads stop last)
    (hStart : start ≤ size - tailBytes) (hAligned : start % 4 = 0) : stop ≤ size - tailBytes ∧ stop % 4 = 0 := by
  induction h with
  | nil => exact ⟨hStart, hAligned⟩
  | cons head tail ih => exact ih head.inBounds (by have := head.stop_eq; omega)

theorem TailAt.congr {stop : Nat} {free : Bool} (h : TailAt first size stop free)
    (hSame : ∀ i, stop ≤ i → i < size - tailBytes → first i = second i) : TailAt second size stop free := by
  cases free with
  | true =>
      intro i hLow hHigh
      rw [← hSame i hLow hHigh]
      exact h i hLow hHigh
  | false =>
      have hTorn : TornAt first size stop := h
      have hBounds := hTorn.inBounds
      have hRange : ∀ offset count, stop ≤ offset → offset + count ≤ size - tailBytes →
          range first offset count = range second offset count := by
        intro offset count hLow hHigh
        exact range_congr fun i hi => hSame _ (by omega) (by omega)
      simp only [minFrameBytes, headerBytes, markerBytes] at hBounds
      refine (⟨hTorn.aligned, hTorn.inBounds, ?_, ?_⟩ : TornAt second size stop)
      · rw [← hRange _ _ (by omega) (by omega), hTorn.magic]
      · rw [← hRange (stop + 20) 4 (by omega) (by omega)]
        rcases hTorn.unpublished with hErased | ⟨length, hShort, hLength, hFits, hMarker⟩
        · exact .inl hErased
        · refine .inr ⟨length, hShort, hLength, hFits, ?_⟩
          simp only [minFrameBytes, headerBytes, markerBytes] at hFits hMarker ⊢
          rw [← hRange _ _ (by omega) (by omega), hMarker]

theorem SnapshotAt.start_le {e : Epoch} (h : SnapshotAt provider key appendEnabled first size e)
    (hWhole : size % 4 = 0) : e.start ≤ size - tailBytes ∧ e.start % 4 = 0 := by
  have hFits := h.fits
  simp only [overhead, recordOverhead, headerBytes, tailBytes, Epoch.start, wordAlign] at hFits ⊢
  omega

theorem SnapshotAt.congr {e : Epoch} (h : SnapshotAt provider key appendEnabled first size e)
    (hSame : ∀ i, i < headerBytes + (e.contents.snapshot.length + 16) → first i = second i) :
    SnapshotAt provider key appendEnabled second size e := by
  refine { h with
    header := ?_
    opens := ?_ }
  · rw [← h.header]
    exact range_congr fun i hi => (hSame _ (by omega)).symm
  · rw [← h.opens]
    congr 1
    exact range_congr fun i hi => (hSame _ (by omega)).symm

/-- The reclaim words are no part of an epoch. -/
theorem EpochAt.congr {e : Epoch} (h : EpochAt provider key appendEnabled first size e) (hWhole : size % 4 = 0)
    (hSame : ∀ i, i < size - tailBytes → first i = second i)
    (hCommit : range second (size - Journal.committed) 4 = zeroWord) :
    EpochAt provider key appendEnabled second size e := by
  have hFits := h.fits
  have hStart := h.toSnapshotAt.start_le hWhole
  simp only [overhead, recordOverhead, tailBytes] at hFits
  refine ⟨h.toSnapshotAt.congr fun i hi => hSame i (by simp only [tailBytes]; omega), hCommit, fun hMode => ?_, h.legacy⟩
  obtain ⟨hFrames, hTail⟩ := h.chain hMode
  have hStop := hFrames.inBounds hStart.1 hStart.2
  exact ⟨hFrames.congr fun i _ hHigh => hSame i (by omega), hTail.congr fun i _ hHigh => hSame i hHigh⟩

end Congruence

section ReadCandidate
variable {f : MemoryFlash} {slot : Nat} {memory : Nat → Byte} {size reserved : Nat}
variable {provider : CryptoProvider} {key : List Byte} {appendEnabled : Bool}

theorem Readable.tail (h : Readable f slot memory size reserved) :
    f.read slot (size - tailBytes) tailBytes = .ok (range memory (size - reclaimStarted) 4 ++
      range memory (size - reclaimComplete) 4 ++ range memory (size - committed) 4) := by
  have hLarge := h.large
  simp only [overhead, recordOverhead, headerBytes, tailBytes] at hLarge
  rw [h.read (by simp only [tailBytes]; omega)]
  congr 1
  simp only [tailBytes, reclaimStarted, reclaimComplete, committed]
  rw [show (12 : Nat) = 4 + 4 + 4 by rfl, range_add, range_add]
  congr 2
  · congr 1
    omega
  · omega

theorem judgeFlags_flagAt {started complete : Bool} {σ : Type} (commit : List Byte) (candidate : CandidateMeta)
    (state : σ) (hOrder : complete = true → started = true) (first second : List Byte)
    (hFirst : first = if started then zeroWord else erasedWord)
    (hSecond : second = if complete then zeroWord else erasedWord) :
    judgeFlags (first ++ second ++ commit) candidate state = .valid { candidate with
      appendOffset := if started then none else candidate.appendOffset
      reclaimStarted := started
      reclaimComplete := complete } state := by
  subst hFirst hSecond
  cases started with
  | true => cases complete <;> rfl
  | false =>
      cases complete with
      | true => exact absurd (hOrder rfl) (by simp)
      | false => rfl

theorem readCandidate_epochAt (h : Readable f slot memory size reserved) {e : Epoch} {started complete : Bool}
    (hEpoch : EpochAt provider key appendEnabled memory size e) (hReserved : e.attempt ≤ reserved)
    (hStarted : FlagAt memory (size - reclaimStarted) started)
    (hComplete : FlagAt memory (size - reclaimComplete) complete)
    (hOrder : complete = true → started = true) :
    readCandidate f key appendEnabled provider recorder slot size reserved =
      .ok (.valid (e.candidate appendEnabled size slot started complete) e.contents) := by
  have hFits := hEpoch.fits
  have hBounded := f.bounded
  have hSize := h.slotSize
  have hCapacity := h.capacity
  have hHeader : f.read slot 0 headerBytes = .ok (e.header appendEnabled).encode := by
    rw [h.read, hEpoch.header]
    simp only [overhead, recordOverhead, headerBytes, tailBytes] at hFits ⊢
    omega
  have hWell : (e.header appendEnabled).Wellformed (size - headerBytes - tailBytes) reserved := by
    refine ⟨hEpoch.base_lt, hEpoch.attempt_pos, hReserved, ?_, ?_, ?_, hEpoch.short, hEpoch.anchored⟩
    · simp only [Epoch.header, MemoryFlash.nonceCapacity, MemoryFlash.monotonicCapacity] at hCapacity ⊢
      omega
    · simp [Epoch.header]
    · simp only [Epoch.header, overhead, recordOverhead, headerBytes, tailBytes] at hFits ⊢
      omega
  have hPayload : f.read slot headerBytes (e.header appendEnabled).payloadLength =
      .ok (range memory headerBytes (e.contents.snapshot.length + 16)) := by
    refine h.read ?_
    simp only [Epoch.header, overhead, recordOverhead, headerBytes, tailBytes] at hFits ⊢
    omega
  have hCommit : (range memory (size - reclaimStarted) 4 ++ range memory (size - reclaimComplete) 4 ++
      range memory (size - committed) 4).drop (tailBytes - committed) = zeroWord := by
    rw [List.drop_left' (by simp [tailBytes, committed]), hEpoch.committed]
  have hReplay : (if appendEnabled then
      replayEpoch f key slot (wordAlign (headerBytes + (e.header appendEnabled).payloadLength)) e.base
        e.attempt provider recorder (recorder.init e.contents.snapshot)
      else .ok (e.base, none, recorder.init e.contents.snapshot)) =
      .ok (e.generation, if appendEnabled then offered size e.stop e.free else none, e.contents) := by
    cases hMode : appendEnabled with
    | true =>
        obtain ⟨hFrames, hTail⟩ := hEpoch.chain hMode
        have hAligned : e.start % 4 = 0 := by simp only [Epoch.start, wordAlign]; omega
        simp only [if_true]
        rw [replayEpoch, if_neg (by simpa [Epoch.header, Epoch.start] using hAligned)]
        refine (replayFrom_frames h hEpoch.attempt_pos hReserved hFrames hAligned ?_ hTail _ ?_ _).trans ?_
        · have hWhole := h.whole
          simp only [Epoch.start, wordAlign, overhead, recordOverhead, headerBytes, tailBytes] at hFits ⊢
          omega
        · rw [hSize]
          omega
        · simp [recorder]
    | false =>
        obtain ⟨hNone, hBase⟩ := hEpoch.legacy hMode
        simp [recorder, hBase, ← hNone]
  have hFlags := judgeFlags_flagAt (range memory (size - committed) 4)
    ⟨slot, e.base, e.attempt, e.contents.snapshot.length + 16, e.generation,
      if appendEnabled then offered size e.stop e.free else none, false, false⟩ e.contents hOrder _ _ hStarted hComplete
  simp only [Epoch.header_payloadLength] at hPayload hReplay
  unfold readCandidate
  simp only [bind, Except.bind, hHeader, h.tail, failIf, RecordHeader.encode_not_old, hCommit,
    RecordHeader.decode_encode hWell, Epoch.header_payloadLength, Epoch.header_appendEnabled,
    Epoch.header_generation, Epoch.header_attempt, hPayload, hEpoch.opens, hReplay, hFlags, pure, Except.pure]
  simp [zeroWord, Epoch.candidate]

/-- A slot without its commit word holds nothing. -/
theorem readCandidate_vacant (h : Readable f slot memory size reserved)
    (hNew : oldMagic (range memory 0 4) = false) (hOpen : range memory (size - committed) 4 ≠ zeroWord) :
    readCandidate f key appendEnabled provider recorder slot size reserved = .ok .absent := by
  have hLarge := h.large
  have hHeader : f.read slot 0 headerBytes = .ok (range memory 0 headerBytes) := by
    refine h.read ?_
    simp only [overhead, recordOverhead, headerBytes, tailBytes] at hLarge ⊢
    omega
  have hCommit : (range memory (size - reclaimStarted) 4 ++ range memory (size - reclaimComplete) 4 ++
      range memory (size - committed) 4).drop (tailBytes - committed) = range memory (size - committed) 4 :=
    List.drop_left' (by simp [tailBytes, committed])
  have hMagic : (range memory 0 headerBytes).take 4 = range memory 0 4 := range_take memory (by decide)
  unfold readCandidate
  simp only [bind, Except.bind, hHeader, h.tail, failIf, hMagic, hNew, hCommit, pure, Except.pure]
  rw [if_neg (by simp)]
  exact if_pos hOpen

/-- A slot whose first byte is erased is no candidate, but its commit word may
still make it count as a corrupt one. -/
theorem readCandidate_wiped (h : Readable f slot memory size reserved) (hWiped : memory 0 = 0xff) :
    readCandidate f key appendEnabled provider recorder slot size reserved = .ok .absent ∨
      readCandidate f key appendEnabled provider recorder slot size reserved = .ok .corrupt := by
  have hFirst : ∀ digit, range memory 0 4 ≠ magic digit := by
    intro digit hEq
    have hByte := (range_eq_iff.1 hEq).2 0 (by rw [length_magic]; decide)
    rw [Nat.zero_add, hWiped] at hByte
    change (0xff : Byte) = 0x4d at hByte
    exact absurd hByte (by decide)
  have hNew : oldMagic (range memory 0 4) = false := by
    simp [oldMagic, hFirst]
  by_cases hOpen : range memory (size - committed) 4 = zeroWord
  · right
    have hLarge := h.large
    have hHeader : f.read slot 0 headerBytes = .ok (range memory 0 headerBytes) := by
      refine h.read ?_
      simp only [overhead, recordOverhead, headerBytes, tailBytes] at hLarge ⊢
      omega
    have hCommit : (range memory (size - reclaimStarted) 4 ++ range memory (size - reclaimComplete) 4 ++
        range memory (size - committed) 4).drop (tailBytes - committed) = zeroWord := by
      rw [List.drop_left' (by simp [tailBytes, committed]), hOpen]
    have hMagic : (range memory 0 headerBytes).take 4 = range memory 0 4 := range_take memory (by decide)
    have hDecode : RecordHeader.decode (range memory 0 headerBytes) (size - headerBytes - tailBytes) reserved =
        .error .storage := by
      rw [RecordHeader.decode, hMagic, if_neg (by rw [hNew]; simp), if_pos ⟨hFirst _, hFirst _⟩]
    unfold readCandidate
    simp only [bind, Except.bind, hHeader, h.tail, failIf, hMagic, hNew, hCommit, hDecode, pure, Except.pure]
    rfl
  · exact .inl (readCandidate_vacant h hNew hOpen)

end ReadCandidate

end MicroCard.Journal
