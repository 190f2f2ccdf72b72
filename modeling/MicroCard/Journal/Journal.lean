import MicroCard.Journal.Append

/-! The authenticated rotating journal. A commit seals a whole snapshot into the
slot after the active one, between a reclaim intent and a reclaim completion on
the record it replaces; an append adds one sealed frame behind the active
snapshot. Recovery scans every slot, selects the newest authenticated chain and
reconciles the monotonic anchor with it. -/
namespace MicroCard.Journal

set_option linter.dupNamespace false

open Bytes CrashTriple

structure CandidateMeta where
  slot : Nat
  baseGeneration : Nat
  attempt : Nat
  payloadLength : Nat
  generation : Nat
  appendOffset : Option Nat
  reclaimStarted : Bool
  reclaimComplete : Bool
  deriving DecidableEq, Repr

inductive CandidateRead (σ : Type) where
  | absent
  | corrupt
  | valid (candidate : CandidateMeta) (state : σ)

structure Journal where
  flash : MemoryFlash
  generation : Nat
  baseAttempt : Option Nat
  active : Option Nat
  appendOffset : Option Nat
  appendEnabled : Bool
  slotCount : Nat
  poisoned : Bool
  key : List Byte

abbrev JournalM := EStateM Error Journal

/-- Run a flash operation on the journal's flash; a failure keeps what it wrote. -/
def onFlash {α : Type} (operation : FlashM α) : JournalM α := fun journal =>
  match operation journal.flash with
  | .ok a flash => .ok a { journal with flash := flash }
  | .error e flash => .error e { journal with flash := flash }

/-- The next multiple of four, where the frame after `length` bytes starts. -/
def wordAlign (length : Nat) : Nat := (length + 3) / 4 * 4

/-- Judge the reclaim words of an authenticated slot. Each is all zero or still
erased, and a completion needs its intent. -/
def judgeFlags {σ : Type} (tail : List Byte) (candidate : CandidateMeta) (state : σ) : CandidateRead σ :=
  let started := tail.take 4
  let complete := (tail.drop (tailBytes - reclaimComplete)).take 4
  if (started ≠ [0, 0, 0, 0] ∧ started ≠ [0xff, 0xff, 0xff, 0xff]) ∨
      (complete ≠ [0, 0, 0, 0] ∧ complete ≠ [0xff, 0xff, 0xff, 0xff]) then .corrupt
  else if complete = [0, 0, 0, 0] ∧ started ≠ [0, 0, 0, 0] then .corrupt
  else .valid { candidate with
    appendOffset := if started = [0, 0, 0, 0] then none else candidate.appendOffset
    reclaimStarted := started = [0, 0, 0, 0]
    reclaimComplete := complete = [0, 0, 0, 0] } state

/-- Decode one slot. Flags are judged only after the record authenticates. -/
def readCandidate {σ : Type} (flash : MemoryFlash) (key : List Byte) (appendEnabled : Bool)
    (provider : CryptoProvider) (replay : Replay σ) (slot size reservedNonce : Nat) :
    Except Error (CandidateRead σ) := do
  let header ← flash.read slot 0 headerBytes
  failIf (oldMagic (header.take 4)) .incompatibleState
  let tail ← flash.read slot (size - tailBytes) tailBytes
  if tail.drop (tailBytes - committed) ≠ [0, 0, 0, 0] then return .absent
  match RecordHeader.decode header (size - headerBytes - tailBytes) reservedNonce with
  | .error .incompatibleState => throw .incompatibleState
  | .error _ => return .corrupt
  | .ok decoded =>
      failIf (decoded.appendEnabled ≠ appendEnabled) .incompatibleState
      let n := decoded.payloadLength
      let ciphertext ← flash.read slot headerBytes n
      match provider.aesCcmDecrypt key (nonce decoded.attempt) header ciphertext with
      | .error .authentication => return .corrupt
      | .error e => throw e
      | .ok plaintext =>
          failIf (plaintext.length ≠ n - 16) .storage
          let replayed :=
            if appendEnabled then
              replayEpoch flash key slot (wordAlign (headerBytes + n)) decoded.generation
                decoded.attempt provider replay (replay.init plaintext)
            else .ok (decoded.generation, none, replay.init plaintext)
          match replayed with
          | .error .format => return .corrupt
          | .error .authentication => return .corrupt
          | .error e => throw e
          | .ok (generation, appendOffset, state) =>
              return judgeFlags tail {
                slot := slot
                baseGeneration := decoded.generation
                attempt := decoded.attempt
                payloadLength := n
                generation := generation
                appendOffset := appendOffset
                reclaimStarted := false
                reclaimComplete := false } state

structure Scan where
  selected : Option CandidateMeta
  sawNonErased : Bool
  sawCorruptCommitted : Bool

/-- The selected record announced a reclaim that has not been completed. -/
def Scan.interruptedReclaim (scan : Scan) : Bool :=
  match scan.selected with
  | some candidate => candidate.reclaimStarted && !candidate.reclaimComplete
  | none => false

/-- One iteration of the recovery scan. Ties keep the earlier slot. -/
def scanSlot {σ : Type} (flash : MemoryFlash) (key : List Byte) (appendEnabled : Bool)
    (provider : CryptoProvider) (replay : Replay σ) (reservedNonce : Nat) (scan : Scan) (slot : Nat) :
    Except Error Scan := do
  let isErased ← flash.isErased slot
  let scan := if isErased then scan else { scan with sawNonErased := true }
  match ← readCandidate flash key appendEnabled provider replay slot flash.slotSize reservedNonce with
  | .absent => pure scan
  | .corrupt => pure { scan with sawCorruptCommitted := true }
  | .valid candidate _ =>
      match scan.selected with
      | none => pure { scan with selected := some candidate }
      | some current =>
          if current.generation < candidate.generation then
            pure { scan with selected := some candidate }
          else pure scan

/-- Choose the chain to continue from and read its state again. -/
def selectCandidate {σ : Type} (flash : MemoryFlash) (key : List Byte) (appendEnabled : Bool)
    (provider : CryptoProvider) (replay : Replay σ) :
    Except Error (Option (CandidateMeta × σ)) := do
  failIf (¬(2 ≤ flash.slotCount ∧ flash.slotCount ≤ 8)) .storage
  failIf (flash.slotSize < overhead) .storage
  let reservedNonce ← flash.nonceGeneration
  failIf (flash.nonceCapacity < reservedNonce) .storage
  let scan ← (List.range flash.slotCount).foldlM
    (scanSlot flash key appendEnabled provider replay reservedNonce) ⟨none, false, false⟩
  failIf ((scan.sawCorruptCommitted && !scan.interruptedReclaim) ||
      (scan.sawNonErased && scan.selected.isNone)) .storage
  match scan.selected with
  | none => pure none
  | some candidate =>
      match ← readCandidate flash key appendEnabled provider replay candidate.slot flash.slotSize
          reservedNonce with
      | .valid reloaded state =>
          if reloaded = candidate then pure (some (candidate, state)) else throw .storage
      | _ => throw .storage

/-- Finish an interrupted anchor advance, or refuse a chain the anchor excludes. -/
def reconcileGeneration (generation : Nat) : FlashM Unit := do
  let flash ← get
  let anchored ← readOnly flash.monotonicGeneration
  failIf (flash.monotonicCapacity < anchored) .storage
  let nextAnchored ← orFail (checkedAdd64 anchored 1) .storage
  failIf (generation < anchored ∨ nextAnchored < generation) .storage
  onlyIf (generation = nextAnchored) (advanceMonotonic generation)

def recoverWithReplayMode {σ : Type} (provider : CryptoProvider) (replay : Replay σ)
    (allowUnreconciled : Bool) : JournalM (Option σ) := do
  modify fun journal => { journal with poisoned := true }
  let journal ← get
  let selected ← readOnly
    (selectCandidate journal.flash journal.key journal.appendEnabled provider replay)
  let generation := match selected with
    | some (candidate, _) => candidate.generation
    | none => 0
  let reconciled ← capture (onFlash (reconcileGeneration (anchor generation journal.appendEnabled)))
  modify fun journal => { journal with
    generation := generation
    baseAttempt := selected.map fun pair => pair.1.attempt
    active := selected.map fun pair => pair.1.slot
    appendOffset := selected.bind fun pair => pair.1.appendOffset
    slotCount := journal.flash.slotCount
    poisoned := match reconciled with
      | .ok _ => false
      | .error _ => true }
  match reconciled with
  | .error e => if allowUnreconciled then pure (selected.map Prod.snd) else throw e
  | .ok _ => pure (selected.map Prod.snd)

def recoverWithReplay {σ : Type} (provider : CryptoProvider) (replay : Replay σ) : JournalM (Option σ) :=
  recoverWithReplayMode provider replay false

/-- A journal that has not been recovered yet accepts nothing. -/
def Journal.unopened (flash : MemoryFlash) (key : List Byte) (appendEnabled : Bool) : Journal where
  flash := flash
  generation := 0
  baseAttempt := none
  active := none
  appendOffset := none
  appendEnabled := appendEnabled
  slotCount := 0
  poisoned := true
  key := key

/-- Open a flash region: recovery on a journal that knows nothing yet. -/
def openMode {σ : Type} (flash : MemoryFlash) (key : List Byte) (provider : CryptoProvider)
    (appendEnabled : Bool) (replay : Replay σ) : EStateM.Result Error Journal (Option σ) :=
  recoverWithReplay provider replay (Journal.unopened flash key appendEnabled)

/-- Reserve a counter value for an identity; it may later seal one snapshot. -/
def reserveIdentityNonce : JournalM Nat := do
  let journal ← get
  failIf journal.poisoned .storage
  let value ← onFlash reserveNonce
  let journal ← get
  failIf (value = 0 ∨ journal.flash.nonceCapacity < value) .storage
  pure value

/-- The payload length of a record, once its buffer fits a 32-bit length. -/
def prepareRecord (data : List Byte) : Except Error Nat :=
  if data.length + 16 < 2 ^ 32 then .ok (data.length + 16) else .error .quota

/-- Seal `data` under an authenticated header; the result is header and ciphertext. -/
def encryptRecord (key : List Byte) (header : RecordHeader) (recordNonce data : List Byte)
    (provider : CryptoProvider) : Except Error (List Byte) := do
  let ciphertext ← provider.aesCcmEncrypt key recordNonce header.encode data
  failIf (ciphertext.length ≠ data.length + 16) .storage
  pure (header.encode ++ ciphertext)

/-- The attempt of a snapshot: a value reserved earlier that is still the last
one, or a new one. -/
def snapshotAttempt (reserved : Option Nat) : JournalM Nat :=
  match reserved with
  | some value => do
      failIf (value = 0) .storage
      let journal ← get
      let current ← readOnly journal.flash.nonceGeneration
      failIf (current ≠ value) .storage
      pure value
  | none => onFlash reserveNonce

/-- Reserve the nonce only after staging succeeds, then seal the exact header. -/
def sealRecord (data : List Byte) (generation : Nat) (provider : CryptoProvider)
    (reserved : Option Nat) : JournalM (List Byte × Nat) := do
  let payloadLength ← readOnly (prepareRecord data)
  let journal ← get
  let attempt ← snapshotAttempt reserved
  onFlash (modify (noteAttempt attempt))
  let record ← readOnly (encryptRecord journal.key
    { appendEnabled := journal.appendEnabled, generation := generation, attempt := attempt,
      payloadLength := payloadLength } (nonce attempt) data provider)
  pure (record, attempt)

def zeroWord : List Byte := [0, 0, 0, 0]

/-- Set a reclaim word of the record that is being replaced, if there is one. -/
def markReclaim (active : Option Nat) (offset : Nat) : JournalM Unit :=
  match active with
  | some active => onFlash (program none active offset zeroWord)
  | none => pure ()

/-- The writes of a commit. Any flash error may leave a published record or a
reclaim intent, so the journal is poisoned until all of them are done. -/
def replaceRecord (active : Option Nat) (slot size generation attempt : Nat) (durability : Durability)
    (record : List Byte) : JournalM Unit := do
  modify fun journal => { journal with poisoned := true }
  markReclaim active (size - reclaimStarted)
  onFlash (erase slot)
  onFlash (program (some (nonce attempt)) slot 0 record)
  onFlash (program none slot (size - committed) zeroWord)
  markReclaim active (size - reclaimComplete)
  modify fun journal => { journal with
    generation := generation
    baseAttempt := some attempt
    active := some slot
    appendOffset := some (wordAlign record.length) }
  let journal ← get
  onlyIf (durability = .anchored) (onFlash (advanceMonotonic (anchor generation journal.appendEnabled)))
  modify fun journal => { journal with poisoned := false }

/-- The slot a commit writes: the one behind the active slot. -/
def Journal.nextSlot (journal : Journal) : Nat :=
  match journal.active with
  | some active => (active + 1) % journal.slotCount
  | none => 0

/-- Seal a whole snapshot and replace the slot behind the active one by it. -/
def commitOwnedWithNonce (data : List Byte) (durability : Durability) (provider : CryptoProvider)
    (reserved : Option Nat) : JournalM (List Byte) := do
  let journal ← get
  failIf journal.poisoned .storage
  let size := journal.flash.slotSize
  failIf (size < overhead ∨ size - overhead < data.length) .quota
  let generation ← readOnly (nextGeneration journal.generation journal.appendEnabled durability)
  failIf (journal.flash.monotonicCapacity < anchor generation journal.appendEnabled) .quota
  let (record, attempt) ← sealRecord data generation provider reserved
  replaceRecord journal.active journal.nextSlot size generation attempt durability record
  pure record

def prepareAppend (start length : Nat) (durability : Durability) : JournalM (Nat × Nat × Nat) := do
  let journal ← get
  failIf journal.poisoned .storage
  failIf (!journal.appendEnabled) .incompatibleState
  let slot ← orFail journal.active .storage
  let stop ← readOnly (frameEnd journal.flash start length)
  let generation ← readOnly (nextGeneration journal.generation true durability)
  failIf (journal.flash.monotonicCapacity < anchor generation true) .quota
  -- Never program over a previous attempt, including an incomplete one.
  let free ← readOnly (erased journal.flash slot start stop)
  failIf (!free) .storage
  pure (slot, stop, generation)

def publish (label : List Byte) (slot start stop generation : Nat) (durability : Durability)
    (record : List Byte) : JournalM Unit := do
  modify fun journal => { journal with poisoned := true }
  onFlash (program (some label) slot start record)
  onFlash (program none slot (stop - markerBytes) zeroWord)
  onlyIf (durability = .anchored) (onFlash (advanceMonotonic (anchor generation true)))
  modify fun journal => { journal with generation := generation, poisoned := false }

/-- Append one bounded authenticated change behind the active snapshot. -/
def appendWith (data : List Byte) (durability : Durability) (provider : CryptoProvider) : JournalM Unit := do
  let journal ← get
  failIf journal.poisoned .storage
  let start ← orFail journal.appendOffset .quota
  let (slot, stop, generation) ← prepareAppend start data.length durability
  let attempt ← orFail journal.baseAttempt .storage
  let payloadLength ← readOnly (prepareRecord data)
  let label ← readOnly (appendNonce attempt start)
  let record ← readOnly (encryptRecord journal.key
    { appendEnabled := true, generation := generation, attempt := attempt,
      payloadLength := payloadLength } label data provider)
  publish label slot start stop generation durability record
  modify fun journal' => { journal' with
    appendOffset := (frameEnd journal'.flash start data.length).toOption }

end MicroCard.Journal
