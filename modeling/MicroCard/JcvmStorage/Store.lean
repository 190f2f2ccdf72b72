import MicroCard.Jcvm.Instance
import MicroCard.JcvmStorage.Replay
import MicroCard.JcvmStorage.Writer
import MicroCard.Journal.Admission

/-! The journal of one applet's state. Full snapshots are written in one buffer as large
as a slot, which moves into the journal and back with each of them. -/
namespace MicroCard.Jcvm.PersistentView

open Bytes

/-- `heap_header`. -/
def heapHeader (view : PersistentView) : Except Error Byte :=
  if view.length = 0 then .error .bounds else .ok (view.heap 0)

/-- Nothing but the mark of a deletion request was written, and it is as it was. -/
def sameStateAfterDeletionRequest (view : PersistentView) (beforeLength : Nat) (beforeHeader : Byte) : Except Error Bool :=
  match view.pendingWrites with
  | none => .ok false
  | some writes =>
      if view.heapBytes ≠ beforeLength then .ok false
      else do
        let header ← view.heapHeader
        pure (header = beforeHeader ∧ writes.snapshot = false ∧ writes.staticRange = none ∧ writes.heapRanges = [(0, 1)])

end MicroCard.Jcvm.PersistentView

namespace MicroCard.JcvmStorage

open Bytes CrashTriple Slices
open Jcvm (LoadFile PersistentState PersistentView Sizes)
open Journal (Durability JournalM MemoryFlash)

/-- A vector and the bytes that are allocated for it. -/
structure Buffer where
  bytes : List Byte
  capacity : Nat

def Buffer.empty : Buffer := ⟨[], 0⟩

structure Store where
  journal : Journal.Journal
  /-- `snapshot_workspace`. -/
  workspace : Buffer
  heapLimit : Nat
  image : Cbor.Fixed 32
  installation : Cbor.Fixed 16
  maximum : Nat
  heapLength : Option Nat
  heapHeader : Option Byte

abbrev StoreM := EStateM Error Store

/-- What the host computes for the store. -/
structure Provider where
  crypto : Journal.CryptoProvider
  sha256 : List Byte → Except Error (Cbor.Fixed 32)

/-- The applet engine, as far as the store depends on it. -/
structure Engine (C : Type) where
  /-- `restore_without_frames` and `restore_execution_frames`. -/
  restore : LoadFile → Sizes → PersistentState → Except Error C
  persistentView : C → Except Jcvm.Error PersistentView
  persistentHeapBytes : C → Nat
  selected : C → Bool

inductive CheckpointReason where
  | installation
  | apduEnd
  | ownerPin
  | transactionCommit
  deriving DecidableEq

def CheckpointReason.durability : CheckpointReason → Durability
  | .apduEnd => .ordinary
  | .transactionCommit => .ordinary
  | .installation => .anchored
  | .ownerPin => .anchored

section Buffers

/-- Reuse a buffer that is large enough for every snapshot. -/
def reserveSnapshotWorkspace (output : Buffer) (maximum : Nat) : Except Error Buffer :=
  if maximum ≤ output.capacity then .ok output
  else do
    let capacity ← orFail (checkedAdd64 maximum Journal.overhead) .quota
    pure ⟨output.bytes, capacity⟩

/-- The writes of a snapshot. -/
def writeSnapshot (view : PersistentView) (image : Cbor.Fixed 32) (installation : Cbor.Fixed 16) : FillM Unit Unit := do
  plainly (Cbor.SliceEncoder.array 7)
  plainly (Cbor.SliceEncoder.unsigned 1)
  plainly (Cbor.SliceEncoder.unsigned 1)
  bytesWith 32 (set ((), image.1))
  bytesWith 16 (set ((), installation.1))
  plainly (Cbor.SliceEncoder.unsigned view.instance')
  bytesWith view.heapBytes (failWith .format (fun s => match view.saveInto s.2 with
    | .ok _ output => .ok () ((), output)
    | .error e output => .error e ((), output)))
  bytesWith view.statics.length (set ((), view.statics))

/-- `encode_snapshot_into`. What a failure has written is cleared. -/
def encodeSnapshotInto (view : PersistentView) (image : Cbor.Fixed 32) (installation : Cbor.Fixed 16) (maximum : Nat) :
    EStateM Error Buffer Unit := fun output =>
  match snapshotSize view.instance' view.heapBytes view.statics.length with
  | .error e => .error e ⟨[], output.capacity⟩
  | .ok length =>
      if maximum < length ∨ output.capacity < length + Journal.recordOverhead then .error .quota ⟨[], output.capacity⟩
      else
        match onSlice (writeSnapshot view image installation) ((), resize 0 length output.bytes) with
        | .ok () (_, bytes) => .ok () ⟨bytes, output.capacity⟩
        | .error e _ => .error e ⟨[], output.capacity⟩

/-- The allocation of a record: that of its data, if the record fits. -/
def preparedCapacity (data : Buffer) : Nat :=
  if data.capacity < Journal.headerBytes + (data.bytes.length + 16) then Journal.headerBytes + (data.bytes.length + 16)
  else data.capacity

/-- `commit_reusing_with_reason`. -/
def commitReusing (data : Buffer) (reason : CheckpointReason) (provider : Provider) : JournalM Buffer := do
  let record ← Journal.commitOwnedWithNonce data.bytes reason.durability provider.crypto none
  pure ⟨record, preparedCapacity data⟩

/-- The step of the search for the largest heap. -/
def searchHeap (maximum statics : Nat) : Nat → Nat → Nat → Except Error Nat
  | 0, low, _ => .ok low
  | fuel + 1, low, high =>
      if low < high then do
        let middle := low + (high - low + 1) / 2
        let size ← snapshotSize 65535 middle statics
        if size ≤ maximum then searchHeap maximum statics fuel middle high
        else searchHeap maximum statics fuel low (middle - 1)
      else .ok low

/-- The largest heap whose snapshot can be published. -/
def maximumHeapBytes (maximum statics requested : Nat) : Except Error Nat := do
  failIf (maximum < Journal.recordOverhead) .quota
  let maximum := maximum - Journal.recordOverhead
  let size ← snapshotSize 65535 0 statics
  failIf (maximum < size) .quota
  searchHeap maximum statics (min requested maximum) 0 (min requested maximum)

end Buffers

section Snapshots

/-- The saved state behind the fixed fields of a snapshot. -/
def readSnapshot (file : LoadFile) (sizes : Sizes) (image : Cbor.Fixed 32) (installation : Cbor.Fixed 16) :
    Cbor.Decoder PersistentState := do
  Cbor.failAs .incompatibleState (Cbor.record 7)
  let version ← Cbor.unsigned
  failIf (version ≠ 1) .incompatibleState
  let engine ← Cbor.unsigned
  failIf (engine ≠ 1) .incompatibleState
  let savedImage ← Cbor.fixed 32
  failIf (savedImage ≠ image) .keyMismatch
  let savedInstallation ← Cbor.fixed 16
  failIf (savedInstallation ≠ installation) .keyMismatch
  let instance' ← Cbor.number (2 ^ 16)
  let heap ← Cbor.bytes sizes.heapBytes
  let fields ← readOnly (engineCheck .format file.staticFields)
  let statics ← Cbor.bytes fields.imageSize
  Cbor.finish
  pure ⟨heap, statics, instance'⟩

def decodeSnapshot (bytes : List Byte) (file : LoadFile) (sizes : Sizes) (image : Cbor.Fixed 32)
    (installation : Cbor.Fixed 16) : Except Error PersistentState :=
  decode (readSnapshot file sizes image installation) bytes

variable {C : Type} (engine : Engine C)

/-- An empty buffer stands for no snapshot. -/
def decodeCard (snapshot : List Byte) (file : LoadFile) (sizes : Sizes) (image : Cbor.Fixed 32)
    (installation : Cbor.Fixed 16) : Except Error (Option C) :=
  if snapshot = [] then .ok none
  else do
    let saved ← decodeSnapshot snapshot file sizes image installation
    let card ← engine.restore file sizes saved
    pure (some card)

/-- The heap header of a card, if there is a card. -/
def cardHeader : Option C → Except Error (Option Byte)
  | none => .ok none
  | some card => engineCheck .format (do
      let view ← engine.persistentView card
      let header ← view.heapHeader
      pure (some header))

/-- Changes are replayed into the snapshot before them. -/
def replay (maximum : Nat) : Journal.Replay (List Byte) where
  init := fun snapshot => snapshot
  apply := fun snapshot generation delta =>
    match replaySnapshot (UInt64.ofNat generation) delta (UInt64.ofNat maximum) snapshot with
    | .ok () snapshot => .ok snapshot
    | .error e _ => .error e

/-- The buffer that a recovered snapshot stands in, or none. -/
def recoveredBuffer (flash : MemoryFlash) : Option (List Byte) → Buffer
  | none => .empty
  | some snapshot => ⟨snapshot, flash.slotSize - Journal.overhead + 16⟩

def parseImage (bytes : List Byte) : Except Error LoadFile := engineCheck .format (LoadFile.parse bytes)

namespace Store

/-- `open_snapshot`. -/
def openSnapshot (flash : MemoryFlash) (key verifiedImage : List Byte) (installation : Cbor.Fixed 16) (provider : Provider) :
    Except Error (Store × Option (List Byte)) := do
  failIf (flash.slotSize < Journal.overhead) .storage
  let maximum := flash.slotSize - Journal.overhead
  let image ← provider.sha256 verifiedImage
  match Journal.openMode flash key provider.crypto true (replay maximum) with
  | .ok snapshot journal =>
      pure ({ journal, workspace := .empty, heapLimit := maximum, image, installation, maximum, heapLength := none,
              heapHeader := none }, snapshot)
  | .error e _ => throw e

/-- `Store::open`. -/
def opened (flash : MemoryFlash) (key verifiedImage : List Byte) (installation : Cbor.Fixed 16) (sizes : Sizes)
    (provider : Provider) : Except Error (Store × Option C) := do
  let file ← parseImage verifiedImage
  let (store, snapshot) ← openSnapshot flash key verifiedImage installation provider
  let fields ← engineCheck .format file.staticFields
  let heapLimit ← maximumHeapBytes store.maximum fields.imageSize sizes.heapBytes
  let sizes := { sizes with heapBytes := heapLimit }
  let workspace ← reserveSnapshotWorkspace (recoveredBuffer flash snapshot) store.maximum
  let card ← decodeCard engine workspace.bytes file sizes store.image installation
  let header ← cardHeader engine card
  pure ({ store with
    heapLimit
    workspace := ⟨[], workspace.capacity⟩
    heapLength := card.map engine.persistentHeapBytes
    heapHeader := header }, card)

/-- A journal operation on the journal of the store. -/
def onJournal {α : Type} (operation : JournalM α) : StoreM α := fun store =>
  match operation store.journal with
  | .ok a journal => .ok a { store with journal }
  | .error e journal => .error e { store with journal }

def onWorkspace {α : Type} (operation : EStateM Error Buffer α) : StoreM α := fun store =>
  match operation store.workspace with
  | .ok a workspace => .ok a { store with workspace }
  | .error e workspace => .error e { store with workspace }

/-- Move the workspace out. -/
def takeWorkspace : StoreM Buffer := fun store => .ok store.workspace { store with workspace := .empty }

def recover (verifiedImage : List Byte) (sizes : Sizes) (provider : Provider) : StoreM (Option C) := do
  let digest ← readOnly (provider.sha256 verifiedImage)
  let store ← get
  failIf (digest ≠ store.image) .keyMismatch
  let file ← readOnly (parseImage verifiedImage)
  modify fun store => { store with workspace := .empty }
  let snapshot ← onJournal (Journal.recoverWithReplay provider.crypto (replay store.maximum))
  let workspace ← readOnly (reserveSnapshotWorkspace (recoveredBuffer store.journal.flash snapshot) store.maximum)
  let card ← readOnly (decodeCard engine workspace.bytes file sizes store.image store.installation)
  modify fun store => { store with
    workspace := ⟨[], workspace.capacity⟩
    heapLength := card.map engine.persistentHeapBytes }
  let header ← readOnly (cardHeader engine card)
  modify fun store => { store with heapHeader := header }
  pure card

def commitSnapshot (view : PersistentView) (reason : CheckpointReason) (provider : Provider) : StoreM Unit := do
  let store ← get
  onWorkspace (encodeSnapshotInto view store.image store.installation store.maximum)
  let snapshot ← takeWorkspace
  let record ← onJournal (commitReusing snapshot reason provider)
  modify fun store => { store with workspace := ⟨[], record.capacity⟩ }

/-- `append_encoded_with`: the frame is encoded once it is known to have a place. -/
def appendEncodedWith (length : Nat) (durability : Durability) (provider : Provider)
    (encode : EStateM Error (List Byte) Unit) : JournalM Unit := do
  let journal ← get
  failIf journal.poisoned .storage
  let start ← orFail journal.appendOffset .quota
  let (slot, stop, generation) ← Journal.prepareAppend start length durability
  let data ← match encode (List.replicate length 0) with
    | .ok () data => pure data
    | .error e _ => throw e
  let attempt ← orFail journal.baseAttempt .storage
  let payloadLength ← readOnly (Journal.prepareRecord data)
  let label ← readOnly (Journal.appendNonce attempt start)
  let record ← readOnly (Journal.encryptRecord journal.key
    { appendEnabled := journal.appendEnabled, generation := generation, attempt := attempt, payloadLength := payloadLength }
    label data provider.crypto)
  Journal.publish label slot start stop generation durability record
  modify fun journal' => { journal' with appendOffset := (Journal.frameEnd journal'.flash start length).toOption }

/-- The capacity for a change, where no room counts as none. -/
def roomForChange : StoreM Nat := do
  let store ← get
  readOnly (Journal.roomOf store.journal.appendCapacity)

/-- Append what has changed since the last record, if there is one and the change fits.
Otherwise a snapshot is needed. -/
def appendChange (view : PersistentView) (reason : CheckpointReason) (provider : Provider) : Option Nat → StoreM Bool
  | none => pure false
  | some beforeLength => do
      let capacity ← roomForChange
      if capacity = 0 then return false
      let store ← get
      match viewSize view beforeLength store.journal.generation capacity with
      | .ok length => do
          onJournal (appendEncodedWith length reason.durability provider
            (encodeViewInto view beforeLength store.journal.generation))
          return true
      | .error .quota => return false
      | .error e => throw e

def noteCommitted (view : PersistentView) (header : Byte) : StoreM Unit :=
  modify fun store => { store with heapLength := some view.heapBytes, heapHeader := some header }

/-- Whether the command has only marked a deletion request, and left all else. -/
def unchanged (store : Store) (view : PersistentView) (reason : CheckpointReason) : Except Error Bool :=
  match reason, store.heapLength, store.heapHeader with
  | .apduEnd, some length, some before => engineCheck .format (view.sameStateAfterDeletionRequest length before)
  | _, _, _ => .ok false

/-- `commit_view`. -/
def commitView (view : PersistentView) (reason : CheckpointReason) (provider : Provider) : StoreM Unit := do
  let header ← readOnly (engineCheck .format view.heapHeader)
  let store ← get
  let same ← readOnly (store.unchanged view reason)
  onlyIf (same = false) do
    let required ← readOnly (snapshotSize view.instance' view.heapBytes view.statics.length)
    failIf (store.maximum < required) .quota
    let appended ← appendChange view reason provider store.heapLength
    onlyIf (appended = false) (commitSnapshot view reason provider)
    noteCommitted view header

/-- `compact_view`. -/
def compactView (view : PersistentView) (provider : Provider) : StoreM Unit := do
  commitSnapshot view .apduEnd provider
  modify fun store => { store with heapLength := some view.heapBytes }
  let header ← readOnly (engineCheck .format view.heapHeader)
  modify fun store => { store with heapHeader := some header }

/-- `seal_new_epoch`: the first record under a fresh key. -/
def sealNewEpoch (snapshot key : List Byte) (provider : Provider) : Except Error (List Byte) := do
  let length := snapshot.length + (Journal.headerBytes + 16)
  failIf (¬(Journal.headerBytes + 16 + 1 ≤ length ∧ length ≤ 65536 - Journal.tailBytes)) .quota
  let payloadLength ← Journal.prepareRecord snapshot
  let generation ← Journal.nextGeneration 0 true .anchored
  Journal.encryptRecord key { appendEnabled := true, generation, attempt := 1, payloadLength } (Journal.nonce 1) snapshot
    provider.crypto

/-- `prepare_epoch_record`: the workspace becomes the record. -/
def prepareEpochRecord (view : PersistentView) (installation : Cbor.Fixed 16) (key : List Byte) (provider : Provider) :
    StoreM (List Byte) := do
  let snapshot ← takeWorkspace
  let store ← get
  let snapshot ← readOnly (reserveSnapshotWorkspace snapshot store.maximum)
  match encodeSnapshotInto view store.image installation store.maximum snapshot with
  | .ok () snapshot => readOnly (sealNewEpoch snapshot.bytes key provider)
  | .error e _ => throw e

end Store

end Snapshots

end MicroCard.JcvmStorage
