import MicroCard.Jcvm.Mutators

/-! Heaps over whole runs. As long as every reference that is accepted names an object,
the objects fill the heap from its second byte to its end, in a transaction or not. -/
namespace MicroCard.Jcvm

open Bytes CrashTriple Checks UndoLog

section Refusing

variable {heap : Heap} {reference : Nat} {α : Type}

/-- A program that returns only when the header at the reference reads. -/
def Reads (heap : Heap) (reference : Nat) (program : HeapM α) : Prop :=
  Triple (fun h => h = heap) program (fun _ _ => ∃ info, heap.info reference = .ok info) fun _ _ => True

theorem Reads.known {program : HeapM α} {info : Info} (h : heap.info reference = .ok info) : Reads heap reference program := by
  intro s _
  cases program s with
  | ok a s' => exact ⟨info, h⟩
  | error e s' => trivial

theorem Reads.slot (index : Nat) (wantArray : Bool) (body : Nat × Info → HeapM α) :
    Reads heap reference (get >>= fun h => readOnly (h.slot reference index wantArray) >>= body) := by
  apply Triple.get
  intro s hs
  rw [hs]
  apply Triple.readOnly_bind
  · rintro ⟨at', info⟩ hSlot
    exact Reads.known (Heap.slot_ok hSlot).1
  · exact fun _ _ _ _ => trivial

theorem Reads.byteRange (offset length : Nat) (body : Nat × Info → HeapM α) :
    Reads heap reference (get >>= fun h => readOnly (h.byteRange reference offset length) >>= body) := by
  apply Triple.get
  intro s hs
  rw [hs]
  apply Triple.readOnly_bind
  · rintro ⟨at', info⟩ hRange
    exact Reads.known (Heap.byteRange_ok hRange).1
  · exact fun _ _ _ _ => trivial

/-- A copy reads both headers. -/
theorem Reads.copy {source sourceOffset destination destinationOffset length : Nat}
    (hEither : reference = source ∨ reference = destination) (body : List Byte → Nat × Info → HeapM α) :
    Reads heap reference (get >>= fun h => readOnly (h.byteSlice source sourceOffset length) >>= fun value =>
      readOnly (h.byteRange destination destinationOffset length) >>= body value) := by
  apply Triple.get
  intro s hs
  rw [hs]
  apply Triple.readOnly_bind
  · intro value hValue
    apply Triple.readOnly_bind
    · rintro ⟨at', info⟩ hRange
      rcases hEither with rfl | rfl
      · unfold Heap.byteSlice at hValue
        simp only [bind_ok] at hValue
        obtain ⟨⟨from', other⟩, hSource, -⟩ := hValue
        exact Reads.known (Heap.byteRange_ok hSource).1
      · exact Reads.known (Heap.byteRange_ok hRange).1
    · exact fun _ _ _ _ => trivial
  · exact fun _ _ _ _ => trivial

theorem Reads.prepare {spans : List (Nat × Nat × Nat)} (hSpan : reference ∈ spans.map fun span => span.1) :
    Reads heap reference (Heap.preparePayloadWrites spans) := by
  apply Triple.get
  intro s hs
  rw [hs]
  apply Triple.readOnly_bind
  · intro _ hChecked
    obtain ⟨span, hMem, hRef⟩ := List.mem_map.1 hSpan
    have hCheck := forM_each hChecked hMem
    unfold Heap.checkSpan at hCheck
    simp only [bind_ok] at hCheck
    obtain ⟨info, hInfo, -⟩ := hCheck
    rw [hRef] at hInfo
    exact Reads.known hInfo
  · exact fun _ _ _ _ => trivial

/-- An operation returns only when the headers of all its references read. -/
theorem HeapOp.reads (op : HeapOp) (hRef : reference ∈ op.references) :
    ∃ program, op.run = Memory.onHeap program ∧ Reads heap reference program := by
  cases op with
  | putWord _ index value => exact ⟨_, rfl, List.mem_singleton.1 hRef ▸ Reads.slot index false _⟩
  | putInt _ index value => exact ⟨_, rfl, List.mem_singleton.1 hRef ▸ Reads.slot index false _⟩
  | arrayPut _ index value => exact ⟨_, rfl, List.mem_singleton.1 hRef ▸ Reads.slot index true _⟩
  | arrayPutReference _ index value => exact ⟨_, rfl, List.mem_singleton.1 hRef ▸ Reads.slot index true _⟩
  | arrayPutInt _ index value => exact ⟨_, rfl, List.mem_singleton.1 hRef ▸ Reads.slot index true _⟩
  | putWordUnconditional _ index value => exact ⟨_, rfl, List.mem_singleton.1 hRef ▸ Reads.slot index false _⟩
  | writeBytes _ offset value => exact ⟨_, rfl, List.mem_singleton.1 hRef ▸ Reads.byteRange offset _ _⟩
  | writeBytesUnconditional _ offset value => exact ⟨_, rfl, List.mem_singleton.1 hRef ▸ Reads.byteRange offset _ _⟩
  | fillBytesUnconditional _ offset length value =>
      exact ⟨_, rfl, List.mem_singleton.1 hRef ▸ Reads.byteRange offset length _⟩
  | copyBytes source sourceOffset destination destinationOffset length =>
      exact ⟨_, rfl, Reads.copy (by simpa [references] using hRef) _⟩
  | copyBytesUnconditional source sourceOffset destination destinationOffset length =>
      exact ⟨_, rfl, Reads.copy (by simpa [references] using hRef) _⟩
  | preparePayloadWrites spans => exact ⟨_, rfl, Reads.prepare hRef⟩
  | setLifecycle | requestObjectDeletion | newObject | newArray | newReferenceArray | newTransientArray | writeStatic =>
      cases hRef

/-- An operation on a reference that the heap refuses changes nothing. -/
theorem HeapOp.refused (op : HeapOp) {memory : Memory} (hRoom : memory.heap.Room) (hRef : reference ∈ op.references)
    (hRefused : ∀ info, memory.heap.info reference ≠ .ok info) : op.after memory = memory := by
  obtain ⟨program, hRun, hReads⟩ := @HeapOp.reads memory.heap _ op hRef
  have hSpec := op.spec hRoom memory rfl
  have hRead := hReads memory.heap rfl
  unfold HeapOp.after
  rw [hRun] at hSpec ⊢
  unfold Memory.onHeap at hSpec ⊢
  cases hProgram : program memory.heap with
  | ok a heap =>
      rw [hProgram] at hRead
      obtain ⟨info, hInfo⟩ := hRead
      exact absurd hInfo (hRefused info)
  | error e heap =>
      rw [hProgram] at hSpec
      exact hSpec

end Refusing

/-- The objects a call names. -/
def Mutator.references : Mutator → List Nat
  | operation op => op.references
  | rememberObject reference => [reference]
  | _ => []

def HeapEvent.references : HeapEvent → List Nat
  | call mutator => mutator.references
  | _ => []

/-- Every reference of an event that the heap accepts names one of its objects. -/
def HeapEvent.Named (event : HeapEvent) (memory : Memory) : Prop :=
  ∀ objects, memory.heap.Tiles objects → ∀ reference ∈ event.references, ∀ info,
    memory.heap.info reference = .ok info → (reference, info) ∈ objects

/-- Every event of a run is named where it happens. -/
def NamedRun : List HeapEvent → Memory → Prop
  | [], _ => True
  | event :: rest, memory => event.Named memory ∧ NamedRun rest (event.after memory)

theorem HeapEvent.named_of_none {event : HeapEvent} {memory : Memory} (h : event.references = []) : event.Named memory := by
  intro _ _ reference hRef
  rw [h] at hRef
  cases hRef

/-- An event that names the one object of a heap is named. -/
theorem HeapEvent.named_of_one {event : HeapEvent} {memory : Memory} {o : Nat × Info} (hTiles : memory.heap.Tiles [o])
    (h : event.references = [o.1]) : event.Named memory := by
  intro objects hOther reference hRef info hInfo
  rw [← Tiling.functional hTiles hOther]
  rw [h, List.mem_singleton] at hRef
  rw [hRef, hTiles.info_mem List.mem_cons_self] at hInfo
  injection hInfo with hInfo
  rw [hRef, ← hInfo]
  exact List.mem_cons_self

/-- Objects fill the heap, and a running transaction began where one of them ended. -/
structure Orderly (memory : Memory) : Prop where
  laid : ∃ objects, memory.heap.Sound objects
  room : memory.heap.Room
  running : ∀ start undo, memory.heap.transaction = some (start, undo) → ∃ old expected initial fields,
    InTransaction start old expected initial fields memory ∧ start = Tiling.finish 2 old ∧
      ∀ image ∈ undo.images true, image.offset + image.before.length ≤ memory.staticBytes

section Steps

variable {memory memory' : Memory} {objects : List (Nat × Info)}

/-- Without a transaction it is enough that objects fill the heap. -/
theorem Orderly.idle (hSound : memory.heap.Sound objects) (hIdle : memory.heap.transaction = none) : Orderly memory :=
  { laid := ⟨objects, hSound⟩
    room := .of_none hIdle
    running := by
      intro start undo hTxn
      rw [hIdle] at hTxn
      cases hTxn }

/-- Effects on the heap keep it orderly. -/
theorem Orderly.effects (h : Orderly memory) (hSound : memory.heap.Sound objects) {list : List Outright}
    {after : List (Nat × Info)} (hSteps : Effects (memory.heap, objects) list (memory'.heap, after))
    (hStatics : memory'.statics = memory.statics) (hBytes : memory'.staticBytes = memory.staticBytes) : Orderly memory' := by
  refine ⟨⟨after, hSteps.sound hSound⟩, hSteps.room h.room, ?_⟩
  intro start undo hTxn
  obtain ⟨earlier, hEarlier, hImages⟩ := hSteps.statics_saved hTxn
  obtain ⟨old, expected, initial, fields, hRunning, hStart, hSaved⟩ := h.running start earlier hEarlier
  refine ⟨old, _, initial, fields, hRunning.effects hSound.tiles hSteps hStatics, hStart, ?_⟩
  rw [hImages, hBytes]
  exact hSaved

/-- A program that acts on the heap keeps it orderly. -/
theorem Orderly.program {α : Type} (h : Orderly memory) (hSound : memory.heap.Sound objects) {program : HeapM α}
    {made : List Outright → Prop} (hActs : Acts memory.heap objects program made) :
    Orderly (final (Memory.onHeap program memory)) := by
  have hDone := hActs memory.heap rfl
  unfold Memory.onHeap
  cases hResult : program memory.heap with
  | ok a heap =>
      rw [hResult] at hDone
      obtain ⟨list, after, -, hSteps⟩ := hDone
      exact h.effects hSound hSteps rfl rfl
  | error e heap =>
      rw [hResult] at hDone
      obtain ⟨list, after, -, hSteps⟩ := hDone
      exact h.effects hSound hSteps rfl rfl

/-- A call that leaves the memory alone when it fails leaves one of two memories. -/
theorem HeapOp.after_cases {op : HeapOp} {P : Memory → Prop}
    (h : Triple (fun m => m = memory) op.run (fun _ => P) fun _ m => m = memory) : P (op.after memory) ∨ op.after memory = memory := by
  have hEither : Triple (fun m => m = memory) op.run (fun _ m => P m ∨ m = memory) fun _ m => P m ∨ m = memory :=
    Triple.conseq h (fun _ hEq => hEq) (fun _ _ hDone => .inl hDone) fun _ _ hSame => .inr hSame
  exact HeapOp.after_of_triple hEither

/-- A static write keeps the memory orderly: the span it saves lies in the statics. -/
theorem Orderly.writeStatic (h : Orderly memory) (at' : Nat) (value : List Byte) :
    Orderly ((HeapOp.writeStatic at' value).after memory) := by
  obtain ⟨objects, hSound⟩ := h.laid
  rcases @HeapOp.after_cases _ (.writeStatic at' value) _ (Memory.writeStatic_spec memory at' value) with
    (hSame | ⟨hFits, ⟨hIdle, hEq⟩ | ⟨start, undo, saved, hTxn, hRecord, hEq⟩⟩) | hSame
  · rw [hSame]
    exact h
  · rw [hEq]
    exact @Orderly.idle _ objects ⟨hSound.tiles, hSound.size, hSound.addressable⟩ hIdle
  · obtain ⟨old, expected, initial, fields, hRunning, hStart, hSaved⟩ := h.running start undo hTxn
    have hKept : InTransaction start old expected initial fields ((HeapOp.writeStatic at' value).after memory) :=
      HeapOp.after_of_triple (hRunning.writeStatic at' value)
    obtain ⟨others, hHeld⟩ := hKept.held
    refine ⟨⟨others, hHeld.sound⟩, hHeld.room, ?_⟩
    intro first log hLog
    rw [hEq] at hLog
    injection hLog with hLog
    injection hLog with hFirst hLog
    subst hFirst hLog
    refine ⟨old, expected, initial, fields, hKept, hStart, ?_⟩
    rw [hEq]
    rcases Undo.record_ok hRecord with ⟨rfl, -⟩ | ⟨rfl, -, -⟩
    · exact hSaved
    · intro image hImage
      rw [Undo.images_cons_same _ _ _ _ rfl] at hImage
      rcases List.mem_cons.1 hImage with rfl | hOlder
      · rw [length_range]
        exact hFits
      · exact hSaved image hOlder
  · rw [hSame]
    exact h

theorem Orderly.operation (h : Orderly memory) (op : HeapOp) (hNamed : (HeapEvent.call (.operation op)).Named memory) :
    Orderly (op.after memory) := by
  obtain ⟨objects, hSound⟩ := h.laid
  by_cases hHeap : ∀ at' value, op ≠ .writeStatic at' value
  · by_cases hAccepted : ∀ reference ∈ op.references, ∃ info, memory.heap.info reference = .ok info
    · have hRefs : ∀ reference ∈ op.references, ∃ info, (reference, info) ∈ objects := by
        intro reference hRef
        obtain ⟨info, hInfo⟩ := hAccepted reference hRef
        exact ⟨info, hNamed objects hSound.tiles reference hRef info hInfo⟩
      obtain ⟨list, after, -, hSteps, hStatics, hBytes⟩ := op.effects hSound h.room hRefs hHeap
      exact h.effects hSound hSteps hStatics hBytes
    · push Not at hAccepted
      obtain ⟨reference, hRef, hRefused⟩ := hAccepted
      rw [op.refused h.room hRef hRefused]
      exact h
  · push Not at hHeap
    obtain ⟨at', value, rfl⟩ := hHeap
    exact h.writeStatic at' value

theorem rememberObject_acts {heap : Heap} {reference : Nat}
    (hNamed : ∀ info, heap.info reference = .ok info → (reference, info) ∈ objects) :
    Quiet heap objects (Heap.rememberObject reference) := by
  apply Triple.get
  intro s hs
  subst hs
  apply Triple.readOnly_bind
  · intro info hInfo
    have hSpans : Spans objects (reference + headerBytes) info.payload info :=
      ⟨_, hNamed info hInfo, rfl, Nat.le_refl _, Nat.le_refl _⟩
    apply Triple.conseq (remember_spec hSpans) (fun _ hEq => hEq)
    · exact fun _ h hDone => ⟨[], objects, rfl, hDone.1⟩
    · exact fun _ => Quiet.unchanged
  · exact fun _ _ => Quiet.unchanged

theorem clearObjectDeletionRequest_acts (heap : Heap) (objects : List (Nat × Info)) :
    Acts heap objects Heap.clearObjectDeletionRequest fun _ => True := by
  have hSame : ∀ h, h = heap → ∃ list after, True ∧ Effects (heap, objects) list (h, after) := by
    intro h hEq
    rw [hEq]
    exact ⟨[], objects, trivial, .refl⟩
  apply Triple.get
  intro s hs
  subst hs
  apply Triple.readOnly_bind
  · intro _ _
    split
    · exact (putRuntime_acts (by omega)).weaken fun _ _ => trivial
    · exact hSame
  · exact fun _ _ => hSame

/-- Bytes before the objects, and the pending writes, are no part of the order. -/
theorem Orderly.touch (h : Orderly memory) {bytes : Nat → Byte} (writes : PendingWrites)
    (hBytes : ∀ i, 2 ≤ i → bytes i = memory.heap.bytes i) :
    Orderly { memory with heap := { memory.heap with bytes := bytes, pendingWrites := writes } } := by
  have hTouched : ∀ objects, memory.heap.Sound objects →
      ({ memory.heap with bytes := bytes, pendingWrites := writes } : Heap).Sound objects := by
    intro objects hSound
    refine ⟨Tiling.congr hSound.tiles fun o ho i hLow _ => ?_, hSound.size, hSound.addressable⟩
    have hStart := (Tiling.mem hSound.tiles ho).2.1
    exact hBytes i (by omega)
  obtain ⟨objects, hSound⟩ := h.laid
  refine ⟨⟨objects, hTouched objects hSound⟩, h.room, ?_⟩
  intro start undo hTxn
  obtain ⟨old, expected, initial, fields, hRunning, hStart, hSaved⟩ := h.running start undo hTxn
  obtain ⟨others, hHeld⟩ := hRunning.held
  obtain ⟨log, hLog, hImages, -⟩ := hHeld.log
  exact ⟨old, log.restore false bytes, bytes, fields, ⟨⟨others, hTouched others hHeld.sound, hHeld.room, hHeld.objects,
    hHeld.bound, ⟨log, hLog, hImages, fun _ _ _ => rfl⟩, fun _ _ => rfl⟩, hRunning.statics⟩, hStart, hSaved⟩

/-- The objects from before the transaction fill the heap up to where it began. -/
theorem Held.old_tiles {start : Nat} {old : List (Nat × Info)} {expected initial : Nat → Byte} {laid : Laid}
    (h : Held start old expected initial laid) (hStart : start = Tiling.finish 2 old) :
    Tiling laid.1.bytes laid.1.size laid.1.next 2 start old := by
  obtain ⟨new, hObjects, -⟩ := h.objects
  have hTiles := h.sound.tiles
  rw [Heap.Tiles, hObjects] at hTiles
  rw [hStart]
  exact hTiles.split

/-- An abort returns to the objects from before the transaction. -/
theorem Orderly.abort (h : Orderly memory) : Orderly (final (Memory.abortTransaction memory)) := by
  cases hTxn : memory.heap.transaction with
  | none =>
      have hSame : final (Memory.abortTransaction memory) = memory := by
        unfold Memory.abortTransaction Heap.abortTransaction
        simp [Bind.bind, EStateM.bind, get, getThe, MonadStateOf.get, EStateM.get, hTxn, orFail, throw, throwThe,
          MonadExceptOf.throw, EStateM.throw, final]
      rw [hSame]
      exact h
  | some txn =>
      obtain ⟨start, undo⟩ := txn
      obtain ⟨old, expected, initial, fields, hRunning, hStart, -⟩ := h.running start undo hTxn
      obtain ⟨objects, hHeld⟩ := hRunning.held
      obtain ⟨log, hLog, hImages, hRestore⟩ := hHeld.log
      have hOld := hHeld.old_tiles hStart
      have hEnds : ∀ o ∈ old, o.2.stop o.1 ≤ start := fun o ho => (Tiling.mem hOld ho).2.2
      let begun : Memory := { memory with heap := { memory.heap with bytes := initial, next := start }, statics := fields }
      have hBegun : InTransaction begun.heap.next old expected begun.heap.bytes begun.statics memory := hRunning
      obtain ⟨allocated, aborted, statics, hAbort, hRestored⟩ := hBegun.abort hEnds
      obtain ⟨hIdle, hSize⟩ := abortTransaction_idle memory.statics memory.heap
      rw [hAbort] at hIdle hSize
      have hNext : aborted.next = start := hRestored.next
      have hLive : aborted.size = memory.heap.size := hSize
      have hOldTiles : Heap.Tiles { memory.heap with next := start } old :=
        hOld.relimit (Nat.le_refl _) (Nat.le_trans hHeld.bound hHeld.sound.size)
      have hHeaders : ∀ o ∈ old, ∀ i, o.1 ≤ i → i < o.1 + headerBytes → aborted.bytes i = memory.heap.bytes i := by
        intro o ho i hLow hHigh
        have hStop := o.2.stop_ge o.1
        have hEnd := hEnds o ho
        have hApart : ∀ p ∈ old, ¬InPayload p i := fun p hp hIn => hOldTiles.header_outside hp ho hIn ⟨hLow, hHigh⟩
        have hBelow : i < start := by omega
        rw [hRestored.persistent i hBelow fun p hp _ => hApart p hp,
          ← hRestore i hBelow fun p hp _ => hApart p hp]
        exact hHeld.restore_outside hLog fun p hp _ => hApart p hp
      have hSound : aborted.Sound old := by
        refine ⟨?_, ?_, ?_⟩
        · rw [Heap.Tiles, hNext, hLive]
          exact Tiling.congr hOldTiles hHeaders
        · rw [hNext, hLive]
          exact Nat.le_trans hHeld.bound hHeld.sound.size
        · rw [hNext]
          exact Nat.le_trans hHeld.bound hHeld.sound.addressable
      unfold Memory.abortTransaction
      rw [hAbort]
      exact @Orderly.idle _ old hSound hIdle

theorem length_cleared (event context reference : Nat) (info : Info) (payload : List Byte) :
    ∃ payload', Heap.cleared event context reference info payload = .ok payload' ∧ payload'.length = payload.length := by
  refine ⟨_, rfl, ?_⟩
  split
  · exact List.length_replicate
  · rfl

/-- Clearing transient payloads writes payloads alone, outside a transaction. -/
theorem clearTransient_spec {heap : Heap} (hSound : heap.Sound objects) (event context : Nat) :
    Triple (fun h => h = heap) (Heap.clearTransient event context)
      (fun _ h => heap.transaction = none ∧ ∃ bytes, h = { heap with bytes := bytes } ∧
        Heap.Visited (Heap.cleared event context) objects heap.bytes bytes) fun _ h => h = heap := by
  apply Triple.failIf_bind
  · exact fun _ _ hEq => hEq
  intro _
  apply Triple.get
  intro s hs
  subst hs
  apply Triple.failIf_bind
  · exact fun _ _ hEq => hEq
  intro hIdle h hEq
  rw [hEq]
  obtain ⟨bytes, hRun, hSeen⟩ := Heap.visitFrom_spec (length_cleared event context) hSound.tiles
    (show s.next < 2 + (s.next + 1) by omega)
  rw [hRun]
  exact ⟨by simpa using hIdle, bytes, rfl, hSeen⟩

theorem Orderly.clearTransient (h : Orderly memory) (event context : Nat) :
    Orderly (final (Memory.onHeap (Heap.clearTransient event context) memory)) := by
  obtain ⟨objects, hSound⟩ := h.laid
  have hRun := Memory.onHeap_triple (clearTransient_spec hSound event context)
  apply Triple.final (Triple.conseq hRun (fun _ hEq => hEq) ?_ ?_) rfl
  · rintro _ m ⟨hIdle, bytes, hEq, hSeen⟩
    have hCleared : m.heap.Sound objects := by
      rw [hEq]
      refine ⟨Tiling.congr hSound.tiles fun o ho i hLow hHigh => ?_, hSound.size, hSound.addressable⟩
      exact hSeen.outside i fun p hp hIn => hSound.tiles.header_outside hp ho hIn ⟨hLow, hHigh⟩
    apply Orderly.idle hCleared
    rw [hEq]
    exact hIdle
  · exact fun _ _ hEq => hEq ▸ h

/-- The bytes handed out so far hold the same objects in another slab. -/
theorem Orderly.resume (h : Orderly memory) (slab : Nat → Byte) (size : Nat) :
    Orderly (HeapEvent.after memory (.resume slab size)) := by
  obtain ⟨objects, hSound⟩ := h.laid
  rw [HeapEvent.after]
  split
  · rename_i heap hResume
    obtain ⟨hHeap, -, hFits, hAddressable, -⟩ := Heap.resume_ok hResume
    have hResumed : heap.Sound objects := by
      rw [hHeap]
      refine ⟨Tiling.congr (hSound.tiles.resize hFits) fun o ho i _ hHigh => ?_, hFits, hAddressable⟩
      have hEnd := (Tiling.mem hSound.tiles ho).2.2
      have hStop := o.2.stop_ge o.1
      exact if_pos (by omega)
    apply @Orderly.idle _ objects hResumed
    rw [hHeap]
  · exact h

theorem Orderly.begins (h : Orderly memory) (capacity : Nat) :
    Orderly (final (Memory.onHeap (Heap.beginTransaction capacity) memory)) := by
  obtain ⟨objects, hSound⟩ := h.laid
  unfold Memory.onHeap
  cases hResult : Heap.beginTransaction capacity memory.heap with
  | ok a begun =>
      obtain ⟨-, hBegun⟩ := (beginTransaction_spec capacity memory.heap).ok rfl hResult
      have hRunning := hSound.begins capacity
      rw [← hBegun] at hRunning
      obtain ⟨others, hHeld⟩ := hRunning.held
      refine ⟨⟨others, hHeld.sound⟩, hHeld.room, ?_⟩
      intro start undo hTxn
      have hLog : begun.transaction = some (start, undo) := hTxn
      rw [hBegun] at hLog
      injection hLog with hLog
      injection hLog with hStart hUndo
      subst hStart hUndo
      exact ⟨objects, _, _, _, hRunning, Tiling.stop_eq hSound.tiles, fun image hImage => (nomatch hImage)⟩
  | error e heap =>
      have hSame := (beginTransaction_spec capacity memory.heap).error rfl hResult
      rw [hSame]
      exact h

theorem commitTransaction_spec (heap : Heap) : Triple (fun h => h = heap) Heap.commitTransaction
    (fun _ h => h = { heap with transaction := none, pendingWrites := heap.pendingWrites.requireSnapshot })
    fun _ h => h = heap := by
  apply Triple.get
  intro s hs
  subst hs
  apply Triple.failIf_bind
  · exact fun _ _ hEq => hEq
  · exact fun _ _ _ => rfl

theorem Orderly.commits (h : Orderly memory) : Orderly (final (Memory.onHeap Heap.commitTransaction memory)) := by
  obtain ⟨objects, hSound⟩ := h.laid
  have hRun := Memory.onHeap_triple (commitTransaction_spec memory.heap)
  apply Triple.final (Triple.conseq hRun (fun _ hEq => hEq) ?_ ?_) rfl
  · intro _ m hEq
    have hCommitted : m.heap.Sound objects := by
      rw [hEq]
      exact ⟨hSound.tiles, hSound.size, hSound.addressable⟩
    apply Orderly.idle hCommitted
    rw [hEq]
  · exact fun _ _ hEq => hEq ▸ h

/-- Every named event keeps the memory orderly. -/
theorem Orderly.event (h : Orderly memory) (event : HeapEvent) (hNamed : event.Named memory) : Orderly (event.after memory) := by
  obtain ⟨objects, hSound⟩ := h.laid
  cases event with
  | call mutator =>
      cases mutator with
      | operation op =>
          have hOp := h.operation op hNamed
          unfold HeapOp.after at hOp
          rw [HeapEvent.after]
          change Orderly (final (op.run memory))
          cases hResult : op.run memory with
          | ok a after =>
              rw [hResult] at hOp
              exact hOp
          | error e after =>
              rw [hResult] at hOp
              exact hOp
      | rememberObject reference =>
          exact h.program hSound (rememberObject_acts (hNamed objects hSound.tiles reference List.mem_cons_self))
      | clearObjectDeletionRequest => exact h.program hSound (clearObjectDeletionRequest_acts memory.heap objects)
      | beginTransaction capacity => exact h.begins capacity
      | commitTransaction => exact h.commits
  | abortTransaction => exact h.abort
  | clearTransient event context => exact h.clearTransient event context
  | initializeLifecycle => exact h.touch memory.heap.pendingWrites fun i hi => overwrite_outside (.inr hi)
  | markCheckpointed => exact h.touch .empty fun _ _ => rfl
  | resume slab size => exact h.resume slab size

/-- So does every named run. -/
theorem Orderly.run {events : List HeapEvent} (h : Orderly memory) (hNamed : NamedRun events memory) :
    Orderly (runEvents events memory) := by
  induction events generalizing memory with
  | nil => exact h
  | cons event rest ih => exact ih (h.event event hNamed.1) hNamed.2

theorem Orderly.opened {bytes : Nat → Byte} {size : Nat} (hNew : Heap.new bytes size = .ok memory.heap) : Orderly memory := by
  obtain ⟨hHeap, hSize⟩ := Heap.new_ok hNew
  have hSound : memory.heap.Sound [] := by
    rw [hHeap]
    exact ⟨.nil 2, by simp only; omega, by simp only; omega⟩
  apply Orderly.idle hSound
  rw [hHeap]

end Steps

/-- The allocations, with the reference they return. -/
def HeapOp.allocation : HeapOp → Option (HeapM Nat)
  | .newObject cls words owner => some (Heap.newObject cls.toNat words.toNat owner.toNat)
  | .newArray kind length owner => some (Heap.newArray kind length.toNat owner.toNat)
  | .newReferenceArray component length owner => some (Heap.newReferenceArray component.toNat length.toNat owner.toNat)
  | .newTransientArray kind length owner event => some (Heap.newTransientArray kind length.toNat owner.toNat event)
  | _ => none

section Filling

variable {memory : Memory} {objects : List (Nat × Info)} {reference : Nat}

/-- Whatever an allocation returns, an object starts there behind the others. -/
theorem HeapOp.allocation_tiles {op : HeapOp} {program : HeapM Nat} {heap heap' : Heap} (hSound : heap.Sound objects)
    (hOp : op.allocation = some program) (hRun : program heap = .ok reference heap') :
    ∃ info, heap'.Tiles (objects ++ [(reference, info)]) := by
  have hAllocate : ∀ info, info.Fresh → Triple (fun h => h = heap) (Heap.allocate info)
      (fun r h => ∃ info, h.Tiles (objects ++ [(r, info)])) fun _ _ => True := by
    intro info hFresh
    apply Triple.conseq (allocate_spec hFresh) (fun _ hEq => hEq)
    · rintro r h ⟨rfl, hStep⟩
      exact ⟨info, (hStep.sound hSound).tiles⟩
    · exact fun _ _ _ => trivial
  have hProgram : Triple (fun h => h = heap) program (fun r h => ∃ info, h.Tiles (objects ++ [(r, info)])) fun _ _ => True := by
    cases op <;> simp only [allocation, reduceCtorEq, Option.some.injEq] at hOp
    case newObject cls words owner =>
      rw [← hOp]
      exact hAllocate _ ⟨cls.toNat_lt, words.toNat_lt, owner.toNat_lt, Nat.zero_le _, fun _ => rfl,
        fun hKind => absurd rfl hKind⟩
    case newArray kind length owner =>
      rw [← hOp]
      apply Triple.failIf_bind (fun _ _ _ => trivial)
      exact fun hKind => hAllocate _ (Info.fresh_array hKind (Nat.zero_le _))
    case newReferenceArray component length owner =>
      rw [← hOp]
      apply Triple.failIf_bind (fun _ _ _ => trivial)
      exact fun _ => hAllocate _ ⟨component.toNat_lt, length.toNat_lt, owner.toNat_lt, Nat.zero_le _,
        (fun hKind => nomatch hKind), fun _ hKind => absurd rfl hKind⟩
    case newTransientArray kind length owner event =>
      rw [← hOp]
      apply Triple.failIf_bind (fun _ _ _ => trivial)
      intro hEvent
      apply Triple.failIf_bind (fun _ _ _ => trivial)
      refine fun hKind => hAllocate _ (Info.fresh_array hKind ?_)
      simp only [clearOnReset, clearOnDeselect] at hEvent ⊢
      omega
  exact hProgram.ok rfl hRun

/-- A payload write keeps every byte outside the payload of the object it names. -/
theorem HeapOp.frame (op : HeapOp) (h : Orderly memory) (hTarget : op.target = some reference) {i : Nat}
    (hOutside : ¬memory.heap.Payload reference i) : (op.after memory).heap.bytes i = memory.heap.bytes i := by
  have hRegion : ¬op.region memory.heap i := by
    rw [HeapOp.region, hTarget]
    exact hOutside
  rcases HeapOp.after_cases (op.spec h.room) with hDone | hSame
  · exact hDone.2 i hRegion
  · rw [hSame]

/-- A heap filled by objects, as every allocation and every payload write leaves it. -/
structure Filled (memory : Memory) (objects : List (Nat × Info)) : Prop where
  tiles : memory.heap.Tiles objects
  starts : ∀ o ∈ objects, o.1 % 2 = 0
  even : memory.heap.next % 2 = 0
  bound : memory.heap.next ≤ min memory.heap.size 65535
  allocates : ∀ (op : HeapOp) program reference heap', op.allocation = some program →
    program memory.heap = .ok reference heap' → ∃ info, heap'.Tiles (objects ++ [(reference, info)])
  frame : ∀ (op : HeapOp) reference, op.target = some reference → (HeapEvent.call (.operation op)).Named memory →
    ∀ o ∈ objects, ∀ i, (o.1 ≤ i ∧ i < o.1 + headerBytes) ∨ (o.1 ≠ reference ∧ InPayload o i) →
      (op.after memory).heap.bytes i = memory.heap.bytes i

theorem HeapOp.target_mem {op : HeapOp} (h : op.target = some reference) : reference ∈ op.references := by
  cases op <;> simp_all [target, references]

/-- In every run from a new heap in which accepted references name objects, objects fill
the heap, allocations return where one starts, and payload writes stay in theirs. -/
theorem heap_stays_filled {origin : Memory} {bytes : Nat → Byte} {size : Nat} {events : List HeapEvent}
    (hNew : Heap.new bytes size = .ok origin.heap) (hNamed : NamedRun events origin) :
    ∃ objects, Filled (runEvents events origin) objects := by
  have hOrderly := (Orderly.opened hNew).run hNamed
  obtain ⟨objects, hSound⟩ := hOrderly.laid
  have hTiles := hSound.tiles
  refine ⟨objects, hTiles, ?_, Tiling.stop_even hTiles (by omega), Nat.le_min.2 ⟨hSound.size, hSound.addressable⟩, ?_, ?_⟩
  · exact fun o ho => (Info.read_readable (hTiles.info_mem ho)).even
  · exact fun op program reference heap' hOp hRun => HeapOp.allocation_tiles hSound hOp hRun
  · intro op reference hTarget hHere o ho i hPlace
    apply op.frame hOrderly hTarget
    rintro ⟨info, hInfo, hIn⟩
    have hMem := hHere objects hTiles reference (HeapOp.target_mem hTarget) info hInfo
    rcases hPlace with hHeader | ⟨hOther, hOwn⟩
    · exact hTiles.header_outside hMem ho hIn hHeader
    · exact hOther (congrArg Prod.fst (hTiles.payload_unique ho hMem hOwn hIn))

/-- A run in which one odd byte array is allocated and then written. -/
theorem heap_stays_filled_written : ∃ objects, Filled (runEvents
    [.call (.operation (.newArray .byte 3 1)), .call (.operation (.writeBytes 2 1 [7]))] newSlab) objects := by
  apply @heap_stays_filled newSlab (fun _ => 0) 64 _ rfl
  refine ⟨HeapEvent.named_of_none rfl, ?_, trivial⟩
  exact HeapEvent.named_of_one (show Heap.Tiles _ [(2, ⟨0, 3, .byte, 1, 0⟩)] from .cons (by decide) (.nil 12)) rfl

/-- The payload of one array is given the bytes of a header, and a write through a
reference to them reaches the header of the next array. -/
def forgedReference : List HeapEvent :=
  [.call (.operation (.newArray .byte 8 1)), .call (.operation (.writeBytes 2 0 [0, 0, 0, 20, 3, 1])),
    .call (.operation (.newArray .byte 16 1)), .call (.operation (.arrayPut 8 2 1))]

theorem forged_reference_breaks_header : ∃ (origin : Memory) (bytes : Nat → Byte) (size : Nat) (events : List HeapEvent),
    Heap.new bytes size = .ok origin.heap ∧ ¬∃ objects, Filled (runEvents events origin) objects := by
  refine ⟨newSlab, fun _ => 0, 64, forgedReference, rfl, ?_⟩
  rintro ⟨objects, hFilled⟩
  have hFirst : Info.read (runEvents forgedReference newSlab).heap.bytes (runEvents forgedReference newSlab).heap.size
      (runEvents forgedReference newSlab).heap.next 2 = .ok ⟨0, 8, .byte, 1, 0⟩ := by decide
  have hSecond : Info.read (runEvents forgedReference newSlab).heap.bytes (runEvents forgedReference newSlab).heap.size
      (runEvents forgedReference newSlab).heap.next 16 = .error .format := by decide
  obtain ⟨info, rest, hRead, hTail⟩ := Tiling.next hFilled.tiles (by decide)
  rw [hFirst] at hRead
  injection hRead with hInfo
  rw [← hInfo] at hTail
  obtain ⟨other, more, hBroken, -⟩ := hTail.next (by decide)
  have hStop : Info.stop ⟨0, 8, .byte, 1, 0⟩ 2 = 16 := by decide
  rw [hStop, hSecond] at hBroken
  cases hBroken

end Filling

end MicroCard.Jcvm
