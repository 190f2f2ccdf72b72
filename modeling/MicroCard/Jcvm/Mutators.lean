import MicroCard.Jcvm.Abort

/-! What a call on the heap leaves behind when it fails, and which bytes it reaches when
it succeeds. References are raw offsets here: nothing asks that they name objects. -/
namespace MicroCard.Jcvm

open Bytes CrashTriple Checks UndoLog

/-- The payload that the header at a reference announces. -/
def Heap.Payload (heap : Heap) (reference i : Nat) : Prop :=
  ∃ info, heap.info reference = .ok info ∧ InPayload (reference, info) i

section Confinement

variable {heap : Heap} {at' length index offset reference : Nat} {value : List Byte} {info : Info}
  {region : Nat → Prop} {α β : Type}

/-- A program that leaves the heap as it was when it fails, and otherwise changes bytes of
the region alone. -/
def Confined (heap : Heap) (region : Nat → Prop) (program : HeapM α) : Prop :=
  Triple (fun h => h = heap) program (fun _ h => h.Room ∧ ∀ i, ¬region i → h.bytes i = heap.bytes i) fun _ h => h = heap

theorem Confined.unchanged (hRoom : heap.Room) (h : Heap) (hEq : h = heap) :
    h.Room ∧ ∀ i, ¬region i → h.bytes i = heap.bytes i := by
  rw [hEq]
  exact ⟨hRoom, fun _ _ => rfl⟩

theorem Confined.ret (hRoom : heap.Room) (a : α) : Confined heap region (pure a) :=
  Confined.unchanged hRoom

theorem Confined.get {next : Heap → HeapM α} (h : Confined heap region (next heap)) :
    Confined heap region (MonadState.get >>= next) := by
  apply Triple.get
  intro s hs
  rw [hs]
  exact h

theorem Confined.readOnly {result : Except Error β} {next : β → HeapM α}
    (h : ∀ b, result = .ok b → Confined heap region (next b)) :
    Confined heap region (CrashTriple.readOnly result >>= next) :=
  Triple.readOnly_bind h fun _ _ _ hEq => hEq

theorem Confined.failIf {c : Prop} [Decidable c] {e : Error} {next : Unit → HeapM α}
    (h : ¬c → Confined heap region (next ())) : Confined heap region (CrashTriple.failIf c e >>= next) :=
  Triple.failIf_bind (fun _ _ hEq => hEq) h

/-- What follows a confined program may only hand its result on. -/
theorem Confined.map {program : HeapM α} (h : Confined heap region program) (f : α → β) :
    Confined heap region (program >>= fun a => pure (f a)) :=
  Triple.bind h fun _ => Triple.ret fun _ hDone => hDone

/-- Saving a span adds records where they fit, and moves no byte. -/
theorem remember_extends (hRoom : heap.Room) : Triple (fun h => h = heap) (Heap.remember at' length info)
    (fun _ h => h.Extends heap ∧ h.Room) fun _ h => h = heap := by
  apply Triple.get
  intro s hs
  subst hs
  have hSame : ∀ h, h = s → h.Extends s ∧ h.Room := by
    intro h hEq
    rw [hEq]
    exact ⟨.refl s, hRoom⟩
  split
  · exact hSame
  cases hTxn : s.transaction with
  | none =>
      intro h hEq
      rw [hEq]
      constructor
      · rw [Heap.Extends, hTxn]
        exact ⟨s.pendingWrites.write at' length, by rw [← hTxn]⟩
      · exact fun _ _ hNone => by cases hNone
  | some txn =>
      obtain ⟨start, undo⟩ := txn
      dsimp only
      split
      · exact hSame
      apply Triple.readOnly_bind
      · intro saved hSaved h hEq
        rw [hEq]
        rcases Undo.record_ok hSaved with ⟨rfl, -⟩ | ⟨rfl, -, hFits⟩
        · rw [← hTxn]
          exact ⟨.refl s, hRoom⟩
        · constructor
          · rw [Heap.Extends, hTxn]
            exact ⟨[_], rfl⟩
          · intro first log hLog
            injection hLog with hLog
            injection hLog with _ hLog
            rw [← hLog]
            exact Undo.length_cons_le (hRoom _ _ hTxn) hFits
      · exact fun _ _ h hEq => hEq

theorem remember_confined (hRoom : heap.Room) : Confined heap region (Heap.remember at' length info) := by
  apply Triple.conseq (remember_extends hRoom) (fun _ hEq => hEq) ?_ fun _ _ hEq => hEq
  intro _ h hDone
  exact ⟨hDone.2, fun i _ => by rw [hDone.1.bytes]⟩

theorem putConditional_confined (hRoom : heap.Room) (hRegion : ∀ i, at' ≤ i → i < at' + value.length → region i) :
    Confined heap region (Heap.putConditional at' value info) := by
  apply Triple.bind (remember_extends hRoom)
  intro _ h hDone
  refine ⟨hDone.2, fun i hi => ?_⟩
  rw [← hDone.1.bytes]
  apply overwrite_outside
  by_contra hInside
  exact hi (hRegion i (by omega) (by omega))

theorem putChanged_confined (hRoom : heap.Room) (hRegion : ∀ i, at' ≤ i → i < at' + value.length → region i) :
    Confined heap region (Heap.putChanged at' value info) := by
  apply Confined.get
  split
  · exact Confined.ret hRoom ()
  · exact putConditional_confined hRoom hRegion

/-- Bringing the before-images up to date takes no room. -/
theorem Heap.Room.written (hRoom : heap.Room) : (heap.written at' value info).Room := by
  intro start undo hTxn
  simp only [Heap.written, Option.map_eq_some_iff] at hTxn
  obtain ⟨⟨first, inner⟩, hInner, hEq⟩ := hTxn
  injection hEq with hStart hUndo
  rw [← hUndo, Undo.length_preserve]
  exact hRoom _ _ hInner

theorem putUnconditional_confined (hRoom : heap.Room) (hRegion : ∀ i, at' ≤ i → i < at' + value.length → region i) :
    Confined heap region (Heap.putUnconditional at' value info) := by
  apply Confined.get
  split
  · exact Confined.ret hRoom ()
  · intro h hEq
    refine ⟨hRoom.written, fun i hi => ?_⟩
    apply overwrite_outside
    by_contra hInside
    exact hi (hRegion i (by omega) (by omega))

theorem putRuntime_confined (hRoom : heap.Room) {value : Byte} (hRegion : region at') :
    Confined heap region (Heap.putRuntime at' value) := by
  apply Confined.get
  split
  · exact Confined.ret hRoom ()
  · intro h hEq
    refine ⟨hRoom, fun i hi => ?_⟩
    apply overwrite_outside
    by_contra hInside
    have hAt : i = at' := by
      rw [List.length_singleton] at hInside
      omega
    rw [hAt] at hi
    exact hi hRegion

theorem allocate_confined (hRoom : heap.Room) (hRegion : ∀ i, heap.next ≤ i → region i) (info : Info) :
    Confined heap region (Heap.allocate info) := by
  apply Confined.get
  apply Confined.failIf
  intro _
  apply Confined.readOnly
  intro stop _ h hEq
  refine ⟨hRoom, fun i hi => ?_⟩
  apply overwrite_outside
  by_contra hInside
  exact hi (hRegion i (by omega))

/-- An element of the payload lies in the region that a payload write may reach. -/
theorem Heap.slot_payload {wantArray : Bool} (hSlot : heap.slot reference index wantArray = .ok (at', info)) {i : Nat}
    (hLow : at' ≤ i) (hHigh : i < at' + info.kind.elementSize) : heap.Payload reference i := by
  obtain ⟨hInfo, hAt, -, -, hEnd⟩ := Heap.slot_ok hSlot
  exact ⟨info, hInfo, by simp only; omega, by simp only; omega⟩

theorem Heap.byteRange_payload (hRange : heap.byteRange reference offset length = .ok (at', info)) {i : Nat}
    (hLow : at' ≤ i) (hHigh : i < at' + length) : heap.Payload reference i := by
  obtain ⟨hInfo, hAt, -, -, hEnd⟩ := Heap.byteRange_ok hRange
  exact ⟨info, hInfo, by simp only; omega, by simp only; omega⟩

end Confinement

section Calls

variable {heap : Heap} (hRoom : heap.Room)

include hRoom

theorem putWord_confined (reference index value : Nat) :
    Confined heap (heap.Payload reference) (Heap.putWord reference index value) := by
  apply Confined.get
  apply Confined.readOnly
  rintro ⟨at', info⟩ hSlot
  apply putChanged_confined hRoom
  intro i hLow hHigh
  obtain ⟨-, -, -, hKind, -⟩ := Heap.slot_ok hSlot
  apply Heap.slot_payload hSlot hLow
  rw [Info.object_of_slot hKind]
  exact hHigh

theorem putWordUnconditional_confined (reference index value : Nat) :
    Confined heap (heap.Payload reference) (Heap.putWordUnconditional reference index value) := by
  apply Confined.get
  apply Confined.readOnly
  rintro ⟨at', info⟩ hSlot
  apply putUnconditional_confined hRoom
  intro i hLow hHigh
  obtain ⟨-, -, -, hKind, -⟩ := Heap.slot_ok hSlot
  apply Heap.slot_payload hSlot hLow
  rw [Info.object_of_slot hKind]
  exact hHigh

theorem putInt_confined (reference index value : Nat) :
    Confined heap (heap.Payload reference) (Heap.putInt reference index value) := by
  apply Confined.get
  apply Confined.readOnly
  rintro ⟨at', info⟩ hSlot
  apply Confined.get
  apply Confined.readOnly
  rintro ⟨high, other⟩ hNext
  apply putChanged_confined hRoom
  intro i hLow hHigh
  obtain ⟨hInfo, hAt, -, hKind, hEnd⟩ := Heap.slot_ok hSlot
  obtain ⟨hOther, hHighAt, -, -, hHighEnd⟩ := Heap.slot_ok hNext
  rw [hInfo] at hOther
  injection hOther with hOther
  subst hOther
  have hObject := Info.object_of_slot hKind
  simp only [hObject, Kind.elementSize] at hAt hHighAt hHighEnd
  simp only [Heap.longBytes, Heap.wordBytes, List.length_append, List.length_cons, List.length_nil] at hHigh
  exact ⟨info, hInfo, by simp only; omega, by simp only; omega⟩

theorem arrayPut_confined (reference index value : Nat) :
    Confined heap (heap.Payload reference) (Heap.arrayPut reference index value) := by
  apply Confined.get
  apply Confined.readOnly
  rintro ⟨at', info⟩ hSlot
  apply Confined.failIf
  intro hKind
  apply putChanged_confined hRoom
  intro i hLow hHigh
  apply Heap.slot_payload hSlot hLow
  rw [← Heap.length_elementBytes (fun hInt => hKind (.inl hInt)) value]
  exact hHigh

theorem arrayPutReference_confined (reference index value : Nat) :
    Confined heap (heap.Payload reference) (Heap.arrayPutReference reference index value) := by
  apply Confined.get
  apply Confined.readOnly
  rintro ⟨at', info⟩ hSlot
  apply Confined.failIf
  intro hKind
  apply putChanged_confined hRoom
  intro i hLow hHigh
  apply Heap.slot_payload hSlot hLow
  rw [not_not.1 hKind]
  exact hHigh

theorem arrayPutInt_confined (reference index value : Nat) :
    Confined heap (heap.Payload reference) (Heap.arrayPutInt reference index value) := by
  apply Confined.get
  apply Confined.readOnly
  rintro ⟨at', info⟩ hSlot
  apply Confined.failIf
  intro hKind
  apply putChanged_confined hRoom
  intro i hLow hHigh
  apply Heap.slot_payload hSlot hLow
  rw [not_not.1 hKind]
  exact hHigh

theorem writeBytes_confined (reference offset : Nat) (value : List Byte) :
    Confined heap (heap.Payload reference) (Heap.writeBytes reference offset value) := by
  apply Confined.get
  apply Confined.readOnly
  rintro ⟨at', info⟩ hRange
  apply putConditional_confined hRoom
  intro i hLow hHigh
  exact Heap.byteRange_payload hRange hLow hHigh

theorem writeBytesUnconditional_confined (reference offset : Nat) (value : List Byte) :
    Confined heap (heap.Payload reference) (Heap.writeBytesUnconditional reference offset value) := by
  apply Confined.get
  apply Confined.readOnly
  rintro ⟨at', info⟩ hRange
  apply putUnconditional_confined hRoom
  intro i hLow hHigh
  exact Heap.byteRange_payload hRange hLow hHigh

theorem fillBytesUnconditional_confined (reference offset length : Nat) (value : Byte) :
    Confined heap (heap.Payload reference) (Heap.fillBytesUnconditional reference offset length value) := by
  apply Confined.get
  apply Confined.readOnly
  rintro ⟨at', info⟩ hRange
  apply putUnconditional_confined hRoom
  intro i hLow hHigh
  rw [List.length_replicate] at hHigh
  exact Heap.byteRange_payload hRange hLow hHigh

theorem copyBytes_confined (source sourceOffset destination destinationOffset length : Nat) :
    Confined heap (heap.Payload destination)
      (Heap.copyBytes source sourceOffset destination destinationOffset length) := by
  apply Confined.get
  apply Confined.readOnly
  intro value hValue
  apply Confined.readOnly
  rintro ⟨at', info⟩ hRange
  apply putConditional_confined hRoom
  intro i hLow hHigh
  rw [Heap.length_byteSlice hValue] at hHigh
  exact Heap.byteRange_payload hRange hLow hHigh

theorem copyBytesUnconditional_confined (source sourceOffset destination destinationOffset length : Nat) :
    Confined heap (heap.Payload destination)
      (Heap.copyBytesUnconditional source sourceOffset destination destinationOffset length) := by
  apply Confined.get
  apply Confined.readOnly
  intro value hValue
  apply Confined.readOnly
  rintro ⟨at', info⟩ hRange
  apply putUnconditional_confined hRoom
  intro i hLow hHigh
  rw [Heap.length_byteSlice hValue] at hHigh
  exact Heap.byteRange_payload hRange hLow hHigh

/-- A reservation that fails gives back the room its first spans took. -/
theorem preparePayloadWrites_confined (region : Nat → Prop) (spans : List (Nat × Nat × Nat)) :
    Confined heap region (Heap.preparePayloadWrites spans) := by
  apply Triple.conseq (preparePayloadWrites_keeps (I := Heap.Room) hRoom hRoom fun _ _ _ _ _ _ hKept =>
    remember_extends hKept) (fun _ hEq => hEq) ?_ fun _ _ hEq => hEq
  intro _ h hDone
  exact ⟨hDone.2, fun i _ => by rw [hDone.1.bytes]⟩

theorem rememberObject_confined (region : Nat → Prop) (reference : Nat) :
    Confined heap region (Heap.rememberObject reference) := by
  apply Confined.get
  apply Confined.readOnly
  intro info _
  exact remember_confined hRoom

end Calls

/-- The object whose payload an operation writes. -/
def HeapOp.target : HeapOp → Option Nat
  | .putWord reference _ _ | .putInt reference _ _ | .arrayPut reference _ _ | .arrayPutReference reference _ _
  | .arrayPutInt reference _ _ | .writeBytes reference _ _ | .putWordUnconditional reference _ _
  | .writeBytesUnconditional reference _ _ | .fillBytesUnconditional reference _ _ _ => some reference
  | .copyBytes _ _ destination _ _ | .copyBytesUnconditional _ _ destination _ _ => some destination
  | _ => none

/-- The bytes an operation may change: the payload it writes, or else the runtime's header
and the room behind the last object. -/
def HeapOp.region (op : HeapOp) (heap : Heap) (i : Nat) : Prop :=
  match op.target with
  | some reference => heap.Payload reference i
  | none => i < 2 ∨ heap.next ≤ i

section Operations

variable {heap : Heap}

theorem setLifecycle_confined (hRoom : heap.Room) (state : Byte) :
    Confined heap (fun i => i < 2 ∨ heap.next ≤ i) (Heap.setLifecycle state) := by
  apply Confined.get
  apply Confined.readOnly
  intro _ _
  split
  · exact (putRuntime_confined hRoom (.inl (by omega))).map fun _ => true
  · exact Confined.ret hRoom false

theorem requestObjectDeletion_confined (hRoom : heap.Room) :
    Confined heap (fun i => i < 2 ∨ heap.next ≤ i) Heap.requestObjectDeletion := by
  apply Confined.get
  apply Confined.readOnly
  intro _ _
  split
  · exact putRuntime_confined hRoom (.inl (by omega))
  · exact Confined.ret hRoom ()

theorem clearObjectDeletionRequest_confined (hRoom : heap.Room) :
    Confined heap (fun i => i < 2 ∨ heap.next ≤ i) Heap.clearObjectDeletionRequest := by
  apply Confined.get
  apply Confined.readOnly
  intro _ _
  split
  · exact putRuntime_confined hRoom (.inl (by omega))
  · exact Confined.ret hRoom ()

/-- Every operation but a static write is a confined program on the heap. -/
theorem HeapOp.confined (op : HeapOp) (hRoom : heap.Room) (hHeap : ∀ at' value, op ≠ .writeStatic at' value) :
    ∃ program, op.run = Memory.onHeap program ∧ Confined heap (op.region heap) program := by
  have hTail : ∀ i, heap.next ≤ i → i < 2 ∨ heap.next ≤ i := fun _ => .inr
  cases op with
  | putWord reference index value => exact ⟨_, rfl, putWord_confined hRoom reference index value⟩
  | putInt reference index value => exact ⟨_, rfl, putInt_confined hRoom reference index value⟩
  | arrayPut reference index value => exact ⟨_, rfl, arrayPut_confined hRoom reference index value⟩
  | arrayPutReference reference index value => exact ⟨_, rfl, arrayPutReference_confined hRoom reference index value⟩
  | arrayPutInt reference index value => exact ⟨_, rfl, arrayPutInt_confined hRoom reference index value⟩
  | writeBytes reference offset value => exact ⟨_, rfl, writeBytes_confined hRoom reference offset value⟩
  | copyBytes source sourceOffset destination destinationOffset length =>
      exact ⟨_, rfl, copyBytes_confined hRoom source sourceOffset destination destinationOffset length⟩
  | preparePayloadWrites spans => exact ⟨_, rfl, preparePayloadWrites_confined hRoom _ spans⟩
  | putWordUnconditional reference index value =>
      exact ⟨_, rfl, putWordUnconditional_confined hRoom reference index value⟩
  | writeBytesUnconditional reference offset value =>
      exact ⟨_, rfl, writeBytesUnconditional_confined hRoom reference offset value⟩
  | fillBytesUnconditional reference offset length value =>
      exact ⟨_, rfl, fillBytesUnconditional_confined hRoom reference offset length value⟩
  | copyBytesUnconditional source sourceOffset destination destinationOffset length =>
      exact ⟨_, rfl, copyBytesUnconditional_confined hRoom source sourceOffset destination destinationOffset length⟩
  | setLifecycle state => exact ⟨_, rfl, (setLifecycle_confined hRoom state).map fun _ => ()⟩
  | requestObjectDeletion => exact ⟨_, rfl, requestObjectDeletion_confined hRoom⟩
  | newObject cls words owner => exact ⟨_, rfl, (allocate_confined hRoom hTail _).map fun _ => ()⟩
  | newArray kind length owner =>
      refine ⟨_, rfl, Confined.map (Confined.failIf fun _ => ?_) fun _ => ()⟩
      exact allocate_confined hRoom hTail _
  | newReferenceArray component length owner =>
      refine ⟨_, rfl, Confined.map (Confined.failIf fun _ => ?_) fun _ => ()⟩
      exact allocate_confined hRoom hTail _
  | newTransientArray kind length owner event =>
      refine ⟨_, rfl, Confined.map (Confined.failIf fun _ => Confined.failIf fun _ => ?_) fun _ => ()⟩
      exact allocate_confined hRoom hTail _
  | writeStatic at' value => exact absurd rfl (hHeap at' value)

end Operations

/-- A call that changes the heap or the statics. -/
inductive Mutator where
  | operation (op : HeapOp)
  | rememberObject (reference : Nat)
  | clearObjectDeletionRequest
  | beginTransaction (capacity : Nat)
  | commitTransaction

def Mutator.run : Mutator → EStateM Error Memory Unit
  | operation op => op.run
  | rememberObject reference => Memory.onHeap (Heap.rememberObject reference)
  | clearObjectDeletionRequest => Memory.onHeap Heap.clearObjectDeletionRequest
  | beginTransaction capacity => Memory.onHeap (Heap.beginTransaction capacity)
  | commitTransaction => Memory.onHeap Heap.commitTransaction

/-- Abort on the heap and on the statics, which are put back before the objects are visited. -/
def Memory.abortTransaction : EStateM Error Memory Bool := fun memory =>
  match Heap.abortTransaction memory.statics memory.heap with
  | .ok (allocated, statics) heap => .ok allocated { memory with heap := heap, statics := statics }
  | .error e heap => .error e { memory with
      heap := heap
      statics := (memory.heap.transaction.map fun txn => txn.2.restore true memory.statics).getD memory.statics }

/-- What can happen to a heap between two calls of an applet. -/
inductive HeapEvent where
  | call (mutator : Mutator)
  | abortTransaction
  | clearTransient (event context : Nat)
  | initializeLifecycle
  | markCheckpointed
  /-- The bytes handed out so far are taken up again in a slab of another size. -/
  | resume (slab : Nat → Byte) (size : Nat)

/-- The memory an event leaves, whether it returns or fails. -/
def HeapEvent.after (memory : Memory) : HeapEvent → Memory
  | call mutator => final (mutator.run memory)
  | abortTransaction => final (Memory.abortTransaction memory)
  | clearTransient event context => final (Memory.onHeap (Heap.clearTransient event context) memory)
  | initializeLifecycle => final (Memory.onHeap Heap.initializeLifecycle memory)
  | markCheckpointed => final (Memory.onHeap Heap.markCheckpointed memory)
  | resume slab size =>
      match Heap.resume (fun i => if i < memory.heap.next then memory.heap.bytes i else slab i) size memory.heap.next with
      | .ok heap => { memory with heap := heap }
      | .error _ => memory

def runEvents (events : List HeapEvent) (memory : Memory) : Memory := events.foldl HeapEvent.after memory

/-- A heap that was just taken: a new one, or one resumed from any bytes whatever. -/
def Heap.Opened (heap : Heap) : Prop :=
  ∃ bytes size, Heap.new bytes size = .ok heap ∨ ∃ used, Heap.resume bytes size used = .ok heap

section Failing

variable {memory : Memory} {α : Type}

/-- A program on the heap keeps what it keeps of the whole memory. -/
theorem Memory.onHeap_triple {program : HeapM α} {Q : α → Heap → Prop}
    (h : Triple (fun s => s = memory.heap) program Q fun _ s => s = memory.heap) :
    Triple (fun m => m = memory) (Memory.onHeap program) (fun a m => Q a m.heap) fun _ m => m = memory := by
  intro m hm
  subst hm
  have hRun := h m.heap rfl
  unfold Memory.onHeap
  cases hProgram : program m.heap with
  | ok a heap =>
      rw [hProgram] at hRun
      exact hRun
  | error e heap =>
      rw [hProgram] at hRun
      rw [hRun]

theorem rememberStatic_confined {heap : Heap} (hRoom : heap.Room) (region : Nat → Prop) (at' : Nat) (before : List Byte) :
    Confined heap region (Heap.rememberStatic at' before) := by
  apply Triple.get
  intro s hs
  subst hs
  cases hTxn : s.transaction with
  | none =>
      intro h hEq
      rw [hEq]
      exact ⟨fun _ _ hNone => (nomatch hNone), fun _ _ => rfl⟩
  | some txn =>
      obtain ⟨start, undo⟩ := txn
      apply Confined.readOnly
      intro saved hSaved h hEq
      rw [hEq]
      refine ⟨?_, fun _ _ => rfl⟩
      intro first log hLog
      injection hLog with hLog
      injection hLog with _ hLog
      rw [← hLog]
      rcases Undo.record_ok hSaved with ⟨rfl, -⟩ | ⟨rfl, -, hFits⟩
      · exact hRoom _ _ hTxn
      · exact Undo.length_cons_le (hRoom _ _ hTxn) hFits

/-- What an operation does to the memory: all of it or nothing, inside its region. -/
theorem HeapOp.spec (op : HeapOp) (hRoom : memory.heap.Room) : Triple (fun m => m = memory) op.run
    (fun _ m => m.heap.Room ∧ ∀ i, ¬op.region memory.heap i → m.heap.bytes i = memory.heap.bytes i)
    fun _ m => m = memory := by
  by_cases hHeap : ∀ at' value, op ≠ .writeStatic at' value
  · obtain ⟨program, hRun, hConfined⟩ := op.confined hRoom hHeap
    rw [hRun]
    exact Memory.onHeap_triple hConfined
  · push Not at hHeap
    obtain ⟨at', value, rfl⟩ := hHeap
    apply Triple.get
    intro m hm
    subst hm
    apply Triple.failIf_bind
    · exact fun _ _ hEq => hEq
    intro _
    split
    · intro m' hEq
      rw [hEq]
      exact ⟨hRoom, fun _ _ => rfl⟩
    · apply Triple.bind (Memory.onHeap_triple (rememberStatic_confined hRoom _ at' _))
      exact fun _ => Triple.update fun _ hDone => hDone

theorem Mutator.spec (mutator : Mutator) (hRoom : memory.heap.Room) :
    Triple (fun m => m = memory) mutator.run (fun _ m => m.heap.Room) fun _ m => m = memory := by
  cases mutator with
  | operation op => exact Triple.conseq (op.spec hRoom) (fun _ hEq => hEq) (fun _ _ hDone => hDone.1) fun _ _ hEq => hEq
  | rememberObject reference =>
      apply Memory.onHeap_triple
      exact Triple.conseq (rememberObject_confined hRoom (fun _ => True) reference) (fun _ hEq => hEq)
        (fun _ _ hDone => hDone.1) fun _ _ hEq => hEq
  | clearObjectDeletionRequest =>
      apply Memory.onHeap_triple
      exact Triple.conseq (clearObjectDeletionRequest_confined hRoom) (fun _ hEq => hEq)
        (fun _ _ hDone => hDone.1) fun _ _ hEq => hEq
  | beginTransaction capacity =>
      apply Memory.onHeap_triple
      apply Triple.get
      intro s hs
      apply Triple.failIf_bind (fun _ _ hEq => hEq.trans hs)
      intro _
      apply Triple.failIf_bind (fun _ _ hEq => hEq.trans hs)
      intro _ h _ start undo hTxn
      injection hTxn with hTxn
      injection hTxn with _ hUndo
      rw [← hUndo]
      exact Nat.zero_le _
  | commitTransaction =>
      apply Memory.onHeap_triple
      apply Triple.get
      intro s hs
      apply Triple.failIf_bind (fun _ _ hEq => hEq.trans hs)
      intro _ h _ start undo hTxn
      exact nomatch hTxn

/-- Visiting payloads keeps whatever does not look at the bytes. -/
theorem visitFrom_keeps {P : Heap → Prop} (hBytes : ∀ heap bytes, P heap → P { heap with bytes := bytes })
    (visit : Nat → Info → List Byte → Except Error (List Byte)) (fuel at' : Nat) :
    Invariant P (Heap.visitFrom visit fuel at') := by
  induction fuel generalizing at' with
  | zero => exact fun _ h => h
  | succ fuel ih =>
      apply Triple.get
      intro heap hHeap
      have hKept : ∀ h, h = heap → P h := fun _ hEq => hEq ▸ hHeap
      split
      · apply Triple.readOnly_bind
        · intro info _
          apply Triple.readOnly_bind
          · intro payload _
            apply Triple.bind (Q := fun _ => P)
            · exact fun _ _ => hBytes heap _ hHeap
            · exact fun _ => ih _
          · exact fun _ _ => hKept
        · exact fun _ _ => hKept
      · exact Triple.conseq (Invariant.failIf _ _) hKept (fun _ _ h => h) fun _ _ h => h

theorem Heap.Room.of_none {heap : Heap} (h : heap.transaction = none) : heap.Room := by
  intro start undo hTxn
  rw [h] at hTxn
  cases hTxn

theorem Memory.onHeap_final (program : HeapM α) (memory : Memory) :
    (final (Memory.onHeap program memory)).heap = final (program memory.heap) := by
  unfold Memory.onHeap
  cases program memory.heap with
  | ok a heap => rfl
  | error e heap => rfl

theorem Memory.abortTransaction_final (memory : Memory) : (final (Memory.abortTransaction memory)).heap =
    final (Heap.abortTransaction memory.statics memory.heap) := by
  unfold Memory.abortTransaction
  cases Heap.abortTransaction memory.statics memory.heap with
  | ok a heap => rfl
  | error e heap => rfl

/-- An abort ends the transaction, or there was none, and keeps the slab. -/
theorem abortTransaction_idle (statics : Nat → Byte) (heap : Heap) :
    (final (Heap.abortTransaction statics heap)).transaction = none ∧
      (final (Heap.abortTransaction statics heap)).size = heap.size := by
  have hRun : Triple (fun h => h = heap) (Heap.abortTransaction statics)
      (fun _ h => h.transaction = none ∧ h.size = heap.size) fun _ h => h.transaction = none ∧ h.size = heap.size := by
    apply Triple.get
    intro s hs
    apply Triple.orFail_bind
    · intro hNone h hEq
      rw [hEq]
      exact ⟨hNone, by rw [hs]⟩
    intro txn _
    obtain ⟨start, undo⟩ := txn
    apply Triple.bind (Q := fun _ h => h.transaction = none ∧ h.size = heap.size)
    · exact fun _ _ => ⟨rfl, by rw [hs]⟩
    intro _
    split
    · exact fun h hDone => hDone
    apply Triple.bind (Q := fun _ h => h.transaction = none ∧ h.size = heap.size)
    · apply Triple.get
      intro h hDone
      apply Triple.failIf_bind
      · exact fun _ s hEq => hEq ▸ hDone
      intro _
      exact Triple.conseq (visitFrom_keeps (fun _ _ h => h) _ _ _) (fun _ hEq => hEq ▸ hDone) (fun _ _ h => h) fun _ _ h => h
    · exact fun _ => fun h hDone => hDone
  exact Triple.final hRun rfl

/-- Clearing transient payloads leaves the log alone, whatever the objects look like. -/
theorem clearTransient_transaction (event context : Nat) (heap : Heap) :
    (final (Heap.clearTransient event context heap)).transaction = heap.transaction := by
  have hRun : Triple (fun h => h.transaction = heap.transaction) (Heap.clearTransient event context)
      (fun _ h => h.transaction = heap.transaction) fun _ h => h.transaction = heap.transaction := by
    apply Triple.failIf_bind
    · exact fun _ _ hEq => hEq
    intro _
    apply Triple.get
    intro s hs
    apply Triple.failIf_bind
    · exact fun _ _ hEq => hEq ▸ hs
    intro _
    exact Triple.conseq (visitFrom_keeps (fun _ _ h => h) _ _ _) (fun _ hEq => hEq ▸ hs) (fun _ _ h => h) fun _ _ h => h
  exact Triple.final hRun rfl

/-- Taking up a slab starts without a transaction. -/
theorem Heap.resume_ok {bytes : Nat → Byte} {size used : Nat} {heap : Heap} (h : Heap.resume bytes size used = .ok heap) :
    heap = ⟨bytes, size, used, none, false, .empty⟩ ∧ 2 ≤ used ∧ used ≤ size ∧ used ≤ 65535 ∧ used % 2 = 0 := by
  unfold Heap.resume at h
  simp only [bind_ok, failIf_ok, pure_ok] at h
  obtain ⟨-, hUsed, rfl⟩ := h
  refine ⟨rfl, ?_⟩
  omega

theorem Heap.new_ok {bytes : Nat → Byte} {size : Nat} {heap : Heap} (h : Heap.new bytes size = .ok heap) :
    heap = ⟨bytes, size, 2, none, false, .empty⟩ ∧ headerBytes + 2 ≤ size := by
  unfold Heap.new at h
  simp only [bind_ok, failIf_ok, pure_ok] at h
  obtain ⟨-, hSize, rfl⟩ := h
  exact ⟨rfl, Nat.le_of_not_lt hSize⟩

/-- No event lets the log outgrow its capacity. -/
theorem HeapEvent.room (event : HeapEvent) (hRoom : memory.heap.Room) : (event.after memory).heap.Room := by
  cases event with
  | call mutator =>
      have hRun : Triple (fun m => m = memory) mutator.run (fun _ m => m.heap.Room) fun _ m => m.heap.Room :=
        Triple.conseq (mutator.spec hRoom) (fun _ hEq => hEq) (fun _ _ hDone => hDone) fun _ _ hEq => hEq ▸ hRoom
      exact Triple.final hRun rfl
  | abortTransaction =>
      apply Heap.Room.of_none
      rw [HeapEvent.after, Memory.abortTransaction_final]
      exact (abortTransaction_idle memory.statics memory.heap).1
  | clearTransient event context =>
      intro start undo hTxn
      rw [HeapEvent.after, Memory.onHeap_final, clearTransient_transaction] at hTxn
      exact hRoom start undo hTxn
  | initializeLifecycle => exact hRoom
  | markCheckpointed => exact hRoom
  | resume slab size =>
      rw [HeapEvent.after]
      split
      · rename_i heap hResume
        apply Heap.Room.of_none
        rw [(Heap.resume_ok hResume).1]
      · exact hRoom

theorem runEvents_room (events : List HeapEvent) (hRoom : memory.heap.Room) : (runEvents events memory).heap.Room := by
  induction events generalizing memory with
  | nil => exact hRoom
  | cons event rest ih => exact ih (event.room hRoom)

theorem Heap.Opened.room {heap : Heap} (h : heap.Opened) : heap.Room := by
  apply Heap.Room.of_none
  obtain ⟨bytes, size, hNew | ⟨used, hResume⟩⟩ := h
  · rw [(Heap.new_ok hNew).1]
  · rw [(Heap.resume_ok hResume).1]

/-- In every heap that was opened over any bytes and went through any events, a call that
fails changes nothing: not the slab, its end, the pending writes, the log with its room, nor the statics. -/
theorem failed_call_changes_nothing {origin memory' : Memory} {events : List HeapEvent} {mutator : Mutator} {e : Error}
    (hOpened : origin.heap.Opened) (hFail : mutator.run (runEvents events origin) = .error e memory') :
    memory' = runEvents events origin :=
  Triple.error (mutator.spec (runEvents_room events hOpened.room)) rfl hFail

/-- A new slab of 64 bytes. -/
def newSlab : Memory :=
  { heap := ⟨fun _ => 0, 64, 2, none, false, .empty⟩
    statics := fun _ => 0
    staticBytes := 0 }

/-- Two objects, and a log that holds the before-image of one field only. -/
def narrowLog : List HeapEvent :=
  [.call (.operation (.newObject 0 2 1)), .call (.operation (.newObject 0 2 1)), .call (.beginTransaction 10)]

/-- The second span does not fit, so the first one is released again. -/
theorem failed_call_changes_nothing_prepared : ∃ memory',
    (Mutator.operation (.preparePayloadWrites [(2, 0, 2), (12, 0, 2)])).run (runEvents narrowLog newSlab) =
      .error .transactionFull memory' ∧ memory' = runEvents narrowLog newSlab := by
  have hFail : ∃ memory', (Mutator.operation (.preparePayloadWrites [(2, 0, 2), (12, 0, 2)])).run
      (runEvents narrowLog newSlab) = .error .transactionFull memory' := ⟨_, rfl⟩
  obtain ⟨memory', hFail⟩ := hFail
  exact ⟨memory', hFail, failed_call_changes_nothing ⟨fun _ => 0, 64, .inl rfl⟩ hFail⟩

end Failing

end MicroCard.Jcvm
