import MicroCard.Jcvm.Effects

/-! Aborting a transaction. Between begin and abort the log promises, for every byte that
is not volatile, the value an abort will give back: the one from begin, changed by
unconditional writes alone. -/
namespace MicroCard.Jcvm

open Bytes CrashTriple Checks UndoLog

/-- The heap with the static field image. -/
structure Memory where
  heap : Heap
  statics : Nat → Byte
  staticBytes : Nat

namespace Memory

/-- Run a program on the heap alone. -/
def onHeap {α : Type} (program : HeapM α) : EStateM Error Memory α := fun memory =>
  match program memory.heap with
  | .ok a heap => .ok a { memory with heap := heap }
  | .error e heap => .error e { memory with heap := heap }

/-- Write to the static field image. -/
def writeStatic (at' : Nat) (value : List Byte) : EStateM Error Memory Unit := do
  let memory ← get
  failIf (memory.staticBytes < at' + value.length) .bounds
  if range memory.statics at' value.length = value then return
  onHeap (Heap.rememberStatic at' (range memory.statics at' value.length))
  modify fun memory => { memory with statics := overwrite memory.statics at' value }

end Memory

/-- An operation that a running transaction may see. -/
inductive HeapOp where
  | putWord (reference index value : Nat)
  | putInt (reference index value : Nat)
  | arrayPut (reference index value : Nat)
  | arrayPutReference (reference index value : Nat)
  | arrayPutInt (reference index value : Nat)
  | writeBytes (reference offset : Nat) (value : List Byte)
  | copyBytes (source sourceOffset destination destinationOffset length : Nat)
  | preparePayloadWrites (spans : List (Nat × Nat × Nat))
  | putWordUnconditional (reference index value : Nat)
  | writeBytesUnconditional (reference offset : Nat) (value : List Byte)
  | fillBytesUnconditional (reference offset length : Nat) (value : Byte)
  | copyBytesUnconditional (source sourceOffset destination destinationOffset length : Nat)
  | setLifecycle (state : Byte)
  | requestObjectDeletion
  | newObject (cls words : UInt16) (owner : UInt8)
  | newArray (kind : Kind) (length : UInt16) (owner : UInt8)
  | newReferenceArray (component length : UInt16) (owner : UInt8)
  | newTransientArray (kind : Kind) (length : UInt16) (owner : UInt8) (event : Nat)
  | writeStatic (at' : Nat) (value : List Byte)

namespace HeapOp

def run : HeapOp → EStateM Error Memory Unit
  | putWord reference index value => Memory.onHeap (Heap.putWord reference index value)
  | putInt reference index value => Memory.onHeap (Heap.putInt reference index value)
  | arrayPut reference index value => Memory.onHeap (Heap.arrayPut reference index value)
  | arrayPutReference reference index value => Memory.onHeap (Heap.arrayPutReference reference index value)
  | arrayPutInt reference index value => Memory.onHeap (Heap.arrayPutInt reference index value)
  | writeBytes reference offset value => Memory.onHeap (Heap.writeBytes reference offset value)
  | copyBytes source sourceOffset destination destinationOffset length =>
      Memory.onHeap (Heap.copyBytes source sourceOffset destination destinationOffset length)
  | preparePayloadWrites spans => Memory.onHeap (Heap.preparePayloadWrites spans)
  | putWordUnconditional reference index value => Memory.onHeap (Heap.putWordUnconditional reference index value)
  | writeBytesUnconditional reference offset value => Memory.onHeap (Heap.writeBytesUnconditional reference offset value)
  | fillBytesUnconditional reference offset length value =>
      Memory.onHeap (Heap.fillBytesUnconditional reference offset length value)
  | copyBytesUnconditional source sourceOffset destination destinationOffset length =>
      Memory.onHeap (Heap.copyBytesUnconditional source sourceOffset destination destinationOffset length)
  | setLifecycle state => Memory.onHeap (do let _ ← Heap.setLifecycle state)
  | requestObjectDeletion => Memory.onHeap Heap.requestObjectDeletion
  | newObject cls words owner => Memory.onHeap (do let _ ← Heap.newObject cls.toNat words.toNat owner.toNat)
  | newArray kind length owner => Memory.onHeap (do let _ ← Heap.newArray kind length.toNat owner.toNat)
  | newReferenceArray component length owner =>
      Memory.onHeap (do let _ ← Heap.newReferenceArray component.toNat length.toNat owner.toNat)
  | newTransientArray kind length owner event =>
      Memory.onHeap (do let _ ← Heap.newTransientArray kind length.toNat owner.toNat event)
  | writeStatic at' value => Memory.writeStatic at' value

/-- The objects an operation names. -/
def references : HeapOp → List Nat
  | putWord reference _ _ | putInt reference _ _ | arrayPut reference _ _ | arrayPutReference reference _ _
  | arrayPutInt reference _ _ | writeBytes reference _ _ | putWordUnconditional reference _ _
  | writeBytesUnconditional reference _ _ | fillBytesUnconditional reference _ _ _ => [reference]
  | copyBytes source _ destination _ _ | copyBytesUnconditional source _ destination _ _ => [source, destination]
  | preparePayloadWrites spans => spans.map fun span => span.1
  | _ => []

/-- Where an operation writes unconditionally, and what: nothing when it fails. -/
def outright (op : HeapOp) (heap : Heap) : List Outright :=
  match op with
  | putWordUnconditional reference index value => dueAt (heap.slot reference index false) (Heap.wordBytes value)
  | writeBytesUnconditional reference offset value => dueAt (heap.byteRange reference offset value.length) value
  | fillBytesUnconditional reference offset length value =>
      dueAt (heap.byteRange reference offset length) (List.replicate length value)
  | copyBytesUnconditional source sourceOffset destination destinationOffset length =>
      dueCopy (heap.byteSlice source sourceOffset length) (heap.byteRange destination destinationOffset length)
  | setLifecycle state => if heap.lifecycle.isOk ∧ Heap.validLifecycle state then [(1, [state])] else []
  | requestObjectDeletion =>
      if heap.lifecycle.isOk ∧ (heap.bytes 0).toNat < 128 then [(0, [UInt8.ofNat ((heap.bytes 0).toNat + 128)])] else []
  | _ => []

/-- The memory an operation leaves, whether it returns or fails. -/
def after (op : HeapOp) (memory : Memory) : Memory :=
  match op.run memory with
  | .ok _ memory' | .error _ memory' => memory'

end HeapOp

/-- The memory after a sequence of operations. -/
def runOps : List HeapOp → Memory → Memory
  | [], memory => memory
  | op :: rest, memory => runOps rest (op.after memory)

/-- An image of the heap, changed by the unconditional writes of a sequence alone. -/
def expectedBytes : List HeapOp → Memory → (Nat → Byte) → Nat → Byte
  | [], _, expected => expected
  | op :: rest, memory, expected =>
      expectedBytes rest (op.after memory)
        ((op.outright memory.heap).foldl (fun bytes write => overwrite bytes write.1 write.2) expected)

/-- An operation names objects of the heap, and an unconditional write that finds its
value in place finds it in the committed contents too. -/
structure HeapOp.Regular (op : HeapOp) (memory : Memory) : Prop where
  genuine : ∀ objects, memory.heap.Tiles objects → ∀ reference ∈ op.references, ∃ info, (reference, info) ∈ objects
  settled : ∀ write ∈ op.outright memory.heap, range memory.heap.bytes write.1 write.2.length = write.2 →
    range memory.heap.committed write.1 write.2.length = write.2

def Regular : List HeapOp → Memory → Prop
  | [], _ => True
  | op :: rest, memory => op.Regular memory ∧ Regular rest (op.after memory)

section Held

variable {start : Nat} {old : List (Nat × Info)} {expected initial : Nat → Byte}

/-- What holds of a heap while a transaction runs that began when the heap ended at `start`
and held the `old` objects. -/
structure Held (start : Nat) (old : List (Nat × Info)) (expected initial : Nat → Byte) (laid : Laid) : Prop where
  sound : laid.1.Sound laid.2
  room : laid.1.Room
  objects : ∃ new, laid.2 = old ++ new ∧ ∀ o ∈ new, start ≤ o.1
  bound : start ≤ laid.1.next
  log : ∃ undo, laid.1.transaction = some (start, undo) ∧
    (∀ image ∈ undo.images false, ∃ o ∈ old, o.2.clearEvent = 0 ∧ ∀ i, image.Holds i → InPayload o i) ∧
    ∀ i < start, Persistent old i → undo.restore false laid.1.bytes i = expected i
  beyond : ∀ i, laid.1.next ≤ i → laid.1.bytes i = initial i

/-- An object whose payload reaches below the start mark is an old one. -/
theorem Held.mem_old {laid : Laid} (h : Held start old expected initial laid) {o : Nat × Info} (ho : o ∈ laid.2) {i : Nat}
    (hIn : InPayload o i) (hBelow : i < start) : o ∈ old := by
  obtain ⟨new, hObjects, hNew⟩ := h.objects
  rw [hObjects] at ho
  rcases List.mem_append.1 ho with hOld | hLater
  · exact hOld
  · have := hNew o hLater
    have := hIn.1
    omega

/-- A payload span ends below the end of the heap. -/
theorem Heap.Sound.spans_lt {heap : Heap} {objects : List (Nat × Info)} (h : heap.Sound objects) {at' length : Nat}
    {info : Info} (hSpans : Spans objects at' length info) : 2 ≤ at' ∧ at' + length ≤ heap.next := by
  obtain ⟨o, ho, rfl, hLow, hHigh⟩ := hSpans
  have hMem := Tiling.mem h.tiles ho
  have hStop := o.2.stop_ge o.1
  omega

/-- A safe write below the start mark changes nothing that an abort gives back. -/
theorem Held.restore_write {heap : Heap} {objects : List (Nat × Info)} (h : Held start old expected initial (heap, objects))
    {undo : Undo} (hTxn : heap.transaction = some (start, undo)) {at' : Nat} {value : List Byte} {info : Info}
    (hSpans : Spans objects at' value.length info) (hSafe : heap.Safe at' value.length info) {i : Nat} (hBelow : i < start)
    (hKept : Persistent old i) :
    undo.restore false (overwrite heap.bytes at' value) i = undo.restore false heap.bytes i := by
  by_cases hInside : at' ≤ i ∧ i < at' + value.length
  · obtain ⟨o, ho, rfl, hLow, hHigh⟩ := hSpans
    have hIn : InPayload o i := ⟨by omega, by omega⟩
    rcases hSafe with hTransient | hEmpty | hUndo
    · exact absurd hIn (hKept o (h.mem_old ho hIn hBelow) hTransient)
    · omega
    · rw [hTxn] at hUndo
      rcases hUndo with hNew | hCovered
      · omega
      · exact congrFun (restore_covered hCovered) i
  · simp only [Undo.restore, restore_apply]
    rw [overwrite_outside (by omega)]

theorem Held.quiet {before after : Laid} (h : Held start old expected initial before) (hStep : Effect none before after) :
    Held start old expected initial after := by
  obtain ⟨undo, hTxn, hImages, hRestore⟩ := h.log
  have hSound := hStep.sound h.sound
  have hRoom := hStep.room h.room
  cases hStep with
  | @save heap objects first at' length log info running spans kept early filled room =>
      rw [running] at hTxn
      injection hTxn with hTxn
      injection hTxn with hStart hUndo
      subst hStart hUndo
      refine ⟨hSound, hRoom, h.objects, h.bound, ⟨_, rfl, ?_, ?_⟩, h.beyond⟩
      · intro image hImage
        rw [Undo.images_cons_same _ _ _ _ rfl] at hImage
        rcases List.mem_cons.1 hImage with hHere | hLater
        · obtain ⟨o, ho, hInfo, hLow, hHigh⟩ := spans
          have hHolds : ∀ i, image.Holds i → InPayload o i := by
            intro i hHold
            rw [hHere] at hHold
            have hFirst := hHold.1
            have hLast := hHold.2
            simp only [length_range] at hFirst hLast
            exact ⟨by omega, by rw [hInfo]; omega⟩
          have hIn : InPayload o at' := ⟨hLow, by rw [hInfo]; omega⟩
          exact ⟨o, h.mem_old ho hIn early, by rw [hInfo]; exact kept, hHolds⟩
        · exact hImages image hLater
      · intro i hBelow hKept
        rw [← hRestore i hBelow hKept]
        simp only [Undo.restore]
        rw [Undo.images_cons_same _ _ _ _ rfl, restore_save]
  | pend idle =>
      rw [idle] at hTxn
      cases hTxn
  | @write heap objects at' value info spans safe =>
      refine ⟨hSound, hRoom, h.objects, h.bound, ⟨undo, hTxn, hImages, ?_⟩, ?_⟩
      · intro i hBelow hKept
        rw [h.restore_write hTxn spans safe hBelow hKept]
        exact hRestore i hBelow hKept
      · intro i hBeyond
        have hEnd := h.sound.spans_lt spans
        rw [← h.beyond i hBeyond]
        exact overwrite_outside (by simp only at hEnd hBeyond; omega)
  | @allocate heap objects info stop fresh stops fits =>
      have hGe := info.stop_ge heap.next
      have hLength : (info.header ++ List.replicate (stop - heap.next - headerBytes) (0 : Byte)).length = stop - heap.next := by
        rw [List.length_append, List.length_replicate]
        show headerBytes + _ = _
        omega
      obtain ⟨new, hObjects, hNew⟩ := h.objects
      have hBound := h.bound
      simp only at hObjects hBound
      refine ⟨hSound, hRoom, ⟨new ++ [(heap.next, info)], ?_, ?_⟩, ?_, ⟨undo, hTxn, hImages, ?_⟩, ?_⟩
      · rw [hObjects, List.append_assoc]
      · intro o ho
        rcases List.mem_append.1 ho with hEarlier | hLast
        · exact hNew o hEarlier
        · rw [List.mem_singleton.1 hLast]
          exact hBound
      · show start ≤ stop
        omega
      · intro i hBelow hKept
        rw [← hRestore i hBelow hKept]
        simp only [Undo.restore, restore_apply, Heap.allocated]
        rw [overwrite_outside (by omega)]
      · intro i hBeyond
        simp only [Heap.allocated] at hBeyond ⊢
        rw [overwrite_outside (by omega)]
        exact h.beyond i (by simp only; omega)

/-- An unconditional write changes what an abort gives back in the same way. -/
theorem Held.outright {before after : Laid} (h : Held start old expected initial before) {write : Outright}
    (hStep : Effect (some write) before after) : Held start old (overwrite expected write.1 write.2) initial after := by
  obtain ⟨undo, hTxn, hImages, hRestore⟩ := h.log
  have hSound := hStep.sound h.sound
  have hRoom := hStep.room h.room
  cases hStep with
  | @through heap objects at' value info spans =>
      refine ⟨hSound, hRoom, h.objects, h.bound, ⟨undo.preserve at' value, ?_, ?_, ?_⟩, ?_⟩
      · simp only at hTxn
        simp only [Heap.written, hTxn, Option.map_some]
      · intro image hImage
        rw [Undo.images_preserve_heap] at hImage
        obtain ⟨source, hSource, rfl⟩ := List.mem_map.1 hImage
        obtain ⟨o, ho, hKept, hHolds⟩ := hImages source hSource
        refine ⟨o, ho, hKept, fun i hHold => hHolds i ?_⟩
        unfold Image.Holds at hHold ⊢
        simpa [Image.preserve] using hHold
      · intro i hBelow hKept
        simp only [Undo.restore, Heap.written, Undo.images_preserve_heap]
        rw [restore_preserve]
        by_cases hInside : at' ≤ i ∧ i < at' + value.length
        · rw [overwrite_inside hInside.1 hInside.2, overwrite_inside hInside.1 hInside.2]
        · rw [overwrite_outside (by omega), overwrite_outside (by omega)]
          exact hRestore i hBelow hKept
      · intro i hBeyond
        have hEnd := h.sound.spans_lt spans
        rw [← h.beyond i hBeyond]
        simp only [Heap.written] at hEnd hBeyond ⊢
        exact overwrite_outside (by omega)
  | @runtime heap objects at' value reserved =>
      have hNext := Tiling.le h.sound.tiles
      refine ⟨hSound, hRoom, h.objects, h.bound, ⟨undo, hTxn, hImages, ?_⟩, ?_⟩
      · intro i hBelow hKept
        have hFree : saved (undo.images false) at' = none := by
          apply saved_eq_none.2
          intro image hImage hHolds
          obtain ⟨o, ho, -, hIn⟩ := hImages image hImage
          have hPlace := (hIn at' hHolds).1
          unfold headerBytes at hPlace
          omega
        simp only [Undo.restore, restore_apply]
        by_cases hSame : i = at'
        · rw [hSame, hFree, overwrite_inside (Nat.le_refl _) (by simp), overwrite_inside (Nat.le_refl _) (by simp)]
          rfl
        · rw [overwrite_outside (by simp only [List.length_singleton]; omega),
            overwrite_outside (by simp only [List.length_singleton]; omega), ← restore_apply]
          exact hRestore i hBelow hKept
      · intro i hBeyond
        rw [← h.beyond i hBeyond]
        simp only at hNext hBeyond
        exact overwrite_outside (by simp only [List.length_singleton]; omega)

theorem Held.effects {before after : Laid} {made : List Outright} (hSteps : Effects before made after)
    (h : Held start old expected initial before) :
    Held start old (made.foldl (fun bytes write => overwrite bytes write.1 write.2) expected) initial after := by
  induction hSteps with
  | refl => exact h
  | quiet steps last ih => exact ih.quiet last
  | outright steps last ih =>
      rw [List.foldl_append]
      exact ih.outright last

end Held

section Running

variable {start : Nat} {old : List (Nat × Info)} {expected initial fields : Nat → Byte}

/-- The invariant of a running transaction, statics included. -/
structure InTransaction (start : Nat) (old : List (Nat × Info)) (expected initial fields : Nat → Byte)
    (memory : Memory) : Prop where
  held : ∃ objects, Held start old expected initial (memory.heap, objects)
  statics : ∀ undo, memory.heap.transaction = some (start, undo) → undo.restore true memory.statics = fields

/-- Effects on the heap leave the saved statics alone. -/
theorem Effects.statics_saved {before after : Laid} {made : List Outright} (h : Effects before made after) {undo : Undo}
    (hTxn : after.1.transaction = some (start, undo)) :
    ∃ earlier, before.1.transaction = some (start, earlier) ∧ undo.images true = earlier.images true := by
  induction h generalizing undo with
  | refl => exact ⟨undo, hTxn, rfl⟩
  | quiet steps last ih =>
      cases last with
      | save running spans kept early filled room =>
          injection hTxn with hTxn
          injection hTxn with hStart hUndo
          subst hStart hUndo
          obtain ⟨earlier, hEarlier, hSame⟩ := ih running
          refine ⟨earlier, hEarlier, ?_⟩
          rw [Undo.images_cons_other _ _ _ _ (by simp), hSame]
      | pend idle => exact ih hTxn
      | write spans safe => exact ih hTxn
      | allocate fresh stops fits => exact ih hTxn
  | outright steps last ih =>
      cases last with
      | @through heap objects at' value info spans =>
          simp only [Heap.written, Option.map_eq_some_iff] at hTxn
          obtain ⟨⟨first, inner⟩, hInner, hEq⟩ := hTxn
          injection hEq with hStart hUndo
          subst hStart hUndo
          obtain ⟨earlier, hEarlier, hSame⟩ := ih hInner
          exact ⟨earlier, hEarlier, by rw [Undo.images_preserve_statics, hSame]⟩
      | runtime reserved => exact ih hTxn

/-- The effects of a program on the heap keep the invariant, with the writes it makes. -/
theorem InTransaction.effects {memory memory' : Memory} {list : List Outright} {objects after : List (Nat × Info)}
    (h : InTransaction start old expected initial fields memory) (hTiles : memory.heap.Tiles objects)
    (hSteps : Effects (memory.heap, objects) list (memory'.heap, after)) (hStatics : memory'.statics = memory.statics) :
    InTransaction start old (list.foldl (fun bytes write => overwrite bytes write.1 write.2) expected) initial fields
      memory' := by
  obtain ⟨others, hHeld⟩ := h.held
  have hSame : others = objects := Tiling.functional hHeld.sound.tiles hTiles
  rw [hSame] at hHeld
  refine ⟨⟨after, hHeld.effects hSteps⟩, fun undo hTxn => ?_⟩
  obtain ⟨earlier, hEarlier, hImages⟩ := hSteps.statics_saved hTxn
  rw [← h.statics earlier hEarlier, hStatics]
  simp only [Undo.restore, hImages]

/-- An operation keeps what its program keeps on both outcomes. -/
theorem HeapOp.after_of_triple {op : HeapOp} {memory : Memory} {P : Memory → Prop}
    (h : Triple (fun m => m = memory) op.run (fun _ => P) fun _ => P) : P (op.after memory) := by
  have hRun := h memory rfl
  unfold HeapOp.after
  cases hResult : op.run memory with
  | ok a after =>
      rw [hResult] at hRun
      exact hRun
  | error e after =>
      rw [hResult] at hRun
      exact hRun

/-- More records of the statics change nothing that the heap's log promises. -/
theorem Held.records {heap : Heap} {objects : List (Nat × Info)} {undo more : Undo}
    (h : Held start old expected initial (heap, objects)) (hTxn : heap.transaction = some (start, undo))
    (hImages : more.images false = undo.images false) (hRoom : more.length ≤ more.limit) :
    Held start old expected initial ({ heap with transaction := some (start, more) }, objects) := by
  obtain ⟨earlier, hEarlier, hSaved, hRestore⟩ := h.log
  simp only at hEarlier hRestore
  rw [hTxn] at hEarlier
  injection hEarlier with hEarlier
  injection hEarlier with _ hUndo
  subst hUndo
  have hSound : ({ heap with transaction := some (start, more) } : Heap).Sound objects :=
    ⟨h.sound.tiles, h.sound.size, h.sound.addressable⟩
  have hFits : ({ heap with transaction := some (start, more) } : Heap).Room := by
    intro first log hLog
    injection hLog with hLog
    injection hLog with _ hLog
    rw [← hLog]
    exact hRoom
  refine ⟨hSound, hFits, h.objects, h.bound, ⟨more, rfl, ?_, ?_⟩, h.beyond⟩
  · rw [hImages]
    exact hSaved
  · simp only [Undo.restore, hImages]
    exact hRestore

/-- What a write to the statics leaves: its span was inside them, and was saved. -/
theorem Memory.writeStatic_spec (memory : Memory) (at' : Nat) (value : List Byte) : Triple (fun m => m = memory) (Memory.writeStatic at' value)
    (fun _ m => m = memory ∨ at' + value.length ≤ memory.staticBytes ∧
      (memory.heap.transaction = none ∧ m = { memory with
          heap := { memory.heap with pendingWrites := memory.heap.pendingWrites.writeStatics at' value.length }
          statics := overwrite memory.statics at' value } ∨
        ∃ start undo saved, memory.heap.transaction = some (start, undo) ∧
          undo.record at' (range memory.statics at' value.length) true = .ok saved ∧ m = { memory with
            heap := { memory.heap with transaction := some (start, saved) }
            statics := overwrite memory.statics at' value })) fun _ m => m = memory := by
  apply Triple.get
  intro m hm
  subst hm
  apply Triple.failIf_bind
  · exact fun _ _ hEq => hEq
  intro hFits
  split
  · exact fun _ hEq => .inl hEq
  intro s hs
  subst hs
  simp only [Memory.onHeap, Heap.rememberStatic, Bind.bind, EStateM.bind, get, getThe, MonadStateOf.get, EStateM.get]
  cases hTxn : s.heap.transaction with
  | none =>
      refine .inr ⟨Nat.le_of_not_lt hFits, .inl ⟨rfl, ?_⟩⟩
      simp only [length_range, ← hTxn]
  | some txn =>
      obtain ⟨start, undo⟩ := txn
      cases hRecord : undo.record at' (range s.statics at' value.length) true with
      | error e =>
          simp only [hRecord]
          exact (rfl : s = s)
      | ok saved =>
          simp only [hRecord]
          exact .inr ⟨Nat.le_of_not_lt hFits, .inr ⟨start, undo, saved, rfl, hRecord, rfl⟩⟩

/-- A static write keeps the invariant: its span was saved. -/
theorem InTransaction.writeStatic {memory : Memory} (h : InTransaction start old expected initial fields memory)
    (at' : Nat) (value : List Byte) : Triple (fun m => m = memory) (Memory.writeStatic at' value)
      (fun _ => InTransaction start old expected initial fields) fun _ => InTransaction start old expected initial fields := by
  obtain ⟨objects, hHeld⟩ := h.held
  obtain ⟨undo, hTxn, hImages, hRestore⟩ := hHeld.log
  have hStatics := h.statics undo hTxn
  have hRoom := hHeld.room _ _ hTxn
  simp only at hTxn
  apply Triple.conseq (Memory.writeStatic_spec memory at' value) (fun _ hEq => hEq) ?_ fun _ _ hEq => hEq ▸ h
  rintro _ m (hSame | ⟨-, ⟨hIdle, -⟩ | ⟨first, log, saved, hLog, hRecord, hEq⟩⟩)
  · rw [hSame]
    exact h
  · rw [hTxn] at hIdle
    cases hIdle
  rw [hTxn] at hLog
  injection hLog with hLog
  injection hLog with hStart hUndo
  subst hStart hUndo
  rw [hEq]
  rcases Undo.record_ok hRecord with ⟨rfl, hCovered⟩ | ⟨rfl, -, hFits⟩
  · refine ⟨⟨objects, hHeld.records hTxn rfl hRoom⟩, fun log hLog => ?_⟩
    injection hLog with hLog
    injection hLog with _ hLog
    rw [← hLog, ← hStatics]
    rcases hCovered with hEmpty | hCovered
    · have hNil : value.length = 0 := by simpa using congrArg List.length hEmpty
      rw [List.length_eq_zero_iff.1 hNil]
      congr 1
      exact overwrite_eq_of_range rfl
    · rw [length_range] at hCovered
      exact restore_covered hCovered
  · refine ⟨⟨objects, hHeld.records hTxn (Undo.images_cons_other _ _ _ _ (by simp)) (Undo.length_cons_le hRoom hFits)⟩,
      fun log hLog => ?_⟩
    injection hLog with hLog
    injection hLog with _ hLog
    rw [← hLog, ← hStatics]
    simp only [Undo.restore]
    rw [Undo.images_cons_same _ _ _ _ rfl, restore_saved]

/-- Writes in a list, the first one first. -/
abbrev overwriteAll (made : List Outright) (bytes : Nat → Byte) : Nat → Byte :=
  made.foldl (fun bytes write => overwrite bytes write.1 write.2) bytes

/-- A write whose bytes are committed already changes nothing that is promised. -/
theorem InTransaction.skip {memory : Memory} (h : InTransaction start old expected initial fields memory)
    {due : List Outright} (hSettled : ∀ write ∈ due, range memory.heap.committed write.1 write.2.length = write.2) :
    InTransaction start old (overwriteAll due expected) initial fields memory := by
  induction due generalizing expected with
  | nil => exact h
  | cons write rest ih =>
      apply ih (h := ?_) fun other hOther => hSettled other (List.mem_cons_of_mem _ hOther)
      obtain ⟨objects, hHeld⟩ := h.held
      obtain ⟨undo, hTxn, hImages, hRestore⟩ := hHeld.log
      refine ⟨⟨objects, hHeld.sound, hHeld.room, hHeld.objects, hHeld.bound, ⟨undo, hTxn, hImages, ?_⟩, hHeld.beyond⟩,
        h.statics⟩
      intro i hBelow hKept
      have hSame : range (undo.restore false memory.heap.bytes) write.1 write.2.length = write.2 := by
        have hWrite := hSettled write List.mem_cons_self
        simp only at hTxn
        rwa [Heap.committed, hTxn] at hWrite
      show undo.restore false memory.heap.bytes i = overwrite expected write.1 write.2 i
      rw [hRestore i hBelow hKept]
      by_cases hInside : write.1 ≤ i ∧ i < write.1 + write.2.length
      · rw [overwrite_inside hInside.1 hInside.2, ← hRestore i hBelow hKept]
        conv_rhs => rw [← hSame]
        rw [getD_range (by omega), Nat.add_sub_cancel' hInside.1]
      · rw [overwrite_outside (by omega)]

theorem Acts.weaken {α : Type} {heap : Heap} {objects : List (Nat × Info)} {program : HeapM α}
    {made wider : List Outright → Prop} (h : Acts heap objects program made) (hWider : ∀ list, made list → wider list) :
    Acts heap objects program wider :=
  Triple.conseq h (fun _ hs => hs) (fun _ _ ⟨list, after, hMade, hSteps⟩ => ⟨list, after, hWider list hMade, hSteps⟩)
    fun _ _ ⟨list, after, hMade, hSteps⟩ => ⟨list, after, hWider list hMade, hSteps⟩

theorem Quiet.makes {α : Type} {heap : Heap} {objects : List (Nat × Info)} {program : HeapM α}
    (h : Quiet heap objects program) : Acts heap objects program (Makes heap []) :=
  h.weaken fun _ hList => .inl hList

/-- Dropping the result of a program changes nothing. -/
theorem Acts.discard {α : Type} {heap : Heap} {objects : List (Nat × Info)} {program : HeapM α}
    {made : List Outright → Prop} (h : Acts heap objects program made) :
    Acts heap objects (program >>= fun _ => pure ()) made :=
  Triple.bind h fun _ => Triple.ret fun _ hs => hs

theorem setLifecycle_acts (heap : Heap) (objects : List (Nat × Info)) (state : Byte) :
    Acts heap objects (Heap.setLifecycle state) (Makes heap ((HeapOp.setLifecycle state).outright heap)) := by
  apply Triple.get
  intro s hs
  subst hs
  simp only [HeapOp.outright]
  cases hLife : s.lifecycle with
  | error e => exact fun h hEq => ⟨[], objects, .inl rfl, hEq ▸ .refl⟩
  | ok byte =>
      by_cases hValid : Heap.validLifecycle state = true
      · simp only [hValid, Except.isOk, Except.toBool, and_self, if_true]
        apply Triple.bind (Acts.weaken (putRuntime_acts (by omega)) fun list hMade => ?_)
        · exact fun _ => Triple.ret fun _ hs => hs
        · refine hMade.imp_right fun hNone => ⟨hNone.1, fun write hWrite => ?_⟩
          rw [List.mem_singleton.1 hWrite]
          exact hNone.2
      · simp only [hValid]
        exact fun h hEq => ⟨[], objects, .inl rfl, hEq ▸ .refl⟩

theorem requestObjectDeletion_acts (heap : Heap) (objects : List (Nat × Info)) :
    Acts heap objects Heap.requestObjectDeletion (Makes heap (HeapOp.requestObjectDeletion.outright heap)) := by
  apply Triple.get
  intro s hs
  subst hs
  simp only [HeapOp.outright]
  cases hLife : s.lifecycle with
  | error e => exact fun h hEq => ⟨[], objects, .inl rfl, hEq ▸ .refl⟩
  | ok byte =>
      by_cases hClear : (s.bytes 0).toNat < 128
      · simp only [hClear, Except.isOk, Except.toBool, and_self, if_true]
        apply Acts.weaken (putRuntime_acts (by omega))
        intro list hMade
        refine hMade.imp_right fun hNone => ⟨hNone.1, fun write hWrite => ?_⟩
        rw [List.mem_singleton.1 hWrite]
        exact hNone.2
      · simp only [hClear, and_false, if_false]
        exact fun h hEq => ⟨[], objects, .inl rfl, hEq ▸ .refl⟩

/-- The fields of an array that a program may ask for. -/
theorem Info.fresh_array {kind : Kind} {length : UInt16} {owner : UInt8} {event : Nat} (hKind : kind ≠ .object)
    (hEvent : event ≤ clearOnDeselect) : Info.Fresh ⟨Heap.arrayClass kind, length.toNat, kind, owner.toNat, event⟩ :=
  { cls := by
      show Heap.arrayClass kind < 65536
      unfold Heap.arrayClass anyReferenceClass
      split <;> omega
    length := length.toNat_lt
    owner := owner.toNat_lt
    event := hEvent
    object := fun h => absurd h hKind
    primitive := fun _ h => if_neg h }

/-- Every operation but a static write is a program that acts on the heap. -/
theorem HeapOp.acts (op : HeapOp) {heap : Heap} {objects : List (Nat × Info)} (hSound : heap.Sound objects)
    (hRoom : heap.Room) (hRefs : ∀ reference ∈ op.references, ∃ info, (reference, info) ∈ objects)
    (hHeap : ∀ at' value, op ≠ .writeStatic at' value) :
    ∃ program, op.run = Memory.onHeap program ∧ Acts heap objects program (Makes heap (op.outright heap)) := by
  have hTiles := hSound.tiles
  cases op with
  | putWord reference index value =>
      obtain ⟨info, ho⟩ := hRefs reference List.mem_cons_self
      exact ⟨_, rfl, (putWord_acts hTiles ho index value).makes⟩
  | putInt reference index value =>
      obtain ⟨info, ho⟩ := hRefs reference List.mem_cons_self
      exact ⟨_, rfl, (putInt_acts hTiles ho index value).makes⟩
  | arrayPut reference index value =>
      obtain ⟨info, ho⟩ := hRefs reference List.mem_cons_self
      exact ⟨_, rfl, (arrayPut_acts hTiles ho index value).makes⟩
  | arrayPutReference reference index value =>
      obtain ⟨info, ho⟩ := hRefs reference List.mem_cons_self
      exact ⟨_, rfl, (arrayPutReference_acts hTiles ho index value).makes⟩
  | arrayPutInt reference index value =>
      obtain ⟨info, ho⟩ := hRefs reference List.mem_cons_self
      exact ⟨_, rfl, (arrayPutInt_acts hTiles ho index value).makes⟩
  | writeBytes reference offset value =>
      obtain ⟨info, ho⟩ := hRefs reference List.mem_cons_self
      exact ⟨_, rfl, (writeBytes_acts hTiles ho offset value).makes⟩
  | copyBytes source sourceOffset destination destinationOffset length =>
      obtain ⟨info, ho⟩ := hRefs destination (List.mem_cons_of_mem _ List.mem_cons_self)
      exact ⟨_, rfl, (copyBytes_acts hTiles ho source sourceOffset destinationOffset length).makes⟩
  | preparePayloadWrites spans =>
      refine ⟨_, rfl, Quiet.makes ?_⟩
      apply Triple.conseq (preparePayloadWrites_spec hTiles hRoom fun span hSpan => hRefs _ (List.mem_map_of_mem hSpan))
        (fun _ hs => hs)
      · exact fun _ _ hDone => ⟨[], objects, rfl, hDone.2⟩
      · exact fun _ => Quiet.unchanged
  | putWordUnconditional reference index value =>
      obtain ⟨info, ho⟩ := hRefs reference List.mem_cons_self
      exact ⟨_, rfl, putWordUnconditional_acts hTiles ho index value⟩
  | writeBytesUnconditional reference offset value =>
      obtain ⟨info, ho⟩ := hRefs reference List.mem_cons_self
      exact ⟨_, rfl, writeBytesUnconditional_acts hTiles ho offset value⟩
  | fillBytesUnconditional reference offset length value =>
      obtain ⟨info, ho⟩ := hRefs reference List.mem_cons_self
      exact ⟨_, rfl, fillBytesUnconditional_acts hTiles ho offset length value⟩
  | copyBytesUnconditional source sourceOffset destination destinationOffset length =>
      obtain ⟨info, ho⟩ := hRefs destination (List.mem_cons_of_mem _ List.mem_cons_self)
      exact ⟨_, rfl, copyBytesUnconditional_acts hTiles ho source sourceOffset destinationOffset length⟩
  | setLifecycle state => exact ⟨_, rfl, (setLifecycle_acts heap objects state).discard⟩
  | requestObjectDeletion => exact ⟨_, rfl, requestObjectDeletion_acts heap objects⟩
  | newObject cls words owner =>
      refine ⟨_, rfl, Acts.discard (Quiet.makes (allocate_acts ?_))⟩
      exact ⟨cls.toNat_lt, words.toNat_lt, owner.toNat_lt, Nat.zero_le _, fun _ => rfl, fun hKind => absurd rfl hKind⟩
  | newArray kind length owner =>
      refine ⟨_, rfl, Acts.discard (Quiet.makes ?_)⟩
      apply Triple.failIf_bind (fun _ => Quiet.unchanged)
      exact fun hKind => allocate_acts (Info.fresh_array hKind (Nat.zero_le _))
  | newReferenceArray component length owner =>
      refine ⟨_, rfl, Acts.discard (Quiet.makes ?_)⟩
      apply Triple.failIf_bind (fun _ => Quiet.unchanged)
      exact fun _ => allocate_acts ⟨component.toNat_lt, length.toNat_lt, owner.toNat_lt, Nat.zero_le _,
        (fun hKind => nomatch hKind), fun _ hKind => absurd rfl hKind⟩
  | newTransientArray kind length owner event =>
      refine ⟨_, rfl, Acts.discard (Quiet.makes ?_)⟩
      apply Triple.failIf_bind (fun _ => Quiet.unchanged)
      intro hEvent
      apply Triple.failIf_bind (fun _ => Quiet.unchanged)
      refine fun hKind => allocate_acts (Info.fresh_array hKind ?_)
      simp only [clearOnReset, clearOnDeselect] at hEvent ⊢
      omega
  | writeStatic at' value => exact absurd rfl (hHeap at' value)

/-- The effects of an operation on the heap, whether it returns or fails. -/
theorem HeapOp.effects (op : HeapOp) {memory : Memory} {objects : List (Nat × Info)} (hSound : memory.heap.Sound objects)
    (hRoom : memory.heap.Room) (hRefs : ∀ reference ∈ op.references, ∃ info, (reference, info) ∈ objects)
    (hHeap : ∀ at' value, op ≠ .writeStatic at' value) :
    ∃ list after, Makes memory.heap (op.outright memory.heap) list ∧
      Effects (memory.heap, objects) list ((op.after memory).heap, after) ∧
      (op.after memory).statics = memory.statics ∧ (op.after memory).staticBytes = memory.staticBytes := by
  obtain ⟨program, hRun, hActs⟩ := op.acts hSound hRoom hRefs hHeap
  have hDone := hActs memory.heap rfl
  unfold HeapOp.after
  rw [hRun]
  unfold Memory.onHeap
  cases hResult : program memory.heap with
  | ok a heap =>
      rw [hResult] at hDone
      obtain ⟨list, after, hMade, hSteps⟩ := hDone
      exact ⟨list, after, hMade, hSteps, rfl, rfl⟩
  | error e heap =>
      rw [hResult] at hDone
      obtain ⟨list, after, hMade, hSteps⟩ := hDone
      exact ⟨list, after, hMade, hSteps, rfl, rfl⟩

/-- Every regular operation keeps the invariant of the transaction. -/
theorem InTransaction.step {memory : Memory} (h : InTransaction start old expected initial fields memory) (op : HeapOp)
    (hRegular : op.Regular memory) :
    InTransaction start old (overwriteAll (op.outright memory.heap) expected) initial fields (op.after memory) := by
  by_cases hHeap : ∀ at' value, op ≠ .writeStatic at' value
  · obtain ⟨objects, hHeld⟩ := h.held
    have hTiles := hHeld.sound.tiles
    obtain ⟨list, after, hMade, hSteps, hStatics, -⟩ :=
      op.effects hHeld.sound hHeld.room (hRegular.genuine objects hTiles) hHeap
    rcases hMade with rfl | ⟨rfl, hSame⟩
    · exact h.effects hTiles hSteps hStatics
    · have hSkip := h.skip fun write hWrite => hRegular.settled write hWrite (hSame write hWrite)
      exact hSkip.effects hTiles hSteps hStatics
  · push Not at hHeap
    obtain ⟨at', value, rfl⟩ := hHeap
    exact HeapOp.after_of_triple (h.writeStatic at' value)

/-- So does every regular sequence of them. -/
theorem InTransaction.run {memory : Memory} (h : InTransaction start old expected initial fields memory)
    {ops : List HeapOp} (hRegular : Regular ops memory) :
    InTransaction start old (expectedBytes ops memory expected) initial fields (runOps ops memory) := by
  induction ops generalizing memory expected with
  | nil => exact h
  | cons op rest ih => exact ih (h.step op hRegular.1) hRegular.2

end Running

section Aborting

/-- What an abort gives back of a memory that began its transaction with the heap `begun`
and stood at `last` before the abort. -/
structure Restored (objects : List (Nat × Info)) (begun last : Memory) (expected : Nat → Byte) (allocated : Bool)
    (aborted : Heap) (statics : Nat → Byte) : Prop where
  statics : statics = begun.statics
  persistent : ∀ i < begun.heap.next, Persistent objects i → aborted.bytes i = expected i
  transient : ∀ o ∈ objects, o.2.clearEvent ≠ 0 → range aborted.bytes (o.1 + headerBytes) o.2.payload =
    if allocated ∧ o.2.kind = .reference then
      Heap.nullSlots begun.heap.next (range last.heap.bytes (o.1 + headerBytes) o.2.payload)
    else range last.heap.bytes (o.1 + headerBytes) o.2.payload
  freed : ∀ i, begun.heap.next ≤ i → i < last.heap.next → aborted.bytes i = 0
  beyond : ∀ i, last.heap.next ≤ i → aborted.bytes i = begun.heap.bytes i
  next : aborted.next = begun.heap.next
  discarded : allocated = true ↔ last.heap.next ≠ begun.heap.next

theorem Heap.length_nullSlots (start : Nat) (payload : List Byte) : (Heap.nullSlots start payload).length = payload.length := by
  induction payload using Heap.nullSlots.induct with
  | case1 high low rest ih =>
      rw [Heap.nullSlots, List.length_append, ih]
      split <;> simp <;> omega
  | case2 rest hShort =>
      rw [Heap.nullSlots]
      exact hShort

variable {start : Nat} {old : List (Nat × Info)} {expected initial fields : Nat → Byte}

/-- Restoring the log leaves the volatile bytes and the headers alone. -/
theorem Held.restore_outside {laid : Laid} (h : Held start old expected initial laid) {undo : Undo}
    (hTxn : laid.1.transaction = some (start, undo)) {i : Nat}
    (hOutside : ∀ o ∈ old, o.2.clearEvent = 0 → ¬InPayload o i) : undo.restore false laid.1.bytes i = laid.1.bytes i := by
  obtain ⟨earlier, hEarlier, hImages, -⟩ := h.log
  rw [hTxn] at hEarlier
  injection hEarlier with hEarlier
  injection hEarlier with _ hUndo
  subst hUndo
  have hFree : saved (undo.images false) i = none := by
    apply saved_eq_none.2
    intro image hImage hHolds
    obtain ⟨o, ho, hKept, hIn⟩ := hImages image hImage
    exact hOutside o ho hKept (hIn i hHolds)
  rw [Undo.restore, restore_apply, hFree]
  rfl

/-- The bytes of a volatile payload are not restored. -/
theorem Held.restore_transient {heap : Heap} {objects : List (Nat × Info)} (h : Held start old expected initial (heap, objects))
    {undo : Undo} (hTxn : heap.transaction = some (start, undo)) {o : Nat × Info} (ho : o ∈ old) (hEvent : o.2.clearEvent ≠ 0) :
    range (undo.restore false heap.bytes) (o.1 + headerBytes) o.2.payload = range heap.bytes (o.1 + headerBytes) o.2.payload := by
  obtain ⟨new, hObjects, hNew⟩ := h.objects
  have hMem : ∀ p ∈ old, p ∈ objects := fun p hp => by
    simp only at hObjects
    rw [hObjects]
    exact List.mem_append_left _ hp
  apply range_congr
  intro i hi
  refine h.restore_outside hTxn fun p hp hKept hIn => ?_
  have hSame := h.sound.tiles.payload_unique (hMem o ho) (hMem p hp) ⟨by omega, by omega⟩ hIn
  rw [hSame] at hEvent
  exact hEvent hKept

/-- What the log gives back is tiled by the same objects. -/
theorem Held.restore_tiles {heap : Heap} {objects : List (Nat × Info)} (h : Held start old expected initial (heap, objects))
    {undo : Undo} (hTxn : heap.transaction = some (start, undo)) :
    Tiling (undo.restore false heap.bytes) heap.size heap.next 2 heap.next objects := by
  obtain ⟨new, hObjects, hNew⟩ := h.objects
  refine Tiling.congr h.sound.tiles fun o ho i hLow hHigh => ?_
  refine h.restore_outside hTxn fun p hp _ hIn => ?_
  have hMem : p ∈ objects := by
    simp only at hObjects
    rw [hObjects]
    exact List.mem_append_left _ hp
  exact h.sound.tiles.header_outside hMem ho hIn ⟨hLow, hHigh⟩

theorem forget_total (start reference : Nat) (info : Info) (payload : List Byte) :
    ∃ payload', Heap.forget start reference info payload = .ok payload' ∧ payload'.length = payload.length := by
  refine ⟨_, rfl, ?_⟩
  split
  · exact Heap.length_nullSlots start payload
  · rfl

/-- An abort returns, and gives back what the log promised. -/
theorem InTransaction.abort {begun memory : Memory} (h : InTransaction begun.heap.next old expected begun.heap.bytes
    begun.statics memory) (hOld : ∀ o ∈ old, o.2.stop o.1 ≤ begun.heap.next) :
    ∃ allocated aborted statics, Heap.abortTransaction memory.statics memory.heap = .ok (allocated, statics) aborted ∧
      Restored old begun memory expected allocated aborted statics := by
  obtain ⟨objects, hHeld⟩ := h.held
  obtain ⟨undo, hTxn, hImages, hRestore⟩ := hHeld.log
  have hFields := h.statics undo hTxn
  obtain ⟨new, hObjects, hNew⟩ := hHeld.objects
  have hBound := hHeld.bound
  simp only at hTxn hObjects hRestore hBound
  have hPayload : ∀ o ∈ old, ∀ i, InPayload o i → i < begun.heap.next := by
    intro o ho i hIn
    have hStop := hOld o ho
    have hGe := o.2.stop_ge o.1
    have hHigh := hIn.2
    omega
  have hBeyond : ∀ i, begun.heap.next ≤ i → undo.restore false memory.heap.bytes i = memory.heap.bytes i := by
    intro i hi
    refine hHeld.restore_outside hTxn fun o ho _ hIn => ?_
    have := hPayload o ho i hIn
    omega
  by_cases hNext : memory.heap.next = begun.heap.next
  · refine ⟨false, { memory.heap with transaction := none, bytes := undo.restore false memory.heap.bytes }, begun.statics,
      ?_, rfl, hRestore, ?_, ?_, ?_, hNext, ?_⟩
    · simp [Heap.abortTransaction, Bind.bind, EStateM.bind, get, getThe, MonadStateOf.get, EStateM.get, hTxn, orFail, pure,
        EStateM.pure, set, MonadStateOf.set, EStateM.set, hNext, hFields]
    · intro o ho hEvent
      rw [if_neg (by simp)]
      exact hHeld.restore_transient hTxn ho hEvent
    · intro i hLow hHigh
      omega
    · intro i hi
      rw [← hHeld.beyond i hi]
      exact hBeyond i (by omega)
    · simp [hNext]
  · let restored : Heap := { memory.heap with transaction := none, bytes := undo.restore false memory.heap.bytes }
    have hTiles : Tiling restored.bytes restored.size restored.next 2 restored.next objects := hHeld.restore_tiles hTxn
    obtain ⟨bytes, hVisit, hSeen⟩ := Heap.visitFrom_spec (forget_total begun.heap.next) hTiles
      (show restored.next < 2 + (restored.next + 1) by omega)
    have hKept : ∀ i, i < begun.heap.next → Persistent old i → bytes i = undo.restore false memory.heap.bytes i := by
      intro i hBelow hPersistent
      by_cases hIn : ∃ o ∈ objects, InPayload o i
      · obtain ⟨o, ho, hIn⟩ := hIn
        have hSame := hSeen.payload o ho
        have hKind : ¬(o.2.kind = .reference ∧ o.2.clearEvent ≠ 0) := fun hBoth =>
          hPersistent o (hHeld.mem_old ho hIn hBelow) hBoth.2 hIn
        rw [Heap.forget, if_neg hKind] at hSame
        injection hSame with hSame
        exact (range_apply hSame hIn.1 hIn.2).symm
      · exact hSeen.outside i fun o ho hHere => hIn ⟨o, ho, hHere⟩
    refine ⟨true, { restored with
        bytes := overwrite bytes begun.heap.next (List.replicate (memory.heap.next - begun.heap.next) 0)
        next := begun.heap.next
        abortedAllocations := true }, begun.statics, ?_, rfl, ?_, ?_, ?_, ?_, rfl, by simp [hNext]⟩
    · simp only [Heap.abortTransaction, Bind.bind, EStateM.bind, get, getThe, MonadStateOf.get, EStateM.get, hTxn, orFail, pure,
        EStateM.pure, set, MonadStateOf.set, EStateM.set, if_neg hNext, Heap.visitObjects, failIf, Option.isSome_none,
        Bool.false_eq_true, if_false]
      rw [show Heap.visitFrom (Heap.forget begun.heap.next) (memory.heap.next + 1) 2
        { memory.heap with transaction := none, bytes := undo.restore false memory.heap.bytes } = _ from hVisit]
      simp [modify, modifyGet, MonadStateOf.modifyGet, EStateM.modifyGet, hFields, restored]
    · intro i hBelow hPersistent
      rw [← hRestore i hBelow hPersistent, ← hKept i hBelow hPersistent]
      exact overwrite_outside (.inl hBelow)
    · intro o ho hEvent
      have hMem : o ∈ objects := by
        rw [hObjects]
        exact List.mem_append_left _ ho
      have hRange : range (overwrite bytes begun.heap.next (List.replicate (memory.heap.next - begun.heap.next) 0))
          (o.1 + headerBytes) o.2.payload = range bytes (o.1 + headerBytes) o.2.payload := by
        apply range_overwrite_apart
        left
        have := hOld o ho
        have := o.2.stop_ge o.1
        omega
      have hSame := hSeen.payload o hMem
      rw [Heap.forget] at hSame
      injection hSame with hSame
      rw [hRange, ← hSame, show restored.bytes = undo.restore false memory.heap.bytes from rfl,
        hHeld.restore_transient hTxn ho hEvent]
      simp only [hEvent, ne_eq, not_false_eq_true, and_true, true_and]
    · intro i hLow hHigh
      show overwrite bytes begun.heap.next (List.replicate (memory.heap.next - begun.heap.next) 0) i = 0
      rw [overwrite_inside hLow (by simp only [List.length_replicate]; omega), List.getD_replicate]
      omega
    · intro i hi
      show overwrite bytes begun.heap.next (List.replicate (memory.heap.next - begun.heap.next) 0) i = _
      rw [← hHeld.beyond i hi, overwrite_outside (by simp only [List.length_replicate]; omega),
        hSeen.outside i fun o ho hIn => ?_]
      · exact hBeyond i (by omega)
      · have := (Tiling.mem hTiles ho).2.2
        have := o.2.stop_ge o.1
        have := hIn.2
        have hEnd : restored.next = memory.heap.next := rfl
        omega

/-- Begin marks the end of the heap and opens an empty log, or changes nothing. -/
theorem beginTransaction_spec (capacity : Nat) (heap : Heap) : Triple (fun h => h = heap) (Heap.beginTransaction capacity)
    (fun _ h => heap.transaction = none ∧ h = { heap with transaction := some (heap.next, ⟨[], capacity⟩) })
    fun _ h => h = heap := by
  apply Triple.get
  intro s hs
  subst hs
  apply Triple.failIf_bind
  · exact fun _ _ hEq => hEq
  intro _
  apply Triple.failIf_bind
  · exact fun _ _ hEq => hEq
  intro hIdle h hEq
  exact ⟨by simpa using hIdle, rfl⟩

/-- A transaction that has just begun promises the heap and the statics as they are. -/
theorem Heap.Sound.begins {memory : Memory} {objects : List (Nat × Info)} (hSound : memory.heap.Sound objects) (capacity : Nat) :
    InTransaction memory.heap.next objects memory.heap.bytes memory.heap.bytes memory.statics
      { memory with heap := { memory.heap with transaction := some (memory.heap.next, ⟨[], capacity⟩) } } := by
  refine ⟨⟨objects, ⟨hSound.tiles, hSound.size, hSound.addressable⟩, ?_, ⟨[], by simp, fun o ho => (nomatch ho)⟩,
    Nat.le_refl _, ⟨⟨[], capacity⟩, rfl, fun image hImage => (nomatch hImage), fun i _ _ => rfl⟩, fun i _ => rfl⟩, ?_⟩
  · intro start undo hTxn
    injection hTxn with hTxn
    injection hTxn with _ hUndo
    rw [← hUndo]
    exact Nat.zero_le _
  · intro undo hTxn
    injection hTxn with hTxn
    injection hTxn with _ hUndo
    rw [← hUndo]
    rfl

/-- Whatever a regular sequence of operations did since begin, an abort returns and gives
back every persistent byte and every static byte of begin, up to unconditional writes. -/
theorem abort_restores {memory : Memory} {objects : List (Nat × Info)} {capacity : Nat} {ops : List HeapOp} {begun : Heap}
    (hSound : memory.heap.Sound objects) (hBegin : Heap.beginTransaction capacity memory.heap = .ok () begun)
    (hRegular : Regular ops { memory with heap := begun }) :
    ∃ allocated aborted statics, Heap.abortTransaction (runOps ops { memory with heap := begun }).statics
        (runOps ops { memory with heap := begun }).heap = .ok (allocated, statics) aborted ∧
      Restored objects { memory with heap := begun } (runOps ops { memory with heap := begun })
        (expectedBytes ops { memory with heap := begun } begun.bytes) allocated aborted statics := by
  obtain ⟨-, hBegun⟩ := (beginTransaction_spec capacity memory.heap).ok rfl hBegin
  have hStart : InTransaction begun.next objects begun.bytes begun.bytes memory.statics { memory with heap := begun } := by
    rw [hBegun]
    exact hSound.begins capacity
  refine (hStart.run hRegular).abort fun o ho => ?_
  have hMem := (Tiling.mem hSound.tiles ho).2.2
  rw [hBegun]
  exact hMem

/-- A heap that holds one object with one field. -/
def oneObject : Memory :=
  { heap := ⟨overwrite (fun _ => 0) 0 ([3, 7] ++ Info.header ⟨0, 1, .object, 1, 0⟩ ++ [0, 0]), 64, 10, none, false, .empty⟩
    statics := fun _ => 0
    staticBytes := 0 }

theorem oneObject_sound : oneObject.heap.Sound [(2, ⟨0, 1, .object, 1, 0⟩)] :=
  ⟨.cons (by decide) (.nil 10), by decide, by decide⟩

def oneObjectBegun : Memory :=
  { oneObject with heap := { oneObject.heap with transaction := some (10, ⟨[], 64⟩) } }

/-- An operation on the one object is genuine as long as the object stands. -/
theorem oneObject_genuine {heap : Heap} (hTiles : heap.Tiles [(2, ⟨0, 1, .object, 1, 0⟩)]) {op : HeapOp}
    (hRefs : op.references = [2]) : ∀ objects, heap.Tiles objects → ∀ reference ∈ op.references,
      ∃ info, (reference, info) ∈ objects := by
  intro objects hOther reference hRef
  rw [hRefs, List.mem_singleton] at hRef
  rw [hRef, ← Tiling.functional hTiles hOther]
  exact ⟨_, List.mem_cons_self⟩

/-- A conditional write and then another value outright: the second survives. -/
theorem abort_restores_counter : ∃ allocated aborted statics,
    Heap.abortTransaction (runOps [.putWord 2 0 5, .putWordUnconditional 2 0 6] oneObjectBegun).statics
      (runOps [.putWord 2 0 5, .putWordUnconditional 2 0 6] oneObjectBegun).heap = .ok (allocated, statics) aborted ∧
    aborted.bytes 9 = 6 := by
  obtain ⟨allocated, aborted, statics, hAbort, hRestored⟩ := abort_restores oneObject_sound
    (show Heap.beginTransaction 64 oneObject.heap = .ok () oneObjectBegun.heap from rfl)
    (show Regular [.putWord 2 0 5, .putWordUnconditional 2 0 6] oneObjectBegun from
      ⟨⟨oneObject_genuine (.cons (by decide) (.nil 10)) rfl, fun write hWrite => (nomatch hWrite)⟩,
        ⟨oneObject_genuine (.cons (by decide) (.nil 10)) rfl, by decide⟩, trivial⟩)
  refine ⟨allocated, aborted, statics, hAbort, ?_⟩
  rw [hRestored.persistent 9 (by decide) (by decide)]
  decide

/-- A value that stands conditionally and is then written outright is lost. -/
theorem abort_loses_repeated_write : ∃ (memory : Memory) (objects : List (Nat × Info)) (ops : List HeapOp) (begun : Heap),
    memory.heap.Sound objects ∧ Heap.beginTransaction 64 memory.heap = .ok () begun ∧
    (∀ op ∈ ops, ∀ reference ∈ op.references, ∃ info, (reference, info) ∈ objects) ∧
    ¬∃ allocated aborted statics, Heap.abortTransaction (runOps ops { memory with heap := begun }).statics
        (runOps ops { memory with heap := begun }).heap = .ok (allocated, statics) aborted ∧
      Restored objects { memory with heap := begun } (runOps ops { memory with heap := begun })
        (expectedBytes ops { memory with heap := begun } begun.bytes) allocated aborted statics := by
  refine ⟨oneObject, [(2, ⟨0, 1, .object, 1, 0⟩)], [.putWord 2 0 5, .putWordUnconditional 2 0 5], oneObjectBegun.heap,
    oneObject_sound, rfl, ?_, ?_⟩
  · intro op hOp reference hRef
    refine ⟨⟨0, 1, .object, 1, 0⟩, ?_⟩
    rcases List.mem_cons.1 hOp with rfl | hOp
    · rw [List.mem_singleton.1 hRef]
      exact List.mem_cons_self
    · rw [List.mem_singleton.1 hOp] at hRef
      rw [List.mem_singleton.1 hRef]
      exact List.mem_cons_self
  · rintro ⟨allocated, aborted, statics, hAbort, hRestored⟩
    have hExpected := hRestored.persistent 9 (by decide) (by decide)
    have hZero : (match Heap.abortTransaction
        (runOps [.putWord 2 0 5, .putWordUnconditional 2 0 5] { oneObject with heap := oneObjectBegun.heap }).statics
        (runOps [.putWord 2 0 5, .putWordUnconditional 2 0 5] { oneObject with heap := oneObjectBegun.heap }).heap with
      | .ok _ heap => heap.bytes 9
      | .error _ _ => 1) = 0 := by decide
    rw [hAbort] at hZero
    rw [show aborted.bytes 9 = 0 from hZero] at hExpected
    exact absurd hExpected (by decide)

end Aborting

end MicroCard.Jcvm
