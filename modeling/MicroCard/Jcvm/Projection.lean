import MicroCard.Jcvm.HeapRuns
import MicroCard.Library.Codec

/-! The committed projection. What a checkpoint reads through the log while a transaction
runs is what an abort would leave. -/
namespace MicroCard.Jcvm

open Bytes CrashTriple Checks UndoLog

section Projecting

variable {at' count total : Nat} {memory : Nat → Byte} {statics : Bool}

/-- Projecting a window through the records gives the window of the restored memory. -/
theorem Undo.projectRecords_ok (hWindow : at' + count ≤ total) {records : List UndoRecord} (limit : Nat)
    (hWhole : ∀ image ∈ (⟨records, limit⟩ : Undo).images statics, (statics = true ∨ image.offset < total) →
      image.offset + image.before.length ≤ total) :
    Undo.projectRecords at' total statics records (range memory at' count) =
      .ok () (range (UndoLog.restore ((⟨records, limit⟩ : Undo).images statics) memory) at' count) := by
  induction records generalizing memory with
  | nil => rfl
  | cons record older ih =>
      rw [Undo.projectRecords]
      by_cases hKind : record.statics = statics
      · rw [Undo.images_cons_same _ _ _ _ hKind] at hWhole ⊢
        have hOlder := fun m => @ih m fun image hImage => hWhole image (List.mem_cons_of_mem _ hImage)
        rw [UndoLog.restore]
        by_cases hBelow : statics = true ∨ record.image.offset < total
        · have hFits := hWhole _ List.mem_cons_self hBelow
          rw [if_pos ⟨hKind, hBelow⟩]
          simp only [failIf, if_neg (Nat.not_lt.2 hFits), Bind.bind, EStateM.bind, pure, EStateM.pure, modify, modifyGet,
            MonadStateOf.modifyGet, EStateM.modifyGet, preserve_window]
          exact hOlder _
        · rw [if_neg (fun hBoth => hBelow hBoth.2)]
          change Undo.projectRecords at' total statics older (range memory at' count) = _
          rw [hOlder]
          congr 1
          apply range_congr
          intro i hi
          rw [restore_overwrite_outside]
          omega
      · rw [Undo.images_cons_other _ _ _ _ hKind] at hWhole ⊢
        rw [if_neg (fun hBoth => hKind hBoth.1)]
        exact ih hWhole

theorem Undo.projectRange_ok (undo : Undo) (hWindow : at' + count ≤ total)
    (hWhole : ∀ image ∈ undo.images statics, (statics = true ∨ image.offset < total) →
      image.offset + image.before.length ≤ total) :
    undo.projectRange at' total statics (range memory at' count) = .ok () (range (undo.restore statics memory) at' count) := by
  have hFits : ¬total < at' + (range memory at' count).length := by
    rw [length_range]
    omega
  unfold Undo.projectRange
  simp only [Bind.bind, EStateM.bind, get, getThe, MonadStateOf.get, EStateM.get, failIf, if_neg hFits, pure, EStateM.pure]
  exact Undo.projectRecords_ok hWindow undo.limit hWhole

/-- No saved span of the heap reaches over the end of the committed part. -/
def Heap.Whole (heap : Heap) : Prop :=
  ∀ start undo, heap.transaction = some (start, undo) → ∀ image ∈ undo.images false, image.offset < start →
    image.offset + image.before.length ≤ start

/-- A projection that succeeds found no such span. -/
theorem Undo.projectRecords_whole {records : List UndoRecord} (limit : Nat) {output output' : List Byte}
    (hRun : Undo.projectRecords at' total statics records output = .ok () output') :
    ∀ image ∈ (⟨records, limit⟩ : Undo).images statics, (statics = true ∨ image.offset < total) →
      image.offset + image.before.length ≤ total := by
  induction records generalizing output with
  | nil =>
      intro image hImage
      cases hImage
  | cons record older ih =>
      rw [Undo.projectRecords] at hRun
      by_cases hKind : record.statics = statics
      · rw [Undo.images_cons_same _ _ _ _ hKind]
        intro image hImage hBelow
        by_cases hTaken : statics = true ∨ record.image.offset < total
        · rw [if_pos ⟨hKind, hTaken⟩] at hRun
          by_cases hOver : total < record.image.offset + record.image.before.length
          · simp only [failIf, if_pos hOver, Bind.bind, EStateM.bind, throw, throwThe, MonadExceptOf.throw, EStateM.throw] at hRun
            cases hRun
          · simp only [failIf, if_neg hOver, Bind.bind, EStateM.bind, pure, EStateM.pure, modify, modifyGet,
              MonadStateOf.modifyGet, EStateM.modifyGet] at hRun
            rcases List.mem_cons.1 hImage with rfl | hOlder
            · exact Nat.le_of_not_lt hOver
            · exact ih hRun image hOlder hBelow
        · rw [if_neg (fun hBoth => hTaken hBoth.2)] at hRun
          rcases List.mem_cons.1 hImage with rfl | hOlder
          · exact absurd hBelow hTaken
          · exact ih hRun image hOlder hBelow
      · rw [Undo.images_cons_other _ _ _ _ hKind]
        rw [if_neg (fun hBoth => hKind hBoth.1)] at hRun
        exact ih hRun

theorem Heap.whole_of_projects {heap : Heap} {output output' : List Byte}
    (hRun : heap.projectHeapRange at' output = .ok () output') : heap.Whole := by
  intro start undo hTxn image hImage hBelow
  have hCommitted : heap.committedBytes = start := by
    unfold Heap.committedBytes
    rw [hTxn]
  simp only [Heap.projectHeapRange, Codec.bind_ok, Codec.capture_ok] at hRun
  obtain ⟨_, _, ⟨_, rfl, hProject⟩ | ⟨_, rfl, -⟩, hRest⟩ := hRun
  · simp only [hTxn, hCommitted, Codec.get_ok, Codec.failIf_ok, Codec.set_ok] at hProject
    obtain ⟨_, _, -, _, _, -, _, _, -, hRange⟩ := hProject
    simp only [Undo.projectRange, Codec.bind_ok] at hRange
    obtain ⟨_, _, -, _, _, -, hRecords⟩ := hRange
    exact Undo.projectRecords_whole undo.limit hRecords image hImage (.inr hBelow)
  · simp only [Codec.bind_ok, Codec.throw_ok, and_false, exists_false] at hRest

variable {heap : Heap} {window : List Byte}

/-- A window of the projection is a window of the committed contents. -/
theorem Heap.projectHeapRange_ok (hWhole : heap.Whole) (hFits : at' + window.length ≤ heap.committedBytes) :
    heap.projectHeapRange at' window = .ok () (range heap.committed at' window.length) := by
  unfold Heap.projectHeapRange
  simp only [Bind.bind, EStateM.bind, capture, get, getThe, MonadStateOf.get, EStateM.get, failIf,
    if_neg (Nat.not_lt.2 hFits), pure, EStateM.pure, set, MonadStateOf.set, EStateM.set]
  unfold Heap.committedBytes at hFits ⊢
  unfold Heap.committed
  cases hTxn : heap.transaction with
  | none => rfl
  | some txn =>
      obtain ⟨start, undo⟩ := txn
      rw [hTxn] at hFits
      have hLog : ∀ image ∈ undo.images false, (false = true ∨ image.offset < start) →
          image.offset + image.before.length ≤ start := by
        rintro image hImage (hNever | hBelow)
        · cases hNever
        · exact hWhole start undo hTxn image hImage hBelow
      simp only [undo.projectRange_ok hFits hLog]
      rfl

theorem Heap.projectHeap_ok (hWhole : heap.Whole) (hLength : window.length = heap.committedBytes) :
    heap.projectHeap window = .ok () (range heap.committed 0 heap.committedBytes) := by
  have hRange := @Heap.projectHeapRange_ok 0 heap window hWhole (by omega)
  unfold Heap.projectHeap
  simp only [Bind.bind, EStateM.bind, get, getThe, MonadStateOf.get, EStateM.get, hLength, ne_eq, not_true_eq_false, if_false]
  rw [hRange, hLength]

/-- Project one window after the other, and put what they hold together. -/
def Heap.projectWindows (heap : Heap) : Nat → List (List Byte) → Except Error (List Byte)
  | _, [] => .ok []
  | at', window :: rest =>
      match heap.projectHeapRange at' window with
      | .ok () bytes => (heap.projectWindows (at' + window.length) rest).map (bytes ++ ·)
      | .error e _ => .error e

theorem Heap.projectWindows_ok (hWhole : heap.Whole) {windows : List (List Byte)}
    (hFits : at' + (windows.map List.length).sum ≤ heap.committedBytes) :
    heap.projectWindows at' windows = .ok (range heap.committed at' (windows.map List.length).sum) := by
  induction windows generalizing at' with
  | nil => rfl
  | cons window rest ih =>
      rw [List.map_cons, List.sum_cons] at hFits ⊢
      rw [Heap.projectWindows, Heap.projectHeapRange_ok hWhole (by omega), ih (by omega), range_add]
      rfl

end Projecting

/-- Projecting the committed part of the heap, in one piece or in windows, and the statics
gives what an abort would leave, up to the payloads of transient arrays. -/
def ProjectsAbort (memory : Memory) : Prop :=
  ∃ objects whole allocated aborted statics, memory.heap.Tiles objects ∧
    (∀ buffer, buffer.length = memory.heap.committedBytes → memory.heap.projectHeap buffer = .ok () whole) ∧
    (∀ windows, (windows.map List.length).sum = memory.heap.committedBytes →
      memory.heap.projectWindows 0 windows = .ok whole) ∧
    Heap.abortTransaction memory.statics memory.heap = .ok (allocated, statics) aborted ∧
    aborted.next = memory.heap.committedBytes ∧
    (∀ i < memory.heap.committedBytes, Persistent objects i → whole[i]? = some (aborted.bytes i)) ∧
    memory.heap.projectStatics (range memory.statics 0 memory.staticBytes) = .ok () (range statics 0 memory.staticBytes)

section Agreement

variable {memory : Memory}

/-- What was saved of the heap lies in objects from before the transaction. -/
theorem Held.whole {start : Nat} {old : List (Nat × Info)} {expected initial : Nat → Byte} {laid : Laid}
    (h : Held start old expected initial laid) (hEnds : ∀ o ∈ old, o.2.stop o.1 ≤ start) : laid.1.Whole := by
  intro first undo hTxn image hImage hBelow
  obtain ⟨log, hLog, hImages, -⟩ := h.log
  rw [hLog] at hTxn
  injection hTxn with hTxn
  injection hTxn with hFirst hUndo
  subst hFirst hUndo
  obtain ⟨o, ho, -, hHolds⟩ := hImages image hImage
  by_cases hEmpty : image.before.length = 0
  · omega
  · have hLast := hHolds (image.offset + image.before.length - 1) ⟨by omega, by omega⟩
    have hHigh := hLast.2
    have hStop := o.2.stop_ge o.1
    have hEnd := hEnds o ho
    omega

/-- Every orderly memory in a transaction projects what an abort would leave. -/
theorem Orderly.projects (h : Orderly memory) (hOpen : memory.heap.transaction.isSome = true) : ProjectsAbort memory := by
  obtain ⟨⟨start, undo⟩, hTxn⟩ := Option.isSome_iff_exists.1 hOpen
  obtain ⟨old, expected, initial, fields, hRunning, hStart, hSaved⟩ := h.running start undo hTxn
  obtain ⟨objects, hHeld⟩ := hRunning.held
  obtain ⟨log, hLog, hImages, hRestore⟩ := hHeld.log
  have hUndo : log = undo := by
    simp only at hLog
    rw [hTxn] at hLog
    injection hLog with hLog
    injection hLog with _ hUndo
    exact hUndo.symm
  subst hUndo
  have hEnds : ∀ o ∈ old, o.2.stop o.1 ≤ start := fun o ho => (Tiling.mem (hHeld.old_tiles hStart) ho).2.2
  have hWhole : memory.heap.Whole := hHeld.whole hEnds
  let begun : Memory := { memory with heap := { memory.heap with bytes := initial, next := start }, statics := fields }
  have hBegun : InTransaction begun.heap.next old expected begun.heap.bytes begun.statics memory := hRunning
  obtain ⟨allocated, aborted, statics, hAbort, hRestored⟩ := hBegun.abort hEnds
  have hCommitted : memory.heap.committedBytes = start := by
    unfold Heap.committedBytes
    rw [hTxn]
  have hBytes : memory.heap.committed = log.restore false memory.heap.bytes := by
    unfold Heap.committed
    rw [hTxn]
  refine ⟨objects, range memory.heap.committed 0 memory.heap.committedBytes, allocated, aborted, statics, hHeld.sound.tiles,
    ?_, ?_, hAbort, ?_, ?_, ?_⟩
  · exact fun buffer hLength => Heap.projectHeap_ok hWhole hLength
  · intro windows hCut
    rw [Heap.projectWindows_ok hWhole (by omega), hCut]
  · rw [hCommitted]
    exact hRestored.next
  · intro i hBelow hPersistent
    have hMine : Persistent old i := by
      intro o ho
      obtain ⟨new, hObjects, -⟩ := hHeld.objects
      simp only at hObjects
      exact hPersistent o (hObjects ▸ List.mem_append_left _ ho)
    rw [List.getElem?_eq_getElem (by simpa using hBelow), getElem_range, Nat.zero_add, hBytes]
    rw [hCommitted] at hBelow
    rw [hRestored.persistent i hBelow hMine, ← hRestore i hBelow hMine]
  · have hFields : statics = log.restore true memory.statics := hRestored.statics.trans (hRunning.statics log hTxn).symm
    unfold Heap.projectStatics Undo.project
    rw [hTxn]
    simp only [Bind.bind, EStateM.bind, get, getThe, MonadStateOf.get, EStateM.get, length_range]
    rw [log.projectRange_ok (by omega) fun image hImage _ => hSaved image hImage, hFields]

/-- In every run from a new heap in which accepted references name objects, a memory
inside a transaction projects what an abort would leave, however it is cut. -/
theorem projection_equals_abort {origin : Memory} {bytes : Nat → Byte} {size : Nat} {events : List HeapEvent}
    (hNew : Heap.new bytes size = .ok origin.heap) (hNamed : NamedRun events origin)
    (hOpen : (runEvents events origin).heap.transaction.isSome = true) : ProjectsAbort (runEvents events origin) :=
  ((Orderly.opened hNew).run hNamed).projects hOpen

/-- A field is written in a transaction. -/
theorem projection_equals_abort_written : ProjectsAbort (runEvents
    [.call (.operation (.newObject 0 2 1)), .call (.beginTransaction 64), .call (.operation (.putWord 2 0 5))] newSlab) := by
  apply @projection_equals_abort newSlab (fun _ => 0) 64 _ rfl
  · refine ⟨HeapEvent.named_of_none rfl, HeapEvent.named_of_none rfl, ?_, trivial⟩
    exact HeapEvent.named_of_one (show Heap.Tiles _ [(2, ⟨0, 2, .object, 1, 0⟩)] from .cons (by decide) (.nil 12)) rfl
  · decide

/-- The payload of an array is given the bytes of a header, and a write through a
reference to them inside a transaction saves a span over the place where it began. -/
def straddlingWrite : List HeapEvent :=
  [.call (.operation (.newArray .byte 16 1)), .call (.operation (.writeBytes 2 8 [0, 0, 0, 20, 3, 1])),
    .call (.beginTransaction 64), .call (.operation (.newArray .byte 16 1)),
    .call (.operation (.writeBytes 16 0 (List.replicate 20 7)))]

theorem straddling_write_is_not_projected : ∃ (origin : Memory) (bytes : Nat → Byte) (size : Nat) (events : List HeapEvent),
    Heap.new bytes size = .ok origin.heap ∧ (runEvents events origin).heap.transaction.isSome = true ∧
      ¬ProjectsAbort (runEvents events origin) := by
  refine ⟨newSlab, fun _ => 0, 64, straddlingWrite, rfl, by decide, ?_⟩
  rintro ⟨objects, whole, allocated, aborted, statics, -, hWhole, -⟩
  have hProject := hWhole (List.replicate 24 0) (by decide)
  have hRefused : ∃ window, (runEvents straddlingWrite newSlab).heap.projectHeap (List.replicate 24 0) =
      .error .bounds window := ⟨_, rfl⟩
  obtain ⟨window, hRefused⟩ := hRefused
  rw [hRefused] at hProject
  cases hProject

end Agreement

end MicroCard.Jcvm
