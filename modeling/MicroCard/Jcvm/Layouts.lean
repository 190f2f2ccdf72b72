import MicroCard.Jcvm.Effects
import MicroCard.Jcvm.Instance
import MicroCard.Library.Codec

/-! What laying out a new instance takes. Where each object ends is known beforehand, so a
slab is either too short for all of them or its size makes no difference. -/
namespace MicroCard.Jcvm

open Bytes CrashTriple Codec

/-- The same heap in a slab of another size. -/
def Heap.resized (heap : Heap) (size : Nat) : Heap := { heap with size := size }

/-- A heap filled by its objects, between transactions. -/
structure Heap.Filled (heap : Heap) (objects : List (Nat × Info)) : Prop where
  tiles : Tiling heap.bytes heap.next heap.next 2 heap.next objects
  idle : heap.transaction = none
  allocates : heap.abortedAllocations = false

/-- A slab that holds a heap, in places a reference can name. -/
def Heap.FitsIn (heap : Heap) (size : Nat) : Prop := heap.next ≤ min size 65535

section Lays

variable {α β : Type} {program : HeapM α} {heap middle after : Heap} {objects : List (Nat × Info)} {a : α} {b : β}

/-- In every slab that holds its result the program returns that result, and in no other
slab does it return. -/
structure Lays (program : HeapM α) (heap : Heap) (a : α) (after : Heap) : Prop where
  grows : heap.next ≤ after.next
  returns : ∀ size, after.FitsIn size → program (heap.resized size) = .ok a (after.resized size)
  needs : ∀ size, heap.FitsIn size → ∀ b h, program (heap.resized size) = .ok b h → after.FitsIn size

theorem Lays.ret (a : α) (heap : Heap) : Lays (pure a) heap a heap :=
  ⟨Nat.le_refl _, fun _ _ => rfl, fun _ h _ _ _ => h⟩

/-- A program that allocates nothing returns in every slab that holds the heap. -/
theorem Lays.steady (hNext : after.next = heap.next)
    (h : ∀ size, heap.next ≤ size → program (heap.resized size) = .ok a (after.resized size)) :
    Lays program heap a after where
  grows := hNext.ge
  returns := by
    intro size hSize
    unfold Heap.FitsIn at hSize
    exact h size (by omega)
  needs := by
    intro size hSize _ _ _
    unfold Heap.FitsIn at hSize ⊢
    omega

theorem Lays.bind {f : α → HeapM β} (h : Lays program heap a middle) (hNext : Lays (f a) middle b after) :
    Lays (program >>= f) heap b after where
  grows := h.grows.trans hNext.grows
  returns := by
    intro size hSize
    have hGrows := hNext.grows
    have hMiddle : middle.FitsIn size := by
      unfold Heap.FitsIn at hSize ⊢
      omega
    rw [bind_ok]
    exact ⟨a, _, h.returns size hMiddle, hNext.returns size hSize⟩
  needs := by
    intro size hSize c last hRun
    obtain ⟨d, reached, hFirst, hRest⟩ := bind_ok.1 hRun
    have hMiddle := h.needs size hSize d reached hFirst
    have hSame := (h.returns size hMiddle).symm.trans hFirst
    injection hSame with hValue hState
    rw [← hValue, ← hState] at hRest
    exact hNext.needs size hMiddle c last hRest

/-- Only slabs that hold the heap matter. -/
theorem Lays.congr {other : HeapM α}
    (hSame : ∀ size, heap.FitsIn size → other (heap.resized size) = program (heap.resized size))
    (h : Lays program heap a after) : Lays other heap a after where
  grows := h.grows
  returns := by
    intro size hSize
    have hGrows := h.grows
    have hHeap : heap.FitsIn size := by
      unfold Heap.FitsIn at hSize ⊢
      omega
    rw [hSame size hHeap]
    exact h.returns size hSize
  needs := by
    intro size hSize b last hRun
    rw [hSame size hSize] at hRun
    exact h.needs size hSize b last hRun

theorem Lays.readOnly {result : Except Error α} {f : α → HeapM β} (hResult : result = .ok a)
    (h : Lays (f a) heap b after) : Lays (readOnly result >>= f) heap b after := by
  rw [hResult]
  exact (Lays.ret a heap).bind h

theorem Lays.orFail {o : Option α} {e : Error} {f : α → HeapM β} (hSome : o = some a) (h : Lays (f a) heap b after) :
    Lays (orFail o e >>= f) heap b after := by
  rw [hSome]
  exact (Lays.ret a heap).bind h

theorem Lays.failIf {c : Prop} [Decidable c] {e : Error} {f : Unit → HeapM β} (hNot : ¬c) (h : Lays (f ()) heap b after) :
    Lays (failIf c e >>= f) heap b after := by
  rw [CrashTriple.failIf, if_neg hNot]
  exact (Lays.ret () heap).bind h

/-- A loop whose every round leaves the heap as large as it was. -/
theorem Lays.forM {γ : Type} {items : List γ} {f : γ → HeapM Unit}
    (hStep : ∀ item ∈ items, ∀ heap : Heap, heap.Filled objects →
      ∃ after, Lays (f item) heap () after ∧ after.Filled objects ∧ after.next = heap.next)
    (hFilled : heap.Filled objects) :
    ∃ after, Lays (items.forM f) heap () after ∧ after.Filled objects ∧ after.next = heap.next := by
  induction items generalizing heap with
  | nil => exact ⟨heap, .ret () heap, hFilled, rfl⟩
  | cons item items ih =>
      obtain ⟨middle, hFirst, hMiddle, hSame⟩ := hStep item List.mem_cons_self heap hFilled
      obtain ⟨after, hRest, hAfter, hLast⟩ := ih (fun x hx => hStep x (List.mem_cons_of_mem _ hx)) hMiddle
      exact ⟨after, hFirst.bind hRest, hAfter, hLast.trans hSame⟩

end Lays

section Primitives

variable {heap : Heap} {objects : List (Nat × Info)} {info : Info} {reference index at' : Nat} {value : List Byte}

theorem Heap.Filled.even (h : heap.Filled objects) : heap.next % 2 = 0 := Tiling.stop_even h.tiles (by omega)

theorem Heap.Filled.reads (h : heap.Filled objects) (hMem : (reference, info) ∈ objects) {size : Nat}
    (hSize : heap.next ≤ size) : (heap.resized size).info reference = .ok info :=
  Info.read_resize (Tiling.mem h.tiles hMem).1 hSize

/-- An allocation needs its object to end within the slab. -/
theorem allocate_lays (hFilled : heap.Filled objects) (hFresh : info.Fresh) :
    Lays (Heap.allocate info) heap heap.next (heap.allocated info (info.stop heap.next)) ∧
      (heap.allocated info (info.stop heap.next)).Filled (objects ++ [(heap.next, info)]) := by
  have hEven := hFilled.even
  have hGe := info.stop_ge heap.next
  have hStop : heap.next + (headerBytes + info.length * info.kind.elementSize + 1) / 2 * 2 = info.stop heap.next := by
    rw [Info.stop, Info.payload]
    omega
  refine ⟨⟨by show heap.next ≤ info.stop heap.next; omega, ?_, ?_⟩, ⟨?_, hFilled.idle, hFilled.allocates⟩⟩
  · intro size hSize
    have hFits : ¬min size 65535 < info.stop heap.next := Nat.not_lt.2 hSize
    have hRange : (heap.resized size).allocationRange heap.next info.kind info.length = .ok (info.stop heap.next) := by
      simp only [Heap.allocationRange, Checks.bind_ok, Checks.failIf_ok, Checks.pure_ok]
      rw [hStop]
      exact ⟨(), by omega, (), hFits, rfl⟩
    simp only [Heap.allocate, bind_ok, get_ok, failIf_ok, readOnly_ok, set_ok, pure_ok]
    have hAllocates : ¬(heap.resized size).abortedAllocations = true := by
      show ¬heap.abortedAllocations = true
      rw [hFilled.allocates]
      exact Bool.false_ne_true
    exact ⟨_, _, ⟨rfl, rfl⟩, (), _, ⟨hAllocates, rfl⟩, _, _, ⟨hRange, rfl⟩, ⟨⟩, _, rfl, rfl, rfl⟩
  · intro size _ b h hRun
    simp only [Heap.allocate, bind_ok, get_ok, failIf_ok, readOnly_ok] at hRun
    obtain ⟨_, _, ⟨rfl, rfl⟩, _, _, ⟨-, rfl⟩, stop, _, ⟨hRange, -⟩, -⟩ := hRun
    simp only [Heap.allocationRange, Checks.bind_ok, Checks.failIf_ok, Checks.pure_ok] at hRange
    obtain ⟨_, -, _, hFits, rfl⟩ := hRange
    rw [← hStop] at *
    exact Nat.le_of_not_lt hFits
  · exact Tiling.allocated hFilled.tiles hFresh rfl (by show heap.next ≤ info.stop heap.next; omega) (Nat.le_refl _)

/-- A write to a payload leaves the objects where they are. -/
theorem putChanged_lays (hFilled : heap.Filled objects) (hSpans : Spans objects at' value.length info) :
    ∃ after, Lays (Heap.putChanged at' value info) heap () after ∧ after.Filled objects ∧ after.next = heap.next := by
  obtain ⟨bytes, slab, next, transaction, aborted, writes⟩ := heap
  obtain rfl : transaction = none := hFilled.idle
  let heap : Heap := ⟨bytes, slab, next, none, aborted, writes⟩
  by_cases hSame : range bytes at' value.length = value
  · refine ⟨heap, Lays.steady rfl fun size _ => ?_, hFilled, rfl⟩
    simp only [Heap.putChanged, bind_ok, get_ok]
    refine ⟨_, _, ⟨rfl, rfl⟩, ?_⟩
    rw [if_pos (show range (heap.resized size).bytes at' value.length = value from hSame)]
    rfl
  · let written : Heap := { heap with
      pendingWrites := if info.clearEvent ≠ 0 then heap.pendingWrites else heap.pendingWrites.write at' value.length
      bytes := overwrite heap.bytes at' value }
    have hTiles : (heap.resized heap.next).Tiles objects := hFilled.tiles
    refine ⟨written, Lays.steady rfl fun size _ => ?_, ⟨hTiles.overwrite_payload hSpans, hFilled.idle,
      hFilled.allocates⟩, rfl⟩
    simp only [Heap.putChanged, bind_ok, get_ok]
    refine ⟨_, _, ⟨rfl, rfl⟩, ?_⟩
    rw [if_neg (show ¬range (heap.resized size).bytes at' value.length = value from hSame)]
    simp only [Heap.putConditional, Heap.remember, bind_ok, get_ok]
    by_cases hTransient : info.clearEvent ≠ 0
    · refine ⟨(), heap.resized size, ⟨_, _, ⟨rfl, rfl⟩, ?_⟩, ?_⟩
      · rw [if_pos hTransient]
        rfl
      · simp only [written, if_pos hTransient]
        rfl
    · refine ⟨(), { heap.resized size with pendingWrites := heap.pendingWrites.write at' value.length },
        ⟨_, _, ⟨rfl, rfl⟩, ?_⟩, ?_⟩
      · rw [if_neg hTransient]
        rfl
      · simp only [written, if_neg hTransient]
        rfl

/-- An element of an array can be put. -/
theorem slot_resized (hFilled : heap.Filled objects) (hMem : (reference, info) ∈ objects) (hArray : info.isArray = true)
    (hIndex : index < info.length) {size : Nat} (hSize : heap.next ≤ size) :
    (heap.resized size).slot reference index true =
      .ok (reference + headerBytes + index * info.kind.elementSize, info) := by
  simp only [Heap.slot, Checks.bind_ok, Checks.failIf_ok, Checks.pure_ok]
  exact ⟨info, hFilled.reads hMem hSize, (), not_not.2 hArray, (), Nat.not_le.2 hIndex, rfl⟩

/-- Where an element of an object lies. -/
theorem element_spans (hMem : (reference, info) ∈ objects) (hIndex : index < info.length)
    (hWidth : value.length = info.kind.elementSize) :
    Spans objects (reference + headerBytes + index * info.kind.elementSize) value.length info := by
  have hEnd : (index + 1) * info.kind.elementSize ≤ info.payload := Nat.mul_le_mul_right _ hIndex
  rw [Nat.add_mul, Nat.one_mul] at hEnd
  exact ⟨(reference, info), hMem, rfl, by simp only; omega, by simp only; omega⟩

theorem arrayPut_lays (hFilled : heap.Filled objects) (hMem : (reference, info) ∈ objects) (hArray : info.isArray = true)
    (hIndex : index < info.length) (hKind : ¬(info.kind = .int ∨ info.kind = .reference)) (word : Nat) :
    ∃ after, Lays (Heap.arrayPut reference index word) heap () after ∧ after.Filled objects ∧ after.next = heap.next := by
  have hWidth := Heap.length_elementBytes (fun hInt => hKind (.inl hInt)) word
  obtain ⟨after, hLays, hAfter, hNext⟩ := putChanged_lays hFilled (element_spans hMem hIndex hWidth)
  refine ⟨after, Lays.congr (fun size hSize => ?_) hLays, hAfter, hNext⟩
  have hSlot := slot_resized hFilled hMem hArray hIndex (show heap.next ≤ size by unfold Heap.FitsIn at hSize; omega)
  simp only [Heap.arrayPut, Bind.bind, EStateM.bind, get, getThe, MonadStateOf.get, EStateM.get, CrashTriple.readOnly,
    hSlot, failIf, if_neg hKind, pure, EStateM.pure]

theorem arrayPutInt_lays (hFilled : heap.Filled objects) (hMem : (reference, info) ∈ objects) (hArray : info.isArray = true)
    (hIndex : index < info.length) (hKind : info.kind = .int) (word : Nat) :
    ∃ after, Lays (Heap.arrayPutInt reference index word) heap () after ∧ after.Filled objects ∧
      after.next = heap.next := by
  have hWidth : (Heap.longBytes word).length = info.kind.elementSize := by
    rw [hKind]
    rfl
  obtain ⟨after, hLays, hAfter, hNext⟩ := putChanged_lays hFilled (element_spans hMem hIndex hWidth)
  refine ⟨after, Lays.congr (fun size hSize => ?_) hLays, hAfter, hNext⟩
  have hSlot := slot_resized hFilled hMem hArray hIndex (show heap.next ≤ size by unfold Heap.FitsIn at hSize; omega)
  simp only [Heap.arrayPutInt, Bind.bind, EStateM.bind, get, getThe, MonadStateOf.get, EStateM.get,
    CrashTriple.readOnly, hSlot, failIf, if_neg (not_not.2 hKind), pure, EStateM.pure]

end Primitives

section StaticArrays

variable {file : LoadFile} {heap : Heap} {objects : List (Nat × Info)} {info : Info} {reference : Nat}
  {array : ArrayInit} {kind : Kind}

/-- The kinds of static arrays have the width of their elements. -/
theorem initKind_ok (h : initKind file array = .ok kind) :
    kind ≠ .object ∧ kind ≠ .reference ∧ kind.elementSize = array.elementSize ∧
      array.elementSize = (if kind = .int then 4 else if kind = .short then 2 else 1) := by
  unfold initKind at h
  unfold ArrayInit.elementSize
  by_cases hBoolean : array.elementType = 2
  · rw [if_pos hBoolean] at h
    injection h with h
    simp [← h, hBoolean, Kind.elementSize]
  rw [if_neg hBoolean] at h
  by_cases hByte : array.elementType = 3
  · rw [if_pos hByte] at h
    injection h with h
    simp [← h, hByte, Kind.elementSize]
  rw [if_neg hByte] at h
  by_cases hShort : array.elementType = 4
  · rw [if_pos hShort] at h
    injection h with h
    simp [← h, hShort, Kind.elementSize]
  rw [if_neg hShort] at h
  by_cases hInt : array.elementType = 5
  · rw [if_pos hInt, Checks.bind_ok] at h
    obtain ⟨header, -, h⟩ := h
    split at h
    · rw [Checks.pure_ok] at h
      simp [← h, hInt, Kind.elementSize]
    · cases h
  · rw [if_neg hInt] at h
    cases h

theorem chunks_zipIdx {size count : Nat} {bytes : List Byte} (h : bytes.length = count * size) (start : Nat) :
    ∀ element ∈ (chunks size count bytes).zipIdx start, element.2 < start + count ∧ element.1.length = size := by
  induction count generalizing bytes start with
  | zero =>
      intro element hMem
      cases hMem
  | succ count ih =>
      rw [Nat.add_mul, Nat.one_mul] at h
      intro element hMem
      rcases List.mem_cons.1 hMem with rfl | hLater
      · simp only [List.length_take]
        omega
      · have hRest : (bytes.drop size).length = count * size := by
          rw [List.length_drop]
          omega
        have hElement := ih hRest (start + 1) element hLater
        omega

theorem fillElement_lays (hFilled : heap.Filled objects) (hMem : (reference, info) ∈ objects)
    (hKind : initKind file array = .ok info.kind) {element : List Byte × Nat} (hIndex : element.2 < info.length)
    (hWidth : element.1.length = array.elementSize) :
    ∃ after, Lays (fillElement info.kind reference element) heap () after ∧ after.Filled objects ∧
      after.next = heap.next := by
  obtain ⟨hObject, hReference, -, hSize⟩ := initKind_ok hKind
  have hArray : info.isArray = true := decide_eq_true hObject
  have hValue : ∃ value, elementValue element.1 = .ok value := by
    obtain ⟨bytes, index⟩ := element
    simp only at hWidth
    rw [hSize] at hWidth
    split at hWidth
    · obtain ⟨a, b, c, d, rfl⟩ := List.length_eq_four.1 hWidth
      exact ⟨_, rfl⟩
    split at hWidth
    · obtain ⟨a, b, rfl⟩ := List.length_eq_two.1 hWidth
      exact ⟨_, rfl⟩
    · obtain ⟨a, rfl⟩ := List.length_eq_one_iff.1 hWidth
      exact ⟨_, rfl⟩
  obtain ⟨value, hValue⟩ := hValue
  by_cases hInt : info.kind = .int
  · obtain ⟨after, hLays, hAfter⟩ := arrayPutInt_lays hFilled hMem hArray hIndex hInt value
    refine ⟨after, Lays.readOnly hValue ?_, hAfter⟩
    rwa [if_pos hInt]
  · obtain ⟨after, hLays, hAfter⟩ := arrayPut_lays hFilled hMem hArray hIndex (not_or.2 ⟨hInt, hReference⟩) value
    refine ⟨after, Lays.readOnly hValue ?_, hAfter⟩
    rwa [if_neg hInt]

/-- What an accepted component promises of its arrays. -/
def ArrayInit.Whole (array : ArrayInit) : Prop :=
  array.values.length = array.length * array.elementSize ∧ array.length ≤ 32767

theorem StaticField.parse_whole {info : List Byte} {statics : StaticField} (h : StaticField.parse info = .ok statics) :
    ∀ array ∈ statics.arrayInits, array.Whole := by
  simp only [StaticField.parse, Checks.bind_ok, Checks.failIf_ok, Checks.pure_ok] at h
  obtain ⟨_, -, ⟨arrayInits, rest⟩, -, _, -, _, -, _, -, _, -, _, hArrays, rfl⟩ := h
  intro array hMem
  have hArray : ¬(array.values.length % array.elementSize ≠ 0 ∨ 32767 < array.length ∨
      array.elementType = 2 ∧ array.values.any (1 < ·) = true) := by
    intro hBad
    exact hArrays (List.any_eq_true.2 ⟨array, hMem, decide_eq_true hBad⟩)
  rw [not_or, not_or, not_not, not_lt] at hArray
  have hDivides := Nat.div_add_mod array.values.length array.elementSize
  rw [hArray.1, Nat.add_zero, Nat.mul_comm] at hDivides
  exact ⟨hDivides.symm, hArray.2.1⟩

/-- Bytes of a static array with its header. -/
def ArrayInit.bytes (array : ArrayInit) : Nat := (headerBytes + array.values.length + 1) / 2 * 2

theorem newStaticArray_lays (hFilled : heap.Filled objects) (hWhole : array.Whole) (hKind : initKind file array = .ok kind) :
    ∃ after more, Lays (newStaticArray file appletContext array) heap heap.next after ∧ after.Filled more ∧
      after.next = heap.next + array.bytes := by
  obtain ⟨hObject, hReference, hSize, -⟩ := initKind_ok hKind
  let info : Info := ⟨0, array.length, kind, appletContext, 0⟩
  have hClass : Heap.arrayClass kind = 0 := if_neg hReference
  have hLength : array.length < 65536 := by
    have hLe := hWhole.2
    omega
  have hFresh : info.Fresh := ⟨Nat.zero_lt_succ _, hLength, show 1 < 256 by decide, Nat.zero_le _, fun _ => rfl,
    fun _ _ => rfl⟩
  obtain ⟨hAllocate, hMade⟩ := allocate_lays hFilled hFresh
  have hMem : (heap.next, info) ∈ objects ++ [(heap.next, info)] := List.mem_append_right _ List.mem_cons_self
  have hPayload : info.payload = array.values.length := by
    rw [hWhole.1, ← hSize]
    rfl
  have hElements : ∀ element ∈ (chunks array.elementSize array.length array.values).zipIdx, ∀ other : Heap,
      other.Filled (objects ++ [(heap.next, info)]) → ∃ after, Lays (fillElement kind heap.next element) other () after ∧
        after.Filled (objects ++ [(heap.next, info)]) ∧ after.next = other.next := by
    intro element hElement other hOther
    have hBounds := chunks_zipIdx hWhole.1 0 element hElement
    rw [Nat.zero_add] at hBounds
    exact fillElement_lays hOther hMem hKind hBounds.1 hBounds.2
  obtain ⟨after, hFill, hAfter, hNext⟩ := Lays.forM hElements hMade
  have hEnd : info.stop heap.next = heap.next + array.bytes := by
    have hEven := hFilled.even
    rw [Info.stop, hPayload, ArrayInit.bytes]
    omega
  refine ⟨after, _, ?_, hAfter, hNext.trans hEnd⟩
  apply Lays.readOnly hKind
  have hArray : Lays (Heap.newArray kind array.length appletContext) heap heap.next
      (heap.allocated info (info.stop heap.next)) := by
    apply Lays.failIf hObject
    rw [hClass]
    exact hAllocate
  exact hArray.bind (hFill.bind (.ret _ _))

/-- All static arrays, one behind the other. -/
theorem newStaticArrays_lays {arrays : List ArrayInit} (hFilled : heap.Filled objects)
    (hWhole : ∀ array ∈ arrays, array.Whole) (hKinds : ∀ array ∈ arrays, ∃ kind, initKind file array = .ok kind) :
    ∃ references after, Lays (newStaticArrays file appletContext arrays) heap references after ∧
      after.next = heap.next + (arrays.map ArrayInit.bytes).sum := by
  induction arrays generalizing heap objects with
  | nil => exact ⟨[], heap, .ret [] heap, rfl⟩
  | cons array arrays ih =>
      obtain ⟨kind, hKind⟩ := hKinds array List.mem_cons_self
      obtain ⟨middle, more, hFirst, hMiddle, hNext⟩ := newStaticArray_lays hFilled (hWhole array List.mem_cons_self) hKind
      obtain ⟨references, after, hRest, hLast⟩ := ih hMiddle (fun a ha => hWhole a (List.mem_cons_of_mem _ ha))
        fun a ha => hKinds a (List.mem_cons_of_mem _ ha)
      refine ⟨heap.next :: references, after, hFirst.bind (hRest.bind (.ret _ _)), ?_⟩
      rw [List.map_cons, List.sum_cons, hLast, hNext, Nat.add_assoc]

/-- Arrays that were laid out are of kinds the package may use. -/
theorem newStaticArrays_kinds {arrays : List ArrayInit} {references : List Nat} {start after : Heap}
    (h : newStaticArrays file appletContext arrays start = .ok references after) :
    ∀ array ∈ arrays, ∃ kind, initKind file array = .ok kind := by
  induction arrays generalizing references start after with
  | nil =>
      intro array hMem
      cases hMem
  | cons array arrays ih =>
      simp only [newStaticArrays, newStaticArray, bind_ok, readOnly_ok] at h
      obtain ⟨_, _, ⟨kind, _, ⟨hKind, -⟩, -⟩, _, _, hRest, -⟩ := h
      intro other hMem
      rcases List.mem_cons.1 hMem with rfl | hLater
      · exact ⟨kind, hKind⟩
      · exact ih hRest other hLater

end StaticArrays

section RuntimeObjects

variable {heap : Heap} {objects todo : List (Nat × Info)} {native at' fuel : Nat}

/-- No exception of a class is found where no object is of that class. -/
theorem findException_none (hTiles : Tiling heap.bytes heap.next heap.next at' heap.next todo)
    (hNone : ∀ o ∈ todo, o.2.cls ≠ native) (hFuel : heap.next < at' + fuel) {size : Nat} (hSize : heap.next ≤ size) :
    findException native appletContext fuel at' (heap.resized size) = .ok none (heap.resized size) := by
  induction todo generalizing at' fuel with
  | nil =>
      have hEnd := hTiles.nil_eq
      cases fuel with
      | zero => omega
      | succ fuel =>
          simp only [findException, bind_ok, get_ok]
          refine ⟨_, _, ⟨rfl, rfl⟩, ?_⟩
          rw [if_neg (show ¬at' < (heap.resized size).next by show ¬at' < heap.next; omega)]
          rfl
  | cons o todo ih =>
      obtain ⟨hHere, hRead, hTail⟩ := hTiles.uncons
      have hStop := o.2.stop_ge at'
      have hLe := hTail.le
      have hHeader : 0 < headerBytes := by decide
      cases fuel with
      | zero => omega
      | succ fuel =>
          have hRest := ih hTail (fun p hp => hNone p (List.mem_cons_of_mem _ hp)) (by omega : heap.next < _ + fuel)
          have hInfo : (heap.resized size).info at' = .ok o.2 := Info.read_resize hRead hSize
          simp only [findException, bind_ok, get_ok]
          refine ⟨_, _, ⟨rfl, rfl⟩, ?_⟩
          rw [if_pos (show at' < (heap.resized size).next by show at' < heap.next; omega), bind_ok]
          refine ⟨o.2, _, readOnly_ok.2 ⟨hInfo, rfl⟩, ?_⟩
          rw [if_neg fun hFound => hNone o List.mem_cons_self hFound.1]
          exact hRest

/-- The object that a runtime exception is. -/
def exceptionInfo (native : Nat) : Info := ⟨native, 1, .object, appletContext, 0⟩

/-- An object of one word takes eight bytes. -/
theorem object_stop (hEven : heap.next % 2 = 0) (cls owner : Nat) :
    Info.stop ⟨cls, 1, .object, owner, 0⟩ heap.next = heap.next + (headerBytes + 2) := by
  show (heap.next + headerBytes + 2 + 1) / 2 * 2 = _
  rw [show headerBytes = 6 from rfl]
  omega

theorem newObject_lays (hFilled : heap.Filled objects) {cls : Nat} (hClass : cls < 65536) :
    ∃ after, Lays (Heap.newObject cls 1 appletContext) heap heap.next after ∧
      after.Filled (objects ++ [(heap.next, exceptionInfo cls)]) ∧ after.next = heap.next + (headerBytes + 2) := by
  have hFresh : (exceptionInfo cls).Fresh :=
    ⟨hClass, show 1 < 65536 by decide, show 1 < 256 by decide, Nat.zero_le _, fun _ => rfl, fun h => absurd rfl h⟩
  obtain ⟨hLays, hAfter⟩ := allocate_lays hFilled hFresh
  exact ⟨_, hLays, hAfter, object_stop hFilled.even cls appletContext⟩

theorem newException_lays (hFilled : heap.Filled objects) {id : ClassId} (hWord : classWord id = some native)
    (hClass : native < 65536) (hNone : ∀ o ∈ objects, o.2.cls ≠ native) :
    ∃ after, Lays (newException id appletContext) heap heap.next after ∧
      after.Filled (objects ++ [(heap.next, exceptionInfo native)]) ∧ after.next = heap.next + (headerBytes + 2) := by
  obtain ⟨after, hLays, hAfter⟩ := newObject_lays hFilled hClass
  refine ⟨after, Lays.orFail hWord (Lays.congr (fun size hSize => ?_) hLays), hAfter⟩
  unfold Heap.FitsIn at hSize
  have hFind := findException_none hFilled.tiles hNone (by omega : heap.next < 2 + (heap.next + 1))
    (show heap.next ≤ size by omega)
  show (findException native appletContext (heap.next + 1) 2 >>= _) (heap.resized size) = _
  simp only [Bind.bind, EStateM.bind, hFind]

/-- Exceptions of distinct classes are all made anew. -/
theorem newExceptions_lays {ids : List ClassId} (hFilled : heap.Filled objects)
    (hWords : ∀ id ∈ ids, ∃ native, classWord id = some native ∧ native < 65536)
    (hDistinct : (ids.map classWord).Nodup) (hNone : ∀ id ∈ ids, ∀ o ∈ objects, classWord id ≠ some o.2.cls) :
    ∃ after more, Lays (ids.forM fun id => do let _ ← newException id appletContext) heap () after ∧
      after.Filled more ∧ after.next = heap.next + ids.length * (headerBytes + 2) := by
  induction ids generalizing heap objects with
  | nil => exact ⟨heap, objects, .ret () heap, hFilled, by simp⟩
  | cons id ids ih =>
      obtain ⟨native, hWord, hClass⟩ := hWords id List.mem_cons_self
      have hFresh : ∀ o ∈ objects, o.2.cls ≠ native := by
        intro o ho hSame
        exact hNone id List.mem_cons_self o ho (hSame ▸ hWord)
      obtain ⟨middle, hFirst, hMiddle, hNext⟩ := newException_lays hFilled hWord hClass hFresh
      rw [List.map_cons, List.nodup_cons] at hDistinct
      have hLater : ∀ other ∈ ids, ∀ o ∈ objects ++ [(heap.next, exceptionInfo native)],
          classWord other ≠ some o.2.cls := by
        intro other hOther o ho
        rcases List.mem_append.1 ho with hOld | hNew
        · exact hNone other (List.mem_cons_of_mem _ hOther) o hOld
        · rw [List.mem_singleton.1 hNew]
          show classWord other ≠ some native
          rw [← hWord]
          intro hSame
          exact hDistinct.1 (List.mem_map.2 ⟨other, hOther, hSame⟩)
      obtain ⟨after, more, hRest, hAfter, hLast⟩ :=
        ih hMiddle (fun other hOther => hWords other (List.mem_cons_of_mem _ hOther)) hDistinct.2 hLater
      have hOne : Lays (do let _ ← newException id appletContext) heap () middle := hFirst.bind (.ret () middle)
      refine ⟨after, more, hOne.bind hRest, hAfter, ?_⟩
      rw [hLast, hNext, List.length_cons]
      ring

set_option maxRecDepth 2000 in
/-- The exceptions of the runtime are of distinct classes. -/
theorem runtimeExceptionClasses_nodup : (runtimeExceptionClasses.map classWord).Nodup := by decide

/-- The class of the object that stands for the command in progress. -/
def apduWord : Nat := nativeClass 1 10

theorem classWord_apdu : classWord .apdu = some apduWord := by decide

/-- Each is a native class, and neither the buffer nor the command is of it. -/
theorem runtimeExceptionClasses_word : ∀ id ∈ runtimeExceptionClasses,
    (∃ native, classWord id = some native ∧ native < 65536) ∧ classWord id ≠ some 0 ∧ classWord id ≠ some apduWord := by
  have hAll : ∀ id ∈ runtimeExceptionClasses,
      (classWord id).any (· < 65536) = true ∧ classWord id ≠ some 0 ∧ classWord id ≠ some apduWord := by decide
  intro id hId
  obtain ⟨hWord, hRest⟩ := hAll id hId
  obtain ⟨native, hNative, hLess⟩ := (Option.any_eq_true _ _).1 hWord
  exact ⟨⟨native, hNative, of_decide_eq_true hLess⟩, hRest⟩

/-- A slab before anything is laid out. -/
def emptyHeap : Heap := ⟨fun _ => 0, 0, 2, none, false, .empty⟩

/-- The layout of a new instance needs as many bytes as are worked out beforehand. -/
theorem layOut_lays {file : LoadFile} {statics : StaticField} {bufferBytes : Nat} (hBuffer : bufferBytes < 65536)
    (hWhole : ∀ array ∈ statics.arrayInits, array.Whole)
    (hKinds : ∀ array ∈ statics.arrayInits, ∃ kind, initKind file array = .ok kind) :
    ∃ layout after, Lays (layOut file statics bufferBytes) emptyHeap layout after ∧
      after.next = AppletInstance.initialBytes statics bufferBytes := by
  let started : Heap := { emptyHeap with bytes := overwrite (fun _ => 0) 0 [UInt8.ofNat Heap.heapVersion, 7] }
  have hStart : Lays Heap.initializeLifecycle emptyHeap () started := Lays.steady rfl fun _ _ => rfl
  have hStarted : started.Filled [] := ⟨.nil 2, rfl, rfl⟩
  let info : Info := ⟨0, bufferBytes, .byte, appletContext, clearOnReset⟩
  have hFresh : info.Fresh := ⟨Nat.zero_lt_succ _, hBuffer, show 1 < 256 by decide, show 1 ≤ 2 by decide,
    fun h => (nomatch h), fun _ _ => rfl⟩
  obtain ⟨hBufferLays, hBuffered⟩ := allocate_lays hStarted hFresh
  obtain ⟨commanded, hApdu, hCommanded, hCommandedNext⟩ := newObject_lays hBuffered (show apduWord < 65536 by decide)
  have hNone : ∀ id ∈ runtimeExceptionClasses, ∀ o ∈ ([] ++ [(started.next, info)]) ++
      [((started.allocated info (info.stop started.next)).next, exceptionInfo apduWord)], classWord id ≠ some o.2.cls := by
    intro id hId o ho
    rcases List.mem_append.1 ho with hFirst | hSecond
    · rw [List.mem_singleton.1 hFirst]
      exact (runtimeExceptionClasses_word id hId).2.1
    · rw [List.mem_singleton.1 hSecond]
      exact (runtimeExceptionClasses_word id hId).2.2
  obtain ⟨reserved, objects, hReserve, hReserved, hReservedNext⟩ := newExceptions_lays hCommanded
    (fun id hId => (runtimeExceptionClasses_word id hId).1) runtimeExceptionClasses_nodup hNone
  obtain ⟨references, after, hArrays, hAfter⟩ := newStaticArrays_lays hReserved hWhole hKinds
  refine ⟨⟨started.next, (started.allocated info (info.stop started.next)).next, reserved.next, references⟩, after,
    ?_, ?_⟩
  · apply hStart.bind
    have hTransient : Lays (Heap.newTransientArray .byte bufferBytes appletContext clearOnReset) started started.next
        (started.allocated info (info.stop started.next)) := by
      apply Lays.failIf (by decide)
      apply Lays.failIf (by decide)
      exact hBufferLays
    apply hTransient.bind
    apply Lays.orFail classWord_apdu
    apply hApdu.bind
    apply Lays.bind hReserve
    -- reading how far the heap is filled reads nothing of the slab
    have hLast : Lays (do
        let arrays ← newStaticArrays file appletContext statics.arrayInits
        return ⟨started.next, (started.allocated info (info.stop started.next)).next, reserved.next, arrays⟩)
        reserved (⟨started.next, _, reserved.next, references⟩ : Layout) after := hArrays.bind (.ret _ _)
    apply Lays.congr _ hLast
    exact fun _ _ => rfl
  · have hBufferStop : info.stop started.next = 2 + (headerBytes + bufferBytes + 1) / 2 * 2 := by
      show (2 + headerBytes + bufferBytes * 1 + 1) / 2 * 2 = _
      omega
    rw [hAfter, hReservedNext, hCommandedNext]
    show info.stop started.next + (headerBytes + 2) + runtimeExceptionClasses.length * (headerBytes + 2) + _ = _
    rw [hBufferStop, AppletInstance.initialBytes]
    have hSum : (statics.arrayInits.map ArrayInit.bytes) =
        statics.arrayInits.map fun array => (headerBytes + array.values.length + 1) / 2 * 2 := rfl
    rw [hSum]
    ring

end RuntimeObjects

namespace AppletInstance

variable {file : LoadFile} {sizes : Sizes} {card : AppletInstance}

/-- The same instance in a slab and with frames of other sizes. -/
def resized (card : AppletInstance) (sizes : Sizes) : AppletInstance :=
  { card with
    heapLength := sizes.heapBytes
    words := List.replicate sizes.frameWords 0
    tags := List.replicate ((sizes.frameWords + 7) / 8) 0
    sizes := sizes }

theorem initialBytes_ge (statics : StaticField) (bufferBytes : Nat) : headerBytes + 2 ≤ initialBytes statics bufferBytes := by
  unfold initialBytes
  rw [show headerBytes = 6 from rfl]
  omega

/-- Before a layout begins only the reserved bytes are checked for. -/
theorem new_heap {size : Nat} {heap : Heap} :
    Heap.new (fun _ => 0) size = .ok heap ↔ headerBytes + 2 ≤ size ∧ emptyHeap.resized size = heap := by
  simp only [Heap.new, Checks.bind_ok, Checks.failIf_ok, Checks.pure_ok, not_lt]
  exact ⟨fun h => h.elim fun _ hRest => hRest, fun h => ⟨(), h⟩⟩

theorem emptyHeap_fits {size : Nat} (h : headerBytes + 2 ≤ size) : emptyHeap.FitsIn size := by
  rw [show headerBytes = 6 from rfl] at h
  show 2 ≤ min size 65535
  omega

theorem layOut_kinds {statics : StaticField} {bufferBytes : Nat} {layout : Layout} {start after : Heap}
    (h : layOut file statics bufferBytes start = .ok layout after) :
    ∀ array ∈ statics.arrayInits, ∃ kind, initKind file array = .ok kind := by
  simp only [layOut, bind_ok] at h
  obtain ⟨_, _, -, _, _, -, _, _, -, _, _, -, _, _, -, _, _, -, references, _, hArrays, -⟩ := h
  exact newStaticArrays_kinds hArrays

/-- An instance is laid out the same in every slab that is long enough, and in no other. -/
theorem new_resized (h : new file sizes = .ok card) :
    ∃ statics, file.staticFields = .ok statics ∧ card.heapUsed = initialBytes statics sizes.bufferBytes.toNat ∧
      ∀ other : Sizes, other.bufferBytes = sizes.bufferBytes →
        (card.heapUsed ≤ min other.heapBytes 65535 → new file other = .ok (card.resized other)) ∧
          ∀ card', new file other = .ok card' → card.heapUsed ≤ min other.heapBytes 65535 := by
  simp only [new, Checks.bind_ok, new_heap] at h
  obtain ⟨statics, hStatics, _, ⟨hSize, rfl⟩, h⟩ := h
  cases hRun : layOut file statics sizes.bufferBytes.toNat (emptyHeap.resized sizes.heapBytes) with
  | error e s => simp [hRun] at h
  | ok layout reached =>
      rw [hRun, Checks.pure_ok] at h
      have hParse : StaticField.parse _ = .ok statics := (Checks.bind_ok.1 hStatics).choose_spec.2
      obtain ⟨made, after, hLays, hUsed⟩ := layOut_lays sizes.bufferBytes.toNat_lt (StaticField.parse_whole hParse)
        (layOut_kinds hRun)
      have hSame := (hLays.returns _ (hLays.needs _ (emptyHeap_fits hSize) _ _ hRun)).symm.trans hRun
      injection hSame with hMade hReached
      subst hMade hReached h
      refine ⟨statics, hStatics, hUsed, fun other hBuffer => ⟨fun hFits => ?_, fun card' hNew => ?_⟩⟩
      · have hGe := initialBytes_ge statics sizes.bufferBytes.toNat
        have hLong : initialBytes statics sizes.bufferBytes.toNat ≤ min other.heapBytes 65535 := hUsed ▸ hFits
        simp only [new, Checks.bind_ok, new_heap]
        refine ⟨statics, hStatics, _, ⟨by omega, rfl⟩, ?_⟩
        rw [hBuffer, hLays.returns other.heapBytes hFits]
        rfl
      · simp only [new, Checks.bind_ok, new_heap, hBuffer, hStatics] at hNew
        obtain ⟨_, hOther, _, ⟨hOtherSize, rfl⟩, hNew⟩ := hNew
        injection hOther with hOther
        subst hOther
        cases hOtherRun : layOut file statics sizes.bufferBytes.toNat (emptyHeap.resized other.heapBytes) with
        | error e s => simp [hOtherRun] at hNew
        | ok layout' reached' => exact hLays.needs _ (emptyHeap_fits hOtherSize) _ _ hOtherRun

end AppletInstance

end MicroCard.Jcvm
