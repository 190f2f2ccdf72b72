import MicroCard.JcvmStorage.Writer
import MicroCard.JcvmStorage.Replay
import MicroCard.Jcvm.Windows

/-! The sizer, the writer and the reader of a patch agree. What the sizer measures is the
written form of a change; the writer fills a buffer of that size with it; and replay
accepts it. -/
namespace MicroCard.JcvmStorage

open Bytes CrashTriple Codec Slices
open Jcvm (PersistentView PersistentCursor PendingWrites)

section Laying

variable {σ : Type} {s t u : σ}

theorem written_append {encoder : Cbor.SliceEncoder} {first second : List Byte}
    (h : encoder.position + (first ++ second).length ≤ encoder.output.length) :
    (encoder.written first).written second = encoder.written (first ++ second) := by
  have hSplice := splice_append h
  rw [Cbor.SliceEncoder.written, Cbor.SliceEncoder.written, Cbor.SliceEncoder.written, Cbor.SliceEncoder.mk.injEq]
  rw [List.length_append, ← Nat.add_assoc]
  refine ⟨?_, rfl⟩
  rw [splice, splice, splice, List.length_append, ← Nat.add_assoc] at hSplice
  exact hSplice

theorem length_written {encoder : Cbor.SliceEncoder} {bytes : List Byte}
    (h : encoder.position + bytes.length ≤ encoder.output.length) :
    (encoder.written bytes).output.length = encoder.output.length :=
  length_splice h

/-- The program writes these bytes wherever there is room for them, and takes the state of
the fills from the one to the other. -/
def Lays (program : FillM σ Unit) (s t : σ) (output : List Byte) : Prop :=
  ∀ encoder : Cbor.SliceEncoder, encoder.position + output.length ≤ encoder.output.length →
    program (s, encoder) = .ok () (t, encoder.written output)

theorem Lays.ret : Lays (pure () : FillM σ Unit) s s [] := by
  intro encoder hFits
  have hSame : encoder.written [] = encoder := by
    simp [Cbor.SliceEncoder.written]
  rw [hSame]
  rfl

theorem Lays.bind {first second : FillM σ Unit} {output output' : List Byte} (hFirst : Lays first s t output)
    (hSecond : Lays second t u output') : Lays (first >>= fun _ => second) s u (output ++ output') := by
  intro encoder hFits
  have hBoth := hFits
  rw [List.length_append] at hBoth
  have hRoom : encoder.position + output.length ≤ encoder.output.length := by omega
  have hRest : (encoder.written output).position + output'.length ≤ (encoder.written output).output.length := by
    rw [length_written hRoom]
    show encoder.position + output.length + output'.length ≤ _
    omega
  rw [bind_ok]
  refine ⟨(), _, hFirst encoder hRoom, ?_⟩
  rw [hSecond _ hRest, written_append hFits]

theorem Lays.argument (major value : Nat) :
    Lays (plainly (Cbor.SliceEncoder.argument major value)) s s (Cbor.argumentBytes major value) := by
  intro encoder hFits
  have hRun : Cbor.SliceEncoder.argument major value encoder =
      .ok () (encoder.written (Cbor.argumentBytes major value)) := by
    simp only [Cbor.SliceEncoder.argument, Cbor.SliceEncoder.append, bind_ok, get_ok, failIf_ok, set_ok, not_lt]
    exact ⟨_, _, ⟨rfl, rfl⟩, (), _, ⟨hFits, rfl⟩, rfl⟩
  rw [plainly, hRun]

/-- A fill that writes the same bytes into any window of its length. -/
theorem Lays.bytesWith {length : Nat} {fill : WindowM σ Unit} {bytes : List Byte} (hLength : bytes.length = length)
    (hFill : ∀ window, window.length = length → fill (s, window) = .ok () (t, bytes)) :
    Lays (bytesWith length fill) s t (Cbor.stringBytes bytes) := by
  intro encoder hFits
  have hBoth := hFits
  rw [Cbor.stringBytes, List.length_append, Cbor.length_argumentBytes, hLength] at hBoth
  have hHead : encoder.position + (Cbor.argumentBytes 2 length).length ≤ encoder.output.length := by
    rw [Cbor.length_argumentBytes]
    omega
  have hWindow : ((encoder.written (Cbor.argumentBytes 2 length)).window length).length = length := by
    rw [Cbor.SliceEncoder.window, List.length_take, List.length_drop, length_written hHead]
    show min length (encoder.output.length - (encoder.position + (Cbor.argumentBytes 2 length).length)) = length
    rw [Cbor.length_argumentBytes]
    omega
  have hRoom : encoder.position + Cbor.argumentSize length + length ≤ encoder.output.length := by omega
  simp only [JcvmStorage.bytesWith, bind_ok, get_ok, failIf_ok, not_lt]
  refine ⟨_, _, ⟨rfl, rfl⟩, (), _, ⟨hRoom, rfl⟩, (), _, Lays.argument 2 length encoder hHead, _, _, ⟨rfl, rfl⟩, ?_⟩
  rw [hFill _ hWindow]
  simp only [set_ok, Prod.mk.injEq, true_and]
  rw [Cbor.stringBytes, hLength, written_append]
  rw [List.length_append, Cbor.length_argumentBytes, hLength]
  omega

/-- A check that passes writes nothing. -/
theorem Lays.check {α : Type} {result : Except Error α} {a : α} {next : α → FillM σ Unit} {output : List Byte}
    (hResult : result = .ok a) (hNext : Lays (next a) s t output) : Lays (readOnly result >>= next) s t output := by
  intro encoder hFits
  rw [bind_ok]
  exact ⟨a, _, readOnly_ok.2 ⟨hResult, rfl⟩, hNext encoder hFits⟩

theorem Lays.restate {next : FillM σ Unit} {output : List Byte} (hNext : Lays next u t output) :
    Lays ((modify fun current => (u, current.2)) >>= fun _ => next) s t output :=
  fun encoder hFits => hNext encoder hFits

theorem Lays.read {next : σ × Cbor.SliceEncoder → FillM σ Unit} {output : List Byte}
    (hNext : ∀ encoder, Lays (next (s, encoder)) s t output) : Lays (get >>= next) s t output :=
  fun encoder hFits => hNext encoder encoder hFits

/-- A program that writes as much as the window holds fills it. -/
theorem onSlice_ok {program : FillM σ Unit} {output window : List Byte} (h : Lays program s t output)
    (hLength : window.length = output.length) : onSlice program (s, window) = .ok () (t, output) := by
  have hRun := h ⟨window, 0⟩ (by simp only; omega)
  have hOutput : (Cbor.SliceEncoder.written ⟨window, 0⟩ output).output = output := by
    simp only [Cbor.SliceEncoder.written, List.take_zero, List.nil_append, Nat.zero_add]
    rw [List.drop_of_length_le (by omega), List.append_nil]
  have hFinish : (Cbor.SliceEncoder.written ⟨window, 0⟩ output).finish = .ok () := by
    rw [Cbor.SliceEncoder.finish, hOutput]
    exact if_pos (Nat.zero_add _)
  simp only [onSlice, hRun, hFinish, hOutput]

end Laying

section Records

variable {σ : Type}

/-- Spans in order and apart, none empty, within a length. -/
def Sorted (length : Nat) : Nat → List (Nat × Nat) → Prop
  | _, [] => True
  | previousEnd, range :: ranges =>
      range.1 < range.2 ∧ previousEnd ≤ range.1 ∧ range.2 ≤ length ∧ Sorted length range.2 ranges

/-- The spans with their contents. -/
def spansOf (content : Nat × Nat → List Byte) (ranges : List (Nat × Nat)) : List Span :=
  ranges.map fun range => ⟨range.1, content range⟩

variable {content : Nat × Nat → List Byte} {length previousEnd : Nat} {ranges : List (Nat × Nat)}

theorem Sorted.ordered (h : Sorted length previousEnd ranges)
    (hContent : ∀ range ∈ ranges, range.2 ≤ length → (content range).length = range.2 - range.1) :
    Ordered length previousEnd (spansOf content ranges) := by
  induction ranges generalizing previousEnd with
  | nil => exact trivial
  | cons range ranges ih =>
      obtain ⟨hSome, hFrom, hWithin, hRest⟩ := h
      have hLength := hContent range List.mem_cons_self hWithin
      have hStop : Span.stop ⟨range.1, content range⟩ = range.2 := by
        show range.1 + (content range).length = range.2
        omega
      have hEmpty : content range ≠ [] := by
        intro hNone
        rw [hNone, List.length_nil] at hLength
        omega
      rw [spansOf, List.map_cons, Ordered, hStop]
      exact ⟨hEmpty, hFrom, hWithin, ih hRest fun r hr => hContent r (List.mem_cons_of_mem _ hr)⟩

theorem length_form (span : Span) : span.form.length =
    Cbor.argumentSize 2 + Cbor.argumentSize span.offset + Cbor.argumentSize span.bytes.length + span.bytes.length := by
  simp only [Span.form, Cbor.arrayBytes, Cbor.unsignedBytes, Cbor.stringBytes, List.length_append,
    Cbor.length_argumentBytes]
  omega

/-- The loop of the sizer accepts sorted spans, and adds the sizes of their forms. -/
theorem sizeSpans_ok {size total : Nat} (hSize : size < 2 ^ 64)
    (hContent : ∀ range ∈ ranges, range.2 ≤ length → (content range).length = range.2 - range.1)
    (hRun : sizeSpans length size previousEnd ranges = .ok total) :
    Sorted length previousEnd ranges ∧ total < 2 ^ 64 ∧
      total = size + ((spansOf content ranges).flatMap Span.form).length := by
  induction ranges generalizing size previousEnd with
  | nil =>
      rw [sizeSpans, Except.ok.injEq] at hRun
      exact ⟨trivial, hRun ▸ hSize, hRun.symm⟩
  | cons range ranges ih =>
      simp only [sizeSpans, Checks.bind_ok, Checks.failIf_ok, not_or, not_le, not_lt] at hRun
      obtain ⟨_, ⟨hSome, hWithin, hFrom⟩, next, hNext, hRest⟩ := hRun
      obtain ⟨hSum, hNextLt⟩ := (addSizes_ok hSize).1 hNext
      obtain ⟨hSorted, hLt, hTotal⟩ := ih hNextLt (fun r hr => hContent r (List.mem_cons_of_mem _ hr)) hRest
      have hLength := hContent range List.mem_cons_self hWithin
      refine ⟨⟨hSome, hFrom, hWithin, hSorted⟩, hLt, ?_⟩
      rw [spansOf, List.map_cons, List.flatMap_cons, List.length_append, length_form, hTotal, hSum, hLength]
      simp only [List.sum_cons, List.sum_nil, spansOf]
      omega

theorem Change.length_form (generation before : Nat) (change : Change) :
    (change.form generation before).length =
      Cbor.argumentSize 5 + Cbor.argumentSize 1 + Cbor.argumentSize generation + Cbor.argumentSize before +
        Cbor.argumentSize change.length + Cbor.argumentSize change.spans.length +
          (change.spans.flatMap Span.form).length := by
  simp only [Change.form, Cbor.arrayBytes, Cbor.unsignedBytes, List.length_append, Cbor.length_argumentBytes]
  omega

/-- The sizer of a record accepts at most 64 sorted spans, and measures the form of the
change they make. -/
theorem recordSize_ok (content : Nat × Nat → List Byte) {before generation size : Nat}
    (hContent : ∀ range ∈ ranges, range.2 ≤ length → (content range).length = range.2 - range.1)
    (hRun : recordSize ranges before length generation = .ok size) :
    ranges.length ≤ maxSpans ∧ Sorted length 0 ranges ∧ size < 2 ^ 64 ∧
      size = ((⟨length, spansOf content ranges⟩ : Change).form generation before).length := by
  simp only [recordSize, Checks.bind_ok, Checks.failIf_ok, not_lt] at hRun
  obtain ⟨-, hCount, hRun⟩ := hRun
  have hBound := argumentSize_le
  have hSmall : ([5, 1, generation, before, length, ranges.length].map Cbor.argumentSize).sum < 2 ^ 64 := by
    have h1 := hBound 5
    have h2 := hBound 1
    have h3 := hBound generation
    have h4 := hBound before
    have h5 := hBound length
    have h6 := hBound ranges.length
    simp only [List.map_cons, List.map_nil, List.sum_cons, List.sum_nil]
    omega
  obtain ⟨hSorted, hLt, hTotal⟩ := sizeSpans_ok hSmall hContent hRun
  refine ⟨hCount, hSorted, hLt, ?_⟩
  rw [hTotal, Change.length_form]
  simp only [List.map_cons, List.map_nil, List.sum_cons, List.sum_nil, spansOf, List.length_map]
  omega

/-- The contents of each span are written whatever stood there, and keep the state of the
fills in step with the end of the last span. -/
def Supplies (contents : Nat × Nat → WindowM σ Unit) (content : Nat × Nat → List Byte) (length : Nat)
    (Ready : σ → Nat → Prop) : Prop :=
  ∀ s previousEnd range, Ready s previousEnd → previousEnd ≤ range.1 → range.1 < range.2 → range.2 ≤ length →
    (content range).length = range.2 - range.1 ∧
      ∃ t, (∀ window, window.length = range.2 - range.1 → contents range (s, window) = .ok () (t, content range)) ∧
        Ready t range.2

variable {contents : Nat × Nat → WindowM σ Unit} {Ready : σ → Nat → Prop} {s : σ}

theorem writeChanges_lays (hContents : Supplies contents content length Ready) (hReady : Ready s previousEnd)
    (hSorted : Sorted length previousEnd ranges) :
    ∃ t lastEnd, Ready t lastEnd ∧ Lays (writeChanges contents ranges) s t ((spansOf content ranges).flatMap Span.form) := by
  induction ranges generalizing s previousEnd with
  | nil => exact ⟨s, previousEnd, hReady, Lays.ret⟩
  | cons range ranges ih =>
      obtain ⟨hSome, hFrom, hWithin, hRest⟩ := hSorted
      obtain ⟨hLength, t, hFill, hNext⟩ := hContents s previousEnd range hReady hFrom hSome hWithin
      obtain ⟨u, lastEnd, hLast, hOthers⟩ := ih hNext hRest
      refine ⟨u, lastEnd, hLast, ?_⟩
      have hSpan := ((Lays.argument 4 2).bind ((Lays.argument 0 range.1).bind
        ((Lays.bytesWith hLength hFill).bind hOthers)))
      rw [spansOf, List.map_cons, List.flatMap_cons, Span.form_append]
      exact hSpan

/-- The record of sorted spans is the form of the change they make. -/
theorem writeRecord_lays (before generation : Nat) (hContents : Supplies contents content length Ready)
    (hReady : Ready s 0) (hSorted : Sorted length 0 ranges) :
    ∃ t lastEnd, Ready t lastEnd ∧ ∀ window,
      window.length = ((⟨length, spansOf content ranges⟩ : Change).form generation before).length →
        writeRecord ranges before length generation contents (s, window) =
          .ok () (t, (⟨length, spansOf content ranges⟩ : Change).form generation before) := by
  obtain ⟨t, lastEnd, hLast, hSpans⟩ := writeChanges_lays hContents hReady hSorted
  refine ⟨t, lastEnd, hLast, fun window hLength => ?_⟩
  apply onSlice_ok _ hLength
  have hCount : (spansOf content ranges).length = ranges.length := List.length_map _
  rw [Change.form, hCount]
  exact (Lays.argument 4 5).bind ((Lays.argument 0 1).bind ((Lays.argument 0 generation).bind
    ((Lays.argument 0 before).bind ((Lays.argument 0 length).bind ((Lays.argument 4 ranges.length).bind hSpans)))))

end Records

section Views

variable {view : PersistentView} {objects : List (Nat × Jcvm.Info)} {writes : PendingWrites}
  {before generation : Nat}

/-- What is saved of a heap span. -/
def heapContent (view : PersistentView) (objects : List (Nat × Jcvm.Info)) (span : Nat × Nat) : List Byte :=
  range (view.wiped objects view.committed) span.1 (span.2 - span.1)

def staticContent (view : PersistentView) (span : Nat × Nat) : List Byte :=
  slice view.statics span.1 (span.2 - span.1)

/-- The change of the heap that the writes of a view make. -/
def heapChange (view : PersistentView) (objects : List (Nat × Jcvm.Info)) (writes : PendingWrites) : Change :=
  ⟨view.heapBytes, spansOf (heapContent view objects) writes.heapRanges⟩

def staticChange (view : PersistentView) (writes : PendingWrites) : Change :=
  ⟨view.statics.length, spansOf (staticContent view) (staticChanges writes)⟩

/-- The patch of a view. -/
def viewDelta (view : PersistentView) (objects : List (Nat × Jcvm.Info)) (writes : PendingWrites)
    (before generation : Nat) : List Byte :=
  Cbor.arrayBytes 4 ++ (Cbor.unsignedBytes 1 ++ (Cbor.unsignedBytes view.instance' ++
    (Cbor.stringBytes ((heapChange view objects writes).form generation before) ++
      Cbor.stringBytes ((staticChange view writes).form generation view.statics.length))))

/-- A cursor that has saved windows up to an offset. -/
def Saving (view : PersistentView) (objects : List (Nat × Jcvm.Info)) (cursor : PersistentCursor) (stop : Nat) : Prop :=
  view.Stands objects cursor cursor.lastEnd ∧ cursor.lastEnd = stop

theorem heapContents_supply (hSavable : view.Savable objects) :
    Supplies (heapContents view) (heapContent view objects) view.heapBytes (Saving view objects) := by
  rintro cursor previousEnd ⟨first, last⟩ ⟨hStands, rfl⟩ hFrom hSome hWithin
  simp only at hFrom hSome hWithin
  have hEnd : first + (last - first) = last := by omega
  have hFits : first + (last - first) ≤ view.heapBytes := by omega
  obtain ⟨after, hRun, hAfter, hLast⟩ :=
    PersistentView.saveNext_ok hStands hSavable.safe hSavable.projects hFrom hFits
  refine ⟨length_range .., after, fun window hLength => ?_, hAfter, hLast.trans hEnd⟩
  rw [heapContents, failWith, hRun window hLength]
  rfl

theorem length_staticContent {span : Nat × Nat} (h : span.2 ≤ view.statics.length) :
    (staticContent view span).length = span.2 - span.1 := by
  rw [staticContent, slice, List.length_take, List.length_drop]
  omega

theorem staticContents_supply :
    Supplies (staticContents view) (staticContent view) view.statics.length fun _ _ => True := by
  intro cursor previousEnd span _ _ _ hWithin
  refine ⟨length_staticContent hWithin, cursor, fun window _ => ?_, trivial⟩
  simp only [staticContents, bind_ok, failIf_ok, not_lt]
  exact ⟨(), _, ⟨hWithin, rfl⟩, rfl⟩

/-- The sizer of both records measures the forms of the two changes. -/
theorem recordSizes_ok {heapSize staticSize : Nat}
    (hRun : recordSizes view writes before generation = .ok (heapSize, staticSize)) (objects : List (Nat × Jcvm.Info)) :
    (Sorted view.heapBytes 0 writes.heapRanges ∧ writes.heapRanges.length ≤ maxSpans ∧
      heapSize = ((heapChange view objects writes).form generation before).length) ∧
    (Sorted view.statics.length 0 (staticChanges writes) ∧ (staticChanges writes).length ≤ maxSpans ∧
      staticSize = ((staticChange view writes).form generation view.statics.length).length) := by
  simp only [recordSizes, Checks.bind_ok, Checks.pure_ok, Prod.mk.injEq] at hRun
  obtain ⟨_, hHeap, _, hStatics, rfl, rfl⟩ := hRun
  obtain ⟨hCount, hSorted, -, hSize⟩ := recordSize_ok (heapContent view objects) (fun _ _ _ => length_range ..) hHeap
  obtain ⟨hCount', hSorted', -, hSize'⟩ :=
    recordSize_ok (staticContent view) (fun _ _ => length_staticContent) hStatics
  exact ⟨⟨hSorted, hCount, hSize⟩, hSorted', hCount', hSize'⟩

/-- The writes of a patch lay down the patch. -/
theorem writePatch_lays {heapSize staticSize : Nat} (hSavable : view.Savable objects)
    (hSizes : recordSizes view writes before generation = .ok (heapSize, staticSize)) (s : PersistentCursor) :
    ∃ t, Lays (writePatch view writes before generation heapSize staticSize) s t
      (viewDelta view objects writes before generation) := by
  obtain ⟨⟨hSorted, -, hHeapSize⟩, hStaticSorted, -, hStaticSize⟩ := recordSizes_ok hSizes objects
  obtain ⟨after, stop, ⟨hStands, -⟩, hHeap⟩ := writeRecord_lays before generation
    (heapContents_supply hSavable) (show Saving view objects ⟨2, 0, false⟩ 0 from ⟨hSavable.stands, rfl⟩) hSorted
  obtain ⟨last, stop', -, hStatics⟩ := writeRecord_lays view.statics.length generation
    staticContents_supply (s := after) trivial hStaticSorted
  have hCursor : engineCheck .format view.cursor = .ok ⟨2, 0, false⟩ := by
    rw [hSavable.cursor_ok]
    rfl
  have hFinished : engineCheck .format (view.finish after) = .ok () := by
    rw [PersistentView.finish_ok hStands hSavable.safe hSavable.buffer]
    rfl
  have hHeapFill := Lays.bytesWith rfl hHeap
  have hStaticFill := Lays.bytesWith rfl hStatics
  rw [← heapChange, ← hHeapSize] at hHeapFill
  rw [← staticChange, ← hStaticSize] at hStaticFill
  refine ⟨last, ?_⟩
  apply (Lays.argument 4 4).bind
  apply (Lays.argument 0 1).bind
  apply (Lays.argument 0 view.instance').bind
  apply Lays.check hCursor
  apply Lays.restate
  apply hHeapFill.bind
  apply Lays.read
  intro encoder
  exact Lays.check hFinished hStaticFill

/-- The writer fills a buffer of the size of the patch with the patch. -/
theorem encodeViewInto_ok {heapSize staticSize : Nat} (hSavable : view.Savable objects)
    (hWrites : patchWrites view = .ok writes)
    (hSizes : recordSizes view writes before generation = .ok (heapSize, staticSize)) {output : List Byte}
    (hLength : output.length = (viewDelta view objects writes before generation).length) :
    encodeViewInto view before generation output = .ok ⟨⟩ (viewDelta view objects writes before generation) := by
  obtain ⟨last, hLays⟩ := writePatch_lays hSavable hSizes ⟨0, 0, false⟩
  have hFilled := onSlice_ok hLays hLength
  simp only [encodeViewInto, bind_ok, readOnly_ok, get_ok]
  refine ⟨writes, _, ⟨hWrites, rfl⟩, (heapSize, staticSize), _, ⟨hSizes, rfl⟩, output, _, ⟨rfl, rfl⟩, ?_⟩
  rw [hFilled]
  rfl

/-- The sizer keeps to the capacity and measures the patch. -/
theorem viewSize_ok {capacity size : Nat} (hRun : viewSize view before generation capacity = .ok size) :
    size ≤ capacity ∧ ∃ writes heapSize staticSize, patchWrites view = .ok writes ∧
      recordSizes view writes before generation = .ok (heapSize, staticSize) ∧
        ∀ objects, (viewDelta view objects writes before generation).length = size := by
  simp only [viewSize, Checks.bind_ok, Checks.failIf_ok, Checks.pure_ok, Prod.exists, not_lt] at hRun
  obtain ⟨writes, hWrites, heapSize, staticSize, hSizes, total, hTotal, _, hLe, rfl⟩ := hRun
  obtain ⟨hSum, -⟩ := (addSizes_ok (by decide)).1 hTotal
  refine ⟨hLe, writes, heapSize, staticSize, hWrites, hSizes, fun objects => ?_⟩
  obtain ⟨⟨-, -, hHeapSize⟩, -, -, hStaticSize⟩ := recordSizes_ok hSizes objects
  simp only [List.sum_cons, List.sum_nil] at hSum
  simp only [viewDelta, Cbor.arrayBytes, Cbor.unsignedBytes, Cbor.stringBytes, List.length_append,
    Cbor.length_argumentBytes, ← hHeapSize, ← hStaticSize]
  omega

/-- A snapshot of the same instance admits the changes of a view, under any limit that
holds the snapshot, the patch and the changed snapshot. -/
theorem admits_of_view {saved : Saved} {base maximum : UInt64} {heapSize staticSize total : Nat}
    (hSizes : recordSizes view writes saved.heap.1.length base.toNat = .ok (heapSize, staticSize))
    (hInstance : saved.instance'.toNat = view.instance') (hStatics : saved.statics.1.length = view.statics.length)
    (hSaved : saved.form.length ≤ maximum.toNat)
    (hDelta : (viewDelta view objects writes saved.heap.1.length base.toNat).length ≤ maximum.toNat)
    (hTotal : snapshotSize view.instance' view.heapBytes view.statics.length = .ok total)
    (hLimit : total ≤ maximum.toNat) :
    saved.Admits base maximum (heapChange view objects writes) (staticChange view writes) := by
  obtain ⟨⟨hSorted, hCount, -⟩, hStaticSorted, hStaticCount, -⟩ := recordSizes_ok hSizes objects
  obtain ⟨hSum, -⟩ := snapshotSize_ok.1 hTotal
  have hForm := length_snapshotBytes saved.image saved.installation saved.instance' saved.heap.1 saved.statics.1
  rw [← Saved.form] at hForm
  simp only [viewDelta, Cbor.stringBytes, List.length_append] at hDelta
  have hHeapLength : (heapChange view objects writes).length = view.heapBytes := rfl
  have hStaticLength : (staticChange view writes).length = view.statics.length := rfl
  have hHeapValid : (heapChange view objects writes).Valid maximum.toNat := by
    refine ⟨by omega, ?_, hSorted.ordered fun _ _ _ => length_range ..⟩
    exact (List.length_map _).le.trans hCount
  have hStaticValid : (staticChange view writes).Valid maximum.toNat := by
    refine ⟨by omega, ?_, hStaticSorted.ordered fun _ _ => length_staticContent⟩
    exact (List.length_map _).le.trans hStaticCount
  refine ⟨by omega, by omega, by omega, ?_, hHeapValid, hStaticValid, ?_⟩
  · rw [hStatics]
    omega
  · rw [Saved.length_changed hHeapValid hStaticValid, hInstance, hHeapLength, hStaticLength]
    omega

end Views

/-- When the sizer gives a size, it keeps to the capacity. If the view can be saved at all,
the writer fills any buffer of that size with one patch, and replay accepts it at that
generation on every snapshot of the same instance whose heap has the previous length and
whose statics have the length of the view's, under every limit that holds the snapshot,
the patch and the changed snapshot. -/
theorem patch_writer_agrees (view : PersistentView) {before capacity size : Nat} {generation : UInt64}
    (hSize : viewSize view before generation.toNat capacity = .ok size) :
    size ≤ capacity ∧ ∀ whole state kept, view.saveInto whole = .ok state kept →
      ∃ delta, delta.length = size ∧
        (∀ output, output.length = size → encodeViewInto view before generation.toNat output = .ok ⟨⟩ delta) ∧
        ∀ (saved : Saved) (maximum : UInt64) (total : Nat), saved.instance'.toNat = view.instance' →
          saved.heap.1.length = before → saved.statics.1.length = view.statics.length →
          saved.form.length ≤ maximum.toNat → size ≤ maximum.toNat →
          snapshotSize view.instance' view.heapBytes view.statics.length = .ok total → total ≤ maximum.toNat →
          ∃ after, replaySnapshot generation delta maximum saved.form = .ok () after := by
  obtain ⟨hLe, writes, heapSize, staticSize, hWrites, hSizes, hLength⟩ := viewSize_ok hSize
  refine ⟨hLe, fun whole state kept hWhole => ?_⟩
  obtain ⟨-, objects, hSavable, -⟩ := PersistentView.saveInto_ok.1 hWhole
  refine ⟨viewDelta view objects writes before generation.toNat, hLength objects, fun output hOutput => ?_, ?_⟩
  · exact encodeViewInto_ok hSavable hWrites hSizes (hOutput.trans (hLength objects).symm)
  · rintro saved maximum total hInstance rfl hStatics hSaved hPatch hTotal hLimit
    have hAdmits := admits_of_view hSizes hInstance hStatics hSaved ((hLength objects).trans_le hPatch) hTotal hLimit
    have hDelta : viewDelta view objects writes saved.heap.1.length generation.toNat =
        saved.delta generation (heapChange view objects writes) (staticChange view writes) := by
      rw [viewDelta, Saved.delta, deltaBytes, hInstance, hStatics]
    exact ⟨_, replay_planned hAdmits (planReplay_ok.2 ⟨_, _, hAdmits, hDelta, rfl⟩) rfl⟩

instance decEqResult {ε σ α : Type} [DecidableEq ε] [DecidableEq σ] [DecidableEq α] : DecidableEq (EStateM.Result ε σ α)
  | .ok a s, .ok b t => decidable_of_iff (a = b ∧ s = t) (by simp)
  | .error e s, .error f t => decidable_of_iff (e = f ∧ s = t) (by simp)
  | .ok _ _, .error _ _ => isFalse nofun
  | .error _ _, .ok _ _ => isFalse nofun

/-- A view of a heap that a transaction has written spans of. -/
def writtenView : PersistentView :=
  { PersistentView.smallView with
    projection := some ⟨PersistentView.smallView.heap, 40, 26, none, false, ⟨[(8, 10), (24, 26)], none, false⟩⟩ }

/-- A snapshot of an instance that the patch of this view may meet. -/
def beforeWrites (instance' : UInt64) : Saved where
  image := ⟨List.replicate 32 1, by decide⟩
  installation := ⟨List.replicate 16 2, by decide⟩
  instance' := instance'
  heap := ⟨List.replicate 20 0, by decide⟩
  statics := ⟨[], by decide⟩

set_option maxRecDepth 8000 in
theorem patch_writer_agrees_written :
    29 ≤ 256 ∧ ∃ delta, delta.length = 29 ∧
      (∀ output, output.length = 29 → encodeViewInto writtenView 20 7 output = .ok ⟨⟩ delta) ∧
        ∃ after, replaySnapshot 7 delta 256 (beforeWrites 18).form = .ok () after := by
  have hSize : viewSize writtenView 20 (7 : UInt64).toNat 256 = .ok 29 := rfl
  have hSaved : writtenView.saveInto (List.replicate 26 0) = .ok ⟨PersistentView.smallSaved, [], 18⟩
    PersistentView.smallSaved := rfl
  have hForm : (beforeWrites 18).form.length ≤ (256 : UInt64).toNat := by decide
  obtain ⟨hLe, hAll⟩ := patch_writer_agrees writtenView hSize
  obtain ⟨delta, hLength, hWriter, hReplay⟩ := hAll _ _ _ hSaved
  have hReplayed := hReplay (beforeWrites 18) 256 84 rfl rfl rfl hForm (by decide) rfl (by decide)
  exact ⟨hLe, delta, hLength, hWriter, hReplayed⟩

set_option maxRecDepth 8000 in
/-- A snapshot of another instance refuses the patch. A view of a heap that cannot be walked
has a size, but the writer fails on it. -/
theorem patch_of_another_instance :
    (∃ delta, viewSize writtenView 20 7 256 = .ok delta.length ∧
      encodeViewInto writtenView 20 7 (List.replicate delta.length 0) = .ok ⟨⟩ delta ∧
        (beforeWrites 4).heap.1.length = 20 ∧ (beforeWrites 4).statics.1.length = writtenView.statics.length ∧
          replaySnapshot 7 delta 256 (beforeWrites 4).form = .error .keyMismatch (beforeWrites 4).form) ∧
      viewSize { writtenView with heap := fun _ => 0 } 20 7 256 = .ok 29 ∧
        ∃ output, encodeViewInto { writtenView with heap := fun _ => 0 } 20 7 (List.replicate 29 0) =
          .error .format output := by
  apply And.intro
  · exact ⟨[132, 1, 18, 82, 133, 1, 7, 20, 24, 26, 130, 130, 8, 66, 0, 0, 130, 24, 24, 66, 4, 5, 70, 133, 1, 7, 0, 0,
      128], by decide +kernel, by decide +kernel, rfl, rfl, by decide +kernel⟩
  · exact ⟨by decide +kernel, [132, 1, 18, 82, 133, 1, 7, 20, 24, 26, 130, 130, 8, 66, 0, 0, 0, 0, 0, 0, 0, 0, 0, 0, 0,
      0, 0, 0, 0], by decide +kernel⟩

end MicroCard.JcvmStorage
