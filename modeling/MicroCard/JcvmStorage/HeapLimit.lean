import MicroCard.JcvmStorage.Store
import MicroCard.JcvmStorage.WriterSpec

/-! The largest heap that a journal can publish. The search for it finds the largest one
whose snapshot leaves room for the framing, and the snapshot of every heap within it fits
its slot and the workspace. -/
namespace MicroCard.JcvmStorage

open Bytes CrashTriple Codec Slices
open Jcvm (LoadFile PersistentView Sizes)
open Journal (MemoryFlash JournalM)

section Filling

variable {σ : Type} {program next : FillM σ Unit} {count more : Nat}

/-- The encoder stands at a position of an output of this length. -/
def At (position length : Nat) (s : σ × Cbor.SliceEncoder) : Prop :=
  s.2.position = position ∧ s.2.output.length = length

/-- Where there is room for so many bytes, the program writes that many, or it fails for
another reason than space. -/
def Fits (program : FillM σ Unit) (count : Nat) : Prop :=
  ∀ position length, position + count ≤ length →
    Triple (At position length) program (fun _ => At (position + count) length) fun e _ => e ≠ .quota

theorem Fits.bind (hFirst : Fits program count) (hNext : Fits next more) :
    Fits (program >>= fun _ => next) (count + more) := by
  intro position length hRoom
  apply Triple.bind (hFirst position length (by omega))
  intro _
  rw [← Nat.add_assoc]
  exact hNext _ length (by omega)

theorem Fits.argument (major value : Nat) :
    Fits (plainly (Cbor.SliceEncoder.argument major value) : FillM σ Unit) (Cbor.argumentSize value) := by
  intro position length hRoom s hAt
  obtain ⟨hPosition, hLength⟩ := hAt
  have hFits : s.2.position + (Cbor.argumentBytes major value).length ≤ s.2.output.length := by
    rw [Cbor.length_argumentBytes]
    omega
  rw [Lays.argument (s := s.1) major value s.2 hFits]
  refine ⟨?_, (length_written hFits).trans hLength⟩
  show s.2.position + (Cbor.argumentBytes major value).length = position + Cbor.argumentSize value
  rw [Cbor.length_argumentBytes, hPosition]

/-- A fill that leaves the length of its window, or fails for another reason than space. -/
theorem Fits.bytesWith {length : Nat} {fill : WindowM σ Unit}
    (hFill : Triple (fun s => s.2.length = length) fill (fun _ s => s.2.length = length) fun e _ => e ≠ .quota) :
    Fits (bytesWith length fill) (Cbor.argumentSize length + length) := by
  intro position total hRoom
  apply Triple.get
  intro s hAt
  apply Triple.failIf_bind
  · intro hShort
    obtain ⟨hPosition, hLength⟩ := hAt
    omega
  · intro _
    apply Triple.bind (Triple.at (Fits.argument 2 length position total (by omega)) hAt)
    intro _
    apply Triple.get
    rintro ⟨inner, encoder⟩ ⟨hPosition, hLength⟩
    have hWindow : (encoder.window length).length = length := by
      rw [Cbor.SliceEncoder.window, List.length_take, List.length_drop]
      simp only at hPosition hLength
      omega
    have hRun := hFill (inner, encoder.window length) hWindow
    intro s hSame
    subst hSame
    cases hOutcome : fill (inner, encoder.window length) with
    | error e after =>
        rw [hOutcome] at hRun
        simp only [hOutcome]
        exact hRun
    | ok u after =>
        rw [hOutcome] at hRun
        have hAfter : after.2.length = length := hRun
        simp only [hOutcome]
        simp only at hPosition hLength
        have hFits : encoder.position + after.2.length ≤ encoder.output.length := by omega
        refine ⟨?_, (length_written hFits).trans hLength⟩
        show encoder.position + after.2.length = position + (Cbor.argumentSize length + length)
        omega

/-- A program that writes as much as the window holds does not fail for want of space. -/
theorem Fits.onSlice {s : σ} {window : List Byte} (h : Fits program window.length) {e : Error} {after : σ × List Byte}
    (hRun : onSlice program (s, window) = .error e after) : e ≠ .quota := by
  have hProgram := h 0 window.length (Nat.zero_add _).le (s, ⟨window, 0⟩) ⟨rfl, rfl⟩
  rw [JcvmStorage.onSlice] at hRun
  cases hWrites : program (s, ⟨window, 0⟩) with
  | error f failed =>
      rw [hWrites] at hRun hProgram
      injection hRun with hSame
      rw [← hSame]
      exact hProgram
  | ok u written =>
      rw [hWrites] at hRun hProgram
      obtain ⟨hPosition, hLength⟩ := hProgram
      have hFinish : written.2.finish = .ok () := if_pos (by omega)
      simp only [hFinish] at hRun
      cases hRun

end Filling

section Sizes

variable {instance' heap limit statics size maximum : Nat}

theorem argumentSize_mono {value bound : Nat} (h : value ≤ bound) : Cbor.argumentSize value ≤ Cbor.argumentSize bound := by
  unfold Cbor.argumentSize Cbor.argumentWidth
  split_ifs <;> omega

/-- A smaller state has a smaller snapshot. -/
theorem snapshotSize_mono (hInstance : instance' ≤ 65535) (hHeap : heap ≤ limit)
    (hSize : snapshotSize 65535 limit statics = .ok size) :
    ∃ smaller ≤ size, snapshotSize instance' heap statics = .ok smaller := by
  obtain ⟨hSum, hLt⟩ := snapshotSize_ok.1 hSize
  have hFirst := argumentSize_mono hInstance
  have hSecond := argumentSize_mono hHeap
  exact ⟨_, by omega, snapshotSize_ok.2 ⟨rfl, by omega⟩⟩

/-- The snapshot of a heap of this size, with the longest instance handle, leaves room for
its framing. -/
def Publishes (maximum statics heap : Nat) : Prop :=
  ∃ size, snapshotSize 65535 heap statics = .ok size ∧ size + Journal.recordOverhead ≤ maximum

theorem Publishes.mono (h : Publishes maximum statics limit) (hHeap : heap ≤ limit) :
    Publishes maximum statics heap := by
  obtain ⟨size, hSize, hFits⟩ := h
  obtain ⟨smaller, hLe, hSmaller⟩ := snapshotSize_mono le_rfl hHeap hSize
  exact ⟨smaller, hSmaller, by omega⟩

/-- The search keeps a heap that can be published below, and nothing that can above; it ends
where the two bounds meet. -/
theorem searchHeap_largest {fuel low high : Nat} (hFuel : high - low ≤ fuel) (hOrder : low ≤ high)
    (hOverhead : Journal.recordOverhead ≤ maximum) (hLow : Publishes maximum statics low)
    (hRun : searchHeap (maximum - Journal.recordOverhead) statics fuel low high = .ok limit) :
    limit ≤ high ∧ Publishes maximum statics limit ∧
      ∀ heap ≤ high, Publishes maximum statics heap → heap ≤ limit := by
  induction fuel generalizing low high with
  | zero =>
      rw [searchHeap, Except.ok.injEq] at hRun
      subst hRun
      exact ⟨hOrder, hLow, fun heap hHeap _ => by omega⟩
  | succ fuel ih =>
      rw [searchHeap] at hRun
      split at hRun
      · rename_i hLess
        obtain ⟨size, hSize, hRun⟩ := Checks.bind_ok.1 hRun
        split at hRun
        · rename_i hFits
          exact ih (by omega) (by omega) ⟨size, hSize, by omega⟩ hRun
        · rename_i hShort
          obtain ⟨hBelow, hLimit, hLargest⟩ := ih (by omega) (by omega) hLow hRun
          refine ⟨by omega, hLimit, fun heap hHeap hPublishes => hLargest heap ?_ hPublishes⟩
          by_contra hAbove
          have hMiddle : low + (high - low + 1) / 2 ≤ heap := by omega
          obtain ⟨larger, hLarger, hRoom⟩ := hPublishes.mono hMiddle
          rw [hSize] at hLarger
          injection hLarger with hSame
          omega
      · rw [Except.ok.injEq] at hRun
        subst hRun
        exact ⟨hOrder, hLow, fun heap hHeap _ => by omega⟩

theorem maximumHeapBytes_largest {requested : Nat} (hRun : maximumHeapBytes maximum statics requested = .ok limit) :
    limit ≤ min requested (maximum - Journal.recordOverhead) ∧ Publishes maximum statics limit ∧
      ∀ heap ≤ min requested (maximum - Journal.recordOverhead), Publishes maximum statics heap → heap ≤ limit := by
  simp only [maximumHeapBytes, Checks.bind_ok, Checks.failIf_ok, not_lt] at hRun
  obtain ⟨_, hOverhead, size, hSize, _, hFits, hRun⟩ := hRun
  exact searchHeap_largest (by omega) (Nat.zero_le _) hOverhead ⟨size, hSize, by omega⟩ hRun

/-- What is left when the empty heap fits. -/
theorem maximumHeapBytes_search {requested : Nat} (hOverhead : Journal.recordOverhead ≤ maximum)
    (hSize : snapshotSize 65535 0 statics = .ok size) (hFits : size ≤ maximum - Journal.recordOverhead) :
    maximumHeapBytes maximum statics requested = searchHeap (maximum - Journal.recordOverhead) statics
      (min requested (maximum - Journal.recordOverhead)) 0 (min requested (maximum - Journal.recordOverhead)) := by
  simp only [maximumHeapBytes, hSize, failIf, if_neg (not_lt.2 hOverhead), if_neg (not_lt.2 hFits), bind, Except.bind, pure,
    Except.pure]

/-- The search ends as long as no size overflows. -/
theorem searchHeap_total {fuel low high : Nat} (hSmall : high + statics + 100 < 2 ^ 64) :
    ∃ limit, searchHeap maximum statics fuel low high = .ok limit := by
  induction fuel generalizing low high with
  | zero => exact ⟨low, rfl⟩
  | succ fuel ih =>
      rw [searchHeap]
      split
      · have hHeap := argumentSize_le (low + (high - low + 1) / 2)
        have hStatics := argumentSize_le statics
        have hInstance := argumentSize_le 65535
        have hSize := (@snapshotSize_ok 65535 (low + (high - low + 1) / 2) statics _).2 ⟨rfl, by omega⟩
        simp only [hSize, bind, Except.bind]
        split
        · exact ih hSmall
        · exact ih (by omega)
      · exact ⟨low, rfl⟩

/-- Every snapshot of a heap within the limit fits in the maximum with its framing. -/
def Admits (limit statics maximum : Nat) : Prop :=
  ∀ instance' heap, instance' < 2 ^ 16 → heap ≤ limit →
    ∃ size, snapshotSize instance' heap statics = .ok size ∧ size + Journal.recordOverhead ≤ maximum

theorem Publishes.admits (h : Publishes maximum statics limit) : Admits limit statics maximum := by
  obtain ⟨largest, hLargest, hFits⟩ := h
  intro instance' heap hInstance hHeap
  obtain ⟨smaller, hLe, hSmaller⟩ := snapshotSize_mono (Nat.le_of_lt_succ hInstance) hHeap hLargest
  exact ⟨smaller, hSmaller, by omega⟩

end Sizes

section Encoding

variable {view : PersistentView} {image : Cbor.Fixed 32} {installation : Cbor.Fixed 16} {maximum size : Nat}

/-- The write of the heap in a snapshot. -/
def saveHeap (view : PersistentView) : WindowM Unit Unit := failWith .format fun s =>
  match view.saveInto s.2 with
  | .ok _ output => .ok () ((), output)
  | .error e output => .error e ((), output)

/-- What the writes of a snapshot fill is as long as the sizer says. -/
theorem writeSnapshot_fits (hSize : snapshotSize view.instance' view.heapBytes view.statics.length = .ok size) :
    Fits (writeSnapshot view image installation) size := by
  have hCopy : ∀ bytes : List Byte, Triple (fun s => s.2.length = bytes.length) (set ((), bytes) : WindowM Unit Unit)
      (fun _ s => s.2.length = bytes.length) fun e _ => e ≠ .quota := fun bytes s _ => rfl
  have hFixed : ∀ {count : Nat} (bytes : Cbor.Fixed count),
      Fits (bytesWith count (set ((), bytes.1)) : FillM Unit Unit) (Cbor.argumentSize count + count) := by
    intro count bytes
    apply Fits.bytesWith
    have hBytes := hCopy bytes.1
    rwa [bytes.2] at hBytes
  have hHeap : Triple (fun s : Unit × List Byte => s.2.length = view.heapBytes) (saveHeap view)
      (fun _ s => s.2.length = view.heapBytes) fun e _ => e ≠ .quota := by
    intro s hLength
    unfold saveHeap failWith
    cases hSave : view.saveInto s.2 with
    | error e output =>
        simp only [hSave]
        exact fun h => by cases h
    | ok state output =>
        obtain ⟨-, _, -, hOutput, -⟩ := PersistentView.saveInto_ok.1 hSave
        simp only [hSave]
        show output.length = view.heapBytes
        rw [hOutput, length_range]
  have hAll := (Fits.argument 4 7).bind ((Fits.argument 0 1).bind ((Fits.argument 0 1).bind
    ((hFixed image).bind ((hFixed installation).bind ((Fits.argument 0 view.instance').bind
      ((Fits.bytesWith hHeap).bind (Fits.bytesWith (hCopy view.statics))))))))
  obtain ⟨hSum, -⟩ := snapshotSize_ok.1 hSize
  have hSmall : Cbor.argumentSize 7 = 1 ∧ Cbor.argumentSize 1 = 1 ∧ Cbor.argumentSize 32 = 2 ∧
      Cbor.argumentSize 16 = 1 := by decide
  obtain ⟨hSeven, hOne, hImage, hInstallation⟩ := hSmall
  have hCount : size = Cbor.argumentSize 7 + (Cbor.argumentSize 1 + (Cbor.argumentSize 1 +
      (Cbor.argumentSize 32 + 32 + (Cbor.argumentSize 16 + 16 + (Cbor.argumentSize view.instance' +
        (Cbor.argumentSize view.heapBytes + view.heapBytes +
          (Cbor.argumentSize view.statics.length + view.statics.length))))))) := by
    omega
  rw [hCount]
  exact hAll

/-- In a workspace as large as the maximum, a snapshot that fits is not refused for space. -/
theorem encodeSnapshotInto_roomy {output after : Buffer} {e : Error}
    (hSize : snapshotSize view.instance' view.heapBytes view.statics.length = .ok size)
    (hFits : size + Journal.recordOverhead ≤ maximum) (hCapacity : maximum ≤ output.capacity)
    (hRun : encodeSnapshotInto view image installation maximum output = .error e after) : e ≠ .quota := by
  rw [encodeSnapshotInto, hSize] at hRun
  simp only at hRun
  rw [if_neg (by omega)] at hRun
  cases hWrite : onSlice (writeSnapshot view image installation) ((), resize 0 size output.bytes) with
  | ok u written =>
      rw [hWrite] at hRun
      cases hRun
  | error f failed =>
      rw [hWrite] at hRun
      injection hRun with hSame
      rw [← hSame]
      have hLength : (resize 0 size output.bytes).length = size := length_resize _ _ _
      exact Fits.onSlice (by rw [hLength]; exact writeSnapshot_fits hSize) hWrite

theorem addSizes_error {error e : Error} {parts : List Nat} {total : Nat} (hRun : addSizes error total parts = .error e) :
    e = error := by
  induction parts generalizing total with
  | nil => cases hRun
  | cons part parts ih =>
      rw [addSizes] at hRun
      cases hSum : checkedAdd64 total part with
      | none =>
          rw [hSum] at hRun
          injection hRun with hSame
          exact hSame.symm
      | some sum =>
          rw [hSum] at hRun
          exact ih hRun

/-- Without a workspace every snapshot is refused. -/
theorem encodeSnapshotInto_starved {output : Buffer} (hEmpty : output.capacity = 0) :
    encodeSnapshotInto view image installation maximum output = .error .quota ⟨[], output.capacity⟩ := by
  rw [encodeSnapshotInto]
  cases hSize : snapshotSize view.instance' view.heapBytes view.statics.length with
  | error e =>
      rw [snapshotSize] at hSize
      rw [addSizes_error hSize]
  | ok size =>
      have hShort : output.capacity < size + Journal.recordOverhead := by
        rw [hEmpty]
        exact Nat.add_pos_right size (by decide)
      exact if_pos (.inr hShort)

/-- Encoding leaves the allocation as it is. -/
theorem encodeSnapshotInto_capacity (output : Buffer) :
    (final (encodeSnapshotInto view image installation maximum output)).capacity = output.capacity := by
  rw [encodeSnapshotInto]
  cases snapshotSize view.instance' view.heapBytes view.statics.length with
  | error e => rfl
  | ok size =>
      simp only
      split
      · rfl
      · cases onSlice (writeSnapshot view image installation) ((), resize 0 size output.bytes) with
        | ok u written => rfl
        | error e failed => rfl

end Encoding

section Limits

variable {maximum statics requested limit : Nat}

/-- The limit is the largest heap that the bank can publish. The snapshot of every heap
within it fits its slot and the recovered buffer, and is not refused by the encoder; its
record is written when its length fits in the header. -/
theorem maximum_heap_bound (hRun : maximumHeapBytes maximum statics requested = .ok limit) :
    (limit ≤ min requested (maximum - Journal.recordOverhead) ∧ Publishes maximum statics limit ∧
      ∀ heap ≤ min requested (maximum - Journal.recordOverhead), Publishes maximum statics heap → heap ≤ limit) ∧
    ∀ (flash : MemoryFlash) (recovered : List Byte) (view : PersistentView) (image : Cbor.Fixed 32)
      (installation : Cbor.Fixed 16), flash.slotSize = maximum + Journal.overhead → view.instance' < 2 ^ 16 →
      view.heapBytes ≤ limit → view.statics.length = statics →
      ∃ size, snapshotSize view.instance' view.heapBytes view.statics.length = .ok size ∧
        size + Journal.overhead ≤ flash.slotSize ∧
        (∀ data : List Byte, data.length = size →
          (Journal.prepareRecord data = .ok (size + 16) ↔ size + 16 < 2 ^ 32)) ∧
        ∃ workspace, reserveSnapshotWorkspace (recoveredBuffer flash (some recovered)) maximum = .ok workspace ∧
          size + Journal.recordOverhead ≤ workspace.capacity ∧
          ∀ after, encodeSnapshotInto view image installation maximum workspace ≠ .error .quota after := by
  have hLargest := maximumHeapBytes_largest hRun
  refine ⟨hLargest, ?_⟩
  intro flash recovered view image installation hSlot hInstance hHeap hStatics
  obtain ⟨size, hSize, hFits⟩ := hLargest.2.1.admits view.instance' view.heapBytes hInstance hHeap
  rw [← hStatics] at hSize
  have hBuffer : reserveSnapshotWorkspace (recoveredBuffer flash (some recovered)) maximum =
      .ok (recoveredBuffer flash (some recovered)) := by
    have hLarge : maximum ≤ (recoveredBuffer flash (some recovered)).capacity := by
      show maximum ≤ flash.slotSize - Journal.overhead + 16
      omega
    exact if_pos hLarge
  have hCapacity : maximum ≤ (recoveredBuffer flash (some recovered)).capacity := by
    show maximum ≤ flash.slotSize - Journal.overhead + 16
    omega
  refine ⟨size, hSize, ?_, ?_, _, hBuffer, hFits.trans hCapacity, ?_⟩
  · omega
  · intro data hLength
    rw [Journal.prepareRecord, hLength]
    split <;> simp_all
  · exact fun after hRefused => encodeSnapshotInto_roomy hSize hFits hCapacity hRefused rfl

theorem maximum_heap_bound_small : maximumHeapBytes 140 2 64 = .ok 38 ∧
    (38 ≤ min 64 (140 - Journal.recordOverhead) ∧ Publishes 140 2 38 ∧
      ∀ heap ≤ min 64 (140 - Journal.recordOverhead), Publishes 140 2 heap → heap ≤ 38) := by
  have hRun : maximumHeapBytes 140 2 64 = .ok 38 := by decide
  exact ⟨hRun, (maximum_heap_bound hRun).1⟩

/-- In a slot of eight gigabytes the limit admits a heap whose record no header describes. -/
theorem heap_beyond_record : ∃ limit, maximumHeapBytes (2 ^ 33) 0 (2 ^ 33) = .ok limit ∧ 2 ^ 32 ≤ limit ∧
    ∃ size, snapshotSize 65535 (2 ^ 32) 0 = .ok size ∧
      ∀ data : List Byte, data.length = size → Journal.prepareRecord data = .error .quota := by
  have hEmpty : snapshotSize 65535 0 0 = .ok 59 := by decide
  have hSize : snapshotSize 65535 (2 ^ 32) 0 = .ok (2 ^ 32 + 67) := by decide
  obtain ⟨limit, hSearch⟩ := @searchHeap_total 0 (2 ^ 33 - Journal.recordOverhead)
    (min (2 ^ 33) (2 ^ 33 - Journal.recordOverhead)) 0 (min (2 ^ 33) (2 ^ 33 - Journal.recordOverhead)) (by decide)
  have hRun : maximumHeapBytes (2 ^ 33) 0 (2 ^ 33) = .ok limit :=
    (maximumHeapBytes_search (by decide) hEmpty (by decide)).trans hSearch
  have hPublishes : Publishes (2 ^ 33) 0 (2 ^ 32) := ⟨_, hSize, by decide⟩
  refine ⟨limit, hRun, (maximumHeapBytes_largest hRun).2.2 (2 ^ 32) (by decide) hPublishes, _, hSize, ?_⟩
  intro data hLength
  rw [Journal.prepareRecord, hLength]
  rfl

end Limits

end MicroCard.JcvmStorage
