import MicroCard.JcvmStorage.PatchSpec

/-! Replay in place. The plan is worked out from the canonical snapshot and the record
before a byte of the buffer changes, so a refusal changes nothing; what follows the plan
cannot fail, and leaves the canonical encoding of the changed fields. -/
namespace MicroCard.JcvmStorage

open Bytes CrashTriple Codec Slices

section Runs

variable {s v w : List Byte} {a b : Nat}

theorem copyWithin_ok (h : Holds s a v) : copyWithin a v.length b s = .ok ⟨⟩ (splice s b v) := by
  have hSlice : slice s a v.length = v := h.2
  show EStateM.Result.ok _ (splice s b (slice s a v.length)) = _
  rw [hSlice]

theorem onlyIf_true {c : Prop} [Decidable c] {program : SnapshotM Unit} (h : c) : onlyIf c program = program := by
  rw [onlyIf, if_pos h]

theorem onlyIf_false {c : Prop} [Decidable c] {program : SnapshotM Unit} (h : ¬c) : onlyIf c program = pure () := by
  rw [onlyIf, if_neg h]

/-- Whichever field moves first, neither is overwritten before it has moved. -/
theorem moveFields_ok {plan : Plan} (hHeap : Holds s plan.source.heapAt v) (hStatics : Holds s plan.source.staticAt w)
    (hHeapLength : v.length = plan.commonHeap) (hStaticLength : w.length = plan.commonStatic)
    (hBefore : plan.source.heapAt + v.length ≤ plan.source.staticAt)
    (hAfter : plan.newHeapAt + v.length ≤ plan.newStaticAt) (hFits : plan.newStaticAt + w.length ≤ s.length) :
    ∃ s', moveFields plan s = .ok () s' ∧ s'.length = s.length ∧ Holds s' plan.newHeapAt v ∧
      Holds s' plan.newStaticAt w := by
  have hHeapFits : plan.newHeapAt + v.length ≤ s.length := by omega
  rw [moveFields, ← hHeapLength, ← hStaticLength]
  by_cases hRight : plan.source.staticAt < plan.newStaticAt
  · have hMoved := length_splice hFits
    have hHeapFits' : plan.newHeapAt + v.length ≤ (splice s plan.newStaticAt w).length := by rwa [hMoved]
    have hHeapKept := hHeap.apart hFits (by omega)
    have hStaticsMoved := Holds.written hFits
    rw [onlyIf_true hRight, onlyIf_false (not_le.2 hRight)]
    refine ⟨splice (splice s plan.newStaticAt w) plan.newHeapAt v, ?_, ?_, Holds.written hHeapFits',
      hStaticsMoved.apart hHeapFits' (by omega)⟩
    · simp only [bind_ok, pure_ok]
      exact ⟨⟨⟩, _, copyWithin_ok hStatics, ⟨⟩, _, copyWithin_ok hHeapKept, trivial, rfl⟩
    · rw [length_splice hHeapFits', hMoved]
  · have hMoved := length_splice hHeapFits
    have hFits' : plan.newStaticAt + w.length ≤ (splice s plan.newHeapAt v).length := by rwa [hMoved]
    have hStaticsKept := hStatics.apart hHeapFits (by omega)
    have hHeapMoved := Holds.written hHeapFits
    rw [onlyIf_false hRight, onlyIf_true (not_lt.1 hRight)]
    refine ⟨splice (splice s plan.newHeapAt v) plan.newStaticAt w, ?_, ?_, hHeapMoved.apart hFits' (by omega),
      Holds.written hFits'⟩
    · simp only [bind_ok, pure_ok]
      exact ⟨⟨⟩, _, ⟨trivial, rfl⟩, ⟨⟩, _, copyWithin_ok hHeap, copyWithin_ok hStaticsKept⟩
    · rw [length_splice hFits', hMoved]

end Runs

section Planning

variable {image : Cbor.Fixed 32} {installation : Cbor.Fixed 16} {instance' : UInt64} {heap statics : List Byte}

theorem length_fixed {count : Nat} (value : Cbor.Fixed count) (h : count < 2 ^ 64) : value.1.length < 2 ^ 64 :=
  lt_of_eq_of_lt value.2 h

/-- Where the fields of a canonical snapshot stand. -/
def sourceOf (image : Cbor.Fixed 32) (installation : Cbor.Fixed 16) (instance' : UInt64) (heap statics : List Byte) :
    Source where
  image := image
  installation := installation
  instance' := instance'.toNat
  heapAt := (headBytes image installation instance' heap.length).length
  heapBefore := heap.length
  staticAt := (headBytes image installation instance' heap.length).length + heap.length +
    (Cbor.argumentBytes 2 statics.length).length
  staticBefore := statics.length

theorem readSource_ok {maximum : Nat} {source : Source} (hMaximum : maximum < 2 ^ 64) (hHeap : heap.length < 2 ^ 64)
    (hStatics : statics.length < 2 ^ 64) :
    decode (readSource (snapshotBytes image installation instance' heap statics).length maximum)
        (snapshotBytes image installation instance' heap statics) = .ok source ↔
      heap.length ≤ maximum ∧ statics.length ≤ maximum ∧
        source = sourceOf image installation instance' heap statics := by
  have hTotal : (snapshotBytes image installation instance' heap statics).length =
      (headBytes image installation instance' heap.length).length + heap.length +
        (Cbor.stringBytes statics).length := by
    simp only [snapshotBytes_eq, Cbor.stringBytes, List.length_append]
    omega
  have hHeapAt : (snapshotBytes image installation instance' heap statics).length -
      (Cbor.stringBytes statics).length - heap.length =
        (headBytes image installation instance' heap.length).length := by omega
  have hStaticAt : (snapshotBytes image installation instance' heap statics).length - ([] : List Byte).length -
      statics.length = (headBytes image installation instance' heap.length).length + heap.length +
        (Cbor.argumentBytes 2 statics.length).length := by
    rw [hTotal, Cbor.stringBytes, List.length_append, List.length_nil]
    omega
  have hTail : Cbor.stringBytes statics = Cbor.stringBytes statics ++ [] := (List.append_nil _).symm
  simp only [decode_ok, readSource, bind_ok, Cbor.record_ok 7 (by decide), Cbor.unsigned_ok, failIf_ok, not_not,
    Cbor.fixed_ok 32 (by decide), Cbor.fixed_ok 16 (by decide), Cbor.bytes_ok maximum hMaximum, get_ok,
    Cbor.finish_ok, pure_ok]
  constructor
  · rintro ⟨_, _, _, h7, _, _, ⟨-, h1⟩, _, _, ⟨rfl, rfl⟩, _, _, ⟨-, h2⟩, _, _, ⟨rfl, rfl⟩, image', _, h3,
      installation', _, h4, target, _, ⟨hTarget, h5⟩, heap', _, ⟨hHeapLe, h6⟩, _, _, ⟨rfl, rfl⟩, statics', _,
      ⟨hStaticsLe, h8⟩, _, _, ⟨rfl, rfl⟩, _, _, ⟨rfl, rfl⟩, rfl, rfl⟩
    rw [snapshotBytes, List.append_cancel_left_eq] at h7
    subst h7
    rw [List.append_cancel_left_eq] at h1
    subst h1
    rw [List.append_cancel_left_eq] at h2
    subst h2
    rw [stringBytes_inj (length_fixed image (by decide)) (length_fixed image' (by decide))] at h3
    obtain ⟨hImage, rfl⟩ := h3
    rw [stringBytes_inj (length_fixed installation (by decide))
      (length_fixed installation' (by decide))] at h4
    obtain ⟨hInstallation, rfl⟩ := h4
    rw [unsignedBytes_inj instance'.toNat_lt hTarget] at h5
    obtain ⟨rfl, rfl⟩ := h5
    rw [stringBytes_inj hHeap (Nat.lt_of_le_of_lt hHeapLe hMaximum)] at h6
    obtain ⟨rfl, rfl⟩ := h6
    rw [hTail, stringBytes_inj hStatics (Nat.lt_of_le_of_lt hStaticsLe hMaximum)] at h8
    obtain ⟨rfl, -⟩ := h8
    obtain rfl := Subtype.ext hImage
    obtain rfl := Subtype.ext hInstallation
    refine ⟨hHeapLe, hStaticsLe, ?_⟩
    rw [sourceOf, hHeapAt, hStaticAt]
  · rintro ⟨hHeapLe, hStaticsLe, rfl⟩
    refine ⟨[], (), _, rfl, 1, _, ⟨by decide, rfl⟩, (), _, ⟨rfl, rfl⟩, 1, _, ⟨by decide, rfl⟩, (), _, ⟨rfl, rfl⟩,
      image, _, rfl, installation, _, rfl, instance'.toNat, _, ⟨instance'.toNat_lt, rfl⟩, heap, _, ⟨hHeapLe, rfl⟩,
      _, _, ⟨rfl, rfl⟩, statics, [], ⟨hStaticsLe, hTail⟩, _, _, ⟨rfl, rfl⟩, (), [], ⟨rfl, rfl⟩, ?_, rfl⟩
    rw [sourceOf, hHeapAt, hStaticAt]

theorem readDelta_ok {maximum : Nat} {delta heapPatch staticPatch : List Byte} (hMaximum : maximum < 2 ^ 64) :
    decode (readDelta instance'.toNat maximum) delta = .ok (heapPatch, staticPatch) ↔
      heapPatch.length ≤ maximum ∧ staticPatch.length ≤ maximum ∧
        delta = deltaBytes instance' heapPatch staticPatch := by
  simp only [decode_ok, readDelta, bind_ok, Cbor.record_ok 4 (by decide), Cbor.unsigned_ok, failIf_ok, not_not,
    Cbor.bytes_ok maximum hMaximum, Cbor.finish_ok, pure_ok, Prod.mk.injEq]
  constructor
  · rintro ⟨_, _, _, rfl, _, _, ⟨-, rfl⟩, _, _, ⟨rfl, rfl⟩, _, _, ⟨-, rfl⟩, _, _, ⟨rfl, rfl⟩, _, _, ⟨hHeap, rfl⟩, _, _,
      ⟨hStatics, rfl⟩, _, _, ⟨rfl, rfl⟩, ⟨rfl, rfl⟩, rfl⟩
    refine ⟨hHeap, hStatics, ?_⟩
    rw [deltaBytes, List.append_nil]
  · rintro ⟨hHeap, hStatics, rfl⟩
    refine ⟨[], (), _, rfl, 1, _, ⟨by decide, rfl⟩, (), _, ⟨rfl, rfl⟩, instance'.toNat, _, ⟨instance'.toNat_lt, rfl⟩,
      (), _, ⟨rfl, rfl⟩, heapPatch, _, ⟨hHeap, rfl⟩, staticPatch, [], ⟨hStatics, (List.append_nil _).symm⟩, (), [],
      ⟨rfl, rfl⟩, ⟨rfl, rfl⟩, rfl⟩

theorem encoded_ok {maximum : Nat} {writes : Cbor.EncoderM Unit} {output : List Byte} (h : Cbor.Writes writes output)
    (hFits : output.length ≤ maximum) : encoded maximum writes = .ok output := by
  have hRun := h ⟨[], maximum⟩ (by rwa [List.length_nil, Nat.zero_add])
  rw [encoded, hRun]
  rfl

theorem argumentSize_le (value : Nat) : Cbor.argumentSize value ≤ 9 := by
  have := Cbor.argumentWidth_le value
  rw [Cbor.argumentSize]
  omega

theorem bytesHeader_ok (length : Nat) : encoded 9 (bytesHeader length) = .ok (Cbor.argumentBytes 2 length) := by
  apply encoded_ok (Cbor.Writes.append _)
  rw [Cbor.length_argumentBytes]
  exact argumentSize_le length

theorem encodePrefix_ok (heapLength : Nat) :
    encodePrefix (sourceOf image installation instance' heap statics) heapLength =
      .ok (headBytes image installation instance' heapLength) := by
  apply encoded_ok
  · exact (Cbor.Writes.array _).bind ((Cbor.Writes.unsigned _).bind ((Cbor.Writes.unsigned _).bind
      ((Cbor.Writes.byteString _).bind ((Cbor.Writes.byteString _).bind ((Cbor.Writes.unsigned _).bind
        (Cbor.Writes.append _))))))
  · have hInstance := argumentSize_le instance'.toNat
    have hHeap := argumentSize_le heapLength
    rw [length_headBytes]
    omega

end Planning

section Replaying

/-- What a snapshot records. -/
structure Saved where
  image : Cbor.Fixed 32
  installation : Cbor.Fixed 16
  instance' : UInt64
  heap : Cbor.Slice
  statics : Cbor.Slice

namespace Saved

variable (saved : Saved) (generation maximum : UInt64) (heapChange staticChange : Change)

/-- The canonical snapshot. -/
def form : List Byte :=
  snapshotBytes saved.image saved.installation saved.instance' saved.heap.1 saved.statics.1

/-- The canonical snapshot of the same instance with both fields changed. -/
def changed : List Byte :=
  snapshotBytes saved.image saved.installation saved.instance' (heapChange.apply saved.heap.1)
    (staticChange.apply saved.statics.1)

/-- The record that asks for the two changes. -/
def delta : List Byte :=
  deltaBytes saved.instance' (heapChange.form generation.toNat saved.heap.1.length)
    (staticChange.form generation.toNat saved.statics.1.length)

/-- The changes are valid, and every field that is read or written keeps to the limit. -/
structure Admits : Prop where
  heap : saved.heap.1.length ≤ maximum.toNat
  statics : saved.statics.1.length ≤ maximum.toNat
  heapPatch : (heapChange.form generation.toNat saved.heap.1.length).length ≤ maximum.toNat
  staticPatch : (staticChange.form generation.toNat saved.statics.1.length).length ≤ maximum.toNat
  heapValid : heapChange.Valid maximum.toNat
  staticValid : staticChange.Valid maximum.toNat
  total : (saved.changed heapChange staticChange).length ≤ maximum.toNat

def plan : Plan where
  source := sourceOf saved.image saved.installation saved.instance' saved.heap.1 saved.statics.1
  heapPatch := heapChange.form generation.toNat saved.heap.1.length
  staticPatch := staticChange.form generation.toNat saved.statics.1.length
  heapLength := heapChange.length
  staticLength := staticChange.length
  newTotal := (saved.changed heapChange staticChange).length
  start := headBytes saved.image saved.installation saved.instance' heapChange.length
  staticHeader := Cbor.argumentBytes 2 staticChange.length

end Saved

variable {saved : Saved} {generation maximum : UInt64} {heapChange staticChange : Change}

theorem Change.Valid.length_apply {capacity : Nat} {change : Change} (h : change.Valid capacity) (field : List Byte) :
    (change.apply field).length = change.length := by
  have hFits : 0 + change.length ≤ (resize 0 change.length field).length := by
    rw [length_resize, Nat.zero_add]
  rw [Change.apply, length_writeSpans hFits h.ordered, length_resize]

theorem Saved.length_changed (hHeap : heapChange.Valid maximum.toNat) (hStatics : staticChange.Valid maximum.toNat) :
    (saved.changed heapChange staticChange).length =
      54 + Cbor.argumentSize saved.instance'.toNat + Cbor.argumentSize heapChange.length + heapChange.length +
        Cbor.argumentSize staticChange.length + staticChange.length := by
  rw [changed, length_snapshotBytes, hHeap.length_apply, hStatics.length_apply]

theorem Saved.newStaticAt_plan : (saved.plan generation heapChange staticChange).newStaticAt =
    54 + Cbor.argumentSize saved.instance'.toNat + Cbor.argumentSize heapChange.length + heapChange.length +
      Cbor.argumentSize staticChange.length := by
  simp only [Plan.newStaticAt, Plan.newHeapAt, plan, length_headBytes, Cbor.length_argumentBytes]

/-- Replay plans exactly the changes that the record asks for and the limit admits. -/
theorem planReplay_ok {delta : List Byte} {plan : Plan} :
    planReplay generation delta maximum saved.form = .ok plan ↔
      ∃ heapChange staticChange, saved.Admits generation maximum heapChange staticChange ∧
        delta = saved.delta generation heapChange staticChange ∧
          plan = saved.plan generation heapChange staticChange := by
  have hMaximum := maximum.toNat_lt
  have hGeneration := generation.toNat_lt
  simp only [planReplay, Checks.bind_ok, Checks.failIf_ok, Checks.pure_ok, not_not, not_lt, Prod.exists]
  constructor
  · rintro ⟨source, hSource, heapPatch, staticPatch, hDelta, heapLength, hHeapValid, staticLength, hStaticValid, total,
      hSize, _, hTotal, start, hStart, header, hHeader, _, hPlaces, rfl⟩
    obtain ⟨hHeap, hStatics, rfl⟩ := (readSource_ok hMaximum saved.heap.2 saved.statics.2).1 hSource
    obtain ⟨hHeapPatch, hStaticPatch, rfl⟩ := (readDelta_ok hMaximum).1 hDelta
    obtain ⟨heapChange, hHeapChange, rfl, rfl⟩ := (validate_ok hGeneration saved.heap.2 hMaximum).1 hHeapValid
    obtain ⟨staticChange, hStaticChange, rfl, rfl⟩ :=
      (validate_ok hGeneration saved.statics.2 hMaximum).1 hStaticValid
    obtain ⟨hSizeEq, -⟩ := snapshotSize_ok.1 hSize
    rw [encodePrefix_ok, Except.ok.injEq] at hStart
    rw [bytesHeader_ok, Except.ok.injEq] at hHeader
    have hLength : (saved.changed heapChange staticChange).length = total := by
      rw [Saved.length_changed hHeapChange hStaticChange, hSizeEq]
      rfl
    refine ⟨heapChange, staticChange, ⟨hHeap, hStatics, hHeapPatch, hStaticPatch, hHeapChange, hStaticChange, ?_⟩,
      rfl, ?_⟩
    · rwa [hLength]
    · rw [← hStart, ← hHeader, ← hLength]
      rfl
  · rintro ⟨heapChange, staticChange, hAdmits, rfl, rfl⟩
    have hLength := @Saved.length_changed saved _ _ _ hAdmits.heapValid hAdmits.staticValid
    have hTotal := hAdmits.total
    refine ⟨_, (readSource_ok hMaximum saved.heap.2 saved.statics.2).2 ⟨hAdmits.heap, hAdmits.statics, rfl⟩, _, _,
      (readDelta_ok hMaximum).2 ⟨hAdmits.heapPatch, hAdmits.staticPatch, rfl⟩, heapChange.length,
      (validate_ok hGeneration saved.heap.2 hMaximum).2 ⟨heapChange, hAdmits.heapValid, rfl, rfl⟩,
      staticChange.length,
      (validate_ok hGeneration saved.statics.2 hMaximum).2 ⟨staticChange, hAdmits.staticValid, rfl, rfl⟩,
      (saved.changed heapChange staticChange).length, snapshotSize_ok.2 ⟨hLength, by omega⟩, (), hTotal, _,
      encodePrefix_ok _, _, bytesHeader_ok _, (), ?_, rfl⟩
    refine checkedAdd64_ok.2 ⟨?_, by omega⟩
    show _ = (saved.plan generation heapChange staticChange).newStaticAt + _
    rw [hLength, Saved.newStaticAt_plan]

/-- The first bytes of a field, and zeroes up to its new length. -/
theorem resize_common (field : List Byte) (length : Nat) :
    field.take (min field.length length) ++ List.replicate (length - min field.length length) 0 =
      resize 0 length field := by
  rw [resize]
  congr 1
  · rw [Nat.min_comm, ← List.take_eq_take_min]
  · congr 1
    omega

/-- The parts of a snapshot stand in the buffer one behind the other. -/
structure Laid (s start heap header statics : List Byte) : Prop where
  front : Holds s 0 start
  heapHeld : Holds s start.length heap
  headerHeld : Holds s (start.length + heap.length) header
  staticsHeld : Holds s (start.length + heap.length + header.length) statics

section Laying

variable {s start heap header statics : List Byte}

theorem Laid.whole (h : Laid s start heap header statics) : Holds s 0 (start ++ (heap ++ (header ++ statics))) := by
  have hRest := h.heapHeld.append (h.headerHeld.append h.staticsHeld)
  apply h.front.append
  rwa [Nat.zero_add]

theorem Laid.writeHeap {spans : List Span} (h : Laid s start heap header statics)
    (hOrdered : Ordered heap.length 0 spans) :
    Laid (writeSpans start.length spans s) start (writeSpans 0 spans heap) header statics := by
  have hWithin := h.heapHeld.1
  have hLength : (writeSpans 0 spans heap).length = heap.length :=
    length_writeSpans (by rw [Nat.zero_add]) hOrdered
  refine ⟨?_, holds_writeSpans h.heapHeld hOrdered, ?_, ?_⟩
  · exact holds_beside h.front hWithin (by omega) hOrdered
  · rw [hLength]
    exact holds_beside h.headerHeld hWithin (by omega) hOrdered
  · rw [hLength]
    exact holds_beside h.staticsHeld hWithin (by omega) hOrdered

theorem Laid.writeStatics {spans : List Span} (h : Laid s start heap header statics)
    (hOrdered : Ordered statics.length 0 spans) :
    Laid (writeSpans (start.length + heap.length + header.length) spans s) start heap header
      (writeSpans 0 spans statics) := by
  have hWithin := h.staticsHeld.1
  refine ⟨?_, ?_, ?_, holds_writeSpans h.staticsHeld hOrdered⟩
  · exact holds_beside h.front hWithin (by omega) hOrdered
  · exact holds_beside h.heapHeld hWithin (by omega) hOrdered
  · exact holds_beside h.headerHeld hWithin (by omega) hOrdered

/-- A buffer that only grows keeps what it holds. -/
theorem grow_ok (s : List Byte) (total : Nat) :
    ∃ s', (onlyIf (s.length < total) (modify (resize 0 total)) : SnapshotM Unit) s = .ok () s' ∧
      s'.length = max s.length total ∧ ∀ {a v}, Holds s a v → Holds s' a v := by
  by_cases hGrow : s.length < total
  · refine ⟨resize 0 total s, ?_, ?_, ?_⟩
    · rw [onlyIf_true hGrow]
      rfl
    · rw [length_resize]
      omega
    · intro a v hHolds
      rw [resize, List.take_of_length_le (Nat.le_of_lt hGrow)]
      exact hHolds.extend _
  · refine ⟨s, ?_, by omega, fun h => h⟩
    rw [onlyIf_false hGrow]
    rfl

/-- A write inside the buffer puts the bytes there and keeps what stands apart. -/
theorem copyFrom_ok (place : Nat) (bytes : List Byte) (hFits : place + bytes.length ≤ s.length) :
    ∃ s', copyFrom place bytes s = .ok ⟨⟩ s' ∧ s'.length = s.length ∧ Holds s' place bytes ∧
      ∀ {a v}, Holds s a v → a + v.length ≤ place ∨ place + bytes.length ≤ a → Holds s' a v :=
  ⟨splice s place bytes, rfl, length_splice hFits, Holds.written hFits, fun hHolds hApart => hHolds.apart hFits hApart⟩

/-- Once the fields stand in their places, their tails are cleared and the heads written. -/
theorem lay_ok {heapLength staticLength staticAt : Nat} (hHeap : Holds s start.length heap)
    (hHeapLength : heap.length ≤ heapLength) (hStaticAt : staticAt = start.length + heapLength + header.length)
    (hStatics : Holds s staticAt statics) (hStaticLength : statics.length ≤ staticLength)
    (hFits : staticAt + staticLength ≤ s.length) :
    ∃ s₁ s₂ s₃ s₄, clear (start.length + heap.length) (heapLength - heap.length) s = .ok ⟨⟩ s₁ ∧
      clear (staticAt + statics.length) (staticLength - statics.length) s₁ = .ok ⟨⟩ s₂ ∧
      copyFrom 0 start s₂ = .ok ⟨⟩ s₃ ∧ copyFrom (staticAt - header.length) header s₃ = .ok ⟨⟩ s₄ ∧
      s₄.length = s.length ∧ Laid s₄ start (heap ++ List.replicate (heapLength - heap.length) 0) header
        (statics ++ List.replicate (staticLength - statics.length) 0) := by
  unfold clear
  generalize hHeapZeros : List.replicate (heapLength - heap.length) (0 : Byte) = heapZeros
  generalize hStaticZeros : List.replicate (staticLength - statics.length) (0 : Byte) = staticZeros
  have hHeapTail : heap.length + heapZeros.length = heapLength := by
    rw [← hHeapZeros, List.length_replicate]
    omega
  have hStaticTail : statics.length + staticZeros.length = staticLength := by
    rw [← hStaticZeros, List.length_replicate]
    omega
  have hHeader : staticAt - header.length = start.length + (heap ++ heapZeros).length := by
    rw [List.length_append]
    omega
  have hWhole : start.length + (heap ++ heapZeros).length + header.length = staticAt := by
    rw [List.length_append]
    omega
  obtain ⟨s₁, hRun₁, hLength₁, hZeros₁, hKeep₁⟩ :=
    copyFrom_ok (s := s) (start.length + heap.length) heapZeros (by omega)
  obtain ⟨s₂, hRun₂, hLength₂, hZeros₂, hKeep₂⟩ :=
    copyFrom_ok (s := s₁) (staticAt + statics.length) staticZeros (by omega)
  obtain ⟨s₃, hRun₃, hLength₃, hStart₃, hKeep₃⟩ := copyFrom_ok (s := s₂) 0 start (by omega)
  obtain ⟨s₄, hRun₄, hLength₄, hHeader₄, hKeep₄⟩ :=
    copyFrom_ok (s := s₃) (staticAt - header.length) header (by omega)
  have hHeap₁ := (hKeep₁ hHeap (.inl le_rfl)).append hZeros₁
  have hStatics₂ := (hKeep₂ (hKeep₁ hStatics (by omega)) (.inl le_rfl)).append hZeros₂
  have hHeap₃ := hKeep₃ (hKeep₂ hHeap₁ (by omega)) (by omega)
  have hStatics₃ := hKeep₃ hStatics₂ (by omega)
  refine ⟨s₁, s₂, s₃, s₄, hRun₁, hRun₂, hRun₃, hRun₄, by omega, ?_, ?_, ?_, ?_⟩
  · exact hKeep₄ hStart₃ (by omega)
  · exact hKeep₄ hHeap₃ (by omega)
  · rwa [← hHeader]
  · rw [hWhole]
    exact hKeep₄ hStatics₃ (by omega)

/-- A buffer that only shrinks is cut behind what it holds. -/
theorem cut_ok {v : List Byte} {oldTotal : Nat} (hHolds : Holds s 0 v) (hLength : s.length = max oldTotal v.length) :
    (onlyIf (v.length < oldTotal) (modify fun snapshot => snapshot.take v.length) : SnapshotM Unit) s = .ok () v := by
  have hTake := hHolds.take
  by_cases hCut : v.length < oldTotal
  · rw [onlyIf_true hCut]
    show EStateM.Result.ok _ (s.take v.length) = _
    rw [hTake]
  · rw [onlyIf_false hCut]
    rw [List.take_of_length_le (by omega)] at hTake
    rw [hTake]
    rfl

end Laying

/-- The fields of a canonical snapshot stand where the source says. -/
theorem Saved.holds_source : Holds saved.form (saved.plan generation heapChange staticChange).source.heapAt saved.heap.1 ∧
    Holds saved.form (saved.plan generation heapChange staticChange).source.staticAt saved.statics.1 := by
  have hWhole := Holds.whole saved.form
  nth_rewrite 2 [form] at hWhole
  rw [snapshotBytes_eq] at hWhole
  have hFields := hWhole.of_append.2
  rw [Nat.zero_add] at hFields
  exact ⟨hFields.of_append.1, hFields.of_append.2.of_append.2⟩

/-- The buffer after the moves, the clearing and the heads: both fields stand in their
places with their new lengths, and no span has been written yet. -/
theorem Saved.rearranged (hAdmits : saved.Admits generation maximum heapChange staticChange) {plan : Plan}
    (hPlan : plan = saved.plan generation heapChange staticChange) :
    ∃ s₁ s₂ s₃ s₄ s₅ s₆,
      (onlyIf (saved.form.length < plan.newTotal) (modify (resize 0 plan.newTotal)) : SnapshotM Unit) saved.form =
        .ok () s₁ ∧
      moveFields plan s₁ = .ok () s₂ ∧
      clear (plan.newHeapAt + plan.commonHeap) (plan.heapLength - plan.commonHeap) s₂ = .ok ⟨⟩ s₃ ∧
      clear (plan.newStaticAt + plan.commonStatic) (plan.staticLength - plan.commonStatic) s₃ = .ok ⟨⟩ s₄ ∧
      copyFrom 0 plan.start s₄ = .ok ⟨⟩ s₅ ∧
      copyFrom (plan.newStaticAt - plan.staticHeader.length) plan.staticHeader s₅ = .ok ⟨⟩ s₆ ∧
      s₆.length = max saved.form.length plan.newTotal ∧
      Laid s₆ plan.start (resize 0 heapChange.length saved.heap.1) plan.staticHeader
        (resize 0 staticChange.length saved.statics.1) := by
  have hLength := @Saved.length_changed saved _ _ _ hAdmits.heapValid hAdmits.staticValid
  have hStaticAt : plan.newStaticAt = _ := hPlan ▸ Saved.newStaticAt_plan
  obtain ⟨hHeap, hStatics⟩ := @Saved.holds_source saved generation heapChange staticChange
  rw [← hPlan] at hHeap hStatics
  have hTotal : plan.newTotal = (saved.changed heapChange staticChange).length := by rw [hPlan]; rfl
  have hCommonHeap : plan.commonHeap = min saved.heap.1.length heapChange.length := by rw [hPlan]; rfl
  have hCommonStatic : plan.commonStatic = min saved.statics.1.length staticChange.length := by rw [hPlan]; rfl
  have hHeapLength : plan.heapLength = heapChange.length := by rw [hPlan]; rfl
  have hStaticLength : plan.staticLength = staticChange.length := by rw [hPlan]; rfl
  have hHeapBefore : plan.source.heapAt + saved.heap.1.length ≤ plan.source.staticAt := by
    rw [hPlan]
    exact Nat.le_add_right _ _
  have hPlace : plan.newStaticAt = plan.start.length + plan.heapLength + plan.staticHeader.length := rfl
  have hNewHeapAt : plan.newHeapAt = plan.start.length := rfl
  have hHeapTaken : (saved.heap.1.take plan.commonHeap).length = plan.commonHeap := by
    rw [List.length_take]
    omega
  have hStaticsTaken : (saved.statics.1.take plan.commonStatic).length = plan.commonStatic := by
    rw [List.length_take]
    omega
  obtain ⟨s₁, hRun₁, hLength₁, hKeep₁⟩ := grow_ok saved.form plan.newTotal
  obtain ⟨s₂, hRun₂, hLength₂, hHeap₂, hStatics₂⟩ := moveFields_ok ((hKeep₁ hHeap).front plan.commonHeap)
    ((hKeep₁ hStatics).front plan.commonStatic) hHeapTaken hStaticsTaken (by omega) (by omega) (by omega)
  obtain ⟨s₃, s₄, s₅, s₆, hRun₃, hRun₄, hRun₅, hRun₆, hLength₆, hLaid⟩ :=
    lay_ok hHeap₂ (by omega : _ ≤ plan.heapLength) hPlace hStatics₂ (by omega : _ ≤ plan.staticLength) (by omega)
  rw [hHeapTaken] at hRun₃ hLaid
  rw [hStaticsTaken] at hRun₄ hLaid
  rw [hCommonHeap, hCommonStatic, hHeapLength, hStaticLength, resize_common, resize_common] at hLaid
  exact ⟨s₁, s₂, s₃, s₄, s₅, s₆, hRun₁, hRun₂, hRun₃, hRun₄, hRun₅, hRun₆, by omega, hLaid⟩

/-- What is planned is carried out: the buffer ends as the canonical encoding of the
changed fields. -/
theorem replay_planned {delta : List Byte} {plan : Plan}
    (hAdmits : saved.Admits generation maximum heapChange staticChange)
    (hRun : planReplay generation delta maximum saved.form = .ok plan)
    (hPlan : plan = saved.plan generation heapChange staticChange) :
    replaySnapshot generation delta maximum saved.form = .ok () (saved.changed heapChange staticChange) := by
  have hMaximum := maximum.toNat_lt
  have hGeneration := generation.toNat_lt
  have hLength := @Saved.length_changed saved _ _ _ hAdmits.heapValid hAdmits.staticValid
  have hStaticAt : plan.newStaticAt = _ := hPlan ▸ Saved.newStaticAt_plan
  have hTotal : plan.newTotal = (saved.changed heapChange staticChange).length := by rw [hPlan]; rfl
  have hHeapLength : plan.heapLength = heapChange.length := by rw [hPlan]; rfl
  have hStaticLength : plan.staticLength = staticChange.length := by rw [hPlan]; rfl
  have hPlace : plan.newStaticAt = plan.start.length + heapChange.length + plan.staticHeader.length := by
    rw [← hHeapLength]
    rfl
  obtain ⟨s₁, s₂, s₃, s₄, s₅, s₆, hRun₁, hRun₂, hRun₃, hRun₄, hRun₅, hRun₆, hLength₆, hLaid⟩ :=
    Saved.rearranged hAdmits hPlan
  have hRun₇ : applySpans plan.heapPatch plan.newHeapAt plan.heapLength s₆ =
      .ok () (writeSpans plan.newHeapAt heapChange.spans s₆) := by
    rw [hPlan]
    exact applySpans_ok hGeneration saved.heap.2 hMaximum hAdmits.heapValid s₆
  have hRun₈ : applySpans plan.staticPatch plan.newStaticAt plan.staticLength
      (writeSpans plan.newHeapAt heapChange.spans s₆) =
        .ok () (writeSpans plan.newStaticAt staticChange.spans (writeSpans plan.newHeapAt heapChange.spans s₆)) := by
    rw [hPlan]
    exact applySpans_ok hGeneration saved.statics.2 hMaximum hAdmits.staticValid _
  have hHeapOrdered : Ordered (resize 0 heapChange.length saved.heap.1).length 0 heapChange.spans := by
    rw [length_resize]
    exact hAdmits.heapValid.ordered
  have hStaticOrdered : Ordered (resize 0 staticChange.length saved.statics.1).length 0 staticChange.spans := by
    rw [length_resize]
    exact hAdmits.staticValid.ordered
  have hHeapWritten := hAdmits.heapValid.length_apply saved.heap.1
  have hStaticsWritten := hAdmits.staticValid.length_apply saved.statics.1
  have hWritten := (hLaid.writeHeap hHeapOrdered).writeStatics hStaticOrdered
  rw [← Change.apply, hHeapWritten, ← hPlace, ← Change.apply] at hWritten
  have hChanged : saved.changed heapChange staticChange =
      plan.start ++ (heapChange.apply saved.heap.1 ++ (plan.staticHeader ++ staticChange.apply saved.statics.1)) := by
    rw [Saved.changed, snapshotBytes_eq, hHeapWritten, hStaticsWritten, hPlan]
    rfl
  have hHolds := hWritten.whole
  rw [← hChanged] at hHolds
  have hLength₇ : (writeSpans plan.newHeapAt heapChange.spans s₆).length = s₆.length :=
    length_writeSpans hLaid.heapHeld.1 hHeapOrdered
  have hLength₈ : (writeSpans plan.newStaticAt staticChange.spans
      (writeSpans plan.newHeapAt heapChange.spans s₆)).length = s₆.length := by
    rw [length_writeSpans _ hStaticOrdered, hLength₇]
    rw [length_resize, hLength₇]
    omega
  have hCut := cut_ok hHolds (hLength₈.trans (hTotal ▸ hLength₆))
  rw [← hTotal] at hCut
  simp only [replaySnapshot, bind_ok, get_ok, readOnly_ok]
  exact ⟨_, _, ⟨rfl, rfl⟩, _, _, ⟨hRun, rfl⟩, (), s₁, hRun₁, (), s₂, hRun₂, ⟨⟩, s₃, hRun₃, ⟨⟩, s₄, hRun₄, ⟨⟩, s₅, hRun₅,
    ⟨⟩, s₆, hRun₆, (), _, hRun₇, (), _, hRun₈, hCut⟩

/-- Replay succeeds exactly on the written form of two valid changes within the limit,
and then the buffer is the canonical snapshot of the same instance with both fields cut or
filled with zeroes to their new lengths and overwritten by their spans. A refusal leaves
the buffer as it was. -/
theorem replay_exact (saved : Saved) (generation maximum : UInt64) (delta : List Byte) :
    (∀ after, replaySnapshot generation delta maximum saved.form = .ok () after ↔
      ∃ heapChange staticChange, saved.Admits generation maximum heapChange staticChange ∧
        delta = saved.delta generation heapChange staticChange ∧ after = saved.changed heapChange staticChange) ∧
    ∀ e after, replaySnapshot generation delta maximum saved.form = .error e after → after = saved.form := by
  cases hPlan : planReplay generation delta maximum saved.form with
  | error e =>
      have hRun : replaySnapshot generation delta maximum saved.form = .error e saved.form := by
        simp only [replaySnapshot, bind, EStateM.bind, get, getThe, MonadStateOf.get, EStateM.get, readOnly, hPlan]
      refine ⟨fun after => ?_, fun e' after hError => ?_⟩
      · rw [hRun]
        constructor
        · intro hOk
          cases hOk
        · rintro ⟨heapChange, staticChange, hAdmits, hDelta, -⟩
          rw [planReplay_ok.2 ⟨heapChange, staticChange, hAdmits, hDelta, rfl⟩] at hPlan
          cases hPlan
      · rw [hRun] at hError
        cases hError
        rfl
  | ok plan =>
      obtain ⟨heapChange, staticChange, hAdmits, hDelta, rfl⟩ := planReplay_ok.1 hPlan
      have hRun := replay_planned hAdmits hPlan rfl
      refine ⟨fun after => ?_, fun e' after hError => ?_⟩
      · constructor
        · intro hOk
          rw [hRun] at hOk
          cases hOk
          exact ⟨heapChange, staticChange, hAdmits, hDelta, rfl⟩
        · rintro ⟨heapChange', staticChange', hAdmits', hDelta', rfl⟩
          exact replay_planned hAdmits' (planReplay_ok.2 ⟨_, _, hAdmits', hDelta', rfl⟩) rfl
      · rw [hRun] at hError
        cases hError

/-- Statics of two bytes. -/
def twoStatics : Saved where
  image := ⟨List.replicate 32 2, rfl⟩
  installation := ⟨List.replicate 16 3, rfl⟩
  instance' := 4
  heap := ⟨[1, 2, 3], by decide⟩
  statics := ⟨[5, 6], by decide⟩

/-- A static patch may ask for another length: the statics are then cut to it, and not only
overwritten by the spans. -/
theorem replay_cuts_statics :
    replaySnapshot 11 (twoStatics.delta 11 ⟨3, []⟩ ⟨1, [⟨0, [7]⟩]⟩) 256 twoStatics.form =
        .ok () (twoStatics.changed ⟨3, []⟩ ⟨1, [⟨0, [7]⟩]⟩) ∧
      twoStatics.changed ⟨3, []⟩ ⟨1, [⟨0, [7]⟩]⟩ ≠
        snapshotBytes twoStatics.image twoStatics.installation twoStatics.instance'
          ((⟨3, []⟩ : Change).apply twoStatics.heap.1) (writeSpans 0 [⟨0, [7]⟩] twoStatics.statics.1) := by
  have hAdmits : twoStatics.Admits 11 256 ⟨3, []⟩ ⟨1, [⟨0, [7]⟩]⟩ :=
    ⟨by decide, by decide, by decide, by decide, ⟨by decide, by decide, trivial⟩,
      ⟨by decide, by decide, by decide, by decide, by decide, trivial⟩, by decide⟩
  exact ⟨replay_planned hAdmits (planReplay_ok.2 ⟨_, _, hAdmits, rfl, rfl⟩) rfl, by decide⟩

end Replaying

end MicroCard.JcvmStorage
