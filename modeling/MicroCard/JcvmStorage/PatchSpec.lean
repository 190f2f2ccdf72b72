import MicroCard.JcvmStorage.Patch
import MicroCard.Library.Checks

/-! What a patch means. A valid record is the written form of a change: a new length and
the spans to write, in order and apart. Replaying one is resizing the field and writing
over it; the moves in between are followed by what the buffer holds. -/
namespace MicroCard.JcvmStorage

open Bytes CrashTriple Codec Slices

section Reading

variable {α : Type}

theorem advance_ok {read : Cbor.Decoder α} {input rest : List Byte} {a : α} :
    advance read input = .ok (a, rest) ↔ read input = .ok a rest := by
  unfold advance
  split
  · rename_i hRun
    rw [hRun]
    simp
  · rename_i hRun
    rw [hRun]
    simp

theorem decode_ok {read : Cbor.Decoder α} {input : List Byte} {a : α} :
    decode read input = .ok a ↔ ∃ rest, read input = .ok a rest := by
  simp only [decode, Checks.bind_ok, Checks.pure_ok, Prod.exists]
  constructor
  · rintro ⟨_, rest, hRun, rfl⟩
    exact ⟨rest, advance_ok.1 hRun⟩
  · rintro ⟨rest, hRun⟩
    exact ⟨a, rest, advance_ok.2 hRun, rfl⟩

theorem checkedAdd64_ok {a b c : Nat} : checkedAdd64 a b = some c ↔ c = a + b ∧ c < 2 ^ 64 := by
  unfold checkedAdd64
  split
  · rename_i h
    rw [Option.some.injEq]
    constructor
    · rintro rfl
      exact ⟨rfl, h⟩
    · rintro ⟨rfl, -⟩
      rfl
  · rename_i h
    constructor
    · intro hNone
      cases hNone
    · rintro ⟨rfl, hLt⟩
      exact absurd hLt h

theorem addSizes_ok {error : Error} {parts : List Nat} {total size : Nat} (hTotal : total < 2 ^ 64) :
    addSizes error total parts = .ok size ↔ size = total + parts.sum ∧ size < 2 ^ 64 := by
  induction parts generalizing total with
  | nil =>
      rw [addSizes, Except.ok.injEq, List.sum_nil, Nat.add_zero]
      constructor
      · rintro rfl
        exact ⟨rfl, hTotal⟩
      · rintro ⟨rfl, -⟩
        rfl
  | cons part parts ih =>
      rw [addSizes, List.sum_cons]
      split
      · rename_i hNone
        have hFull : ¬(total + part < 2 ^ 64) := by
          intro hLt
          rw [checkedAdd64_ok.2 ⟨rfl, hLt⟩] at hNone
          cases hNone
        constructor
        · intro hError
          cases hError
        · rintro ⟨rfl, hLt⟩
          omega
      · rename_i next hSome
        obtain ⟨rfl, hLt⟩ := checkedAdd64_ok.1 hSome
        rw [ih hLt, Nat.add_assoc]

theorem stringBytes_inj {v w rest rest' : List Byte} (hv : v.length < 2 ^ 64) (hw : w.length < 2 ^ 64) :
    Cbor.stringBytes v ++ rest = Cbor.stringBytes w ++ rest' ↔ v = w ∧ rest = rest' := by
  have hExact : Exact (Cbor.bytes (2 ^ 64 - 1)) Cbor.stringBytes fun value => value.length ≤ 2 ^ 64 - 1 :=
    fun _ _ _ => Cbor.bytes_ok _ (by decide)
  exact hExact.append_inj (Nat.le_sub_one_of_lt hv) (Nat.le_sub_one_of_lt hw)

theorem unsignedBytes_inj {n m : Nat} {rest rest' : List Byte} (hn : n < 2 ^ 64) (hm : m < 2 ^ 64) :
    Cbor.unsignedBytes n ++ rest = Cbor.unsignedBytes m ++ rest' ↔ n = m ∧ rest = rest' := by
  have hExact : Exact Cbor.unsigned Cbor.unsignedBytes fun value => value < 2 ^ 64 := fun _ _ _ => Cbor.unsigned_ok
  exact hExact.append_inj hn hm

end Reading

section Changes

/-- Bytes to write at an offset of a field. -/
structure Span where
  offset : Nat
  bytes : List Byte

def Span.stop (span : Span) : Nat := span.offset + span.bytes.length

def Span.form (span : Span) : List Byte :=
  Cbor.arrayBytes 2 ++ (Cbor.unsignedBytes span.offset ++ Cbor.stringBytes span.bytes)

/-- The new length of a field and the spans to write over it. -/
structure Change where
  length : Nat
  spans : List Span

/-- The written form of a change, for a field of this length at this generation. -/
def Change.form (generation before : Nat) (change : Change) : List Byte :=
  Cbor.arrayBytes 5 ++ (Cbor.unsignedBytes 1 ++ (Cbor.unsignedBytes generation ++ (Cbor.unsignedBytes before ++
    (Cbor.unsignedBytes change.length ++ (Cbor.arrayBytes change.spans.length ++ change.spans.flatMap Span.form)))))

/-- The spans come in order and apart, none is empty, and all end within the field. -/
def Ordered (length : Nat) : Nat → List Span → Prop
  | _, [] => True
  | previousEnd, span :: spans =>
      span.bytes ≠ [] ∧ previousEnd ≤ span.offset ∧ span.stop ≤ length ∧ Ordered length span.stop spans

/-- A change that a field of this capacity admits. -/
structure Change.Valid (capacity : Nat) (change : Change) : Prop where
  length : change.length ≤ capacity
  count : change.spans.length ≤ maxSpans
  ordered : Ordered change.length 0 change.spans

/-- Write spans into a field at a place of a buffer. -/
def writeSpans (place : Nat) (spans : List Span) (snapshot : List Byte) : List Byte :=
  spans.foldl (fun snapshot span => splice snapshot (place + span.offset) span.bytes) snapshot

theorem writeSpans_cons (place : Nat) (span : Span) (spans : List Span) (snapshot : List Byte) :
    writeSpans place (span :: spans) snapshot =
      writeSpans place spans (splice snapshot (place + span.offset) span.bytes) := rfl

/-- The field cut, or filled with zeroes, to its new length and overwritten by the spans. -/
def Change.apply (change : Change) (field : List Byte) : List Byte :=
  writeSpans 0 change.spans (resize 0 change.length field)

theorem spanEnd_ok {offset length previousEnd stop : Nat} {bytes : List Byte} (hLength : length < 2 ^ 64) :
    spanEnd offset bytes length previousEnd = .ok stop ↔
      bytes ≠ [] ∧ previousEnd ≤ offset ∧ offset + bytes.length ≤ length ∧ stop = offset + bytes.length := by
  unfold spanEnd
  split
  · rename_i hNone
    constructor
    · intro hError
      cases hError
    · rintro ⟨-, -, hLe, -⟩
      rw [checkedAdd64_ok.2 ⟨rfl, by omega⟩] at hNone
      cases hNone
  · rename_i sum hSum
    obtain ⟨rfl, -⟩ := checkedAdd64_ok.1 hSum
    split
    · rename_i hBad
      constructor
      · intro hError
        cases hError
      · rintro ⟨hEmpty, hFrom, hLe, -⟩
        rcases hBad with hBad | hBad | hBad
        · exact absurd hBad hEmpty
        · omega
        · omega
    · rename_i hGood
      rw [not_or, not_or, not_lt, not_lt] at hGood
      rw [Except.ok.injEq, eq_comm]
      exact ⟨fun hStop => ⟨hGood.1, hGood.2.2, hGood.2.1, hStop⟩, fun h => h.2.2.2⟩

theorem Span.form_append (span : Span) (rest : List Byte) : span.form ++ rest =
    Cbor.arrayBytes 2 ++ (Cbor.unsignedBytes span.offset ++ (Cbor.stringBytes span.bytes ++ rest)) := by
  simp only [Span.form, List.append_assoc]

/-- The loop of `validate` accepts the written forms of spans in order. -/
theorem validateSpans_ok {length count previousEnd : Nat} {input rest : List Byte} {u : Unit}
    (hLength : length < 2 ^ 64) :
    validateSpans length count previousEnd input = .ok u rest ↔
      ∃ spans, spans.length = count ∧ Ordered length previousEnd spans ∧ input = spans.flatMap Span.form ++ rest := by
  induction count generalizing previousEnd input with
  | zero =>
      rw [validateSpans, pure_ok]
      constructor
      · rintro ⟨-, rfl⟩
        exact ⟨[], rfl, trivial, rfl⟩
      · rintro ⟨spans, hNone, -, rfl⟩
        rw [List.length_eq_zero_iff.1 hNone]
        exact ⟨rfl, rfl⟩
  | succ count ih =>
      simp only [validateSpans, bind_ok, Cbor.record_ok 2 (by decide), Cbor.number_ok (2 ^ 64) le_rfl,
        Cbor.bytes_ok length hLength, readOnly_ok, spanEnd_ok hLength, ih]
      constructor
      · rintro ⟨_, _, rfl, offset, _, ⟨hOffset, rfl⟩, bytes, _, ⟨hBytes, rfl⟩, stop, _,
          ⟨⟨hEmpty, hFrom, hWithin, rfl⟩, rfl⟩, spans, rfl, hOrdered, rfl⟩
        refine ⟨⟨offset, bytes⟩ :: spans, rfl, ⟨hEmpty, hFrom, hWithin, hOrdered⟩, ?_⟩
        rw [List.flatMap_cons, List.append_assoc, Span.form_append]
      · rintro ⟨spans, hCount, hOrdered, rfl⟩
        cases spans with
        | nil => cases hCount
        | cons span spans =>
            obtain ⟨hEmpty, hFrom, hWithin, hOrdered⟩ := hOrdered
            have hStop : span.offset + span.bytes.length ≤ length := hWithin
            rw [List.flatMap_cons, List.append_assoc, Span.form_append]
            refine ⟨(), _, rfl, span.offset, _, ⟨by omega, rfl⟩, span.bytes, _, ⟨by omega, rfl⟩, span.stop, _,
              ⟨⟨hEmpty, hFrom, hWithin, rfl⟩, rfl⟩, spans, Nat.succ.inj hCount, hOrdered, rfl⟩

/-- `validate` accepts exactly the written forms of valid changes. -/
theorem validate_ok {encoded : List Byte} {generation used capacity length : Nat} (hGeneration : generation < 2 ^ 64)
    (hUsed : used < 2 ^ 64) (hCapacity : capacity < 2 ^ 64) :
    validate encoded generation used capacity = .ok length ↔
      ∃ change : Change, change.Valid capacity ∧ change.length = length ∧ encoded = change.form generation used := by
  simp only [validate, decode_ok, validateRecord, bind_ok, Cbor.record_ok 5 (by decide), Cbor.unsigned_ok, failIf_ok,
    not_not, not_lt, Cbor.number_ok (2 ^ 64) le_rfl, Cbor.array_ok maxSpans (by decide), Cbor.finish_ok, pure_ok]
  constructor
  · rintro ⟨_, _, _, rfl, _, _, ⟨-, rfl⟩, _, _, ⟨rfl, rfl⟩, _, _, ⟨-, rfl⟩, _, _, ⟨rfl, rfl⟩, _, _, ⟨-, rfl⟩, _, _,
      ⟨rfl, rfl⟩, size, _, ⟨-, rfl⟩, _, _, ⟨hLe, rfl⟩, count, _, ⟨hCount, rfl⟩, _, _, hSpans, _, _, ⟨rfl, rfl⟩, rfl, rfl⟩
    obtain ⟨spans, rfl, hOrdered, rfl⟩ := (validateSpans_ok (Nat.lt_of_le_of_lt hLe hCapacity)).1 hSpans
    refine ⟨⟨size, spans⟩, ⟨hLe, hCount, hOrdered⟩, rfl, ?_⟩
    rw [Change.form, List.append_nil]
  · rintro ⟨change, ⟨hLe, hCount, hOrdered⟩, rfl, rfl⟩
    have hLength := Nat.lt_of_le_of_lt hLe hCapacity
    refine ⟨[], (), _, rfl, 1, _, ⟨by decide, rfl⟩, (), _, ⟨rfl, rfl⟩, generation, _, ⟨hGeneration, rfl⟩, (), _,
      ⟨rfl, rfl⟩, used, _, ⟨hUsed, rfl⟩, (), _, ⟨rfl, rfl⟩, change.length, _, ⟨hLength, rfl⟩, (), _, ⟨hLe, rfl⟩,
      change.spans.length, _, ⟨hCount, rfl⟩, (), [], ?_, (), [], ⟨rfl, rfl⟩, rfl, rfl⟩
    exact (validateSpans_ok hLength).2 ⟨change.spans, rfl, hOrdered, (List.append_nil _).symm⟩

end Changes

section Spans

variable {length place previousEnd : Nat} {spans : List Span}

/-- The loop of `apply_spans` writes the spans that `validate` saw. -/
theorem applySpansFrom_ok (hLength : length < 2 ^ 64) (hOrdered : Ordered length previousEnd spans)
    (snapshot : List Byte) :
    applySpansFrom place length spans.length (spans.flatMap Span.form) snapshot =
      .ok () (writeSpans place spans snapshot) := by
  induction spans generalizing previousEnd snapshot with
  | nil =>
      rw [List.length_nil, applySpansFrom, readOnly_ok, decode_ok]
      exact ⟨⟨[], Cbor.finish_ok.2 ⟨rfl, rfl⟩⟩, rfl⟩
  | cons span spans ih =>
      obtain ⟨hEmpty, -, hWithin, hRest⟩ := hOrdered
      have hStop : span.offset + span.bytes.length ≤ length := hWithin
      rw [List.length_cons, List.flatMap_cons, Span.form_append, applySpansFrom, bind_ok]
      refine ⟨((span.offset, span.bytes), spans.flatMap Span.form), snapshot, ?_, ?_⟩
      · simp only [readOnly_ok, advance_ok, readSpan, bind_ok, Cbor.record_ok 2 (by decide),
          Cbor.number_ok (2 ^ 64) le_rfl, Cbor.bytes_ok length hLength, pure_ok]
        exact ⟨⟨(), _, rfl, span.offset, _, ⟨by omega, rfl⟩, span.bytes, _, ⟨by omega, rfl⟩, rfl, rfl⟩, trivial⟩
      · exact ih hRest _

theorem applySpans_ok {change : Change} {generation before capacity : Nat} (hGeneration : generation < 2 ^ 64)
    (hBefore : before < 2 ^ 64) (hCapacity : capacity < 2 ^ 64) (hValid : change.Valid capacity)
    (snapshot : List Byte) :
    applySpans (change.form generation before) place change.length snapshot =
      .ok () (writeSpans place change.spans snapshot) := by
  have hLength := Nat.lt_of_le_of_lt hValid.length hCapacity
  rw [applySpans, bind_ok]
  refine ⟨(change.spans.length, change.spans.flatMap Span.form), snapshot, ?_, ?_⟩
  · simp only [readOnly_ok, advance_ok, spanCount, bind_ok, Cbor.record_ok 5 (by decide), Cbor.unsigned_ok,
      Cbor.array_ok maxSpans (by decide)]
    exact ⟨⟨(), _, rfl, 1, _, ⟨by decide, rfl⟩, generation, _, ⟨hGeneration, rfl⟩, before, _, ⟨hBefore, rfl⟩,
      change.length, _, ⟨hLength, rfl⟩, hValid.count, rfl⟩, trivial⟩
  · exact applySpansFrom_ok hLength hValid.ordered snapshot

/-- Writing the spans of a field writes over what stands in its place. -/
theorem holds_writeSpans {snapshot field : List Byte} (hField : Holds snapshot place field)
    (hOrdered : Ordered field.length previousEnd spans) :
    Holds (writeSpans place spans snapshot) place (writeSpans 0 spans field) := by
  induction spans generalizing snapshot field previousEnd with
  | nil => exact hField
  | cons span spans ih =>
      obtain ⟨-, -, hWithin, hRest⟩ := hOrdered
      have hFits : span.offset + span.bytes.length ≤ field.length := hWithin
      rw [writeSpans_cons, writeSpans_cons, Nat.zero_add]
      apply ih (hField.inside hFits)
      rwa [length_splice hFits]

/-- The spans of a field leave everything apart from the field alone. -/
theorem holds_beside {snapshot values : List Byte} {a : Nat} (hValues : Holds snapshot a values)
    (hField : place + length ≤ snapshot.length) (hApart : a + values.length ≤ place ∨ place + length ≤ a)
    (hOrdered : Ordered length previousEnd spans) : Holds (writeSpans place spans snapshot) a values := by
  induction spans generalizing snapshot previousEnd with
  | nil => exact hValues
  | cons span spans ih =>
      obtain ⟨-, -, hWithin, hRest⟩ := hOrdered
      have hFits : span.offset + span.bytes.length ≤ length := hWithin
      have hSplice : place + span.offset + span.bytes.length ≤ snapshot.length := by omega
      apply ih _ _ hRest
      · exact hValues.apart hSplice (by omega)
      · rwa [length_splice hSplice]

theorem length_writeSpans {snapshot : List Byte} (hField : place + length ≤ snapshot.length)
    (hOrdered : Ordered length previousEnd spans) : (writeSpans place spans snapshot).length = snapshot.length := by
  induction spans generalizing snapshot previousEnd with
  | nil => rfl
  | cons span spans ih =>
      obtain ⟨-, -, hWithin, hRest⟩ := hOrdered
      have hFits : span.offset + span.bytes.length ≤ length := hWithin
      have hSplice : place + span.offset + span.bytes.length ≤ snapshot.length := by omega
      have hLength := length_splice hSplice
      rw [← hLength]
      apply ih _ hRest
      rwa [hLength]

end Spans

section Snapshots

/-- The canonical encoding of a snapshot. -/
def snapshotBytes (image : Cbor.Fixed 32) (installation : Cbor.Fixed 16) (instance' : UInt64)
    (heap statics : List Byte) : List Byte :=
  Cbor.arrayBytes 7 ++ (Cbor.unsignedBytes 1 ++ (Cbor.unsignedBytes 1 ++ (Cbor.stringBytes image.1 ++
    (Cbor.stringBytes installation.1 ++ (Cbor.unsignedBytes instance'.toNat ++ (Cbor.stringBytes heap ++
      Cbor.stringBytes statics))))))

/-- The record of two patches. -/
def deltaBytes (instance' : UInt64) (heapPatch staticPatch : List Byte) : List Byte :=
  Cbor.arrayBytes 4 ++ (Cbor.unsignedBytes 1 ++ (Cbor.unsignedBytes instance'.toNat ++
    (Cbor.stringBytes heapPatch ++ Cbor.stringBytes staticPatch)))

/-- What stands in front of the heap. -/
def headBytes (image : Cbor.Fixed 32) (installation : Cbor.Fixed 16) (instance' : UInt64) (heapLength : Nat) :
    List Byte :=
  Cbor.arrayBytes 7 ++ (Cbor.unsignedBytes 1 ++ (Cbor.unsignedBytes 1 ++ (Cbor.stringBytes image.1 ++
    (Cbor.stringBytes installation.1 ++ (Cbor.unsignedBytes instance'.toNat ++ Cbor.argumentBytes 2 heapLength)))))

theorem snapshotBytes_eq (image : Cbor.Fixed 32) (installation : Cbor.Fixed 16) (instance' : UInt64)
    (heap statics : List Byte) :
    snapshotBytes image installation instance' heap statics =
      headBytes image installation instance' heap.length ++
        (heap ++ (Cbor.argumentBytes 2 statics.length ++ statics)) := by
  simp only [snapshotBytes, headBytes, Cbor.stringBytes, List.append_assoc]

theorem length_headBytes (image : Cbor.Fixed 32) (installation : Cbor.Fixed 16) (instance' : UInt64)
    (heapLength : Nat) :
    (headBytes image installation instance' heapLength).length =
      54 + Cbor.argumentSize instance'.toNat + Cbor.argumentSize heapLength := by
  have hThirtyTwo : Cbor.argumentSize 32 = 2 := by decide
  have hSixteen : Cbor.argumentSize 16 = 1 := by decide
  have hSeven : Cbor.argumentSize 7 = 1 := by decide
  have hOne : Cbor.argumentSize 1 = 1 := by decide
  simp only [headBytes, Cbor.arrayBytes, Cbor.unsignedBytes, Cbor.stringBytes, List.length_append,
    Cbor.length_argumentBytes, image.2, installation.2]
  omega

theorem length_snapshotBytes (image : Cbor.Fixed 32) (installation : Cbor.Fixed 16) (instance' : UInt64)
    (heap statics : List Byte) :
    (snapshotBytes image installation instance' heap statics).length =
      54 + Cbor.argumentSize instance'.toNat + Cbor.argumentSize heap.length + heap.length +
        Cbor.argumentSize statics.length + statics.length := by
  simp only [snapshotBytes_eq, List.length_append, length_headBytes, Cbor.length_argumentBytes]
  omega

/-- The size worked out from the lengths is that of the encoding. -/
theorem snapshotSize_ok {instance' heap statics size : Nat} :
    snapshotSize instance' heap statics = .ok size ↔
      size = 54 + Cbor.argumentSize instance' + Cbor.argumentSize heap + heap + Cbor.argumentSize statics + statics ∧
        size < 2 ^ 64 := by
  rw [snapshotSize, addSizes_ok (by decide)]
  simp only [List.sum_cons, List.sum_nil]
  omega

end Snapshots

end MicroCard.JcvmStorage
