import MicroCard.Tlv.DerSpec

/-! A call of a writer changes what it reports and leaves what the reader accepts, with two
exceptions: a bit string that is too long for its length, and a sequence, checked without a
scratch array, of objects that the reader refuses. -/
namespace MicroCard.Tlv

open Bytes Halting ManagedArrays Slices BerTlv

/-- A range of an array of the caller. -/
structure Source where
  array : Nat
  offset : Int
  length : Int

def Source.octets (source : Source) (memory : Memory) : List Byte :=
  slice (memory source.array) source.offset.toNat source.length.toNat

/-- A range of an array of integers. -/
structure Scratch where
  items : List Int
  offset : Int
  length : Int

/-- A call of a writer, with the arguments that follow the destination. -/
inductive Call where
  | integer (value : Int32)
  | octetString (source : Source)
  | bitString (unusedBits : Int) (source : Source)
  | objectIdentifier (source : Source)
  | primitiveSequence (source : Source)
  | sequence (source : Source) (scratch : Scratch)
  | setOf (source : Source) (scratch : Scratch)
  | taggedPrimitive (tag : Int) (source : Source)
  | taggedConstructed (tag : Int) (source : Source) (scratch : Scratch)
  | write (tag : Int) (source : Source)
  | writeHeader (tag valueLength : Int)

namespace Call

/-- The number that a call returns, and the arrays it leaves. -/
def run (memory : Memory) (output : Nat) (offset capacity : Int) : Call → Run (Int × Memory)
  | integer value => Der.writeInteger memory output offset capacity value
  | octetString source => Der.writeOctetString memory output offset capacity source.array source.offset source.length
  | bitString unusedBits source =>
      Der.writeBitString memory output offset capacity source.array source.offset source.length unusedBits
  | objectIdentifier source =>
      Der.writeObjectIdentifier memory output offset capacity source.array source.offset source.length
  | primitiveSequence source =>
      Der.writePrimitiveSequence memory output offset capacity source.array source.offset source.length
  | sequence source scratch => do
      let (written, memory, _) ← Der.writeSequence memory output offset capacity source.array source.offset source.length
        scratch.items scratch.offset scratch.length
      return (written, memory)
  | setOf source scratch => do
      let (written, memory, _) ← Der.writeSetOf memory output offset capacity source.array source.offset source.length
        scratch.items scratch.offset scratch.length
      return (written, memory)
  | taggedPrimitive tag source =>
      Der.writeTaggedPrimitive memory output offset capacity source.array source.offset source.length tag
  | taggedConstructed tag source scratch => do
      let (written, memory, _) ← Der.writeTaggedConstructed memory output offset capacity source.array source.offset
        source.length scratch.items scratch.offset scratch.length tag
      return (written, memory)
  | write tag source => Tlv.write memory output offset capacity tag source.array source.offset source.length
  | writeHeader tag valueLength => Tlv.writeHeader memory output offset capacity tag valueLength

/-- Whether a call belongs to the writers of distinguished objects. -/
def distinguished : Call → Prop
  | write _ _ => False
  | writeHeader _ _ => False
  | _ => True

/-- The tag and the contents that a call asks for, as the arrays stood before it. -/
def Requests (memory : Memory) (tag : Int) (contents : List Byte) : Call → Prop
  | integer value => tag = Der.integerTag ∧ signedNumber contents = value.toInt
  | octetString source => tag = Der.octetStringTag ∧ contents = source.octets memory
  | bitString unusedBits source => tag = Der.bitStringTag ∧ contents = UInt8.ofInt unusedBits :: source.octets memory
  | objectIdentifier source => tag = Der.objectIdentifierTag ∧ contents = source.octets memory
  | primitiveSequence source => tag = Der.sequenceTag ∧ contents = source.octets memory
  | sequence source _ => tag = Der.sequenceTag ∧ contents = source.octets memory
  | setOf source _ => tag = Der.setTag ∧ contents = source.octets memory
  | taggedPrimitive asked source => tag = asked ∧ contents = source.octets memory
  | taggedConstructed asked source _ => tag = asked ∧ contents = source.octets memory
  | write asked source => tag = asked ∧ contents = source.octets memory
  | writeHeader asked _ => tag = asked

variable (memory : Memory) (output : Nat) (offset capacity : Int) (call : Call)

/-- A call returns; when it refuses, the destination is as it was, and when it writes, only
the reported range of the destination changes, and a distinguished object stands there. -/
def Sound : Prop :=
  ∃ (n : Int) (after : Memory), call.run memory output offset capacity = .ok (n, after) ∧
    (n = -1 → after output = memory output) ∧
    (0 < n → n ≤ capacity ∧ (∀ other, other ≠ output → after other = memory other) ∧
      (∀ i : Nat, (i : Int) < offset ∨ offset + n ≤ i → (after output)[i]? = (memory output)[i]?) ∧
      (call.distinguished → Validates (after output) offset n ∧
        ∃ tag contents, call.Requests memory tag contents ∧ ReadsBack (after output) offset n tag contents))

/-- Contents that the check without a scratch array passes and the reader does not. -/
def Unread (octets : List Byte) : Prop :=
  ∃ objects : List Object, octets = objects.flatMap Object.bytes ∧ (∀ o ∈ objects, Simple o) ∧
    ∃ o ∈ objects, o.tag = 0x10 ∨ o.tag = 0x11

/-- When a call goes wrong: a bit string has 65535 octets or more, and the destination takes
them without a header; or the sequence has contents that are not read. -/
def Defective : Call → Prop
  | bitString unusedBits source =>
      BitsAllowed memory source.array source.offset source.length unusedBits ∧ 65535 ≤ source.length ∧
        contains (memory output).length offset capacity ∧ source.length ≤ capacity
  | primitiveSequence source =>
      Fits memory output offset capacity Der.sequenceTag source.array source.offset source.length ∧
        Unread (source.octets memory)
  | _ => False

variable {memory output offset capacity call}

theorem sound_refused (h : call.run memory output offset capacity = .ok (-1, memory)) :
    call.Sound memory output offset capacity :=
  ⟨-1, memory, h, fun _ => rfl, fun hPositive => absurd hPositive (by decide)⟩

/-- A call that stores bytes in the destination is sound when they are what is asked for. -/
theorem sound_stored {values : List Byte} (hTarget : contains (memory output).length offset capacity)
    (hRoom : (values.length : Int) ≤ capacity)
    (h : call.run memory output offset capacity = .ok (values.length, memory.written output offset.toNat values))
    (hDer : call.distinguished → ∃ o : Object, values = o.bytes ∧ o.Valid ∧ call.Requests memory o.tag o.value ∧
      ∃ levels, Forest levels o.bytes) : call.Sound memory output offset capacity := by
  unfold contains at hTarget
  obtain ⟨at', rfl⟩ := Int.eq_ofNat_of_zero_le hTarget.1
  rw [Int.toNat_natCast] at h
  have hInside : at' + values.length ≤ (memory output).length := by omega
  refine ⟨values.length, _, h, fun hNone => absurd hNone (by omega), fun _ => ⟨hRoom, ?_, ?_, ?_⟩⟩
  · intro other hOther
    exact Function.update_of_ne hOther _ _
  · intro i hOutside
    rw [Memory.written, Function.update_self, getElem?_splice hInside]
    split_ifs <;> first | rfl | omega
  · intro hDistinguished
    obtain ⟨o, rfl, hValid, hRequested, levels, hForest⟩ := hDer hDistinguished
    rw [Memory.written, Function.update_self]
    exact ⟨validates_written hForest hInside, _, _, hRequested,
      reads_written hValid ((forest_object hValid).1 hForest).1 hInside⟩

/-- A call that ends in `BerTlv.Write` is sound when the object it writes is distinguished. -/
theorem sound_write (tag : Int) {source : Source}
    (h : call.run memory output offset capacity =
      Tlv.write memory output offset capacity tag source.array source.offset source.length)
    (hDer : Fits memory output offset capacity tag source.array source.offset source.length → call.distinguished →
      call.Requests memory tag (source.octets memory) ∧
        ∃ levels, Forest levels (sourceObject memory tag source.array source.offset source.length).bytes) :
    call.Sound memory output offset capacity := by
  by_cases hFits : Fits memory output offset capacity tag source.array source.offset source.length
  · apply sound_stored hFits.target hFits.room (h.trans (write_accepted hFits))
    intro hDistinguished
    obtain ⟨hRequested, hForest⟩ := hDer hFits hDistinguished
    have hTag : ((sourceObject memory tag source.array source.offset source.length).tag : Int) = tag :=
      Int.toNat_of_nonneg hFits.tagged.1
    exact ⟨_, rfl, hFits.valid, by rw [hTag]; exact hRequested, hForest⟩
  · exact sound_refused (h.trans (write_refused hFits))

/-- An object that holds nothing to look at. -/
theorem closed_forest (tag : Nat) {o : Object} (hTag : o.tag = tag) (hPrimitive : firstOctet tag / 32 % 2 = 0)
    (hValid : o.Valid) (hCanonical : o.Canonical) : ∃ levels, Forest levels o.bytes := by
  refine ⟨0, (forest_object hValid).2 ⟨hCanonical, ?_⟩⟩
  intro hOpens
  have hConstructed : firstOctet o.tag / 32 % 2 = 1 := hOpens.1
  rw [hTag] at hConstructed
  omega

/-- An object around a forest. -/
theorem opened_forest {o : Object} {levels : Nat} (hValid : o.Valid) (hCanonical : o.Canonical)
    (hInside : Forest levels o.value) : ∃ levels, Forest levels o.bytes :=
  ⟨levels + 1, (forest_object hValid).2 ⟨hCanonical, fun _ => ⟨levels, rfl, hInside⟩⟩⟩

theorem sound_integer (value : Int32) : (integer value).Sound memory output offset capacity := by
  have hRun : (integer value).run memory output offset capacity = _ := writeInteger_eq value
  obtain ⟨hPositive, hFew⟩ := integerLength_bounds value.toInt
  obtain ⟨hMinimal, hNumber⟩ := @integer_canonical value.toInt value.minValue_le_toInt value.toInt_lt
  by_cases hPlace : contains (memory output).length offset capacity ∧
      ((integerObject value.toInt).bytes.length : Int) ≤ capacity
  · rw [if_pos hPlace] at hRun
    apply sound_stored hPlace.1 hPlace.2 hRun
    intro _
    have hValid : (integerObject value.toInt).Valid := by
      refine ⟨show ValidTag 2 by decide, ?_⟩
      simp only [integerObject, length_integerOctets]
      omega
    exact ⟨_, rfl, hValid, ⟨rfl, hNumber⟩, closed_forest 2 rfl (by decide) hValid ⟨rfl, hMinimal⟩⟩
  · rw [if_neg hPlace] at hRun
    exact sound_refused hRun

theorem sound_octetString (source : Source) : (octetString source).Sound memory output offset capacity := by
  apply sound_write Der.octetStringTag rfl
  intro hFits _
  exact ⟨⟨rfl, rfl⟩, closed_forest 4 rfl (by decide) hFits.valid ⟨rfl, rfl⟩⟩

theorem sound_objectIdentifier (source : Source) : (objectIdentifier source).Sound memory output offset capacity := by
  by_cases hChecked : contains (memory source.array).length source.offset source.length ∧
      BerTlv.canonicalValue 6 (source.octets memory) = true
  · have hRun : (objectIdentifier source).run memory output offset capacity =
        Tlv.write memory output offset capacity Der.objectIdentifierTag source.array source.offset source.length := by
      rw [run, Der.writeObjectIdentifier, isObjectIdentifier_eq]
      exact congrArg (fun valid => if ¬valid = true then _ else _) (decide_eq_true hChecked)
    apply sound_write _ hRun
    intro hFits _
    exact ⟨⟨rfl, rfl⟩, closed_forest 6 rfl (by decide) hFits.valid ⟨rfl, hChecked.2⟩⟩
  · apply sound_refused
    rw [run, Der.writeObjectIdentifier, isObjectIdentifier_eq]
    exact congrArg (fun valid => if ¬valid = true then _ else _) (decide_eq_false hChecked)

theorem sound_bitString (unusedBits : Int) (source : Source) : (bitString unusedBits source).Sound memory output offset capacity ↔
    ¬(bitString unusedBits source).Defective memory output offset capacity := by
  by_cases hAllowed : BitsAllowed memory source.array source.offset source.length unusedBits
  · rcases lt_or_ge source.length 65535 with hShort | hLong
    · have hRun : (bitString unusedBits source).run memory output offset capacity = _ := writeBitString_short hAllowed hShort
      have hHolds : ¬(bitString unusedBits source).Defective memory output offset capacity := by
        intro hDefect
        exact absurd hDefect.2.1 (not_le.2 hShort)
      apply iff_of_true _ hHolds
      by_cases hPlace : contains (memory output).length offset capacity ∧
          ((bitObject memory source.array source.offset source.length unusedBits).bytes.length : Int) ≤ capacity
      · rw [if_pos hPlace] at hRun
        apply sound_stored hPlace.1 hPlace.2 hRun
        intro _
        have hValid : (bitObject memory source.array source.offset source.length unusedBits).Valid := by
          refine ⟨show ValidTag 3 by decide, ?_⟩
          have hLength := length_slice hAllowed.1
          simp only [bitObject, List.length_cons]
          omega
        exact ⟨_, rfl, hValid, ⟨rfl, rfl⟩, closed_forest 3 rfl (by decide) hValid ⟨rfl, hAllowed.2.2.2⟩⟩
      · rw [if_neg hPlace] at hRun
        exact sound_refused hRun
    · obtain ⟨hNoRoom, hWithoutHeader⟩ := @writeBitString_long memory output source.array offset capacity source.offset
        source.length unusedBits hAllowed hLong
      by_cases hPlace : contains (memory output).length offset capacity ∧ source.length ≤ capacity
      · apply iff_of_false
        · rintro ⟨n, after, hRun, -, hWritten⟩
          obtain rfl := hWithoutHeader hPlace n after hRun
          obtain ⟨-, -, -, hDer⟩ := hWritten (by omega)
          obtain ⟨-, tag, contents, ⟨-, rfl⟩, hReads⟩ := hDer trivial
          have hInside := hReads.inside
          have hLength := length_slice hAllowed.1
          rw [List.length_cons, Source.octets] at hInside
          omega
        · exact not_not.2 ⟨hAllowed, hLong, hPlace⟩
      · apply iff_of_true
        · apply sound_refused
          exact hNoRoom hPlace
        · intro hDefect
          exact hPlace hDefect.2.2
  · apply iff_of_true
    · apply sound_refused
      exact writeBitString_disallowed hAllowed
    · intro hDefect
      exact hAllowed hDefect.1

/-- A simple object is distinguished but for a primitive sequence or set. -/
theorem simple_canonical {o : Object} (h : Simple o) : o.Canonical ↔ ¬(o.tag = 0x10 ∨ o.tag = 0x11) := by
  obtain ⟨hValid, hPlain⟩ := h
  simp only [plain, decide_eq_true_eq] at hPlain
  obtain ⟨hOne, hPrimitive, hValue⟩ := hPlain
  have hTag := hValid.tag
  unfold ValidTag at hTag
  simp only [Object.Canonical, hValue, and_true, canonicalForm, decide_eq_true_eq]
  omega

/-- What the check without a scratch array passes is read but for these objects. -/
theorem unread_iff {octets : List Byte} (h : Simples octets) : Unread octets ↔ ¬∃ levels, Forest levels octets := by
  constructor
  · rintro ⟨objects, rfl, hSimple, o, ho, hTag⟩ ⟨levels, hForest⟩
    have hCanonical := hForest.all_canonical (fun o ho => (hSimple o ho).1) o ho
    exact (simple_canonical (hSimple o ho)).1 hCanonical hTag
  · intro hNone
    obtain ⟨objects, rfl, hSimple⟩ := h
    by_contra hRead
    apply hNone
    refine ⟨0, Forest.flat ?_ 0⟩
    intro o ho
    have hAccepted : ¬(o.tag = 0x10 ∨ o.tag = 0x11) := fun hTag => hRead ⟨objects, rfl, hSimple, o, ho, hTag⟩
    refine ⟨(hSimple o ho).1, (simple_canonical (hSimple o ho)).2 hAccepted, ?_⟩
    intro hOpens
    have hPlain := (hSimple o ho).2
    simp only [plain, decide_eq_true_eq] at hPlain
    have hConstructed : firstOctet o.tag / 32 % 2 = 1 := hOpens.1
    rw [firstOctet, if_pos hPlain.1] at hConstructed
    omega

theorem canonical_source {tag : Int} {source : Source} (hForm : canonicalForm tag.toNat = true)
    (hAny : ∀ value, BerTlv.canonicalValue tag.toNat value = true) :
    (sourceObject memory tag source.array source.offset source.length).Canonical := ⟨hForm, hAny _⟩

theorem sound_primitiveSequence (source : Source) : (primitiveSequence source).Sound memory output offset capacity ↔
    ¬(primitiveSequence source).Defective memory output offset capacity := by
  by_cases hSource : contains (memory source.array).length source.offset source.length
  · have hParts := hSource
    unfold contains at hParts
    obtain ⟨at', hAt⟩ := Int.eq_ofNat_of_zero_le hParts.1
    obtain ⟨count, hCount⟩ := Int.eq_ofNat_of_zero_le hParts.2.1
    obtain ⟨valid, hChecked, hMeaning⟩ := @isPrimitiveSequence_inside (memory source.array) at' count (by omega)
    rw [← hAt, ← hCount] at hChecked
    have hOctets : window (memory source.array) at' (at' + count) = source.octets memory := by
      rw [Source.octets, hAt, hCount, Int.toNat_natCast, Int.toNat_natCast, slice_window]
    rw [hOctets] at hMeaning
    have hRun : (primitiveSequence source).run memory output offset capacity = if ¬valid = true then .ok (-1, memory) else
        Tlv.write memory output offset capacity Der.sequenceTag source.array source.offset source.length := by
      rw [run, Der.writePrimitiveSequence, hChecked]
      rfl
    by_cases hValid : valid = true
    · rw [if_neg (not_not.2 hValid)] at hRun
      have hSimples := hMeaning.1 hValid
      by_cases hDefect : (primitiveSequence source).Defective memory output offset capacity
      · apply iff_of_false _ (not_not.2 hDefect)
        obtain ⟨hFits, hUnread⟩ := hDefect
        rintro ⟨n, after, hSound, -, hWritten⟩
        rw [hRun, write_accepted hFits] at hSound
        obtain ⟨rfl, rfl⟩ := Prod.mk.inj (Except.ok.inj hSound)
        have hHeader := (sourceObject memory Der.sequenceTag source.array source.offset source.length).length_headerBytes_pos
        have hBytes : (sourceObject memory Der.sequenceTag source.array source.offset source.length).bytes.length = _ :=
          List.length_append
        obtain ⟨-, -, -, hDer⟩ := hWritten (by omega)
        have hTarget := hFits.target
        have hRoom := hFits.room
        unfold contains at hTarget
        obtain ⟨start, rfl⟩ := Int.eq_ofNat_of_zero_le hTarget.1
        have hInside : start + (sourceObject memory Der.sequenceTag source.array source.offset source.length).bytes.length ≤
            (memory output).length := by omega
        have hValidates := (hDer trivial).1
        rw [Int.toNat_natCast, Memory.written, Function.update_self] at hValidates
        obtain ⟨levels, hForest⟩ := hValidates.forest (by rw [length_splice hInside]; exact hInside)
        rw [window_splice hInside] at hForest
        have hOpens : (sourceObject memory Der.sequenceTag source.array source.offset source.length).Opens := by
          refine ⟨show firstOctet 48 / 32 % 2 = 1 by decide, ?_⟩
          intro hNothing
          apply (unread_iff hSimples).1 hUnread
          refine ⟨0, ?_⟩
          rw [show source.octets memory = [] from hNothing]
          exact .nil 0
        obtain ⟨inner, -, hHeld⟩ := ((forest_object hFits.valid).1 hForest).2 hOpens
        exact (unread_iff hSimples).1 hUnread ⟨inner, hHeld⟩
      · apply iff_of_true _ hDefect
        apply sound_write _ hRun
        intro hFits _
        have hRead : ¬Unread (source.octets memory) := fun hUnread => hDefect ⟨hFits, hUnread⟩
        rw [unread_iff hSimples, not_not] at hRead
        obtain ⟨levels, hInside⟩ := hRead
        exact ⟨⟨rfl, rfl⟩, @opened_forest _ levels hFits.valid (canonical_source (by decide) fun _ => rfl) hInside⟩
    · rw [if_pos hValid] at hRun
      apply iff_of_true (sound_refused hRun)
      rintro ⟨-, objects, hObjects, hSimple, -⟩
      exact hValid (hMeaning.2 ⟨objects, hObjects, hSimple⟩)
  · apply iff_of_true
    · apply sound_refused
      rw [run, Der.writePrimitiveSequence, isPrimitiveSequence, if_pos hSource]
      rfl
    · intro hDefect
      exact hSource hDefect.1.source

/-- The contents that the validation accepts are a forest. -/
theorem validated_forest {source : Source} {scratch : Scratch} {after : List Int}
    (h : tryValidate (memory source.array) source.offset source.length scratch.items scratch.offset scratch.length =
      .ok (true, after)) : contains (memory source.array).length source.offset source.length ∧
        contains scratch.items.length scratch.offset scratch.length ∧ resultSize + 1 ≤ scratch.length ∧
        after.length = scratch.items.length ∧ ∃ levels, Forest levels (source.octets memory) := by
  obtain ⟨valid, scratch', hRun, hLength, hAccepted⟩ := tryValidate_returns (memory source.array) source.offset source.length
    scratch.items scratch.offset scratch.length
  rw [h] at hRun
  obtain ⟨rfl, rfl⟩ := Prod.mk.inj (Except.ok.inj hRun)
  obtain ⟨hSource, hScratch, hEnough, hForest⟩ := hAccepted rfl
  rw [← slice_window] at hForest
  exact ⟨hSource, hScratch, hEnough, hLength, _, hForest⟩

/-- The tags that the constructed writers use have canonical forms, and say nothing about
their contents. -/
theorem sound_constructed {tag : Int} {source : Source} {scratch : Scratch} {after : List Int}
    (h : tryValidate (memory source.array) source.offset source.length scratch.items scratch.offset scratch.length =
      .ok (true, after))
    (hRun : call.run memory output offset capacity =
      Tlv.write memory output offset capacity tag source.array source.offset source.length)
    (hRequests : call.Requests memory tag (source.octets memory)) (hForm : canonicalForm tag.toNat = true)
    (hAny : ∀ value, BerTlv.canonicalValue tag.toNat value = true) : call.Sound memory output offset capacity := by
  obtain ⟨-, -, -, -, levels, hInside⟩ := validated_forest h
  apply sound_write _ hRun
  intro hFits _
  exact ⟨hRequests, @opened_forest _ levels hFits.valid (canonical_source hForm hAny) hInside⟩

/-- What a call reports does not depend on the scratch array that it leaves. -/
theorem forgets_scratch (x : Run (Int × Memory)) (after : List Int) :
    ((x >>= fun answer => pure (answer.1, answer.2, after)) >>= fun answer => pure (answer.1, answer.2.1)) = x := by
  cases x with
  | error halt => rfl
  | ok answer => rfl

theorem sound_sequence (source : Source) (scratch : Scratch) : (sequence source scratch).Sound memory output offset capacity := by
  obtain ⟨valid, after, hValidated, -⟩ := tryValidate_returns (memory source.array) source.offset source.length
    scratch.items scratch.offset scratch.length
  cases valid with
  | false =>
      apply sound_refused
      rw [run, Der.writeSequence, hValidated]
      rfl
  | true =>
      have hRun : (sequence source scratch).run memory output offset capacity =
          Tlv.write memory output offset capacity Der.sequenceTag source.array source.offset source.length := by
        rw [run, Der.writeSequence, hValidated]
        exact forgets_scratch _ after
      exact sound_constructed hValidated hRun ⟨rfl, rfl⟩ (by decide) fun _ => rfl

theorem sound_setOf (source : Source) (scratch : Scratch) : (setOf source scratch).Sound memory output offset capacity := by
  obtain ⟨valid, after, hValidated, -⟩ := tryValidate_returns (memory source.array) source.offset source.length
    scratch.items scratch.offset scratch.length
  cases valid with
  | false =>
      apply sound_refused
      rw [run, Der.writeSetOf, hValidated]
      rfl
  | true =>
      obtain ⟨hSource, hScratch, hEnough, hLength, -⟩ := validated_forest hValidated
      have hOrdered : ∃ ordered final, canonicalSetOfOrder (memory source.array) source.offset source.length after
          scratch.offset = .ok (ordered, final) := by
        unfold contains at hSource hScratch
        obtain ⟨at', hAt⟩ := Int.eq_ofNat_of_zero_le hSource.1
        obtain ⟨count, hCount⟩ := Int.eq_ofNat_of_zero_le hSource.2.1
        obtain ⟨start, hStart⟩ := Int.eq_ofNat_of_zero_le hScratch.1
        rw [hAt, hCount, hStart]
        exact canonicalSetOfOrder_returns (by omega) (by omega)
      obtain ⟨ordered, final, hOrdered⟩ := hOrdered
      cases ordered with
      | false =>
          apply sound_refused
          rw [run, Der.writeSetOf, hValidated]
          simp only [bind, Except.bind, hOrdered]
          rfl
      | true =>
          have hRun : (setOf source scratch).run memory output offset capacity =
              Tlv.write memory output offset capacity Der.setTag source.array source.offset source.length := by
            rw [run, Der.writeSetOf, hValidated]
            simp only [bind, Except.bind, hOrdered]
            exact forgets_scratch _ final
          exact sound_constructed hValidated hRun ⟨rfl, rfl⟩ (by decide) fun _ => rfl

/-- Tags outside the universal class have one form, and allow any contents. -/
theorem canonical_tagged {tag : Nat} (h : 64 ≤ tag) :
    canonicalForm tag = true ∧ ∀ value, BerTlv.canonicalValue tag value = true := by
  refine ⟨decide_eq_true (.inl h), ?_⟩
  intro value
  unfold BerTlv.canonicalValue
  split <;> first | rfl | omega

/-- A tag whose first octet has a class. -/
theorem tag_of_firstOctet {tag : Nat} (h : 64 ≤ firstOctet tag) : 64 ≤ tag := by
  unfold firstOctet at h
  split_ifs at h <;> omega

theorem sound_taggedPrimitive (tag : Int) (source : Source) :
    (taggedPrimitive tag source).Sound memory output offset capacity := by
  by_cases hRefused : encodedTagLength tag < 0 ∨ firstTagByte tag.toNat (encodedTagLength tag) &&& 0xe0 = 0 ∨
      firstTagByte tag.toNat (encodedTagLength tag) &&& 0x20 ≠ 0
  · apply sound_refused
    rw [run, Der.writeTaggedPrimitive, if_pos hRefused]
    rfl
  · apply sound_write tag
    · rw [run, Der.writeTaggedPrimitive, if_neg hRefused]
    · intro hFits _
      have hTag : ((tag.toNat : Nat) : Int) = tag := Int.toNat_of_nonneg hFits.tagged.1
      obtain ⟨-, hFirst, hOctet⟩ := firstTagByte_eq hFits.tagged.2
      rw [hTag] at hFirst
      rw [hFirst] at hRefused
      have hClass : ∀ n : Fin 256, ¬(n.1 &&& 0xe0 = 0 ∨ n.1 &&& 0x20 ≠ 0) → 64 ≤ n.1 ∧ n.1 / 32 % 2 = 0 := by decide +kernel
      obtain ⟨hLarge, hPrimitive⟩ := hClass ⟨firstOctet tag.toNat, hOctet⟩ fun h => hRefused (.inr h)
      obtain ⟨hForm, hAny⟩ := canonical_tagged (tag_of_firstOctet hLarge)
      exact ⟨⟨rfl, rfl⟩, closed_forest tag.toNat rfl hPrimitive hFits.valid (canonical_source hForm hAny)⟩

theorem sound_taggedConstructed (tag : Int) (source : Source) (scratch : Scratch) :
    (taggedConstructed tag source scratch).Sound memory output offset capacity := by
  by_cases hRefused : encodedTagLength tag < 0 ∨ firstTagByte tag.toNat (encodedTagLength tag) &&& 0xc0 = 0 ∨
      firstTagByte tag.toNat (encodedTagLength tag) &&& 0x20 = 0
  · apply sound_refused
    rw [run, Der.writeTaggedConstructed, if_pos hRefused]
    rfl
  · obtain ⟨valid, after, hValidated, -⟩ := tryValidate_returns (memory source.array) source.offset source.length
      scratch.items scratch.offset scratch.length
    cases valid with
    | false =>
        apply sound_refused
        rw [run, Der.writeTaggedConstructed, if_neg hRefused, hValidated]
        rfl
    | true =>
        have hRun : (taggedConstructed tag source scratch).run memory output offset capacity =
            Tlv.write memory output offset capacity tag source.array source.offset source.length := by
          rw [run, Der.writeTaggedConstructed, if_neg hRefused, hValidated]
          exact forgets_scratch _ after
        have hTagged : 0 ≤ tag ∧ ValidTag tag.toNat := by
          by_contra hNone
          rw [encodedTagLength_eq, if_neg hNone] at hRefused
          exact hRefused (.inl (by decide))
        have hTag : ((tag.toNat : Nat) : Int) = tag := Int.toNat_of_nonneg hTagged.1
        obtain ⟨-, hFirst, hOctet⟩ := firstTagByte_eq hTagged.2
        rw [hTag] at hFirst
        rw [hFirst, (masked hOctet).2.2.2.2] at hRefused
        obtain ⟨hForm, hAny⟩ := canonical_tagged (@tag_of_firstOctet tag.toNat (by
          by_contra hSmall
          exact hRefused (.inr (.inl (by omega)))))
        exact sound_constructed hValidated hRun ⟨rfl, rfl⟩ hForm hAny

theorem sound_writeHeader (tag valueLength : Int) : (writeHeader tag valueLength).Sound memory output offset capacity := by
  have hRun : (writeHeader tag valueLength).run memory output offset capacity = _ := writeHeader_eq
  by_cases hPlace : ((0 ≤ tag ∧ ValidTag tag.toNat) ∧ 0 ≤ valueLength ∧ valueLength < 65536) ∧
      contains (memory output).length offset capacity ∧
      ((tagBytes tag.toNat ++ lengthBytes valueLength.toNat).length : Int) ≤ capacity
  · rw [if_pos hPlace] at hRun
    exact sound_stored hPlace.2.1 hPlace.2.2 hRun fun h => h.elim
  · rw [if_neg hPlace] at hRun
    exact sound_refused hRun

/-- Every call of a writer is sound but for the two kinds that go wrong. -/
theorem writers_sound_iff (memory : Memory) (output : Nat) (offset capacity : Int) (call : Call) :
    call.Sound memory output offset capacity ↔ ¬call.Defective memory output offset capacity := by
  cases call with
  | integer value => exact iff_of_true (sound_integer value) not_false
  | octetString source => exact iff_of_true (sound_octetString source) not_false
  | bitString unusedBits source => exact sound_bitString unusedBits source
  | objectIdentifier source => exact iff_of_true (sound_objectIdentifier source) not_false
  | primitiveSequence source => exact sound_primitiveSequence source
  | sequence source scratch => exact iff_of_true (sound_sequence source scratch) not_false
  | setOf source scratch => exact iff_of_true (sound_setOf source scratch) not_false
  | taggedPrimitive tag source => exact iff_of_true (sound_taggedPrimitive tag source) not_false
  | taggedConstructed tag source scratch => exact iff_of_true (sound_taggedConstructed tag source scratch) not_false
  | write tag source => exact iff_of_true (sound_write _ rfl fun _ h => h.elim) not_false
  | writeHeader tag valueLength => exact iff_of_true (sound_writeHeader tag valueLength) not_false

end Call

section Samples

/-- A primitive object under the number of a sequence, and a destination. -/
def primitiveSample : Memory := fun array => if array = 0 then [0x10, 0x00] else List.replicate 4 0

/-- A bit string whose contents have one octet too many for a length, and a destination. -/
def longSample : Memory := fun _ => List.replicate 65535 0

/-- A sequence that the validation refuses, and a bit string without a header. -/
theorem sequence_refused_bits_headless :
    ¬Call.Sound primitiveSample 1 0 4 (.primitiveSequence ⟨0, 0, 2⟩) ∧
      ¬Call.Sound longSample 1 0 65535 (.bitString 0 ⟨0, 0, 65535⟩) := by
  constructor
  · rw [Call.sound_primitiveSequence, not_not]
    refine ⟨⟨by decide, by decide, by decide, by decide, by decide⟩, [⟨0x10, []⟩], by decide, ?_, ⟨0x10, []⟩, by simp, .inl rfl⟩
    intro o ho
    rw [List.mem_singleton] at ho
    subst ho
    exact ⟨⟨by decide, by decide⟩, by decide⟩
  · have hSize : (longSample 0).length = 65535 := List.length_replicate
    have hRange : contains (longSample 0).length 0 65535 := by
      rw [hSize]
      decide
    have hBits (rest : List Byte) : canonicalBits (UInt8.ofInt 0 :: rest) = true := by
      rw [canonicalBits]
      exact decide_eq_true ⟨by decide, .inl (by decide)⟩
    rw [Call.sound_bitString, not_not]
    exact ⟨⟨hRange, by decide, by decide, hBits _⟩, le_rfl, hRange, le_rfl⟩

end Samples

end MicroCard.Tlv
