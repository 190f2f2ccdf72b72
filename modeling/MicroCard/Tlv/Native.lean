import MicroCard.Library.BerTlv
import MicroCard.Mc04.Heap

/-! The card's reader of tagged objects, and the native service that stores what it found. -/
namespace MicroCard.Tlv

open Bytes Halting

/-- The five integers of an object that was read, in the order of the result array. -/
structure Reading where
  tag : Nat
  headerLength : Nat
  valueOffset : Nat
  valueLength : Nat
  nextOffset : Nat
  deriving DecidableEq, Repr

/-- The offsets of a reading count from the start of the array instead of the range. -/
def Reading.shift (reading : Reading) (offset : Nat) : Reading :=
  { reading with valueOffset := reading.valueOffset + offset, nextOffset := reading.nextOffset + offset }

def Reading.fields (reading : Reading) : List Nat :=
  [reading.tag, reading.headerLength, reading.valueOffset, reading.valueLength, reading.nextOffset]

namespace Native

/-- Decode a minimal definite length of at most 65535 bytes. Values may follow later. -/
def length (input : List Byte) : Option (Nat × Nat) := do
  let first ← input[0]?
  if first ≤ 0x7f then some (first.toNat, 1)
  else if first = 0x81 then do
    let value := (← input[1]?).toNat
    if 128 ≤ value then some (value, 2) else none
  else if first = 0x82 then do
    let value := (← input[1]?).toNat <<< 8 ||| (← input[2]?).toNat
    if 256 ≤ value then some (value, 3) else none
  else none

/-- The tag that starts with the first byte, and how many bytes it takes. -/
def identifier (input : List Byte) (first : Byte) : Option (Nat × Nat) :=
  let tag := first.toNat
  if first &&& 31 = 31 then do
    let next ← input[1]?
    if next &&& 127 = 0 then none
    else
      let tag := tag <<< 8 ||| next.toNat
      if next &&& 128 ≠ 0 then do
        let last ← input[2]?
        if last &&& 128 ≠ 0 then none else some (tag <<< 8 ||| last.toNat, 3)
      else if next < 31 then none
      else some (tag, 2)
  else some (tag, 1)

/-- The groups of an object identifier. -/
def groups : Bool → List Byte → Bool
  | first, [] => first
  | first, byte :: rest => if first ∧ byte = 128 then false else groups (byte &&& 128 = 0) rest

def canonicalValue (tag : Nat) (value : List Byte) : Bool :=
  match tag with
  | 1 => value = [0] ∨ value = [255]
  | 2 =>
      match value with
      | [] => false
      | first :: second :: _ => ¬(first = 0 ∧ second &&& 128 = 0 ∨ first = 255 ∧ second &&& 128 ≠ 0)
      | _ => true
  | 3 =>
      match value with
      | unused :: rest =>
          if unused ≤ 7 then unused = 0 ∨ rest ≠ [] ∧ value.getLastD 0 &&& ((1 <<< unused) - 1) = 0 else false
      | [] => false
  | 5 => value = []
  | 6 => if value = [] then false else groups true value
  | _ => true

/-- Read one object; offsets are relative to the bounded input. The canonical form of a
primitive is checked, the contents of a constructed object are not. -/
def read (input : List Byte) (der : Bool) : Option Reading := do
  let first ← input[0]?
  guard (first ≠ 0)
  let (tag, cursor) ← identifier input first
  let number := first &&& 31
  guard ¬(der ∧ cursor = 1 ∧ first &&& 0xc0 = 0 ∧ (number = 0 ∨ (1 ≤ number ∧ number ≤ 6) ∧ first &&& 32 ≠ 0 ∨
    (number = 16 ∨ number = 17) ∧ first &&& 32 = 0))
  let (size, octets) ← length (input.drop cursor)
  let cursor := cursor + octets
  let stop := cursor + size
  guard (stop ≤ input.length)
  let value := (input.drop cursor).take size
  guard ¬(der ∧ canonicalValue tag value = false)
  some ⟨tag, cursor, cursor, size, stop⟩

end Native

section Service

open Mc04

/-- What a native call may use and what it may still spend. -/
structure NativeHost where
  capabilities : List Byte
  budget : Nat
  deriving DecidableEq, Repr

def tlvTryRead : Byte := 54

namespace NativeHost

def charge (host : NativeHost) (id : Byte) (bytes : Nat) : Checked NativeHost := do
  refuseIf (id ∉ host.capabilities) .unauthorized
  refuseIf (host.budget < bytes + 1) .budget
  pure { host with budget := host.budget - (bytes + 1) }

/-- `usize::try_from`. -/
def unsigned (value : Int32) : Option Nat := if 0 ≤ value.toInt then some value.toInt.toNat else none

/-- The service reads an object out of a range of a byte array and stores five integers. -/
def readTlv (host : NativeHost) (heap : Heap) (input : RuntimeValue) (offset length : Int32) (result : RuntimeValue)
    (resultOffset : Int32) (der : Bool) : Checked (Bool × Heap × NativeHost) := do
  let host ← host.charge tlvTryRead 0
  match unsigned offset, unsigned length, unsigned resultOffset with
  | some offset, some length, some resultOffset => do
      let bytes ← heap.bytes input
      match byteRange bytes.length offset length with
      | none => pure (false, heap, host)
      | some _ => do
          let room ← heap.intLength result
          match byteRange room resultOffset 5 with
          | none => pure (false, heap, host)
          | some _ => do
              refuseIf (host.budget < length) .budget
              let host := { host with budget := host.budget - length }
              match Native.read ((bytes.drop offset).take length) der with
              | none => pure (false, heap, host)
              | some reading => do
                  let heap ← heap.writeInts result resultOffset ((reading.shift offset).fields.map Int32.ofNat)
                  pure (true, heap, host)
  | _, _, _ => pure (false, heap, host)

end NativeHost

end Service

section Meaning

open BerTlv

theorem and_masked (b : Byte) : (b &&& 31).toNat = b.toNat % 32 ∧ (b &&& 127).toNat = b.toNat % 128 ∧
    (b &&& 128 = 0 ↔ b.toNat < 128) ∧ (b &&& 32 = 0 ↔ b.toNat / 32 % 2 = 0) ∧ (b &&& 0xc0 = 0 ↔ b.toNat < 64) := by
  have hAll : ∀ n : Fin 256, (UInt8.ofNat n.1 &&& 31).toNat = n.1 % 32 ∧ (UInt8.ofNat n.1 &&& 127).toNat = n.1 % 128 ∧
      (UInt8.ofNat n.1 &&& 128 = 0 ↔ n.1 < 128) ∧ (UInt8.ofNat n.1 &&& 32 = 0 ↔ n.1 / 32 % 2 = 0) ∧
      (UInt8.ofNat n.1 &&& 0xc0 = 0 ↔ n.1 < 64) := by decide +kernel
  have hByte := hAll ⟨b.toNat, b.toNat_lt⟩
  simpa only [UInt8.ofNat_toNat] using hByte

theorem eq_iff_toNat {b : Byte} {n : Nat} (h : n < 256) : b = UInt8.ofNat n ↔ b.toNat = n := by
  rw [← UInt8.toNat_inj, UInt8.toNat_ofNat', Nat.mod_eq_of_lt h]

/-- Shifting in one more octet. -/
theorem shift_or (n : Nat) (b : Byte) : n <<< 8 ||| b.toNat = n * 256 + b.toNat := by
  rw [← Nat.shiftLeft_add_eq_or_of_lt b.toNat_lt, Nat.shiftLeft_eq]

theorem Native.identifier_split {first : Byte} (hFirst : first ≠ 0) (rest : List Byte) :
    splitTag (first :: rest) =
      (identifier (first :: rest) first).map fun read => (read.1, (first :: rest).drop read.2) := by
  have hNonzero : first.toNat ≠ 0 := fun h => hFirst ((eq_iff_toNat (by decide)).2 h)
  have hLong : first &&& 31 = 31 ↔ first.toNat % 32 = 31 := by
    rw [← (and_masked first).1]
    exact eq_iff_toNat (n := 31) (by decide)
  by_cases hShort : first.toNat % 32 = 31
  · cases rest with
    | nil => simp [splitTag, identifier, hNonzero, hShort, hLong]
    | cons next rest =>
        obtain ⟨-, hUsed, hMarked, -⟩ := and_masked next
        have hUnused : next &&& 127 = 0 ↔ next.toNat % 128 = 0 := by
          rw [← hUsed]
          exact eq_iff_toNat (n := 0) (by decide)
        have hMinimal : next < 31 ↔ next.toNat < 31 := UInt8.lt_iff_toNat_lt
        cases rest with
        | nil =>
            simp only [splitTag, identifier, hNonzero, hShort, hLong, if_false, if_true, not_true, ne_eq,
              List.getElem?_cons_succ, List.getElem?_cons_zero, Option.bind_eq_bind, Option.bind_some, hUnused, hMarked,
              hMinimal, shift_or]
            split_ifs <;> simp_all
        | cons last rest =>
            obtain ⟨-, -, hLast, -⟩ := and_masked last
            simp only [splitTag, identifier, hNonzero, hShort, hLong, if_false, if_true, not_true, ne_eq,
              List.getElem?_cons_succ, List.getElem?_cons_zero, Option.bind_eq_bind, Option.bind_some, hUnused, hMarked,
              hMinimal, shift_or, hLast]
            split_ifs <;> simp_all
  · simp [splitTag, identifier, hNonzero, hShort, hLong]

theorem Native.length_split (input : List Byte) :
    splitLength input = (length input).map fun read => (read.1, input.drop read.2) := by
  cases input with
  | nil => rfl
  | cons first rest =>
      have hShort : first ≤ 0x7f ↔ first.toNat < 128 := by
        rw [UInt8.le_iff_toNat_le]
        exact Nat.lt_succ_iff.symm
      simp only [splitLength, length, List.getElem?_cons_zero, Option.bind_eq_bind, Option.bind_some, hShort,
        List.getElem?_cons_succ]
      split_ifs with hOne hTwo hThree
      · rfl
      · cases rest with
        | nil => rfl
        | cons n rest =>
            simp only [List.getElem?_cons_zero, Option.bind_some]
            split_ifs <;> rfl
      · rcases rest with - | ⟨high, - | ⟨low, rest⟩⟩
        · rfl
        · rfl
        · simp only [List.getElem?_cons_zero, List.getElem?_cons_succ, Option.bind_some, shift_or]
          split_ifs <;> rfl
      · rfl

theorem Native.groups_canonical (first : Bool) (value : List Byte) : groups first value = canonicalGroups first value := by
  induction value generalizing first with
  | nil => rfl
  | cons byte rest ih =>
      have hEnds : decide (byte &&& 128 = 0) = decide (byte.toNat < 128) := decide_eq_decide.2 (and_masked byte).2.2.1
      by_cases hPadded : first = true ∧ byte = 128
      · simp [groups, canonicalGroups, hPadded]
      · simp only [groups, canonicalGroups, if_neg hPadded, ih, hEnds]
        simp [hPadded]

/-- The bits under a mask of so many ones. -/
theorem and_ones (last : Byte) {unused : Byte} (h : unused.toNat ≤ 7) :
    last &&& ((1 <<< unused) - 1) = 0 ↔ last.toNat % 2 ^ unused.toNat = 0 := by
  have hMask : ∀ n : Fin 8, (1 : Byte) <<< UInt8.ofNat n.1 - 1 = UInt8.ofNat (2 ^ n.1 - 1) := by decide
  have hThis := hMask ⟨unused.toNat, by omega⟩
  rw [UInt8.ofNat_toNat] at hThis
  rw [hThis, ← and_mod_low (by omega)]
  exact eq_iff_toNat (n := 0) (by decide)

theorem Native.value_canonical (tag : Nat) (value : List Byte) :
    canonicalValue tag value = BerTlv.canonicalValue tag value := by
  unfold canonicalValue BerTlv.canonicalValue
  split
  · rfl
  · match value with
    | [] => rfl
    | [_] => rfl
    | first :: second :: rest =>
        have hMarked := (and_masked second).2.2.1
        simp only [BerTlv.canonicalInteger, hMarked, ne_eq, not_lt]
  · cases value with
    | nil => rfl
    | cons unused rest =>
        have hFew : unused ≤ 7 ↔ unused.toNat ≤ 7 := UInt8.le_iff_toNat_le
        have hNone : unused = 0 ↔ unused.toNat = 0 := eq_iff_toNat (n := 0) (by decide)
        simp only [BerTlv.canonicalBits, hFew, hNone]
        split_ifs with hBound
        · cases hLast : rest.getLast? with
          | none =>
              rw [List.getLast?_eq_none_iff] at hLast
              simp [hBound, hLast]
          | some last =>
              have hRest : rest ≠ [] := by
                intro hNil
                rw [hNil] at hLast
                cases hLast
              have hGet : (unused :: rest).getLastD 0 = last := by
                rw [List.getLastD_eq_getLast?, List.getLast?_cons, hLast]
                rfl
              simp only [hGet, and_ones last hBound]
              simp [hBound, hRest]
        · simp [hBound]
  · rfl
  · cases value with
    | nil => rfl
    | cons b rest =>
        rw [if_neg (List.cons_ne_nil b rest), groups_canonical]
        simp
  · first
      | rfl
      | (split <;> simp_all)

/-- The check of the universal tags before the length is read. -/
theorem form_canonical (first : Byte) :
    (first &&& 0xc0 = 0 ∧ (first &&& 31 = 0 ∨ (1 ≤ first &&& 31 ∧ first &&& 31 ≤ 6) ∧ first &&& 32 ≠ 0 ∨
      (first &&& 31 = 16 ∨ first &&& 31 = 17) ∧ first &&& 32 = 0)) ↔ canonicalForm first.toNat = false := by
  have hAll : ∀ n : Fin 256, (UInt8.ofNat n.1 &&& 0xc0 = 0 ∧ (UInt8.ofNat n.1 &&& 31 = 0 ∨
      (1 ≤ UInt8.ofNat n.1 &&& 31 ∧ UInt8.ofNat n.1 &&& 31 ≤ 6) ∧ UInt8.ofNat n.1 &&& 32 ≠ 0 ∨
      (UInt8.ofNat n.1 &&& 31 = 16 ∨ UInt8.ofNat n.1 &&& 31 = 17) ∧ UInt8.ofNat n.1 &&& 32 = 0)) ↔
        canonicalForm n.1 = false := by decide +kernel
  simpa only [UInt8.ofNat_toNat] using hAll ⟨first.toNat, first.toNat_lt⟩

/-- What there is to say of an object at the start of a range. -/
def Reading.of (o : Object) : Reading :=
  ⟨o.tag, o.headerBytes.length, o.headerBytes.length, o.value.length, o.bytes.length⟩

/-- The identifier was read to where its octets end, and only the tags of one octet are below 256. -/
theorem Native.identifier_sound {first : Byte} {rest : List Byte} (hFirst : first ≠ 0) {tag cursor : Nat}
    (h : identifier (first :: rest) first = some (tag, cursor)) :
    cursor = (tagBytes tag).length ∧ (canonicalForm tag = false ↔ cursor = 1 ∧ canonicalForm first.toNat = false) := by
  have hNonzero : 0 < first.toNat := by
    apply Nat.pos_of_ne_zero
    exact fun hZero => hFirst ((eq_iff_toNat (n := 0) (by decide)).2 hZero)
  have hLonger {n : Nat} (hLow : 256 ≤ n) : canonicalForm n = true := by
    simp only [canonicalForm, decide_eq_true_eq]
    exact .inl (by omega)
  simp only [identifier, shift_or] at h
  split_ifs at h with hLong
  · obtain ⟨next, -, h⟩ := Option.bind_eq_some_iff.1 h
    split_ifs at h with hUnused hMarked hMinimal
    · obtain ⟨last, -, h⟩ := Option.bind_eq_some_iff.1 h
      split_ifs at h
      obtain ⟨rfl, rfl⟩ := Prod.mk.inj (Option.some.inj h)
      rw [tagBytes_three next last hNonzero, hLonger (by omega)]
      simp
    · obtain ⟨rfl, rfl⟩ := Prod.mk.inj (Option.some.inj h)
      rw [tagBytes_two next hNonzero, hLonger (by omega)]
      simp
  · obtain ⟨rfl, rfl⟩ := Prod.mk.inj (Option.some.inj h)
    rw [tagBytes_one]
    simp

theorem Native.length_sound {input : List Byte} {size octets : Nat} (h : length input = some (size, octets)) :
    octets = (lengthBytes size).length := by
  rw [length_lengthBytes]
  obtain ⟨first, -, h⟩ := Option.bind_eq_some_iff.1 h
  split_ifs at h with hShort hOne hTwo
  · obtain ⟨rfl, rfl⟩ := Prod.mk.inj (Option.some.inj h)
    rw [UInt8.le_iff_toNat_le] at hShort
    exact (if_pos (Nat.lt_succ_of_le hShort)).symm
  · obtain ⟨n, -, h⟩ := Option.bind_eq_some_iff.1 h
    have hByte := n.toNat_lt
    dsimp only at h
    split_ifs at h with hMinimal
    obtain ⟨rfl, rfl⟩ := Prod.mk.inj (Option.some.inj h)
    rw [if_neg (by omega), if_pos hByte]
  · obtain ⟨high, -, h⟩ := Option.bind_eq_some_iff.1 h
    obtain ⟨low, -, h⟩ := Option.bind_eq_some_iff.1 h
    dsimp only at h
    split_ifs at h with hMinimal
    obtain ⟨rfl, rfl⟩ := Prod.mk.inj (Option.some.inj h)
    rw [if_neg (by omega), if_neg (by omega)]

theorem guard_bind {α : Type} (p : Prop) [Decidable p] (f : Unit → Option α) :
    (guard p : Option Unit).bind f = if p then f () else none := by
  by_cases hp : p
  · simp [hp]
  · simp [hp]

/-- The form and the value are checked one after the other. -/
theorem two_checks (der : Bool) (o : Object) :
    (if ¬(der = true ∧ canonicalForm o.tag = false) then
      if ¬(der = true ∧ BerTlv.canonicalValue o.tag o.value = false) then some (Reading.of o) else none
    else none) = Option.map Reading.of (if der = true ∧ ¬o.Canonical then none else some o) := by
  cases der with
  | false => simp
  | true =>
      by_cases hForm : canonicalForm o.tag = true
      · by_cases hValue : BerTlv.canonicalValue o.tag o.value = true
        · simp [Object.Canonical, hForm, hValue]
        · simp [Object.Canonical, hForm, hValue]
      · simp [Object.Canonical, hForm]

/-- The object in front of some octets, held to the distinguished rules when asked. -/
def find (octets : List Byte) (der : Bool) : Option Object :=
  (split octets).bind fun found => if der = true ∧ ¬found.1.Canonical then none else some found.1

theorem find_distinguished {octets : List Byte} {o : Object} :
    find octets true = some o ↔ ∃ rest, split octets = some (o, rest) ∧ o.Canonical := by
  simp only [find, true_and, Option.bind_eq_some_iff]
  constructor
  · rintro ⟨⟨o', rest⟩, hSplit, hFound⟩
    dsimp only at hFound
    split_ifs at hFound with hCanonical
    cases hFound
    exact ⟨rest, hSplit, hCanonical⟩
  · rintro ⟨rest, hSplit, hCanonical⟩
    exact ⟨(o, rest), hSplit, if_neg (not_not.2 hCanonical)⟩

/-- The card reads the object in front. -/
theorem Native.read_eq (input : List Byte) (der : Bool) : read input der = (find input der).map Reading.of := by
  rw [find]
  cases input with
  | nil => rfl
  | cons first rest =>
      by_cases hFirst : first = 0
      · subst hFirst
        rfl
      · have hTag := identifier_split hFirst rest
        simp only [read, split, List.getElem?_cons_zero, Option.bind_eq_bind, Option.bind_some, hTag]
        rw [guard_bind, if_pos hFirst]
        cases hRead : identifier (first :: rest) first with
        | none => rfl
        | some found =>
            obtain ⟨tag, cursor⟩ := found
            obtain ⟨hCursor, hForm⟩ := identifier_sound hFirst hRead
            rw [hRead, Option.map_some] at hTag
            have hFront := congrArg List.length (splitTag_sound hTag).2
            simp only [List.length_append, List.length_drop] at hFront
            have hLength := length_split ((first :: rest).drop cursor)
            simp only [Option.bind_some, Option.map_some, hLength]
            cases hSize : length ((first :: rest).drop cursor) with
            | none => simp
            | some found =>
                obtain ⟨size, octets⟩ := found
                have hOctets := length_sound hSize
                rw [hSize, Option.map_some] at hLength
                have hBehind := congrArg List.length (splitLength_sound hLength).2
                simp only [List.length_append, List.length_drop] at hBehind
                simp only [Option.bind_some, Option.map_some, guard_bind]
                have hNumber : (der = true ∧ cursor = 1 ∧ first &&& 192 = 0 ∧ (first &&& 31 = 0 ∨
                    (1 ≤ first &&& 31 ∧ first &&& 31 ≤ 6) ∧ first &&& 32 ≠ 0 ∨
                    (first &&& 31 = 16 ∨ first &&& 31 = 17) ∧ first &&& 32 = 0)) ↔
                      der = true ∧ canonicalForm tag = false := by
                  rw [hForm, form_canonical]
                have hFits : cursor + octets + size ≤ (first :: rest).length ↔
                    size ≤ ((first :: rest).drop (cursor + octets)).length := by
                  rw [List.length_drop]
                  omega
                simp only [hNumber, List.drop_drop, hFits, value_canonical]
                by_cases hRoom : size ≤ ((first :: rest).drop (cursor + octets)).length
                · have hValue : (((first :: rest).drop (cursor + octets)).take size).length = size :=
                    List.length_take_of_le hRoom
                  have hReading : Reading.of ⟨tag, ((first :: rest).drop (cursor + octets)).take size⟩ =
                      ⟨tag, cursor + octets, cursor + octets, size, cursor + octets + size⟩ := by
                    simp only [Reading.of, Object.bytes, Object.headerBytes, List.length_append, hValue, ← hCursor,
                      ← hOctets]
                  rw [if_pos hRoom, if_pos hRoom, ← hReading]
                  exact two_checks der ⟨tag, ((first :: rest).drop (cursor + octets)).take size⟩
                · simp only [hRoom, if_false, Option.bind_none, Option.map_none, ite_self]

end Meaning

end MicroCard.Tlv
