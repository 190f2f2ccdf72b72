import MicroCard.Card.Cbor

/-! Sequences of items. What an encoder writes is read back by every script that asks
for it, and whatever a script accepts is what an encoder would have written. -/
namespace MicroCard.Cbor

open Bytes CrashTriple Codec

section Text

/-- The bytes of a text. -/
def utf8 (text : String) : List Byte := text.toByteArray.data.toList

/-- `core::str::from_utf8`. -/
def fromUtf8 (bytes : List Byte) : Option String := String.fromUTF8? ⟨bytes.toArray⟩

theorem fromUtf8_eq {bytes : List Byte} {text : String} : fromUtf8 bytes = some text ↔ bytes = utf8 text := by
  unfold fromUtf8 String.fromUTF8? utf8
  constructor
  · intro h
    split at h
    · cases h
      rfl
    · cases h
  · intro h
    subst h
    exact dif_pos text.isValidUTF8

end Text

section Decoder

/-- Both signs share the argument; a negative number is counted down from minus one. -/
def integer : Decoder Int64 := do
  let remaining ← get
  let first ← orFail remaining.head? .format
  failIf (1 < first.toNat / 32) .format
  let value ← argument (first.toNat / 32)
  failIf (2 ^ 63 ≤ value) .format
  pure (Int64.ofInt (if first.toNat / 32 = 0 then (value : Int) else -1 - value))

def text (maximum : Nat) : Decoder String := do
  let length ← length 3 maximum
  let bytes ← take length
  orFail (fromUtf8 bytes) .format

def boolean : Decoder Bool := do
  let byte ← take 1
  if byte = [0xf4] then pure false
  else if byte = [0xf5] then pure true
  else throw .format

end Decoder

section Encoder

def Encoder.integer (value : Int64) : EncoderM Unit :=
  if 0 ≤ value.toInt then Encoder.argument 0 value.toInt.toNat else Encoder.argument 1 (-1 - value.toInt).toNat

def Encoder.text (text : String) : EncoderM Unit := do
  Encoder.argument 3 (utf8 text).length
  Encoder.append (utf8 text)

def Encoder.boolean (value : Bool) : EncoderM Unit := Encoder.append [if value then 0xf5 else 0xf4]

/-- Writes a byte string of this length in place. -/
abbrev Fill (length : Nat) := EStateM Error (Fixed length) Unit

/-- A fresh buffer. -/
def blank (length : Nat) : Fixed length := ⟨List.replicate length 0, List.length_replicate⟩

/-- Fill a byte string in the final encoding buffer. -/
def Encoder.filled (length : Nat) (fill : Fill length) : EncoderM Unit := do
  Encoder.argument 2 length
  let encoder ← get
  failIf (encoder.maximum - encoder.bytes.length < length) .quota
  match fill (blank length) with
  | .ok _ bytes => set { encoder with bytes := encoder.bytes ++ bytes.1 }
  | .error e _ => throw e

/-- A rejected fill removes the entire field. -/
def Encoder.bytesWith (length : Nat) (fill : Fill length) : EncoderM Unit := fun original =>
  match Encoder.filled length fill original with
  | .ok u encoder => .ok u encoder
  | .error e _ => .error e original

end Encoder

section Slice

/-- Writes a known-length nested record directly into its final byte string. -/
structure SliceEncoder where
  output : List Byte
  position : Nat

abbrev SliceM := EStateM Error SliceEncoder

namespace SliceEncoder

/-- The bytes in place of those from here on. -/
def written (encoder : SliceEncoder) (bytes : List Byte) : SliceEncoder :=
  ⟨encoder.output.take encoder.position ++ bytes ++ encoder.output.drop (encoder.position + bytes.length),
    encoder.position + bytes.length⟩

def append (bytes : List Byte) : SliceM Unit := do
  let encoder ← get
  failIf (encoder.output.length < encoder.position + bytes.length) .quota
  set (encoder.written bytes)

def argument (major value : Nat) : SliceM Unit := append (argumentBytes major value)

def array (length : Nat) : SliceM Unit := argument 4 length

def unsigned (value : Nat) : SliceM Unit := argument 0 value

/-- The next bytes of the output. -/
def window (encoder : SliceEncoder) (length : Nat) : List Byte :=
  (encoder.output.drop encoder.position).take length

/-- Fill the next bytes of the output, from what they held before. -/
def fillWindow (length : Nat) (fill : Fill length) : SliceM Unit := do
  let encoder ← get
  if h : (encoder.window length).length = length then
    match fill ⟨encoder.window length, h⟩ with
    | .ok _ bytes => set (encoder.written bytes.1)
    | .error e bytes => do
        set (encoder.written bytes.1)
        throw e
  else throw .quota

def bytesWith (length : Nat) (fill : Fill length) : SliceM Unit := do
  let encoder ← get
  failIf (encoder.output.length < encoder.position + argumentSize length + length) .quota
  argument 2 length
  fillWindow length fill

def finish (encoder : SliceEncoder) : Except Error Unit :=
  if encoder.position = encoder.output.length then .ok () else .error .format

end SliceEncoder

end Slice

section Items

/-- A byte string that fits the memory. -/
abbrev Slice := { bytes : List Byte // bytes.length < 2 ^ 64 }

abbrev Text := { text : String // (utf8 text).length < 2 ^ 64 }

/-- What an encoder is asked to write. There is no map head in this profile. -/
inductive Item where
  | unsigned (value : UInt64)
  | integer (value : Int64)
  | bytes (value : Slice)
  | text (value : Text)
  | array (length : UInt64)
  | boolean (value : Bool)
  | null

def Item.write : Item → EncoderM Unit
  | unsigned value => Encoder.unsigned value.toNat
  | integer value => Encoder.integer value
  | bytes value => Encoder.byteString value.1
  | text value => Encoder.text value.1
  | array length => Encoder.array length.toNat
  | boolean value => Encoder.boolean value
  | null => Encoder.null

def integerBytes (value : Int64) : List Byte :=
  if 0 ≤ value.toInt then argumentBytes 0 value.toInt.toNat else argumentBytes 1 (-1 - value.toInt).toNat

def textBytes (text : String) : List Byte := argumentBytes 3 (utf8 text).length ++ utf8 text

def booleanBytes (value : Bool) : List Byte := [if value then 0xf5 else 0xf4]

/-- The written form of an item. -/
def Item.form : Item → List Byte
  | unsigned value => unsignedBytes value.toNat
  | integer value => integerBytes value
  | bytes value => stringBytes value.1
  | text value => textBytes value.1
  | array length => arrayBytes length.toNat
  | boolean value => booleanBytes value
  | null => [0xf6]

end Items

section Calls

/-- The calls of a decoder. `number` asks for a type with this greatest value. -/
inductive Call where
  | unsigned
  | number (greatest : UInt64)
  | integer
  | fixed (count : UInt64)
  | bytes (maximum : UInt64)
  | text (maximum : UInt64)
  | array (maximum : UInt64)
  | record (fields : UInt64)
  | boolean
  | null

/-- No longer byte string exists. -/
def Slice.of (bytes : List Byte) : Slice := if h : bytes.length < 2 ^ 64 then ⟨bytes, h⟩ else ⟨[], by simp⟩

def Text.of (text : String) : Text := if h : (utf8 text).length < 2 ^ 64 then ⟨text, h⟩ else ⟨"", by simp [utf8]⟩

/-- What a call decodes. An absent null is no item. -/
def Call.read : Call → Decoder (Option Item)
  | unsigned => do
      let value ← Cbor.unsigned
      pure (some (.unsigned (UInt64.ofNat value)))
  | number greatest => do
      let value ← Cbor.number (greatest.toNat + 1)
      pure (some (.unsigned (UInt64.ofNat value)))
  | integer => do
      let value ← Cbor.integer
      pure (some (.integer value))
  | fixed count => do
      let value ← Cbor.fixed count.toNat
      pure (some (.bytes (Slice.of value.1)))
  | bytes maximum => do
      let value ← Cbor.bytes maximum.toNat
      pure (some (.bytes (Slice.of value)))
  | text maximum => do
      let value ← Cbor.text maximum.toNat
      pure (some (.text (Text.of value)))
  | array maximum => do
      let length ← Cbor.array maximum.toNat
      pure (some (.array (UInt64.ofNat length)))
  | record fields => do
      Cbor.record fields.toNat
      pure (some (.array fields))
  | boolean => do
      let value ← Cbor.boolean
      pure (some (.boolean value))
  | null => do
      let present ← Cbor.null
      pure (if present then some .null else none)

/-- The call asks for an item of this kind and this size. -/
def Call.Admits : Call → Item → Prop
  | unsigned, .unsigned _ => True
  | number greatest, .unsigned value => value ≤ greatest
  | integer, .integer _ => True
  | fixed count, .bytes value => value.1.length = count.toNat
  | bytes maximum, .bytes value => value.1.length ≤ maximum.toNat
  | text maximum, .text value => (utf8 value.1).length ≤ maximum.toNat
  | array maximum, .array length => length ≤ maximum
  | record fields, .array length => length = fields
  | boolean, .boolean _ => True
  | null, .null => True
  | _, _ => False

end Calls

section Reading

theorem array_ok (maximum : Nat) {count : Nat} {input rest : List Byte} (h : maximum < 2 ^ 64) :
    array maximum input = .ok count rest ↔ count ≤ maximum ∧ input = arrayBytes count ++ rest :=
  length_ok 4 maximum (by decide) h

theorem text_ok (maximum : Nat) {value : String} {input rest : List Byte} (h : maximum < 2 ^ 64) :
    text maximum input = .ok value rest ↔ (utf8 value).length ≤ maximum ∧ input = textBytes value ++ rest := by
  simp only [text, bind_ok, length_ok 3 maximum (by decide) h, take_ok, orFail_ok, fromUtf8_eq]
  constructor
  · rintro ⟨_, _, ⟨hLe, rfl⟩, _, _, ⟨rfl, rfl⟩, rfl, rfl⟩
    exact ⟨hLe, by rw [textBytes, List.append_assoc]⟩
  · rintro ⟨hLe, rfl⟩
    exact ⟨_, _, ⟨hLe, by rw [textBytes, List.append_assoc]⟩, _, _, ⟨rfl, rfl⟩, rfl, rfl⟩

theorem boolean_ok {value : Bool} {input rest : List Byte} :
    boolean input = .ok value rest ↔ input = booleanBytes value ++ rest := by
  simp only [boolean, bind_ok, take_ok]
  constructor
  · rintro ⟨byte, _, ⟨-, rfl⟩, hRun⟩
    split at hRun
    · rename_i hFalse
      obtain ⟨rfl, rfl⟩ := pure_ok.1 hRun
      rw [hFalse]
      rfl
    · split at hRun
      · rename_i hTrue
        obtain ⟨rfl, rfl⟩ := pure_ok.1 hRun
        rw [hTrue]
        rfl
      · exact (throw_ok.1 hRun).elim
  · rintro rfl
    refine ⟨booleanBytes value, rest, ⟨rfl, rfl⟩, ?_⟩
    cases value with
    | false => exact pure_ok.2 ⟨rfl, rfl⟩
    | true => exact pure_ok.2 ⟨rfl, rfl⟩

/-- The initial byte tells the major type. -/
theorem argumentBytes_major {major value : Nat} (hMajor : major < 8) (hValue : value < 2 ^ 64) :
    ∃ first rest, argumentBytes major value = first :: rest ∧ first.toNat / 32 = major := by
  refine ⟨_, _, rfl, ?_⟩
  have hExtra := (form_of_lt hValue).additional_le
  rw [initial_toNat major hMajor (by omega)]
  omega

/-- The sign of a number and what its argument stands for. -/
theorem integerBytes_cases (value : Int64) :
    ∃ major n, major ≤ 1 ∧ n < 2 ^ 63 ∧ integerBytes value = argumentBytes major n ∧
      value.toInt = if major = 0 then (n : Int) else -1 - n := by
  have hLow := value.le_toInt
  have hHigh := value.toInt_lt
  unfold integerBytes
  split
  · exact ⟨0, value.toInt.toNat, by decide, by omega, rfl, by rw [if_pos rfl]; omega⟩
  · exact ⟨1, (-1 - value.toInt).toNat, by decide, by omega, rfl, by rw [if_neg (by decide)]; omega⟩

theorem integerBytes_of {major n : Nat} (hMajor : major ≤ 1) (hn : n < 2 ^ 63) :
    integerBytes (Int64.ofInt (if major = 0 then (n : Int) else -1 - n)) = argumentBytes major n := by
  unfold integerBytes
  rcases Nat.le_one_iff_eq_zero_or_eq_one.1 hMajor with rfl | rfl
  · rw [if_pos rfl, Int64.toInt_ofInt_of_le (by omega) (by omega), if_pos (by omega), Int.toNat_natCast]
  · rw [if_neg Nat.one_ne_zero, Int64.toInt_ofInt_of_le (by omega) (by omega), if_neg (by omega)]
    congr 1
    omega

theorem integer_ok {value : Int64} {input rest : List Byte} :
    integer input = .ok value rest ↔ input = integerBytes value ++ rest := by
  simp only [integer, bind_ok, get_ok, orFail_ok, failIf_ok, pure_ok, not_lt, not_le]
  constructor
  · rintro ⟨_, _, ⟨rfl, rfl⟩, first, _, ⟨hFirst, rfl⟩, _, _, ⟨hMajor, rfl⟩, n, _, hArgument, _, _, ⟨hn, rfl⟩, rfl, rfl⟩
    rw [argument_ok (by omega)] at hArgument
    rw [integerBytes_of hMajor hn]
    exact hArgument.2
  · rintro rfl
    obtain ⟨major, n, hMajor, hn, hBytes, hValue⟩ := integerBytes_cases value
    obtain ⟨first, tail, hSplit, hFirst⟩ := argumentBytes_major (show major < 8 by omega) (show n < 2 ^ 64 by omega)
    refine ⟨_, _, ⟨rfl, rfl⟩, first, _, ⟨?_, rfl⟩, (), _, ⟨by omega, rfl⟩, n, rest, ?_, (), _, ⟨hn, rfl⟩, ?_, rfl⟩
    · rw [hBytes, hSplit]
      rfl
    · rw [hFirst, argument_ok (by omega), hBytes]
      exact ⟨by omega, rfl⟩
    · rw [hFirst, ← hValue, Int64.ofInt_toInt]

theorem null_ok {present : Bool} {input rest : List Byte} :
    null input = .ok present rest ↔
      (present = true ∧ input = 0xf6 :: rest) ∨ (present = false ∧ input.head? ≠ some 0xf6 ∧ rest = input) := by
  simp only [null, bind_ok, get_ok]
  constructor
  · rintro ⟨_, _, ⟨rfl, rfl⟩, hRun⟩
    split at hRun
    · rename_i hHead
      obtain ⟨tail, rfl⟩ := List.head?_eq_some_iff.1 hHead
      simp only [bind_ok, set_ok, pure_ok] at hRun
      obtain ⟨_, _, rfl, rfl, rfl⟩ := hRun
      exact .inl ⟨rfl, rfl⟩
    · rename_i hHead
      obtain ⟨rfl, rfl⟩ := pure_ok.1 hRun
      exact .inr ⟨rfl, hHead, rfl⟩
  · rintro (⟨rfl, rfl⟩ | ⟨rfl, hHead, rfl⟩)
    · refine ⟨_, _, ⟨rfl, rfl⟩, ?_⟩
      rw [if_pos List.head?_cons]
      exact bind_ok.2 ⟨⟨⟩, rest, set_ok.2 rfl, pure_ok.2 ⟨rfl, rfl⟩⟩
    · refine ⟨_, _, ⟨rfl, rfl⟩, ?_⟩
      rw [if_neg hHead]
      exact pure_ok.2 ⟨rfl, rfl⟩

theorem Slice.of_eq (value : Slice) : Slice.of value.1 = value := dif_pos value.2

theorem Text.of_eq (value : Text) : Text.of value.1 = value := dif_pos value.2

theorem Slice.of_val {bytes : List Byte} (h : bytes.length < 2 ^ 64) : (Slice.of bytes).1 = bytes := by
  rw [Slice.of, dif_pos h]

theorem Text.of_val {text : String} (h : (utf8 text).length < 2 ^ 64) : (Text.of text).1 = text := by
  rw [Text.of, dif_pos h]

/-- A call with an exact reader behind it decodes exactly the items it admits. -/
theorem read_exact {α : Type} {read : Decoder α} {write : α → List Byte} {Admitted : α → Prop} (make : α → Item)
    {input rest : List Byte} {item : Item} (hExact : Exact read write Admitted)
    (hForm : ∀ a, Admitted a → (make a).form = write a) {Expected : Item → Prop}
    (hExpected : Expected item ↔ ∃ a, Admitted a ∧ make a = item) :
    (read >>= fun a => pure (some (make a))) input = .ok (some item) rest ↔
      Expected item ∧ input = item.form ++ rest := by
  rw [hExpected]
  simp only [bind_ok, pure_ok, Option.some.injEq, hExact _ _ _]
  constructor
  · rintro ⟨a, _, ⟨ha, rfl⟩, rfl, rfl⟩
    exact ⟨⟨a, ha, rfl⟩, by rw [hForm a ha]⟩
  · rintro ⟨⟨a, ha, rfl⟩, rfl⟩
    exact ⟨a, rest, ⟨ha, by rw [hForm a ha]⟩, rfl, rfl⟩

/-- A call decodes an item exactly when the item is written there and the call admits
it. -/
theorem Call.read_some {call : Call} {item : Item} {input rest : List Byte} :
    call.read input = .ok (some item) rest ↔ call.Admits item ∧ input = item.form ++ rest := by
  cases call with
  | unsigned =>
      apply read_exact (fun value => .unsigned (UInt64.ofNat value)) fun _ _ _ => unsigned_ok
      · intro value h
        rw [Item.form, UInt64.toNat_ofNat', Nat.mod_eq_of_lt h]
      · cases item with
        | unsigned value => exact ⟨fun _ => ⟨value.toNat, value.toNat_lt, by simp⟩, fun _ => trivial⟩
        | _ => exact ⟨False.elim, fun ⟨_, _, h⟩ => (nomatch h)⟩
  | number greatest =>
      apply read_exact (fun value => .unsigned (UInt64.ofNat value)) fun _ _ _ => number_ok _ greatest.toNat_lt
      · intro value h
        have := greatest.toNat_lt
        rw [Item.form, UInt64.toNat_ofNat', Nat.mod_eq_of_lt (by omega)]
      · cases item with
        | unsigned value =>
            constructor
            · intro hLe
              exact ⟨value.toNat, Nat.lt_succ_of_le hLe, by simp⟩
            · rintro ⟨n, hn, hEq⟩
              injection hEq with hEq
              subst hEq
              have := greatest.toNat_lt
              show (UInt64.ofNat n).toNat ≤ greatest.toNat
              rw [UInt64.toNat_ofNat', Nat.mod_eq_of_lt (by omega)]
              omega
        | _ => exact ⟨False.elim, fun ⟨_, _, h⟩ => (nomatch h)⟩
  | integer =>
      have hExact : Exact Cbor.integer integerBytes fun _ => True := by
        intro input value rest
        rw [integer_ok, true_and]
      apply read_exact (fun value => .integer value) hExact fun _ _ => rfl
      cases item with
      | integer value => exact ⟨fun _ => ⟨value, trivial, rfl⟩, fun _ => trivial⟩
      | _ => exact ⟨False.elim, fun ⟨_, _, h⟩ => (nomatch h)⟩
  | fixed count =>
      have hExact : Exact (Cbor.fixed count.toNat) (fun value => stringBytes value.1) fun _ => True := by
        intro input value rest
        rw [fixed_ok _ count.toNat_lt, true_and]
      have hVal : ∀ value : Fixed count.toNat, (Slice.of value.1).1 = value.1 :=
        fun value => Slice.of_val (lt_of_eq_of_lt value.2 count.toNat_lt)
      apply read_exact (fun value => .bytes (Slice.of value.1)) hExact
      · intro value _
        rw [Item.form, hVal]
      · cases item with
        | bytes value =>
            constructor
            · intro hLength
              exact ⟨⟨value.1, hLength⟩, trivial, congrArg Item.bytes (Slice.of_eq value)⟩
            · rintro ⟨bytes, -, hEq⟩
              injection hEq with hEq
              subst hEq
              rw [Admits, hVal]
              exact bytes.2
        | _ => exact ⟨False.elim, fun ⟨_, _, h⟩ => (nomatch h)⟩
  | bytes maximum =>
      have hMaximum := maximum.toNat_lt
      apply read_exact (fun value => .bytes (Slice.of value)) fun _ _ _ => bytes_ok _ hMaximum
      · intro value h
        rw [Item.form, Slice.of_val (Nat.lt_of_le_of_lt h hMaximum)]
      · cases item with
        | bytes value =>
            constructor
            · exact fun hLe => ⟨value.1, hLe, congrArg Item.bytes (Slice.of_eq value)⟩
            · rintro ⟨bytes, hLe, hEq⟩
              injection hEq with hEq
              subst hEq
              rw [Admits, Slice.of_val (Nat.lt_of_le_of_lt hLe hMaximum)]
              exact hLe
        | _ => exact ⟨False.elim, fun ⟨_, _, h⟩ => (nomatch h)⟩
  | text maximum =>
      have hMaximum := maximum.toNat_lt
      apply read_exact (fun value => .text (Text.of value)) fun _ _ _ => text_ok _ hMaximum
      · intro value h
        rw [Item.form, Text.of_val (Nat.lt_of_le_of_lt h hMaximum)]
      · cases item with
        | text value =>
            constructor
            · exact fun hLe => ⟨value.1, hLe, congrArg Item.text (Text.of_eq value)⟩
            · rintro ⟨text, hLe, hEq⟩
              injection hEq with hEq
              subst hEq
              rw [Admits, Text.of_val (Nat.lt_of_le_of_lt hLe hMaximum)]
              exact hLe
        | _ => exact ⟨False.elim, fun ⟨_, _, h⟩ => (nomatch h)⟩
  | array maximum =>
      have hMaximum := maximum.toNat_lt
      apply read_exact (fun count => .array (UInt64.ofNat count)) fun _ _ _ => array_ok _ hMaximum
      · intro count h
        rw [Item.form, UInt64.toNat_ofNat', Nat.mod_eq_of_lt (Nat.lt_of_le_of_lt h hMaximum)]
      · cases item with
        | array count =>
            constructor
            · exact fun hLe => ⟨count.toNat, hLe, by simp⟩
            · rintro ⟨n, hn, hEq⟩
              injection hEq with hEq
              subst hEq
              show (UInt64.ofNat n).toNat ≤ maximum.toNat
              rw [UInt64.toNat_ofNat', Nat.mod_eq_of_lt (Nat.lt_of_le_of_lt hn hMaximum)]
              exact hn
        | _ => exact ⟨False.elim, fun ⟨_, _, h⟩ => (nomatch h)⟩
  | record fields =>
      have hExact : Exact (Cbor.record fields.toNat) (fun _ => arrayBytes fields.toNat) fun _ => True := by
        intro input value rest
        rw [record_ok _ fields.toNat_lt, true_and]
      apply read_exact (fun _ => .array fields) hExact fun _ _ => rfl
      cases item with
      | array count =>
          constructor
          · exact fun hEq => ⟨(), trivial, congrArg Item.array (Eq.symm hEq)⟩
          · rintro ⟨_, -, hEq⟩
            injection hEq with hEq
            exact hEq.symm
      | _ => exact ⟨False.elim, fun ⟨_, _, h⟩ => (nomatch h)⟩
  | boolean =>
      have hExact : Exact Cbor.boolean booleanBytes fun _ => True := by
        intro input value rest
        rw [boolean_ok, true_and]
      apply read_exact (fun value => .boolean value) hExact fun _ _ => rfl
      cases item with
      | boolean value => exact ⟨fun _ => ⟨value, trivial, rfl⟩, fun _ => trivial⟩
      | _ => exact ⟨False.elim, fun ⟨_, _, h⟩ => (nomatch h)⟩
  | null =>
      simp only [read, bind_ok, pure_ok, null_ok]
      constructor
      · rintro ⟨present, _, ⟨rfl, rfl⟩ | ⟨rfl, -, rfl⟩, hItem, rfl⟩
        · cases hItem
          exact ⟨trivial, rfl⟩
        · cases hItem
      · cases item with
        | null =>
            rintro ⟨-, rfl⟩
            exact ⟨true, rest, .inl ⟨rfl, rfl⟩, rfl, rfl⟩
        | _ => exact fun h => h.1.elim

/-- Only an absent null decodes to nothing. -/
theorem Call.read_none {call : Call} {input rest : List Byte} :
    call.read input = .ok none rest ↔ call = .null ∧ input.head? ≠ some 0xf6 ∧ rest = input := by
  constructor
  · intro h
    cases call with
    | null =>
        simp only [read, bind_ok, pure_ok, null_ok] at h
        obtain ⟨present, _, ⟨rfl, rfl⟩ | ⟨rfl, hHead, rfl⟩, hItem, rfl⟩ := h
        · cases hItem
        · exact ⟨rfl, hHead, rfl⟩
    | _ =>
        simp only [read, bind_ok, pure_ok, reduceCtorEq, false_and, and_false, exists_false] at h
  · rintro ⟨rfl, hHead, rfl⟩
    simp only [read, bind_ok, pure_ok, null_ok]
    exact ⟨false, _, .inr ⟨rfl, hHead, rfl⟩, rfl, rfl⟩

end Reading

section Scripts

/-- A decoder script: each call may depend on what was decoded before it. -/
inductive Script where
  | stop
  | call (call : Call) (next : Option Item → Script)

def Script.run : Script → Decoder (List Item)
  | stop => pure []
  | call asked next => do
      let item ← asked.read
      let rest ← (next item).run
      pure (item.toList ++ rest)

/-- The written form of a sequence of items. -/
def written (items : List Item) : List Byte := items.flatMap Item.form

/-- The script asks for these items, one after the other. Asking for a null where
there is another item, or none, decodes nothing. -/
inductive Asks : Script → List Item → Prop where
  | stop : Asks .stop []
  | item {asked : Call} {next : Option Item → Script} {item : Item} {rest : List Item} (admits : asked.Admits item)
      (others : Asks (next (some item)) rest) : Asks (.call asked next) (item :: rest)
  | skip {next : Option Item → Script} {items : List Item} (absent : items.head? ≠ some .null)
      (others : Asks (next none) items) : Asks (.call .null next) items

/-- Null starts with a byte of its own. -/
theorem argumentBytes_first {major value : Nat} (hMajor : major < 7) (hValue : value < 2 ^ 64) (rest : List Byte) :
    (argumentBytes major value ++ rest).head? ≠ some 0xf6 := by
  obtain ⟨first, tail, hSplit, hFirst⟩ := argumentBytes_major (by omega : major < 8) hValue
  rw [hSplit, List.cons_append, List.head?_cons, ne_eq, Option.some.injEq]
  rintro rfl
  have : (0xf6 : UInt8).toNat = 246 := rfl
  omega

theorem Item.form_first {item : Item} (h : item ≠ .null) (rest : List Byte) :
    (item.form ++ rest).head? ≠ some 0xf6 := by
  cases item with
  | unsigned value => exact argumentBytes_first (by decide) value.toNat_lt rest
  | integer value =>
      obtain ⟨major, n, hMajor, hn, hBytes, -⟩ := integerBytes_cases value
      rw [form, hBytes]
      exact argumentBytes_first (by omega) (by omega) rest
  | bytes value =>
      rw [form, stringBytes, List.append_assoc]
      exact argumentBytes_first (by decide) value.2 _
  | text value =>
      rw [form, textBytes, List.append_assoc]
      exact argumentBytes_first (by decide) value.2 _
  | array length => exact argumentBytes_first (by decide) length.toNat_lt rest
  | boolean value =>
      cases value with
      | false => exact fun hEq => absurd (Option.some.inj hEq) (by decide)
      | true => exact fun hEq => absurd (Option.some.inj hEq) (by decide)
  | null => exact absurd rfl h

theorem written_first {items : List Item} (h : items.head? ≠ some .null) : (written items).head? ≠ some 0xf6 := by
  cases items with
  | nil => exact fun hEq => (nomatch hEq)
  | cons item rest =>
      rw [written, List.flatMap_cons]
      apply Item.form_first
      exact fun hEq => h (by rw [hEq]; rfl)

/-- A script reads the written form of the items it asks for. -/
theorem run_written {script : Script} {items : List Item} (h : Asks script items) :
    script.run (written items) = .ok items [] := by
  induction h with
  | stop => rfl
  | @item asked next item rest admits _ ih =>
      simp only [Script.run, bind_ok, pure_ok]
      refine ⟨some item, written rest, ?_, rest, [], ih, rfl, rfl⟩
      exact Call.read_some.2 ⟨admits, rfl⟩
  | @skip next items absent _ ih =>
      simp only [Script.run, bind_ok, pure_ok]
      refine ⟨none, written items, ?_, items, [], ih, rfl, rfl⟩
      exact Call.read_none.2 ⟨rfl, written_first absent, rfl⟩

/-- Whatever a script accepts is the written form of what it decoded. -/
theorem run_ok {script : Script} {input rest : List Byte} {items : List Item} (h : script.run input = .ok items rest) :
    input = written items ++ rest := by
  induction script generalizing input items with
  | stop =>
      obtain ⟨rfl, rfl⟩ := pure_ok.1 h
      rfl
  | call asked next ih =>
      simp only [Script.run, bind_ok, pure_ok] at h
      obtain ⟨item, middle, hRead, others, _, hRest, rfl, rfl⟩ := h
      cases item with
      | none =>
          obtain ⟨-, -, rfl⟩ := Call.read_none.1 hRead
          exact ih none hRest
      | some item =>
          obtain ⟨-, rfl⟩ := Call.read_some.1 hRead
          rw [ih (some item) hRest, written, written, Option.toList_some, List.singleton_append, List.flatMap_cons,
            List.append_assoc]

end Scripts

section Encoding

/-- The program appends these bytes, or refuses them when they do not fit. -/
def Appends (program : EncoderM Unit) (output : List Byte) : Prop :=
  ∀ encoder : Encoder, encoder.bytes.length ≤ encoder.maximum →
    match program encoder with
    | .ok _ after => after = { encoder with bytes := encoder.bytes ++ output } ∧ after.bytes.length ≤ after.maximum
    | .error e _ => e = .quota ∧ encoder.maximum < encoder.bytes.length + output.length

theorem Appends.append (output : List Byte) : Appends (Encoder.append output) output := by
  intro encoder hWithin
  simp only [Encoder.append, bind, EStateM.bind, get, getThe, MonadStateOf.get, EStateM.get, failIf]
  by_cases hFull : encoder.maximum - encoder.bytes.length < output.length
  · rw [if_pos hFull]
    exact ⟨rfl, by omega⟩
  · rw [if_neg hFull]
    exact ⟨rfl, by simp only [List.length_append]; omega⟩

theorem Appends.bind {first second : EncoderM Unit} {output output' : List Byte} (hFirst : Appends first output)
    (hSecond : Appends second output') : Appends (first >>= fun _ => second) (output ++ output') := by
  intro encoder hWithin
  have h := hFirst encoder hWithin
  simp only [Bind.bind, EStateM.bind]
  cases hRun : first encoder with
  | error e after =>
      rw [hRun] at h
      exact ⟨h.1, by simp only [List.length_append]; omega⟩
  | ok u after =>
      rw [hRun] at h
      obtain ⟨rfl, hFits⟩ := h
      have h' := hSecond _ hFits
      simp only at h' ⊢
      split at h'
      · exact ⟨by rw [h'.1, List.append_assoc], h'.2⟩
      · refine ⟨h'.1, ?_⟩
        simp only [List.length_append] at h' ⊢
        omega

theorem Appends.integer (value : Int64) : Appends (Encoder.integer value) (integerBytes value) := by
  unfold Encoder.integer integerBytes
  split
  · exact Appends.append _
  · exact Appends.append _

theorem Item.appends (item : Item) : Appends item.write item.form := by
  cases item with
  | unsigned value => exact Appends.append _
  | integer value => exact Appends.integer value
  | bytes value => exact Appends.bind (Appends.append _) (Appends.append _)
  | text value => exact Appends.bind (Appends.append _) (Appends.append _)
  | array length => exact Appends.append _
  | boolean value => exact Appends.append _
  | null => exact Appends.append _

theorem Appends.ret : Appends (pure () : EncoderM Unit) [] := by
  intro encoder hWithin
  exact ⟨by simp, hWithin⟩

theorem Appends.forM {α : Type} {write : α → EncoderM Unit} {output : α → List Byte} (items : List α)
    (h : ∀ a ∈ items, Appends (write a) (output a)) : Appends (items.forM write) (items.flatMap output) := by
  induction items with
  | nil => exact Appends.ret
  | cons a rest ih =>
      exact Appends.bind (h a List.mem_cons_self) (ih fun b hb => h b (List.mem_cons_of_mem _ hb))

theorem Appends.unsigned (value : Nat) : Appends (Encoder.unsigned value) (unsignedBytes value) := Appends.append _

theorem Appends.array (length : Nat) : Appends (Encoder.array length) (arrayBytes length) := Appends.append _

theorem Appends.byteString (bytes : List Byte) : Appends (Encoder.byteString bytes) (stringBytes bytes) :=
  Appends.bind (Appends.append _) (Appends.append _)

theorem Appends.text (text : String) : Appends (Encoder.text text) (textBytes text) :=
  Appends.bind (Appends.append _) (Appends.append _)

theorem Appends.optional {α : Type} {write : α → EncoderM Unit} {output : α → List Byte}
    (h : ∀ a, Appends (write a) (output a)) (o : Option α) :
    Appends (Encoder.optional write o) (optionalBytes output o) := by
  cases o with
  | none => exact Appends.append _
  | some a => exact h a

theorem items_append (items : List Item) : Appends (items.forM Item.write) (written items) :=
  Appends.forM _ fun item _ => item.appends

/-- `Encoder::new`, the items, `Encoder::finish`. -/
def encodeItems (maximum : Nat) (items : List Item) : Except Error (List Byte) :=
  match (items.forM Item.write : EncoderM Unit) ⟨[], maximum⟩ with
  | .ok _ encoder => .ok encoder.bytes
  | .error e _ => .error e

/-- The written form is what an encoder returns, if there is room for it. -/
theorem encodeItems_eq (maximum : Nat) (items : List Item) :
    encodeItems maximum items = if (written items).length ≤ maximum then .ok (written items) else .error .quota := by
  have h := items_append items ⟨[], maximum⟩ (Nat.zero_le _)
  unfold encodeItems
  split at h
  · rename_i encoder hRun
    obtain ⟨rfl, hFits⟩ := h
    rw [hRun]
    simp only [List.nil_append] at hFits ⊢
    rw [if_pos hFits]
  · rename_i e encoder hRun
    obtain ⟨rfl, hFull⟩ := h
    rw [hRun, if_neg]
    simp only [List.length_nil] at hFull
    omega

end Encoding

section Slices

/-- What both encoders can write. -/
inductive SliceItem where
  | array (length : UInt64)
  | unsigned (value : UInt64)
  | bytesWith (length : Nat) (fill : Fill length)

def SliceItem.write : SliceItem → EncoderM Unit
  | array length => Encoder.array length.toNat
  | unsigned value => Encoder.unsigned value.toNat
  | bytesWith length fill => Encoder.bytesWith length fill

def SliceItem.writeSlice : SliceItem → SliceM Unit
  | array length => SliceEncoder.array length.toNat
  | unsigned value => SliceEncoder.unsigned value.toNat
  | bytesWith length fill => SliceEncoder.bytesWith length fill

/-- Whether a fill fails, and what it leaves when it does not. -/
def filledWith {length : Nat} (fill : Fill length) (before : Fixed length) : Except Error (List Byte) :=
  match fill before with
  | .ok _ bytes => .ok bytes.1
  | .error e _ => .error e

/-- The fill writes every byte: what the buffer held does not matter. -/
def SliceItem.Overwrites : SliceItem → Prop
  | bytesWith length fill => ∀ before, filledWith fill before = filledWith fill (blank length)
  | _ => True

/-- Both encoders stand at the same place and have written the same bytes; what is left
of the output is as it was. -/
structure InStep (output : List Byte) (encoder : Encoder) (slice : SliceEncoder) : Prop where
  maximum : encoder.maximum = output.length
  within : encoder.bytes.length ≤ output.length
  position : slice.position = encoder.bytes.length
  output : slice.output = encoder.bytes ++ output.drop encoder.bytes.length

variable {output : List Byte} {encoder : Encoder} {slice : SliceEncoder}

theorem InStep.length (h : InStep output encoder slice) : slice.output.length = output.length := by
  have := h.within
  rw [h.output, List.length_append, List.length_drop]
  omega

/-- The same bytes, appended to one and put in place in the other. -/
theorem InStep.append (h : InStep output encoder slice) {bytes : List Byte}
    (hFits : encoder.bytes.length + bytes.length ≤ output.length) :
    InStep output { encoder with bytes := encoder.bytes ++ bytes } (slice.written bytes) where
  maximum := h.maximum
  within := by rw [List.length_append]; exact hFits
  position := by rw [SliceEncoder.written, h.position, List.length_append]
  output := by
    simp only [SliceEncoder.written, h.position, h.output]
    rw [List.take_left, List.drop_length_add_append, List.drop_drop, List.length_append]

/-- Two runs end alike: both fail with one error, or both succeed and stay in step. -/
def EndInStep (output : List Byte) (result : EStateM.Result Error Encoder Unit)
    (sliced : EStateM.Result Error SliceEncoder Unit) : Prop :=
  match result with
  | .ok _ encoder => ∃ slice, sliced = .ok () slice ∧ InStep output encoder slice
  | .error e _ => ∃ slice, sliced = .error e slice

theorem InStep.appended (h : InStep output encoder slice) (bytes : List Byte) :
    EndInStep output (Encoder.append bytes encoder) (SliceEncoder.append bytes slice) := by
  have hWithin := h.within
  have hMaximum := h.maximum
  simp only [Encoder.append, SliceEncoder.append, bind, EStateM.bind, get, getThe, MonadStateOf.get, EStateM.get, failIf]
  by_cases hFull : output.length < encoder.bytes.length + bytes.length
  · rw [if_pos (by omega), if_pos (by rw [h.length, h.position]; exact hFull)]
    exact ⟨slice, rfl⟩
  · rw [if_neg (by omega), if_neg (by rw [h.length, h.position]; exact hFull)]
    exact ⟨_, rfl, h.append (by omega)⟩

/-- What a fill finds in the output: nothing but zeros, or it does not care. -/
theorem InStep.window (h : InStep output encoder slice) {length : Nat}
    (hFits : encoder.bytes.length + length ≤ output.length) :
    (slice.window length).length = length ∧ ((∀ b ∈ output, b = 0) → slice.window length = (blank length).1) := by
  have hWindow : slice.window length = (output.drop encoder.bytes.length).take length := by
    rw [SliceEncoder.window, h.position, h.output, List.drop_left]
  have hLength : (slice.window length).length = length := by
    rw [hWindow, List.length_take, List.length_drop]
    omega
  refine ⟨hLength, fun hZero => ?_⟩
  rw [blank, List.eq_replicate_iff]
  refine ⟨hLength, fun b hb => hZero b ?_⟩
  rw [hWindow] at hb
  exact List.mem_of_mem_drop (List.mem_of_mem_take hb)

/-- The same fill, at the end of one buffer and in place in the other. -/
theorem InStep.filled (h : InStep output encoder slice) {length : Nat} (fill : Fill length)
    (hFits : encoder.bytes.length + length ≤ output.length)
    (hFill : (∀ b ∈ output, b = 0) ∨ (SliceItem.bytesWith length fill).Overwrites) :
    match filledWith fill (blank length) with
    | .ok bytes => ∃ after, SliceEncoder.fillWindow length fill slice = .ok () after ∧
        InStep output { encoder with bytes := encoder.bytes ++ bytes } after ∧ bytes.length = length
    | .error e => ∃ after, SliceEncoder.fillWindow length fill slice = .error e after := by
  obtain ⟨hLength, hZero⟩ := h.window hFits
  have hSame : filledWith fill ⟨slice.window length, hLength⟩ = filledWith fill (blank length) := by
    rcases hFill with hBlank | hAny
    · exact congrArg (filledWith fill) (Subtype.ext (hZero hBlank))
    · exact hAny _
  rw [← hSame]
  simp only [SliceEncoder.fillWindow, bind, EStateM.bind, get, getThe, MonadStateOf.get, EStateM.get, filledWith]
  rw [dif_pos hLength]
  cases hRun : fill ⟨slice.window length, hLength⟩ with
  | ok u bytes => exact ⟨_, rfl, h.append (by rw [bytes.2]; exact hFits), bytes.2⟩
  | error e bytes => exact ⟨_, rfl⟩

/-- An append that fits. -/
theorem append_run (h : InStep output encoder slice) {bytes : List Byte}
    (hFits : encoder.bytes.length + bytes.length ≤ output.length) :
    Encoder.append bytes encoder = .ok () { encoder with bytes := encoder.bytes ++ bytes } ∧
      SliceEncoder.append bytes slice = .ok () (slice.written bytes) := by
  have hMaximum := h.maximum
  simp only [Encoder.append, SliceEncoder.append, bind, EStateM.bind, get, getThe, MonadStateOf.get, EStateM.get, failIf]
  rw [if_neg (by omega), if_neg (by rw [h.length, h.position]; omega)]
  exact ⟨rfl, rfl⟩

/-- A byte string that does not fit is refused before its fill runs. -/
theorem bytesWith_full (h : InStep output encoder slice) {length : Nat} (fill : Fill length)
    (hFull : output.length < encoder.bytes.length + argumentSize length + length) :
    Encoder.bytesWith length fill encoder = .error .quota encoder ∧
      ∃ after, SliceEncoder.bytesWith length fill slice = .error .quota after := by
  have hMaximum := h.maximum
  have hWithin := h.within
  have hSize := length_argumentBytes 2 length
  constructor
  · unfold Encoder.bytesWith Encoder.filled Encoder.argument
    simp only [Encoder.append, bind, EStateM.bind, get, getThe, MonadStateOf.get, EStateM.get, failIf, set,
      MonadStateOf.set, EStateM.set]
    by_cases hHead : encoder.maximum - encoder.bytes.length < (argumentBytes 2 length).length
    · rw [if_pos hHead]
      rfl
    · rw [if_neg hHead]
      simp only [pure, EStateM.pure, List.length_append]
      rw [if_pos (by omega)]
      rfl
  · refine ⟨slice, ?_⟩
    unfold SliceEncoder.bytesWith
    simp only [bind, EStateM.bind, get, getThe, MonadStateOf.get, EStateM.get, failIf]
    rw [if_pos (by rw [h.length, h.position]; exact hFull)]
    rfl

theorem InStep.bytesWith (h : InStep output encoder slice) {length : Nat} (fill : Fill length)
    (hFill : (∀ b ∈ output, b = 0) ∨ (SliceItem.bytesWith length fill).Overwrites) :
    EndInStep output (Encoder.bytesWith length fill encoder) (SliceEncoder.bytesWith length fill slice) := by
  have hMaximum := h.maximum
  have hSize := length_argumentBytes 2 length
  by_cases hFull : output.length < encoder.bytes.length + argumentSize length + length
  · obtain ⟨hEncoder, hSlice⟩ := bytesWith_full h fill hFull
    rw [hEncoder]
    exact hSlice
  · obtain ⟨hEncoder, hSlice⟩ := append_run h (show encoder.bytes.length + (argumentBytes 2 length).length ≤ _ by omega)
    have hHead := h.append (show encoder.bytes.length + (argumentBytes 2 length).length ≤ _ by omega)
    have hFilled := hHead.filled fill (by simp only [List.length_append]; omega) hFill
    unfold Encoder.bytesWith Encoder.filled SliceEncoder.bytesWith Encoder.argument SliceEncoder.argument
    simp only [bind, EStateM.bind, get, getThe, MonadStateOf.get, EStateM.get, failIf, hEncoder]
    rw [if_neg (by simp only [List.length_append]; omega), if_neg (by rw [h.length, h.position]; exact hFull)]
    simp only [pure, EStateM.pure, hSlice]
    unfold filledWith at hFilled
    cases hRun : fill (blank length) with
    | ok u bytes =>
        rw [hRun] at hFilled
        obtain ⟨after, hAfter, hStep, -⟩ := hFilled
        exact ⟨after, hAfter, hStep⟩
    | error e bytes =>
        rw [hRun] at hFilled
        exact hFilled

theorem InStep.item (h : InStep output encoder slice) (item : SliceItem)
    (hFill : (∀ b ∈ output, b = 0) ∨ item.Overwrites) :
    EndInStep output (item.write encoder) (item.writeSlice slice) := by
  cases item with
  | array length => exact h.appended _
  | unsigned value => exact h.appended _
  | bytesWith length fill => exact h.bytesWith fill hFill

theorem InStep.items (h : InStep output encoder slice) (items : List SliceItem)
    (hFill : (∀ b ∈ output, b = 0) ∨ ∀ item ∈ items, item.Overwrites) :
    EndInStep output ((items.forM SliceItem.write : EncoderM Unit) encoder)
      ((items.forM SliceItem.writeSlice : SliceM Unit) slice) := by
  induction items generalizing encoder slice with
  | nil => exact ⟨slice, rfl, h⟩
  | cons item rest ih =>
      have hItem := h.item item (hFill.imp_right fun hAll => hAll item List.mem_cons_self)
      have hOthers := hFill.imp_right fun hAll other hOther => hAll other (List.mem_cons_of_mem _ hOther)
      change EndInStep output ((item.write >>= fun _ => rest.forM SliceItem.write) encoder)
        ((item.writeSlice >>= fun _ => rest.forM SliceItem.writeSlice) slice)
      simp only [bind, EStateM.bind]
      cases hRun : item.write encoder with
      | ok u next =>
          rw [hRun] at hItem
          obtain ⟨after, hAfter, hStep⟩ := hItem
          rw [hAfter]
          exact ih hStep hOthers
      | error e next =>
          rw [hRun] at hItem
          obtain ⟨after, hAfter⟩ := hItem
          rw [hAfter]
          exact ⟨after, rfl⟩

/-- A slice that was filled completely holds what the other encoder returns. -/
theorem InStep.finish (h : InStep output encoder slice) (hFinish : slice.finish = .ok ()) :
    slice.output = encoder.bytes := by
  unfold SliceEncoder.finish at hFinish
  split at hFinish
  · rename_i hEnd
    rw [h.length, h.position] at hEnd
    rw [h.output, hEnd, List.drop_length, List.append_nil]
  · cases hFinish

theorem start_inStep (output : List Byte) : InStep output ⟨[], output.length⟩ ⟨output, 0⟩ :=
  ⟨rfl, Nat.zero_le _, rfl, rfl⟩

end Slices

section Profile

/-- A decoder over these bytes, the script, `Decoder::finish`. -/
def decodeItems (script : Script) (input : List Byte) : Except Error (List Item) :=
  match (do let items ← script.run; finish; pure items : Decoder (List Item)) input with
  | .ok items _ => .ok items
  | .error e _ => .error e

theorem decodeItems_ok {script : Script} {input : List Byte} {items : List Item} :
    decodeItems script input = .ok items ↔ script.run input = .ok items [] := by
  have hRun : ∀ rest, (do let items ← script.run; finish; pure items : Decoder (List Item)) input = .ok items rest ↔
      script.run input = .ok items [] ∧ rest = [] := by
    intro rest
    simp only [bind_ok, finish_ok, pure_ok]
    constructor
    · rintro ⟨_, _, hScript, _, _, ⟨rfl, rfl⟩, rfl, rfl⟩
      exact ⟨hScript, rfl⟩
    · rintro ⟨hScript, rfl⟩
      exact ⟨items, [], hScript, (), [], ⟨rfl, rfl⟩, rfl, rfl⟩
  unfold decodeItems
  constructor
  · intro h
    split at h
    · rename_i hOk
      cases h
      exact ((hRun _).1 hOk).1
    · cases h
  · intro h
    rw [(hRun []).2 ⟨h, rfl⟩]

/-- The call that asks for just this item. -/
def Item.asked : Item → Call
  | unsigned _ => .unsigned
  | integer _ => .integer
  | bytes value => .bytes (UInt64.ofNat value.1.length)
  | text value => .text (UInt64.ofNat (utf8 value.1).length)
  | array length => .array length
  | boolean _ => .boolean
  | null => .null

theorem Item.asked_admits (item : Item) : item.asked.Admits item := by
  cases item with
  | bytes value =>
      show value.1.length ≤ (UInt64.ofNat value.1.length).toNat
      rw [UInt64.toNat_ofNat', Nat.mod_eq_of_lt value.2]
  | text value =>
      show (utf8 value.1).length ≤ (UInt64.ofNat (utf8 value.1).length).toNat
      rw [UInt64.toNat_ofNat', Nat.mod_eq_of_lt value.2]
  | array length => exact Nat.le_refl _
  | _ => trivial

/-- Ask for these items and no others. -/
def Script.of : List Item → Script
  | [] => stop
  | item :: rest => call item.asked fun _ => of rest

theorem Script.of_asks (items : List Item) : Asks (Script.of items) items := by
  induction items with
  | nil => exact .stop
  | cons item rest ih => exact .item item.asked_admits ih

/-- The profile is canonical and round-trips: every script that asks for what an
encoder wrote decodes it, and there is such a script; what a script accepts is what an
encoder writes for the decoded items, and nothing else decodes to them; both encoders
write the same bytes; and the size of a head is known ahead. -/
theorem profile_canonical :
    (∀ items, Asks (Script.of items) items ∧ encodeItems (written items).length items = .ok (written items)) ∧
    (∀ script items maximum bytes, Asks script items → encodeItems maximum items = .ok bytes →
      decodeItems script bytes = .ok items) ∧
    (∀ script input items rest, Script.run script input = .ok items rest →
      ∃ bytes, input = bytes ++ rest ∧ encodeItems bytes.length items = .ok bytes) ∧
    (∀ script script' input input' items, decodeItems script input = .ok items →
      decodeItems script' input' = .ok items → input = input') ∧
    (∀ (output : List Byte) (items : List SliceItem), ((∀ b ∈ output, b = 0) ∨ ∀ item ∈ items, item.Overwrites) →
      let encoded := (items.forM SliceItem.write : EncoderM Unit) ⟨[], output.length⟩
      let sliced := (items.forM SliceItem.writeSlice : SliceM Unit) ⟨output, 0⟩
      EndInStep output encoded sliced ∧ ∀ slice, sliced = .ok () slice → slice.finish = .ok () →
        ∃ encoder, encoded = .ok () encoder ∧ slice.output = encoder.bytes) ∧
    ∀ (major : Fin 8) (value : UInt64), (argumentBytes major value.toNat).length = argumentSize value.toNat := by
  have hWritten : ∀ {items maximum bytes}, encodeItems maximum items = .ok bytes → bytes = written items := by
    intro items maximum bytes h
    rw [encodeItems_eq] at h
    split at h
    · cases h
      rfl
    · cases h
  refine ⟨?_, ?_, ?_, ?_, ?_, ?_⟩
  · intro items
    exact ⟨Script.of_asks items, by rw [encodeItems_eq, if_pos le_rfl]⟩
  · intro script items maximum bytes hAsks hEncode
    rw [decodeItems_ok, hWritten hEncode]
    exact run_written hAsks
  · intro script input items rest hRun
    exact ⟨written items, run_ok hRun, by rw [encodeItems_eq, if_pos le_rfl]⟩
  · intro script script' input input' items h h'
    rw [decodeItems_ok] at h h'
    exact (run_ok h).trans (run_ok h').symm
  · intro output items hFill encoded sliced
    have hEnd : EndInStep output encoded sliced := (start_inStep output).items items hFill
    refine ⟨hEnd, fun slice hSliced hFinish => ?_⟩
    rw [hSliced] at hEnd
    cases hEncoded : encoded with
    | ok u encoder =>
        rw [hEncoded] at hEnd
        obtain ⟨_, hSlice, hStep⟩ := hEnd
        cases hSlice
        exact ⟨encoder, rfl, hStep.finish hFinish⟩
    | error e encoder =>
        rw [hEncoded] at hEnd
        obtain ⟨_, hSlice⟩ := hEnd
        cases hSlice
  · intro major value
    exact length_argumentBytes _ _

end Profile

end MicroCard.Cbor
