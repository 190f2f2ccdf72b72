import MicroCard.Basic
import MicroCard.Library.Codec

/-! Restricted deterministic CBOR primitives for versioned device contracts. The
reader takes only the shortest form of each argument, so there is one encoding of
each value. Callers supply field order, collection limits and semantic validation. -/
namespace MicroCard.Cbor

open Bytes CrashTriple Codec

/-- The `width` low-order bytes of a number, most significant first. -/
def toBE (width value : Nat) : List Byte := (toLE width value).reverse

/-- The number a loop of shifts reads, most significant byte first. -/
def fromBE (bytes : List Byte) : Nat := bytes.foldl (fun value byte => value * 256 + byte.toNat) 0

/-- The bytes behind the initial one that hold an argument. -/
def argumentWidth (value : Nat) : Nat :=
  if value < 24 then 0
  else if value < 256 then 1
  else if value < 65536 then 2
  else if value < 4294967296 then 4
  else 8

def argumentSize (value : Nat) : Nat := 1 + argumentWidth value

def additional (value : Nat) : Nat :=
  match argumentWidth value with
  | 0 => value
  | 1 => 24
  | 2 => 25
  | 4 => 26
  | _ => 27

def argumentBytes (major value : Nat) : List Byte :=
  UInt8.ofNat (major * 32 + additional value) :: toBE (argumentWidth value) value

/-- A byte array of fixed length. -/
abbrev Fixed (count : Nat) := { bytes : List Byte // bytes.length = count }

/-- So many copies of one byte. -/
abbrev Fixed.replicate (count : Nat) (b : Byte) : Fixed count := ⟨List.replicate count b, List.length_replicate⟩

section Decoder

abbrev Decoder := Reader Error

def take (length : Nat) : Decoder (List Byte) := do
  let remaining ← get
  failIf (remaining.length < length) .format
  set (remaining.drop length)
  pure (remaining.take length)

/-- The width and the least value of a long argument. -/
def longArgument : Nat → Option (Nat × Nat)
  | 24 => some (1, 24)
  | 25 => some (2, 256)
  | 26 => some (4, 65536)
  | 27 => some (8, 4294967296)
  | _ => none

/-- The argument behind an initial byte, given the low bits of that byte. -/
def argumentValue (extra : Nat) : Decoder Nat :=
  if extra ≤ 23 then pure extra
  else match longArgument extra with
  | none => throw .format
  | some (length, minimum) => do
      let bytes ← take length
      failIf (fromBE bytes < minimum) .format
      pure (fromBE bytes)

def argument (major : Nat) : Decoder Nat := do
  let initial ← take 1
  failIf ((initial.headD 0).toNat / 32 ≠ major) .format
  argumentValue ((initial.headD 0).toNat % 32)

def unsigned : Decoder Nat := argument 0

/-- A number that has to fit a narrower type. -/
def number (limit : Nat) : Decoder Nat := do
  let value ← unsigned
  failIf (limit ≤ value) .format
  pure value

/-- `number::<u8>`. -/
def u8 : Decoder UInt8 := do
  let value ← number (2 ^ 8)
  pure (UInt8.ofNat value)

/-- `number::<u32>`. -/
def u32 : Decoder UInt32 := do
  let value ← number (2 ^ 32)
  pure (UInt32.ofNat value)

def length (major maximum : Nat) : Decoder Nat := do
  let length ← argument major
  failIf (maximum < length) .format
  pure length

def array (maximum : Nat) : Decoder Nat := length 4 maximum

def record (fields : Nat) : Decoder Unit := do
  let count ← array fields
  failIf (count ≠ fields) .format

def bytes (maximum : Nat) : Decoder (List Byte) := do
  let length ← length 2 maximum
  take length

def fixed (count : Nat) : Decoder (Fixed count) := do
  let value ← bytes count
  if h : value.length = count then pure ⟨value, h⟩ else throw .format

/-- Consume null when present; the caller decodes the other permitted type otherwise. -/
def null : Decoder Bool := do
  let remaining ← get
  if remaining.head? = some 0xf6 then
    set (remaining.drop 1)
    pure true
  else pure false

def finish : Decoder Unit := do
  let remaining ← get
  failIf (remaining ≠ []) .format

/-- `map_err`: the same reading, with another error. -/
def failAs {α : Type} (e : Error) (read : Decoder α) : Decoder α := fun input =>
  match read input with
  | .ok a rest => .ok a rest
  | .error _ rest => .error e rest

end Decoder

section Encoder

structure Encoder where
  bytes : List Byte
  maximum : Nat

abbrev EncoderM := EStateM Error Encoder

def Encoder.append (bytes : List Byte) : EncoderM Unit := do
  let encoder ← get
  failIf (encoder.maximum - encoder.bytes.length < bytes.length) .quota
  set { encoder with bytes := encoder.bytes ++ bytes }

def Encoder.argument (major value : Nat) : EncoderM Unit := Encoder.append (argumentBytes major value)

def Encoder.unsigned (value : Nat) : EncoderM Unit := Encoder.argument 0 value

def Encoder.array (length : Nat) : EncoderM Unit := Encoder.argument 4 length

def Encoder.byteString (bytes : List Byte) : EncoderM Unit := do
  Encoder.argument 2 bytes.length
  Encoder.append bytes

def Encoder.null : EncoderM Unit := Encoder.append [0xf6]

end Encoder

/-! The written forms. -/

def unsignedBytes (value : Nat) : List Byte := argumentBytes 0 value

def arrayBytes (length : Nat) : List Byte := argumentBytes 4 length

def stringBytes (bytes : List Byte) : List Byte := argumentBytes 2 bytes.length ++ bytes

section Reading

theorem failAs_ok {α : Type} {e : Error} {read : Decoder α} {input rest : List Byte} {a : α} :
    failAs e read input = .ok a rest ↔ read input = .ok a rest := by
  unfold failAs
  split <;> simp_all

theorem take_ok {length : Nat} {input value rest : List Byte} :
    take length input = .ok value rest ↔ value.length = length ∧ input = value ++ rest := by
  simp only [take, bind_ok, get_ok, failIf_ok, set_ok, pure_ok]
  constructor
  · rintro ⟨_, _, ⟨rfl, rfl⟩, _, _, ⟨hLong, rfl⟩, _, _, rfl, rfl, rfl⟩
    rw [not_lt] at hLong
    exact ⟨by rw [List.length_take]; omega, (List.take_append_drop length _).symm⟩
  · rintro ⟨rfl, rfl⟩
    refine ⟨_, _, ⟨rfl, rfl⟩, (), _, ⟨by simp, rfl⟩, ⟨⟩, rest, by simp, by simp, rfl⟩

@[simp] theorem length_toBE (width value : Nat) : (toBE width value).length = width := by
  simp [toBE]

theorem fromBE_reverse (bytes : List Byte) : fromBE bytes.reverse = fromLE bytes := by
  induction bytes with
  | nil => rfl
  | cons b rest ih =>
      simp only [fromBE, List.reverse_cons, List.foldl_append, List.foldl_cons, List.foldl_nil, fromLE] at ih ⊢
      rw [ih]
      omega

theorem fromBE_toBE {width value : Nat} (h : value < 256 ^ width) : fromBE (toBE width value) = value := by
  rw [toBE, fromBE_reverse, fromLE_toLE_of_lt h]

theorem fromBE_eq (bytes : List Byte) : fromBE bytes = fromLE bytes.reverse := by
  rw [← fromBE_reverse, List.reverse_reverse]

theorem fromBE_lt (bytes : List Byte) : fromBE bytes < 256 ^ bytes.length := by
  have h := fromLE_lt bytes.reverse
  rwa [← fromBE_eq, List.length_reverse] at h

theorem toBE_fromBE (bytes : List Byte) : toBE bytes.length (fromBE bytes) = bytes := by
  rw [toBE, fromBE_eq, toLE_fromLE (List.length_reverse ..), List.reverse_reverse]

/-- An argument is in its initial byte, or long with the least width that holds it. -/
inductive Form (value : Nat) : Prop where
  | short (small : value < 24) (width : argumentWidth value = 0) (initial : additional value = value)
  | long (minimum : Nat) (code : longArgument (additional value) = some (argumentWidth value, minimum))
      (least : minimum ≤ value) (fits : value < 256 ^ argumentWidth value) (beyond : 23 < additional value)

theorem form_of_lt {value : Nat} (h : value < 2 ^ 64) : Form value := by
  by_cases h24 : value < 24
  · have hWidth : argumentWidth value = 0 := by rw [argumentWidth, if_pos h24]
    exact .short h24 hWidth (by simp [additional, hWidth])
  by_cases h256 : value < 256
  · have hWidth : argumentWidth value = 1 := by rw [argumentWidth, if_neg h24, if_pos h256]
    have hCode : additional value = 24 := by simp [additional, hWidth]
    exact .long 24 (by rw [hCode, hWidth]; rfl) (by omega) (by rw [hWidth]; omega) (by omega)
  by_cases h65536 : value < 65536
  · have hWidth : argumentWidth value = 2 := by rw [argumentWidth, if_neg h24, if_neg h256, if_pos h65536]
    have hCode : additional value = 25 := by simp [additional, hWidth]
    exact .long 256 (by rw [hCode, hWidth]; rfl) (by omega) (by rw [hWidth]; omega) (by omega)
  by_cases hWord : value < 4294967296
  · have hWidth : argumentWidth value = 4 := by
      rw [argumentWidth, if_neg h24, if_neg h256, if_neg h65536, if_pos hWord]
    have hCode : additional value = 26 := by simp [additional, hWidth]
    exact .long 65536 (by rw [hCode, hWidth]; rfl) (by omega) (by rw [hWidth]; omega) (by omega)
  · have hWidth : argumentWidth value = 8 := by
      rw [argumentWidth, if_neg h24, if_neg h256, if_neg h65536, if_neg hWord]
    have hCode : additional value = 27 := by simp [additional, hWidth]
    exact .long 4294967296 (by rw [hCode, hWidth]; rfl) (by omega) (by rw [hWidth]; omega) (by omega)

theorem longArgument_cases {extra width minimum : Nat} (h : longArgument extra = some (width, minimum)) :
    (extra = 24 ∧ width = 1 ∧ minimum = 24) ∨ (extra = 25 ∧ width = 2 ∧ minimum = 256) ∨
      (extra = 26 ∧ width = 4 ∧ minimum = 65536) ∨ (extra = 27 ∧ width = 8 ∧ minimum = 4294967296) := by
  unfold longArgument at h
  split at h <;> simp_all

/-- The width and the least value fix the argument's form. -/
theorem longArgument_eq {extra width minimum value : Nat} (h : longArgument extra = some (width, minimum))
    (hLeast : minimum ≤ value) (hFits : value < 256 ^ width) :
    value < 2 ^ 64 ∧ argumentWidth value = width ∧ additional value = extra := by
  have hLt : value < 2 ^ 64 := by
    rcases longArgument_cases h with ⟨-, rfl, -⟩ | ⟨-, rfl, -⟩ | ⟨-, rfl, -⟩ | ⟨-, rfl, -⟩ <;> omega
  refine ⟨hLt, ?_⟩
  cases form_of_lt hLt with
  | short hSmall =>
      rcases longArgument_cases h with ⟨-, -, rfl⟩ | ⟨-, -, rfl⟩ | ⟨-, -, rfl⟩ | ⟨-, -, rfl⟩ <;> omega
  | long minimum' hCode hLeast' hFits' =>
      rcases longArgument_cases h with ⟨rfl, rfl, rfl⟩ | ⟨rfl, rfl, rfl⟩ | ⟨rfl, rfl, rfl⟩ | ⟨rfl, rfl, rfl⟩ <;>
      rcases longArgument_cases hCode with ⟨hExtra, hWidth, rfl⟩ | ⟨hExtra, hWidth, rfl⟩ | ⟨hExtra, hWidth, rfl⟩ |
        ⟨hExtra, hWidth, rfl⟩ <;>
      rw [hWidth] at hFits' <;> omega

theorem Form.additional_le {value : Nat} (h : Form value) : additional value ≤ 27 := by
  cases h with
  | short hSmall _ hInitial => omega
  | long minimum hCode =>
      rcases longArgument_cases hCode with ⟨h, -⟩ | ⟨h, -⟩ | ⟨h, -⟩ | ⟨h, -⟩ <;> omega

theorem initial_toNat (major : Nat) {extra : Nat} (hMajor : major < 8) (hExtra : extra < 32) :
    (UInt8.ofNat (major * 32 + extra)).toNat = major * 32 + extra := by
  rw [UInt8.toNat_ofNat']
  omega

theorem argumentValue_ok {extra value : Nat} {input rest : List Byte} :
    argumentValue extra input = .ok value rest ↔
      value < 2 ^ 64 ∧ additional value = extra ∧ input = toBE (argumentWidth value) value ++ rest := by
  unfold argumentValue
  by_cases hShort : extra ≤ 23
  · rw [if_pos hShort, pure_ok]
    constructor
    · rintro ⟨rfl, rfl⟩
      have hWidth : argumentWidth extra = 0 := by rw [argumentWidth, if_pos (by omega)]
      exact ⟨by omega, by simp [additional, hWidth], by rw [hWidth]; rfl⟩
    · rintro ⟨hLt, hExtra, rfl⟩
      cases form_of_lt hLt with
      | short hSmall hWidth hInitial => exact ⟨hExtra.symm.trans hInitial, by rw [hWidth]; rfl⟩
      | long minimum hCode hLeast hFits hBeyond => omega
  rw [if_neg hShort]
  cases hCode : longArgument extra with
  | none =>
      refine ⟨fun hRun => (throw_ok.1 hRun).elim, ?_⟩
      rintro ⟨hLt, rfl, rfl⟩
      cases form_of_lt hLt with
      | short hSmall hWidth hInitial => omega
      | long minimum hCode' => rw [hCode'] at hCode; cases hCode
  | some long =>
      obtain ⟨width, minimum⟩ := long
      simp only [bind_ok, take_ok, failIf_ok, pure_ok, not_lt]
      constructor
      · rintro ⟨bytes, _, ⟨hLength, rfl⟩, _, _, ⟨hLeast, rfl⟩, rfl, rfl⟩
        obtain ⟨hLt, hWidth, hExtra⟩ := longArgument_eq hCode hLeast (hLength ▸ fromBE_lt bytes)
        exact ⟨hLt, hExtra, by rw [hWidth, ← hLength, toBE_fromBE]⟩
      · rintro ⟨hLt, rfl, rfl⟩
        cases form_of_lt hLt with
        | short hSmall hWidth hInitial => omega
        | long minimum' hCode' hLeast hFits =>
            rw [hCode] at hCode'
            cases hCode'
            refine ⟨_, _, ⟨length_toBE _ _, rfl⟩, (), _, ⟨?_, rfl⟩, ?_, rfl⟩
            · rwa [fromBE_toBE hFits]
            · exact fromBE_toBE hFits

/-- The argument reader takes the shortest form and no other. -/
theorem argument_ok {major value : Nat} {input rest : List Byte} (hMajor : major < 8) :
    argument major input = .ok value rest ↔ value < 2 ^ 64 ∧ input = argumentBytes major value ++ rest := by
  simp only [argument, bind_ok, take_ok, failIf_ok, not_not, argumentValue_ok]
  constructor
  · rintro ⟨initial, _, ⟨hOne, rfl⟩, _, _, ⟨hMajorOk, rfl⟩, hLt, hExtra, rfl⟩
    obtain ⟨b, rfl⟩ := List.length_eq_one_iff.1 hOne
    rw [List.headD_cons] at hMajorOk hExtra
    have hByte : UInt8.ofNat (major * 32 + additional value) = b := by
      rw [hExtra, ← hMajorOk, Nat.mul_comm, Nat.div_add_mod, UInt8.ofNat_toNat]
    exact ⟨hLt, by rw [argumentBytes, hByte]; rfl⟩
  · rintro ⟨hLt, rfl⟩
    have hExtra := (form_of_lt hLt).additional_le
    have hToNat := initial_toNat major hMajor (Nat.lt_of_le_of_lt hExtra (by decide))
    refine ⟨[_], _, ⟨rfl, rfl⟩, (), _, ⟨?_, rfl⟩, hLt, ?_, rfl⟩
    · rw [List.headD_cons, hToNat]
      omega
    · rw [List.headD_cons, hToNat]
      omega

theorem unsigned_ok {value : Nat} {input rest : List Byte} :
    unsigned input = .ok value rest ↔ value < 2 ^ 64 ∧ input = unsignedBytes value ++ rest :=
  argument_ok (by decide)

theorem number_ok (limit : Nat) {value : Nat} {input rest : List Byte} (hLimit : limit ≤ 2 ^ 64) :
    number limit input = .ok value rest ↔ value < limit ∧ input = unsignedBytes value ++ rest := by
  simp only [number, bind_ok, unsigned_ok, failIf_ok, pure_ok, not_le]
  constructor
  · rintro ⟨_, _, ⟨-, rfl⟩, _, _, ⟨hLt, rfl⟩, rfl, rfl⟩
    exact ⟨hLt, rfl⟩
  · rintro ⟨hLt, rfl⟩
    exact ⟨_, _, ⟨Nat.lt_of_lt_of_le hLt hLimit, rfl⟩, (), _, ⟨hLt, rfl⟩, rfl, rfl⟩

theorem length_ok (major maximum : Nat) {value : Nat} {input rest : List Byte} (hMajor : major < 8)
    (hMaximum : maximum < 2 ^ 64) :
    length major maximum input = .ok value rest ↔ value ≤ maximum ∧ input = argumentBytes major value ++ rest := by
  simp only [length, bind_ok, argument_ok hMajor, failIf_ok, pure_ok, not_lt]
  constructor
  · rintro ⟨_, _, ⟨-, rfl⟩, _, _, ⟨hLe, rfl⟩, rfl, rfl⟩
    exact ⟨hLe, rfl⟩
  · rintro ⟨hLe, rfl⟩
    exact ⟨_, _, ⟨Nat.lt_of_le_of_lt hLe hMaximum, rfl⟩, (), _, ⟨hLe, rfl⟩, rfl, rfl⟩

theorem record_ok (fields : Nat) {input rest : List Byte} {u : Unit} (hFields : fields < 2 ^ 64) :
    record fields input = .ok u rest ↔ input = arrayBytes fields ++ rest := by
  simp only [record, array, bind_ok, length_ok 4 fields (by decide) hFields, failIf_ok, not_not]
  constructor
  · rintro ⟨_, _, ⟨-, rfl⟩, rfl, rfl⟩
    rfl
  · rintro rfl
    exact ⟨_, _, ⟨le_rfl, rfl⟩, rfl, rfl⟩

theorem bytes_ok (maximum : Nat) {input value rest : List Byte} (hMaximum : maximum < 2 ^ 64) :
    bytes maximum input = .ok value rest ↔ value.length ≤ maximum ∧ input = stringBytes value ++ rest := by
  simp only [bytes, bind_ok, length_ok 2 maximum (by decide) hMaximum, take_ok]
  constructor
  · rintro ⟨_, _, ⟨hLe, rfl⟩, rfl, rfl⟩
    exact ⟨hLe, by rw [stringBytes, List.append_assoc]⟩
  · rintro ⟨hLe, rfl⟩
    exact ⟨_, _, ⟨hLe, by rw [stringBytes, List.append_assoc]⟩, rfl, rfl⟩

theorem fixed_ok (count : Nat) {value : Fixed count} {input rest : List Byte} (hCount : count < 2 ^ 64) :
    fixed count input = .ok value rest ↔ input = stringBytes value.1 ++ rest := by
  simp only [fixed, bind_ok, bytes_ok count hCount]
  constructor
  · rintro ⟨bytes, _, ⟨-, rfl⟩, hRun⟩
    split at hRun
    · obtain ⟨rfl, rfl⟩ := pure_ok.1 hRun
      rfl
    · exact (throw_ok.1 hRun).elim
  · rintro rfl
    refine ⟨_, _, ⟨value.2.le, rfl⟩, ?_⟩
    rw [dif_pos value.2]
    exact pure_ok.2 ⟨rfl, rfl⟩

theorem u8_ok {value : UInt8} {input rest : List Byte} :
    u8 input = .ok value rest ↔ input = unsignedBytes value.toNat ++ rest := by
  simp only [u8, bind_ok, number_ok (2 ^ 8) (by decide), pure_ok]
  constructor
  · rintro ⟨_, _, ⟨hLt, rfl⟩, rfl, rfl⟩
    rw [UInt8.toNat_ofNat', Nat.mod_eq_of_lt hLt]
  · rintro rfl
    exact ⟨_, _, ⟨value.toNat_lt, rfl⟩, UInt8.ofNat_toNat, rfl⟩

theorem u32_ok {value : UInt32} {input rest : List Byte} :
    u32 input = .ok value rest ↔ input = unsignedBytes value.toNat ++ rest := by
  simp only [u32, bind_ok, number_ok (2 ^ 32) (by decide), pure_ok]
  constructor
  · rintro ⟨_, _, ⟨hLt, rfl⟩, rfl, rfl⟩
    rw [UInt32.toNat_ofNat', Nat.mod_eq_of_lt hLt]
  · rintro rfl
    exact ⟨_, _, ⟨value.toNat_lt, rfl⟩, UInt32.ofNat_toNat, rfl⟩

theorem finish_ok {input rest : List Byte} {u : Unit} : finish input = .ok u rest ↔ input = [] ∧ rest = [] := by
  simp only [finish, bind_ok, get_ok, failIf_ok, not_not]
  constructor
  · rintro ⟨_, _, ⟨rfl, rfl⟩, rfl, rfl⟩
    exact ⟨rfl, rfl⟩
  · rintro ⟨rfl, rfl⟩
    exact ⟨_, _, ⟨rfl, rfl⟩, rfl, rfl⟩

/-- An optional field: null, or a record. -/
def optional {α : Type} (read : Decoder α) : Decoder (Option α) := do
  if ← null then pure none
  else
    let value ← read
    pure (some value)

def optionalBytes {α : Type} (write : α → List Byte) : Option α → List Byte
  | none => [0xf6]
  | some value => write value

/-- Null is not the first byte of anything else, so an optional field is exact. -/
theorem optional_exact {α : Type} {read : Decoder α} {write : α → List Byte} {Admitted : α → Prop}
    (h : Exact read write Admitted) (hFirst : ∀ a, ∃ b rest, write a = b :: rest ∧ b ≠ 0xf6) :
    Exact (optional read) (optionalBytes write) fun o => ∀ a ∈ o, Admitted a := by
  intro input o rest
  simp only [optional, null, bind_ok, get_ok]
  constructor
  · rintro ⟨isNull, middle, ⟨_, _, ⟨rfl, rfl⟩, hNull⟩, hRun⟩
    split at hNull
    · rename_i hHead
      simp only [bind_ok, set_ok, pure_ok] at hNull
      obtain ⟨_, _, rfl, rfl, rfl⟩ := hNull
      simp only [reduceIte, pure_ok] at hRun
      obtain ⟨rfl, rfl⟩ := hRun
      obtain ⟨tail, rfl⟩ := List.head?_eq_some_iff.1 hHead
      exact ⟨by simp, rfl⟩
    · obtain ⟨rfl, rfl⟩ := pure_ok.1 hNull
      simp only [Bool.false_eq_true, reduceIte, bind_ok, pure_ok, h _ _ _] at hRun
      obtain ⟨a, _, ⟨ha, rfl⟩, rfl, rfl⟩ := hRun
      exact ⟨by simpa using ha, rfl⟩
  · rintro ⟨hAdmitted, rfl⟩
    cases o with
    | none =>
        refine ⟨true, rest, ⟨_, _, ⟨rfl, rfl⟩, ?_⟩, ?_⟩
        · rw [if_pos (by simp [optionalBytes])]
          exact bind_ok.2 ⟨⟨⟩, rest, set_ok.2 rfl, pure_ok.2 ⟨rfl, rfl⟩⟩
        · simp [pure_ok]
    | some a =>
        obtain ⟨b, tail, hWrite, hNe⟩ := hFirst a
        refine ⟨false, optionalBytes write (some a) ++ rest, ⟨_, _, ⟨rfl, rfl⟩, ?_⟩, ?_⟩
        · rw [if_neg]
          · exact pure_ok.2 ⟨rfl, rfl⟩
          · simp [optionalBytes, hWrite, hNe]
        · simp only [Bool.false_eq_true, reduceIte, bind_ok, pure_ok, h _ _ _]
          exact ⟨a, rest, ⟨hAdmitted a rfl, rfl⟩, rfl, rfl⟩

end Reading

section Lengths

theorem length_argumentBytes (major value : Nat) : (argumentBytes major value).length = argumentSize value := by
  simp [argumentBytes, argumentSize, Nat.add_comm]

theorem argumentWidth_le (value : Nat) : argumentWidth value ≤ 8 := by
  unfold argumentWidth
  split_ifs <;> omega

theorem argumentSize_short {value : Nat} (h : value < 24) : argumentSize value = 1 := by
  rw [argumentSize, argumentWidth, if_pos h]

theorem argumentSize_byte {value : Nat} (h : value < 256) : argumentSize value ≤ 2 := by
  unfold argumentSize argumentWidth
  split_ifs <;> omega

theorem argumentSize_word {value : Nat} (h : value < 4294967296) : argumentSize value ≤ 5 := by
  unfold argumentSize argumentWidth
  split_ifs <;> omega

theorem length_u8 (value : UInt8) : (unsignedBytes value.toNat).length ≤ 2 := by
  rw [unsignedBytes, length_argumentBytes]
  exact argumentSize_byte value.toNat_lt

theorem length_u32 (value : UInt32) : (unsignedBytes value.toNat).length ≤ 5 := by
  rw [unsignedBytes, length_argumentBytes]
  exact argumentSize_word value.toNat_lt

theorem length_arrayBytes {count : Nat} (h : count < 24) : (arrayBytes count).length = 1 := by
  rw [arrayBytes, length_argumentBytes, argumentSize_short h]

theorem length_stringBytes {bytes : List Byte} (h : bytes.length < 256) :
    (stringBytes bytes).length ≤ bytes.length + 2 := by
  rw [stringBytes, List.length_append, length_argumentBytes]
  have := argumentSize_byte h
  omega

theorem length_optionalBytes {α : Type} {write : α → List Byte} {bound : Nat} (h : ∀ a, (write a).length ≤ bound)
    (hBound : 1 ≤ bound) (o : Option α) : (optionalBytes write o).length ≤ bound := by
  cases o with
  | none => exact hBound
  | some a => exact h a

/-- Every form but null starts with another byte. -/
theorem arrayBytes_first {count : Nat} (h : count < 24) (rest : List Byte) :
    ∃ b tail, arrayBytes count ++ rest = b :: tail ∧ b ≠ 0xf6 := by
  refine ⟨_, _, rfl, fun hEq => ?_⟩
  have hWidth : argumentWidth count = 0 := by rw [argumentWidth, if_pos h]
  have hToNat := initial_toNat 4 (by decide) (show additional count < 32 by simp [additional, hWidth]; omega)
  rw [hEq] at hToNat
  simp only [additional, hWidth] at hToNat
  have : (0xf6 : UInt8).toNat = 246 := rfl
  omega

end Lengths

section Writing

/-- The program appends these bytes whenever they still fit. -/
def Writes (program : EncoderM Unit) (output : List Byte) : Prop :=
  ∀ encoder : Encoder, encoder.bytes.length + output.length ≤ encoder.maximum →
    program encoder = .ok () { encoder with bytes := encoder.bytes ++ output }

theorem Writes.append (output : List Byte) : Writes (Encoder.append output) output := by
  intro encoder hFits
  simp only [Encoder.append, bind_ok, get_ok, failIf_ok, set_ok]
  exact ⟨_, _, ⟨rfl, rfl⟩, (), _, ⟨by omega, rfl⟩, rfl⟩

theorem Writes.bind {first second : EncoderM Unit} {output output' : List Byte} (hFirst : Writes first output)
    (hSecond : Writes second output') : Writes (first >>= fun _ => second) (output ++ output') := by
  intro encoder hFits
  rw [List.length_append] at hFits
  have hRest := hSecond { encoder with bytes := encoder.bytes ++ output }
    (by simp only [List.length_append]; omega)
  rw [bind_ok]
  refine ⟨(), _, hFirst encoder (by omega), ?_⟩
  rw [hRest, List.append_assoc]

theorem Writes.unsigned (value : Nat) : Writes (Encoder.unsigned value) (unsignedBytes value) :=
  Writes.append _

theorem Writes.array (length : Nat) : Writes (Encoder.array length) (arrayBytes length) :=
  Writes.append _

theorem Writes.byteString (bytes : List Byte) : Writes (Encoder.byteString bytes) (stringBytes bytes) :=
  Writes.bind (Writes.append _) (Writes.append _)

/-- An optional field: null, or a record. -/
def Encoder.optional {α : Type} (write : α → EncoderM Unit) : Option α → EncoderM Unit
  | none => Encoder.null
  | some value => write value

theorem Writes.optional {α : Type} {write : α → EncoderM Unit} {output : α → List Byte}
    (h : ∀ a, Writes (write a) (output a)) (o : Option α) :
    Writes (Encoder.optional write o) (optionalBytes output o) := by
  cases o with
  | none => exact Writes.append _
  | some a => exact h a

theorem Writes.forM {α : Type} {write : α → EncoderM Unit} {output : α → List Byte}
    (h : ∀ a, Writes (write a) (output a)) (items : List α) :
    Writes (items.forM write) (items.flatMap output) := by
  induction items with
  | nil =>
      intro encoder _
      show EStateM.Result.ok () encoder = _
      simp
  | cons a rest ih => exact Writes.bind (h a) ih

end Writing

end MicroCard.Cbor
