import MicroCard.Card.CborItems
import MicroCard.Card.Package

/-! Identifiers and the hexadecimal text of application identifiers. -/
namespace MicroCard.Mc04

open Bytes CrashTriple Cbor

def isDigit (byte : Byte) : Bool := 0x30 ≤ byte ∧ byte ≤ 0x39

def isUpper (byte : Byte) : Bool := 0x41 ≤ byte ∧ byte ≤ 0x5a

def isLower (byte : Byte) : Bool := 0x61 ≤ byte ∧ byte ≤ 0x7a

def isAlphanumeric (byte : Byte) : Bool := isDigit byte || isUpper byte || isLower byte

def validIdentifier (value : String) : Bool :=
  1 ≤ (utf8 value).length && (utf8 value).length ≤ 64 && isAlphanumeric ((utf8 value).headD 0) &&
    (utf8 value).all fun byte => isAlphanumeric byte || byte = 0x2e || byte = 0x5f || byte = 0x2d

section AidText

/-- A digit of `b"0123456789ABCDEF"`. -/
def hexByte (n : Nat) : Byte := if n < 10 then UInt8.ofNat (0x30 + n) else UInt8.ofNat (0x37 + n)

/-- The text of an identifier, in capital digits. -/
def hexDigits (value : List Byte) : List Byte :=
  value.flatMap fun byte => [hexByte (byte.toNat / 16), hexByte (byte.toNat % 16)]

def encodeAid (value : List Byte) : String := String.ofList ((hexDigits value).map Char.ofUInt8)

def nibble (byte : Byte) : Option Nat :=
  if isDigit byte then some (byte.toNat - 0x30)
  else if 0x61 ≤ byte ∧ byte ≤ 0x66 then some (byte.toNat - 0x61 + 10)
  else if 0x41 ≤ byte ∧ byte ≤ 0x46 then some (byte.toNat - 0x41 + 10)
  else none

/-- `chunks_exact(2)`, with each pair decoded. -/
def decodePairs : List Byte → Option (List Byte)
  | high :: low :: rest => do
      let h ← nibble high
      let l ← nibble low
      let others ← decodePairs rest
      pure (UInt8.ofNat (h * 16 + l) :: others)
  | _ => some []

def decodeAid (text : String) : Except Error (List Byte) := do
  failIf (¬(10 ≤ (utf8 text).length ∧ (utf8 text).length ≤ 32) ∨ (utf8 text).length % 2 ≠ 0) .format
  orFail (decodePairs (utf8 text)) .format

theorem utf8EncodeChar_ascii {byte : Byte} (h : byte < 0x80) : String.utf8EncodeChar (Char.ofUInt8 byte) = [byte] := by
  have hSize : (Char.ofUInt8 byte).utf8Size = 1 := by
    rw [Char.utf8Size_eq_one_iff]
    show byte.toUInt32 ≤ 0x7f
    rw [UInt32.le_iff_toNat_le, UInt8.toNat_toUInt32]
    have hLt := UInt8.lt_iff_toNat_lt.1 h
    exact Nat.le_of_lt_succ hLt
  rw [String.utf8EncodeChar_eq_singleton hSize]
  show [byte.toUInt32.toUInt8] = [byte]
  simp

/-- One byte a character. -/
theorem utf8_ascii {bytes : List Byte} (h : ∀ byte ∈ bytes, byte < 0x80) :
    utf8 (String.ofList (bytes.map Char.ofUInt8)) = bytes := by
  rw [utf8, String.toByteArray_ofList, List.utf8Encode, List.toList_data_toByteArray, List.flatMap_map]
  induction bytes with
  | nil => rfl
  | cons byte rest ih =>
      rw [List.flatMap_cons, utf8EncodeChar_ascii (h byte List.mem_cons_self),
        ih fun b hb => h b (List.mem_cons_of_mem _ hb), List.singleton_append]

theorem utf8_injective {text text' : String} (h : utf8 text = utf8 text') : text = text' :=
  Option.some.inj ((fromUtf8_eq.2 h).symm.trans (fromUtf8_eq.2 rfl)).symm

/-- What the digits of a byte are. -/
theorem nibble_hexByte {n : Nat} (h : n < 16) : nibble (hexByte n) = some n ∧ hexByte n < 0x80 := by
  revert n
  decide

theorem hexDigits_ascii (value : List Byte) : ∀ byte ∈ hexDigits value, byte < 0x80 := by
  intro byte hByte
  obtain ⟨b, -, hPair⟩ := List.mem_flatMap.1 hByte
  have hLt := b.toNat_lt
  rcases List.mem_cons.1 hPair with rfl | hPair
  · exact (nibble_hexByte (by omega)).2
  · rw [List.mem_singleton.1 hPair]
    exact (nibble_hexByte (by omega)).2

theorem length_hexDigits (value : List Byte) : (hexDigits value).length = 2 * value.length := by
  induction value with
  | nil => rfl
  | cons byte rest ih =>
      have hStep : (hexDigits (byte :: rest)).length = (hexDigits rest).length + 2 := by simp [hexDigits]
      rw [hStep, ih, List.length_cons]
      omega

theorem utf8_encodeAid (value : List Byte) : utf8 (encodeAid value) = hexDigits value :=
  utf8_ascii (hexDigits_ascii value)

theorem decodePairs_hexDigits (value : List Byte) : decodePairs (hexDigits value) = some value := by
  induction value with
  | nil => rfl
  | cons byte rest ih =>
      have hLt := byte.toNat_lt
      show decodePairs (hexByte (byte.toNat / 16) :: hexByte (byte.toNat % 16) :: hexDigits rest) = some (byte :: rest)
      have hByte : UInt8.ofNat (byte.toNat / 16 * 16 + byte.toNat % 16) = byte := by
        rw [Nat.mul_comm, Nat.div_add_mod, UInt8.ofNat_toNat]
      simp only [decodePairs, (nibble_hexByte (show byte.toNat / 16 < 16 by omega)).1,
        (nibble_hexByte (show byte.toNat % 16 < 16 by omega)).1, ih, Option.bind_eq_bind, Option.bind_some,
        Option.pure_def, hByte]

/-- Decoding reads back the bytes of an identifier from its text. -/
theorem decodeAid_encodeAid {value : List Byte} (h : 5 ≤ value.length ∧ value.length ≤ 16) :
    decodeAid (encodeAid value) = .ok value := by
  rw [decodeAid, utf8_encodeAid, length_hexDigits, decodePairs_hexDigits, failIf, if_neg (by omega)]
  rfl

theorem encodeAid_injective {value value' : List Byte} (h : encodeAid value = encodeAid value') : value = value' := by
  have hDigits := congrArg utf8 h
  rw [utf8_encodeAid, utf8_encodeAid] at hDigits
  exact Option.some.inj ((decodePairs_hexDigits value).symm.trans (hDigits ▸ decodePairs_hexDigits value'))

end AidText

end MicroCard.Mc04
