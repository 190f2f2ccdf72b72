import MicroCard.Jcvm.Basic
import MicroCard.Library.Checks
import MicroCard.Transport.Apdu

/-! The short command cases, read once by the transport and a second time by the applet engine.
The byte behind the header is a length of data or an expected length, and only the
total length tells which. -/
namespace MicroCard.Jcvm

open Bytes CrashTriple

/-- How many bytes of command data a short APDU carries. -/
def incomingLength (command : List Byte) : Except Error Nat := do
  failIf (¬(4 ≤ command.length ∧ command.length ≤ 261)) .bounds
  if command.length ≤ 5 then
    return 0
  let declared := (command.getD 4 0).toNat
  failIf (declared = 0) .bounds
  if command.length = 5 + declared ∨ command.length = 6 + declared then
    return declared
  throw .bounds

def expectedLength (command : List Byte) : Except Error Nat := do
  let _ ← incomingLength command
  if command.length = 5 ∨ (5 < command.length ∧ command.length = 6 + (command.getD 4 0).toNat) then
    let le ← orFail command.getLast? .bounds
    return if le = 0 then 256 else le.toNat
  return 0

end MicroCard.Jcvm

namespace MicroCard.Transport

open Bytes CrashTriple

/-- Data that a one-byte length announces; no data has no length. -/
abbrev ShortData := {data : List Byte // 0 < data.length ∧ data.length ≤ 255}

def ShortData.lc (data : ShortData) : Byte := UInt8.ofNat data.1.length

theorem ShortData.toNat_lc (data : ShortData) : data.lc.toNat = data.1.length := by
  have hBound := data.2.2
  simp only [ShortData.lc, UInt8.toNat_ofNat']
  omega

/-- The class, the instruction and the two parameters of a command. -/
structure Header where
  cla : Byte
  ins : Byte
  p1 : Byte
  p2 : Byte

def Header.bytes (header : Header) : List Byte := [header.cla, header.ins, header.p1, header.p2]

/-- The four cases of a short command: without data or with it, each without an expected
length or with one. -/
inductive ShortApdu where
  | case1 (header : Header)
  | case2 (header : Header) (le : Byte)
  | case3 (header : Header) (data : ShortData)
  | case4 (header : Header) (data : ShortData) (le : Byte)

namespace ShortApdu

def bytes : ShortApdu → List Byte
  | case1 header => header.bytes
  | case2 header le => header.bytes ++ [le]
  | case3 header data => header.bytes ++ data.lc :: data.1
  | case4 header data le => header.bytes ++ data.lc :: (data.1 ++ [le])

/-- What a command says. -/
def command : ShortApdu → Command
  | case1 h => ⟨h.cla, h.ins, h.p1, h.p2, [], none⟩
  | case2 h le => ⟨h.cla, h.ins, h.p1, h.p2, [], some (Command.expected le)⟩
  | case3 h data => ⟨h.cla, h.ins, h.p1, h.p2, data.1, none⟩
  | case4 h data le => ⟨h.cla, h.ins, h.p1, h.p2, data.1, some (Command.expected le)⟩

end ShortApdu

/-- Parsing when more than one byte follows the header. -/
theorem Command.parse_long (h : Header) (lc first : Byte) (rest : List Byte) (hLength : rest.length ≤ 255) :
    Command.parse (h.bytes ++ lc :: first :: rest) =
      if lc.toNat = 0 ∨ ¬((first :: rest).length = lc.toNat ∨ (first :: rest).length = lc.toNat + 1) then
        .error .format
      else .ok ⟨h.cla, h.ins, h.p1, h.p2, (first :: rest).take lc.toNat,
        ((first :: rest).drop lc.toNat).head?.map Command.expected⟩ := by
  have hShort : ¬((h.bytes ++ lc :: first :: rest).length < 4 ∨ 261 < (h.bytes ++ lc :: first :: rest).length) := by
    simp only [Header.bytes, List.length_append, List.length_cons, List.length_nil]
    omega
  simp only [Command.parse, failIf, if_neg hShort]
  simp only [Header.bytes, List.cons_append, List.nil_append, List.getD_cons_zero, List.getD_cons_succ,
    List.drop_succ_cons, List.drop_zero]
  split_ifs <;> rfl

/-- A command of one of the four cases parses to what the case says. -/
theorem ShortApdu.parse_bytes (apdu : ShortApdu) : Command.parse apdu.bytes = .ok apdu.command := by
  cases apdu with
  | case1 h => rfl
  | case2 h le => rfl
  | case3 h data =>
      have hLc := data.toNat_lc
      obtain ⟨data, hPositive, hBound⟩ := data
      cases data with
      | nil => cases hPositive
      | cons first rest =>
          simp only [List.length_cons] at hLc hBound
          rw [bytes, Command.parse_long h _ first rest (by omega), hLc, if_neg (by simp)]
          rw [List.take_of_length_le (by simp), List.drop_of_length_le (by simp)]
          rfl
  | case4 h data le =>
      have hLc := data.toNat_lc
      obtain ⟨data, hPositive, hBound⟩ := data
      cases data with
      | nil => cases hPositive
      | cons first rest =>
          simp only [List.length_cons] at hLc hBound
          rw [bytes, List.cons_append, Command.parse_long h _ first (rest ++ [le]) (by simp; omega), hLc,
            if_neg (by simp)]
          rw [← List.cons_append, ← List.length_cons, List.take_left, List.drop_left]
          rfl

/-- Whatever parses is a command of one of the four cases. -/
theorem Command.parse_sound {raw : List Byte} {c : Command} (hParsed : Command.parse raw = .ok c) :
    ∃ apdu : ShortApdu, apdu.bytes = raw ∧ apdu.command = c := by
  obtain ⟨_, hLength, hRest⟩ := Checks.bind_ok.1 hParsed
  have hBounds := Checks.failIf_ok.1 hLength
  match raw, hBounds, hParsed, hRest with
  | [cla, ins, p1, p2], _, hParsed, _ =>
      cases hParsed
      exact ⟨.case1 ⟨cla, ins, p1, p2⟩, rfl, rfl⟩
  | [cla, ins, p1, p2, le], _, hParsed, _ =>
      cases hParsed
      exact ⟨.case2 ⟨cla, ins, p1, p2⟩ le, rfl, rfl⟩
  | cla :: ins :: p1 :: p2 :: lc :: first :: rest, hBounds, hParsed, _ =>
      simp only [List.length_cons] at hBounds
      have hLong := Command.parse_long ⟨cla, ins, p1, p2⟩ lc first rest (by omega)
      simp only [Header.bytes, List.cons_append, List.nil_append] at hLong
      rw [hLong] at hParsed
      split_ifs at hParsed with hRefused
      have hLc : 0 < lc.toNat ∧ lc.toNat ≤ 255 := ⟨by omega, by have := lc.toNat_lt; omega⟩
      cases hParsed
      rcases Decidable.em ((first :: rest).length = lc.toNat) with hExact | hOneMore
      · refine ⟨.case3 ⟨cla, ins, p1, p2⟩ ⟨first :: rest, by omega⟩, ?_, ?_⟩
        · simp [ShortApdu.bytes, Header.bytes, ShortData.lc, hExact]
        · rw [List.take_of_length_le hExact.le, List.drop_of_length_le hExact.le]
          rfl
      · have hLast : (first :: rest).length = lc.toNat + 1 := by tauto
        obtain ⟨data, le, hData⟩ : ∃ data le, first :: rest = data ++ [le] :=
          ⟨_, _, (List.dropLast_append_getLast (List.cons_ne_nil first rest)).symm⟩
        have hSize : data.length = lc.toNat := by
          simpa [hData] using hLast
        refine ⟨.case4 ⟨cla, ins, p1, p2⟩ ⟨data, by omega⟩ le, ?_, ?_⟩
        · rw [hData]
          simp [ShortApdu.bytes, Header.bytes, ShortData.lc, hSize]
        · rw [hData, ← hSize, List.take_left, List.drop_left]
          rfl

/-- Encoding what a case says gives its bytes back. -/
theorem ShortApdu.encode_command (apdu : ShortApdu) : apdu.command.encode = .ok apdu.bytes := by
  have hExpected (le : Byte) : UInt8.ofNat (Command.expected le) = le ∧ Command.expected le ≠ 0 ∧
      Command.expected le ≤ 256 := by
    have hLt := le.toNat_lt
    unfold Command.expected
    split_ifs with hZero
    · exact ⟨by rw [hZero]; rfl, by decide, by decide⟩
    · have hNonzero : le.toNat ≠ 0 := fun h => hZero (UInt8.toNat_inj.1 h)
      exact ⟨UInt8.ofNat_toNat, hNonzero, by omega⟩
  cases apdu with
  | case1 h => rfl
  | case2 h le =>
      obtain ⟨hByte, hPositive, hBound⟩ := hExpected le
      simp [command, bytes, Command.encode, failIf, Header.bytes, hByte, hPositive, hBound.not_gt]
      rfl
  | case3 h data =>
      obtain ⟨data, hPositive, hBound⟩ := data
      have hData : data ≠ [] := List.ne_nil_of_length_pos hPositive
      simp [command, bytes, Command.encode, failIf, Header.bytes, ShortData.lc, hData, hBound.not_gt]
      rfl
  | case4 h data le =>
      obtain ⟨hByte, hLe, hLimit⟩ := hExpected le
      obtain ⟨data, hPositive, hBound⟩ := data
      have hData : data ≠ [] := List.ne_nil_of_length_pos hPositive
      simp [command, bytes, Command.encode, failIf, Header.bytes, ShortData.lc, hData, hBound.not_gt, hByte, hLe,
        hLimit.not_gt]
      rfl

/-- The engine reads the length of data from the fifth byte, and an expected length from the
last one when the total leaves a byte for it. -/
theorem lengths_of_long (h : Header) (data : ShortData) (le : List Byte) (hLe : le.length ≤ 1) :
    Jcvm.incomingLength (h.bytes ++ data.lc :: (data.1 ++ le)) = .ok data.1.length ∧
      Jcvm.expectedLength (h.bytes ++ data.lc :: (data.1 ++ le)) = .ok ((le.head?.map Command.expected).getD 0) := by
  obtain ⟨hPositive, hBound⟩ := data.2
  have hLength : (h.bytes ++ data.lc :: (data.1 ++ le)).length = 5 + data.1.length + le.length := by
    simp only [Header.bytes, List.length_append, List.length_cons, List.length_nil]
    omega
  have hFifth : ((h.bytes ++ data.lc :: (data.1 ++ le)).getD 4 0).toNat = data.1.length := data.toNat_lc
  have hIncoming : Jcvm.incomingLength (h.bytes ++ data.lc :: (data.1 ++ le)) = .ok data.1.length := by
    simp only [Jcvm.incomingLength, hFifth, hLength, failIf]
    rw [if_neg (by omega), if_neg (by omega), if_neg (by omega), if_pos (by omega)]
    rfl
  refine ⟨hIncoming, ?_⟩
  simp only [Jcvm.expectedLength, hIncoming, hFifth, hLength]
  cases le with
  | nil =>
      rw [if_neg (by simp only [List.length_nil]; omega)]
      rfl
  | cons byte rest =>
      have hNone : rest = [] := List.length_eq_zero_iff.1 (Nat.le_zero.1 (Nat.le_of_succ_le_succ hLe))
      subst hNone
      rw [if_pos (by simp only [List.length_cons, List.length_nil]; omega)]
      have hLast : (h.bytes ++ data.lc :: (data.1 ++ [byte])).getLast? = some byte := by
        rw [← List.cons_append, ← List.append_assoc, List.getLast?_concat]
      rw [hLast]
      rfl

/-- The engine finds the data length and the expected length that the case says; a command
without an expected length counts as zero. -/
theorem ShortApdu.engine_lengths (apdu : ShortApdu) :
    Jcvm.incomingLength apdu.bytes = .ok apdu.command.data.length ∧
      Jcvm.expectedLength apdu.bytes = .ok (apdu.command.le.getD 0) := by
  cases apdu with
  | case1 h => exact ⟨rfl, rfl⟩
  | case2 h le => exact ⟨rfl, rfl⟩
  | case3 h data => simpa [bytes, command] using lengths_of_long h data [] (by simp)
  | case4 h data le => simpa [bytes, command] using lengths_of_long h data [le] (by simp)

/-- A byte string parses exactly when it is a command of one of the four cases. What
was parsed encodes back to the same bytes, and the engine derives the same data length and
the same expected length from them. -/
theorem apdu_shapes_agree (raw : List Byte) :
    ((∃ c, Command.parse raw = .ok c) ↔ ∃ apdu : ShortApdu, apdu.bytes = raw) ∧
      ∀ c, Command.parse raw = .ok c → c.encode = .ok raw ∧ Jcvm.incomingLength raw = .ok c.data.length ∧
        Jcvm.expectedLength raw = .ok (c.le.getD 0) := by
  constructor
  · constructor
    · intro ⟨c, hParsed⟩
      obtain ⟨apdu, hBytes, -⟩ := Command.parse_sound hParsed
      exact ⟨apdu, hBytes⟩
    · intro ⟨apdu, hBytes⟩
      exact ⟨apdu.command, hBytes ▸ apdu.parse_bytes⟩
  · intro c hParsed
    obtain ⟨apdu, rfl, rfl⟩ := Command.parse_sound hParsed
    exact ⟨apdu.encode_command, apdu.engine_lengths⟩

end MicroCard.Transport
