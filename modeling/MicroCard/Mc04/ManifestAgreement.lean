import MicroCard.Mc04.HostManifest

/-! The two manifest codecs against each other: the card's decoder follows the encoder of
the build, field by field. -/
namespace MicroCard.Mc04.HostManifest

open Bytes CrashTriple Cbor Codec

section Values

namespace Json

def u8 (json : Json) : Option UInt8 := (json.getUnsigned (2 ^ 8)).map UInt8.ofNat

def u16 (json : Json) : Option UInt16 := (json.getUnsigned (2 ^ 16)).map UInt16.ofNat

def u32 (json : Json) : Option UInt32 := (json.getUnsigned (2 ^ 32)).map UInt32.ofNat

def i32 (json : Json) : Option Int32 := (json.getUnsigned (2 ^ 31)).map Int32.ofNat

def byteArray (json : Json) : Option (List Byte) := do
  let items ← json.enumerateArray
  items.mapM getByte

def fixed (count : Nat) (json : Json) : Option (Fixed count) := do
  let raw ← json.byteArray
  if h : raw.length = count then some ⟨raw, h⟩ else none

def orNull {α : Type} (value : Json → Option α) : Json → Option (Option α)
  | null => some none
  | json => (value json).map some

def list {α : Type} (value : Json → Option α) (json : Json) : Option (List α) := do
  let items ← json.enumerateArray
  items.mapM value

def version : Json → Option Version
  | array [major, minor, build, revision] => do
      let major ← major.u16
      let minor ← minor.u16
      let build ← build.u16
      let revision ← revision.u16
      pure ⟨#[major, minor, build, revision], size_parts major minor build revision⟩
  | _ => none

def dependencyExport (json : Json) : Option DependencyExport := do
  let access ← json.getProperty "access"
  let access ← access.u8
  let key ← json.getProperty "key"
  let key ← key.orNull (fixed 32)
  pure ⟨access, key⟩

def entry (json : Json) : Option AssemblyEntry := do
  let aid ← json.getProperty "aid"
  let aid ← aid.getString
  let process ← json.getProperty "process"
  let process ← process.u16
  let install ← json.getProperty "install"
  let install ← install.orNull u16
  let uninstall ← json.getProperty "uninstall"
  let uninstall ← uninstall.orNull u16
  let select ← json.getProperty "select"
  let select ← select.orNull u16
  let deselect ← json.getProperty "deselect"
  let deselect ← deselect.orNull u16
  pure ⟨aid, process, install, uninstall, select, deselect⟩

def range (json : Json) : Option VersionRange := do
  let min ← json.getProperty "min"
  let min ← min.orNull version
  let minInclusive ← json.getProperty "min_inclusive"
  let minInclusive ← minInclusive.getBoolean
  let max ← json.getProperty "max"
  let max ← max.orNull version
  let maxInclusive ← json.getProperty "max_inclusive"
  let maxInclusive ← maxInclusive.getBoolean
  pure ⟨min, minInclusive, max, maxInclusive⟩

def dependency (json : Json) : Option Dependency := do
  let assembly ← json.getProperty "assembly"
  let assembly ← assembly.getString
  let ranges ← json.getProperty "ranges"
  let ranges ← ranges.list range
  let packageVersion ← json.getProperty "package_version"
  let packageVersion ← packageVersion.u32
  let signer ← json.getProperty "signer"
  let signer ← signer.orNull (fixed 32)
  let digest ← json.getProperty "digest"
  let digest ← digest.orNull (fixed 32)
  let scope ← json.getProperty "scope"
  let scope ← scope.u8
  pure ⟨assembly, ranges, packageVersion, signer, digest, scope⟩

def declaration (json : Json) : Option StorageDeclaration := do
  let key ← json.getProperty "key"
  let key ← key.i32
  let kind ← json.getProperty "kind"
  let kind ← kind.u8
  let maxBytes ← json.getProperty "max_bytes"
  let maxBytes ← maxBytes.u16
  pure ⟨key, kind, maxBytes⟩

def limits (json : Json) : Option Limits := do
  let arena ← json.getProperty "arena"
  let arena ← arena.u32
  let stack ← json.getProperty "stack"
  let stack ← stack.u16
  let frames ← json.getProperty "frames"
  let frames ← frames.u8
  let instructions ← json.getProperty "instructions"
  let instructions ← instructions.u32
  pure ⟨arena, stack, frames, instructions⟩

/-- The manifest with these field values, where each has one that its type can hold. -/
def manifest (json : Json) : Option Manifest := do
  let domain ← json.getProperty "domain"
  let domain ← domain.getString
  let incarnation ← json.getProperty "incarnation"
  let incarnation ← incarnation.fixed 16
  let assembly ← json.getProperty "assembly"
  let assembly ← assembly.getString
  let assemblyVersion ← json.getProperty "assembly_version"
  let assemblyVersion ← assemblyVersion.version
  let packageVersion ← json.getProperty "version"
  let packageVersion ← packageVersion.u32
  let export' ← json.getProperty "export"
  let export' ← export'.dependencyExport
  let entryPoints ← json.getProperty "entry_points"
  let entryPoints ← entryPoints.list entry
  let dependencies ← json.getProperty "dependencies"
  let dependencies ← dependencies.list dependency
  let capabilities ← json.getProperty "capabilities"
  let capabilities ← capabilities.byteArray
  let storage ← json.getProperty "storage"
  let storage ← storage.list declaration
  let limits' ← json.getProperty "limits"
  let limits' ← limits'.limits
  pure ⟨domain, incarnation, assembly, assemblyVersion, packageVersion, export', entryPoints, dependencies, capabilities,
    storage, limits'⟩

end Json

end Values

section Arguments

theorem drop_toBE {width value : Nat} (h : width ≤ 8) : (toBE 8 value).drop (8 - width) = toBE width value := by
  have hTake : ∀ width total value : Nat, width ≤ total → (toLE total value).take width = toLE width value := by
    intro width
    induction width with
    | zero => exact fun _ _ _ => rfl
    | succ width ih =>
        intro total value hLe
        cases total with
        | zero => omega
        | succ total => simp only [toLE, List.take_succ_cons, ih total _ (Nat.le_of_succ_le_succ hLe)]
  rw [toBE, toBE, List.drop_reverse, length_toLE, hTake _ _ _ (by omega)]
  congr 2
  omega

/-- The build writes arguments in the form the card reads them in. -/
theorem writeArgument_eq (major value : Nat) : writeArgument major value = tell (argumentBytes major value) := by
  have hInitial {extra : Nat} (h : extra < 32) : major <<< 5 ||| extra = major * 32 + extra := by
    rw [← Nat.shiftLeft_add_eq_or_of_lt (show extra < 2 ^ 5 from h), Nat.shiftLeft_eq]
  unfold writeArgument argumentBytes additional argumentWidth
  split_ifs <;> first
    | omega
    | (dsimp only; rw [hInitial (by omega), drop_toBE (by decide)]; rfl)

theorem argument_run {major value : Nat} {bytes : List Byte} :
    (writeArgument major value).run = some ((), bytes) ↔ bytes = argumentBytes major value := by
  rw [writeArgument_eq, Output.tell_run]

end Arguments

section Texts

/-- A text whose units are all in the first half of a byte is those bytes. -/
theorem ascii_of_units {text : String} (h : ∀ unit ∈ utf16 text, unit < 0x80) :
    ∃ bytes : List Byte, (∀ byte ∈ bytes, byte < 0x80) ∧ text = String.ofList (bytes.map Char.ofUInt8) ∧
      utf16 text = bytes.map UInt8.toUInt16 := by
  have hChar {c : Char} (hUnits : ∀ unit ∈ units c, unit < 0x80) :
      ∃ byte : Byte, byte < 0x80 ∧ c = Char.ofUInt8 byte ∧ units c = [byte.toUInt16] := by
    unfold units at hUnits ⊢
    split_ifs at hUnits ⊢ with hPlane
    · have hSmall := UInt16.lt_iff_toNat_lt.1 (hUnits _ (List.mem_singleton.2 rfl))
      rw [UInt16.toNat_ofNat', Nat.mod_eq_of_lt hPlane] at hSmall
      have hBound : c.toNat < 128 := hSmall
      refine ⟨UInt8.ofNat c.toNat, ?_, ?_, ?_⟩
      · rw [UInt8.lt_iff_toNat_lt, UInt8.toNat_ofNat', Nat.mod_eq_of_lt (by omega)]
        exact hBound
      · apply Char.toNat_inj.1
        show c.toNat = (UInt8.ofNat c.toNat).toNat
        rw [UInt8.toNat_ofNat', Nat.mod_eq_of_lt (by omega)]
      · congr 1
        apply UInt16.toNat_inj.1
        rw [UInt16.toNat_ofNat', UInt8.toNat_toUInt16, UInt8.toNat_ofNat', Nat.mod_eq_of_lt hPlane, Nat.mod_eq_of_lt (by omega)]
    · have hHigh := UInt16.lt_iff_toNat_lt.1 (hUnits _ List.mem_cons_self)
      have hPoint : c.toNat < 0x110000 := c.valid.elim (fun h => h.trans (by decide)) fun h => h.2
      rw [UInt16.toNat_ofNat', Nat.mod_eq_of_lt (by omega)] at hHigh
      have hHalf : (0x80 : UInt16).toNat = 128 := rfl
      omega
  have hList : ∀ cs : List Char, (∀ unit ∈ cs.flatMap units, unit < 0x80) →
      ∃ bytes : List Byte, (∀ byte ∈ bytes, byte < 0x80) ∧ cs = bytes.map Char.ofUInt8 ∧
        cs.flatMap units = bytes.map UInt8.toUInt16 := by
    intro cs
    induction cs with
    | nil => exact fun _ => ⟨[], by simp, rfl, rfl⟩
    | cons c rest ih =>
        intro hUnits
        rw [List.flatMap_cons] at hUnits ⊢
        obtain ⟨byte, hByte, hFirst, hUnit⟩ := hChar fun unit hUnit => hUnits unit (List.mem_append_left _ hUnit)
        obtain ⟨others, hOthers, hRest, hMore⟩ := ih fun unit hUnit => hUnits unit (List.mem_append_right _ hUnit)
        exact ⟨byte :: others, List.forall_mem_cons.2 ⟨hByte, hOthers⟩, by rw [hRest, hFirst]; rfl, by rw [hMore, hUnit]; rfl⟩
  obtain ⟨bytes, hBytes, hText, hUnits⟩ := hList text.toList h
  exact ⟨bytes, hBytes, by rw [← hText, String.ofList_toList], hUnits⟩

/-- Alphanumeric units, and the three others of an identifier. -/
theorem isAlphaNumeric_lt {unit : UInt16} (h : isAlphaNumeric unit = true) : unit < 0x80 := by
  simp only [isAlphaNumeric, decide_eq_true_eq, UInt16.le_iff_toNat_le] at h
  rw [UInt16.lt_iff_toNat_lt]
  have hBounds : (0x5a : UInt16).toNat = 90 ∧ (0x7a : UInt16).toNat = 122 ∧ (0x39 : UInt16).toNat = 57 ∧
    (0x80 : UInt16).toNat = 128 := by decide
  omega

/-- A valid name is written as its bytes. -/
theorem ascii_of_valid {name : String} (h : isValid (utf16 name) = true) :
    ascii (utf16 name) = utf8 name ∧ (utf8 name).length ≤ 64 := by
  unfold isValid at h
  split_ifs at h with hRefused
  have hUnits : ∀ unit ∈ utf16 name, unit < 0x80 := by
    intro unit hUnit
    have hOne := List.all_eq_true.1 h unit hUnit
    simp only [Bool.or_eq_true, decide_eq_true_eq] at hOne
    rcases hOne with ((hAlpha | rfl) | rfl) | rfl
    · exact isAlphaNumeric_lt hAlpha
    · decide
    · decide
    · decide
  obtain ⟨bytes, hBytes, rfl, hEq⟩ := ascii_of_units hUnits
  rw [hEq] at hUnits hRefused ⊢
  rw [utf8_ascii hBytes]
  refine ⟨?_, ?_⟩
  · rw [ascii, List.map_map]
    refine (List.map_congr_left fun byte hByte => ?_).trans (List.map_id bytes)
    rw [Function.comp, if_pos (hUnits _ (List.mem_map_of_mem hByte)), UInt8.toUInt8_toUInt16, id]
  · rw [List.length_map] at hRefused
    omega

theorem hexValue_digit {byte value : Byte} (hUpper : isHexDigitUpper byte.toUInt16 = true)
    (h : hexValue byte.toUInt16 = some value) : ManifestCbor.digit byte = .ok value := by
  have hLe (low : Byte) : low.toUInt16 ≤ byte.toUInt16 ↔ low ≤ byte := by
    rw [UInt16.le_iff_toNat_le, UInt8.le_iff_toNat_le, UInt8.toNat_toUInt16, UInt8.toNat_toUInt16]
  have hGe (high : Byte) : byte.toUInt16 ≤ high.toUInt16 ↔ byte ≤ high := by
    rw [UInt16.le_iff_toNat_le, UInt8.le_iff_toNat_le, UInt8.toNat_toUInt16, UInt8.toNat_toUInt16]
  have hDigits : ((0x30 : UInt16) ≤ byte.toUInt16 ∧ byte.toUInt16 ≤ 0x39) ↔ 0x30 ≤ byte ∧ byte ≤ 0x39 :=
    and_congr (hLe 0x30) (hGe 0x39)
  have hLetters : ((0x41 : UInt16) ≤ byte.toUInt16 ∧ byte.toUInt16 ≤ 0x46) ↔ 0x41 ≤ byte ∧ byte ≤ 0x46 :=
    and_congr (hLe 0x41) (hGe 0x46)
  simp only [isHexDigitUpper, hDigits, hLetters, decide_eq_true_eq] at hUpper
  unfold hexValue at h
  unfold ManifestCbor.digit
  simp only [hDigits, hLetters] at h
  by_cases hDigit : 0x30 ≤ byte ∧ byte ≤ 0x39
  · rw [if_pos hDigit] at h ⊢
    rw [← Option.some.inj h, UInt16.toUInt8_sub, UInt8.toUInt8_toUInt16]
    rfl
  · have hLetter := hUpper.resolve_left hDigit
    rw [if_neg hDigit, if_pos hLetter] at h ⊢
    rw [← Option.some.inj h, UInt16.toUInt8_add, UInt16.toUInt8_sub, UInt8.toUInt8_toUInt16]
    rfl

/-- Both sides make the same bytes of capital digits. -/
theorem fromHexString_digits {digits raw : List Byte} (hUpper : ∀ c ∈ digits.map UInt8.toUInt16, isHexDigitUpper c = true)
    (h : fromHexString (digits.map UInt8.toUInt16) = some raw) : ManifestCbor.digitPairs digits = .ok raw := by
  induction digits using ManifestCbor.digitPairs.induct generalizing raw with
  | case1 high low rest ih =>
      simp only [List.map_cons, fromHexString, Option.bind_eq_bind, Option.bind_eq_some_iff, Option.pure_def] at h
      obtain ⟨a, hHigh, b, hLow, others, hOthers, hRaw⟩ := h
      simp only [List.map_cons, List.forall_mem_cons] at hUpper
      simp only [ManifestCbor.digitPairs, Checks.bind_ok]
      exact ⟨a, hexValue_digit hUpper.1 hHigh, b, hexValue_digit hUpper.2.1 hLow, others, ih hUpper.2.2 hOthers,
        congrArg Except.ok (Option.some.inj hRaw)⟩
  | case2 digits hShort =>
      cases digits with
      | nil => exact congrArg Except.ok (Option.some.inj h)
      | cons first rest =>
          cases rest with
          | nil => cases h
          | cons second rest => exact absurd rfl (hShort first second rest)

theorem length_fromHexString {text : List UInt16} {raw : List Byte} (h : fromHexString text = some raw) :
    text.length = 2 * raw.length := by
  induction text using fromHexString.induct generalizing raw with
  | case1 =>
      obtain rfl := Option.some.inj h
      rfl
  | case2 => cases h
  | case3 high low rest ih =>
      simp only [fromHexString, Option.bind_eq_bind, Option.bind_eq_some_iff, Option.pure_def] at h
      obtain ⟨_, -, _, -, others, hOthers, hRaw⟩ := h
      obtain rfl := Option.some.inj hRaw
      simp only [List.length_cons, ih hOthers]
      omega

/-- An accepted identifier is the text of the bytes that are written for it. -/
theorem encodeAid_of_hex {text : String} {raw : List Byte} (hEven : (utf16 text).length % 2 = 0)
    (hUpper : ∀ c ∈ utf16 text, isHexDigitUpper c = true) (h : fromHexString (utf16 text) = some raw) : encodeAid raw = text := by
  have hUnits : ∀ unit ∈ utf16 text, unit < 0x80 := by
    intro unit hUnit
    have hOne := hUpper unit hUnit
    simp only [isHexDigitUpper, decide_eq_true_eq, UInt16.le_iff_toNat_le] at hOne
    rw [UInt16.lt_iff_toNat_lt]
    have hBounds : (0x39 : UInt16).toNat = 57 ∧ (0x46 : UInt16).toNat = 70 ∧ (0x80 : UInt16).toNat = 128 := by decide
    omega
  obtain ⟨bytes, hBytes, rfl, hEq⟩ := ascii_of_units hUnits
  rw [hEq] at hEven hUpper h
  rw [List.length_map] at hEven
  apply utf8_injective
  rw [utf8_encodeAid, utf8_ascii hBytes]
  exact (ManifestCbor.digitPairs_ok (fromHexString_digits hUpper h) hEven).symm

end Texts

section Parts

theorem getUnsigned_ok {limit n : Nat} {json : Json} : json.getUnsigned limit = some n ↔
    ∃ token, json = .number token ∧ Json.parseDigits token = some n ∧ n < limit := by
  cases json with
  | number token =>
      simp only [Json.getUnsigned, Option.bind_eq_bind, Option.bind_eq_some_iff, Option.guard_eq_some', Option.pure_def,
        Option.some.injEq, Json.number.injEq]
      constructor
      · rintro ⟨_, hDigits, _, hLt, rfl⟩
        exact ⟨token, rfl, hDigits, hLt⟩
      · rintro ⟨_, rfl, hDigits, hLt⟩
        exact ⟨n, hDigits, (), hLt, rfl⟩
  | _ => simp [Json.getUnsigned]

theorem getUnsigned_wide {limit wide n : Nat} {json : Json} (h : json.getUnsigned wide = some n) (hLt : n < limit) :
    json.getUnsigned limit = some n := by
  obtain ⟨token, rfl, hDigits, -⟩ := getUnsigned_ok.1 h
  exact getUnsigned_ok.2 ⟨token, rfl, hDigits, hLt⟩

theorem unsigned_exact : Exact unsigned unsignedBytes fun n => n < 2 ^ 64 := fun _ _ _ => unsigned_ok

theorem number_follows (json : Json) {limit : Nat} (hLimit : limit ≤ 2 ^ 64) :
    Follows (number json) (Cbor.number limit) (json.getUnsigned limit) := by
  apply Follows.look
  intro n hNumber bytes hRun rest a rest' hRead
  obtain rfl := argument_run.1 hRun
  obtain ⟨hLt, hBytes⟩ := (number_ok limit hLimit).1 hRead
  obtain ⟨_, -, -, hWide⟩ := getUnsigned_ok.1 hNumber
  obtain ⟨rfl, rfl⟩ := (unsigned_exact.append_inj hWide (show a < 2 ^ 64 by omega)).1 hBytes
  exact ⟨getUnsigned_wide hNumber hLt, rfl⟩

theorem u8_follows (json : Json) : Follows (number json) u8 json.u8 := (number_follows json (by decide)).map _

theorem u16_follows (json : Json) : Follows (number json) u16 json.u16 := (number_follows json (by decide)).map _

theorem u32_follows (json : Json) : Follows (number json) u32 json.u32 := (number_follows json (by decide)).map _

theorem i32_follows (json : Json) : Follows (number json) i32 json.i32 := (number_follows json (by decide)).map _

theorem record_follows {count : Nat} (h : count < 2 ^ 64) : Follows (array count) (record count) (some ()) := by
  intro bytes hRun rest a rest' hRead
  have hBytes := argument_run.1 hRun
  rw [record_ok count h, hBytes] at hRead
  exact ⟨rfl, List.append_cancel_left hRead.symm⟩

theorem array_follows {count maximum : Nat} (h : count < 2 ^ 64) (hMaximum : maximum < 2 ^ 64) :
    Follows (array count) (Cbor.array maximum) (some count) := by
  have hExact : Exact (argument 4) (argumentBytes 4) fun n => n < 2 ^ 64 := fun _ _ _ => argument_ok (by decide)
  intro bytes hRun rest a rest' hRead
  have hBytes := argument_run.1 hRun
  obtain ⟨hLe, hRead⟩ := (array_ok maximum hMaximum).1 hRead
  rw [hBytes] at hRead
  obtain ⟨rfl, rfl⟩ := (hExact.append_inj h (by omega)).1 hRead
  exact ⟨rfl, rfl⟩

theorem text_follows (json : Json) : Follows (text json) identifier json.getString := by
  have hExact : Exact (Cbor.text 64) textBytes fun text => (utf8 text).length ≤ 64 := fun _ _ _ => text_ok 64 (by decide)
  apply Follows.look
  intro name hName
  apply Follows.require
  intro hValid bytes hRun rest a rest' hRead
  obtain ⟨_, _, _, hHead, hTail, rfl⟩ := Output.bind_run.1 hRun
  obtain ⟨hAscii, hShort⟩ := ascii_of_valid hValid
  rw [argument_run, hAscii] at hHead
  rw [Output.tell_run, hAscii] at hTail
  rw [hHead, hTail] at hRead
  obtain ⟨hIdentifier, hBytes⟩ := identifier_ok.1 hRead
  have hLength : (utf8 a).length ≤ 64 := by
    simp only [validIdentifier, Bool.and_eq_true, decide_eq_true_eq] at hIdentifier
    exact hIdentifier.1.1.2
  obtain ⟨rfl, rfl⟩ := (hExact.append_inj hShort hLength).1 hBytes
  exact ⟨hName, rfl⟩

/-- The head of a byte string and what it holds. -/
theorem bytes_run {raw bytes : List Byte} : (HostManifest.bytes raw).run = some ((), bytes) ↔ bytes = stringBytes raw := by
  rw [HostManifest.bytes, Output.bind_run]
  constructor
  · rintro ⟨_, front, back, hHead, hTail, rfl⟩
    rw [argument_run] at hHead
    rw [Output.tell_run] at hTail
    rw [hHead, hTail, stringBytes]
  · rintro rfl
    exact ⟨(), _, _, argument_run.2 rfl, Output.tell_run.2 rfl, rfl⟩

theorem bytes_follows {raw : List Byte} {maximum : Nat} (hMaximum : maximum < 2 ^ 64) (h : raw.length < 2 ^ 64) :
    Follows (HostManifest.bytes raw) (Cbor.bytes maximum) (some raw) := by
  have hExact : Exact (Cbor.bytes (2 ^ 64 - 1)) stringBytes fun raw => raw.length ≤ 2 ^ 64 - 1 :=
    fun _ _ _ => bytes_ok _ (by decide)
  intro bytes hRun rest a rest' hRead
  obtain rfl := bytes_run.1 hRun
  obtain ⟨hLe, hBytes⟩ := (bytes_ok maximum hMaximum).1 hRead
  obtain ⟨rfl, rfl⟩ := (hExact.append_inj (by omega) (by omega)).1 hBytes
  exact ⟨rfl, rfl⟩

theorem binary_follows (json : Json) {count maximum : Nat} (hCount : count < 2 ^ 64) (hMaximum : maximum < 2 ^ 64) :
    Follows (binary json count) (Cbor.bytes maximum) json.byteArray := by
  apply Follows.look
  intro items hItems
  apply Follows.look
  intro raw hRaw
  apply Follows.require
  intro hLength
  rw [Json.byteArray, hItems, Option.bind_eq_bind, Option.bind_some, hRaw]
  exact bytes_follows hMaximum (by omega)

theorem fixed_follows (json : Json) {count : Nat} (hCount : count < 2 ^ 64) :
    Follows (binary json count) (Cbor.fixed count) (json.fixed count) := by
  intro bytes hRun rest a rest' hRead
  obtain ⟨raw, _, hRaw, hCheck⟩ := bind_ok.1 hRead
  obtain ⟨hValue, rfl⟩ := binary_follows json hCount hCount bytes hRun rest raw _ hRaw
  rw [Json.fixed, hValue, Option.bind_eq_bind, Option.bind_some]
  split at hCheck
  · rename_i hLength
    obtain ⟨rfl, rfl⟩ := pure_ok.1 hCheck
    exact ⟨dif_pos hLength, rfl⟩
  · exact (throw_ok.1 hCheck).elim

theorem boolean_follows (json : Json) : Follows (boolean json) Cbor.boolean json.getBoolean := by
  apply Follows.look
  intro value hValue bytes hRun rest a rest' hRead
  have hExact : Exact Cbor.boolean booleanBytes fun _ => True := fun _ _ _ => by rw [boolean_ok, true_and]
  have hBytes : bytes = booleanBytes value := Output.tell_run.1 hRun
  rw [boolean_ok, hBytes] at hRead
  obtain ⟨rfl, rfl⟩ := (hExact.append_inj trivial trivial).1 hRead
  exact ⟨hValue, rfl⟩

theorem part_follows (json : Json) :
    Follows (do let part ← json.getUInt16; writeArgument 0 part.toNat) Mc04.u16 json.u16 := by
  apply Follows.look
  intro part hPart bytes hRun rest a rest' hRead
  obtain rfl := argument_run.1 hRun
  have hPartLt := part.toNat_lt
  have hValueLt := a.toNat_lt
  obtain ⟨hEq, rfl⟩ := (unsigned_exact.append_inj (show part.toNat < 2 ^ 64 by omega) (show a.toNat < 2 ^ 64 by omega)).1
    (u16_ok.1 hRead)
  obtain rfl := UInt16.toNat_inj.1 hEq
  exact ⟨hPart, rfl⟩

theorem version_follows (json : Json) : Follows (version json) ManifestCbor.version json.version := by
  apply Follows.look
  intro parts hParts
  apply Follows.require
  intro hLength
  match parts, hLength with
  | [major, minor, build, revision], _ =>
      cases json with
      | array items =>
          obtain rfl : items = [major, minor, build, revision] := Option.some.inj hParts
          apply (record_follows (by decide)).step
          apply (part_follows major).bind
          intro _ _
          apply (part_follows minor).bind
          intro _ _
          apply (part_follows build).bind
          intro _ _
          apply (part_follows revision).bind
          intro _ _
          exact Follows.ret _
      | _ => cases hParts

/-- Null is told apart by its first byte. -/
theorem optional_follows {α : Type} {write : Json → Output PUnit} {read : Decoder α} {value : Json → Option α} (json : Json)
    (h : Follows (write json) read (value json))
    (hFirst : ∀ bytes, (write json).run = some ((), bytes) → ∃ first rest, bytes = first :: rest ∧ first ≠ 0xf6) :
    Follows (optional write json) (Cbor.optional read) (json.orNull value) := by
  intro bytes hRun rest o rest' hRead
  simp only [Cbor.optional, null, bind_ok, get_ok] at hRead
  obtain ⟨isNull, middle, ⟨_, _, ⟨rfl, rfl⟩, hNull⟩, hRead⟩ := hRead
  by_cases hJson : json = .null
  · subst hJson
    obtain rfl : bytes = [0xf6] := Output.tell_run.1 hRun
    rw [List.singleton_append, List.head?_cons, if_pos rfl] at hNull
    simp only [bind_ok, set_ok, pure_ok, List.drop_one, List.tail_cons] at hNull
    obtain ⟨_, _, rfl, rfl, rfl⟩ := hNull
    rw [if_pos rfl, pure_ok] at hRead
    obtain ⟨rfl, rfl⟩ := hRead
    exact ⟨rfl, rfl⟩
  · have hOptional : optional write json = write json := by
      cases json <;> first | rfl | exact absurd rfl hJson
    have hOrNull : json.orNull value = (value json).map some := by
      cases json <;> first | rfl | exact absurd rfl hJson
    rw [hOptional] at hRun
    obtain ⟨first, tail, rfl, hNe⟩ := hFirst bytes hRun
    rw [List.cons_append, List.head?_cons, if_neg (fun hEq => hNe (Option.some.inj hEq)), pure_ok] at hNull
    obtain ⟨rfl, rfl⟩ := hNull
    rw [if_neg Bool.false_ne_true] at hRead
    rw [hOrNull]
    exact h.map some _ hRun rest o rest' hRead

/-- A part that starts with an argument is not null. -/
theorem first_of_run {major value : Nat} {next : Output PUnit} {bytes : List Byte} (hMajor : major < 7) (hValue : value < 2 ^ 64)
    (hRun : (writeArgument major value >>= fun _ => next).run = some ((), bytes)) :
    ∃ first rest, bytes = first :: rest ∧ first ≠ 0xf6 := by
  obtain ⟨_, front, back, hHead, -, rfl⟩ := Output.bind_run.1 hRun
  obtain rfl := argument_run.1 hHead
  exact ManifestCbor.first_of_argument hMajor hValue back

theorem method_follows (json : Json) :
    Follows (optional number json) (Cbor.optional Mc04.u16) (json.orNull Json.u16) := by
  apply optional_follows json (u16_follows json)
  intro bytes hRun
  obtain ⟨n, hNumber, hRun⟩ := Output.given_run.1 hRun
  obtain rfl := argument_run.1 hRun
  obtain ⟨_, -, -, hWide⟩ := getUnsigned_ok.1 hNumber
  have hFirst := ManifestCbor.first_of_argument (show 0 < 7 by decide) hWide []
  rwa [List.append_nil] at hFirst

theorem key_follows (json : Json) :
    Follows (optional (fun item => binary item 32) json) (Cbor.optional (Cbor.fixed 32)) (json.orNull (Json.fixed 32)) := by
  apply optional_follows json (fixed_follows json (by decide))
  intro bytes hRun
  obtain ⟨items, -, hRun⟩ := Output.given_run.1 hRun
  obtain ⟨raw, -, hRun⟩ := Output.given_run.1 hRun
  obtain ⟨hLength, hRun⟩ := Output.require_run.1 hRun
  exact first_of_run (by decide) (by rw [hLength]; decide) hRun

theorem optionalVersion_follows (json : Json) :
    Follows (optional version json) (Cbor.optional ManifestCbor.version) (json.orNull Json.version) := by
  apply optional_follows json (version_follows json)
  intro bytes hRun
  obtain ⟨parts, -, hRun⟩ := Output.given_run.1 hRun
  obtain ⟨-, hRun⟩ := Output.require_run.1 hRun
  exact first_of_run (by decide) (by decide) hRun

theorem aid_follows (json : Json) : Follows (aid json) ManifestCbor.aid json.getString := by
  apply Follows.look
  intro text hText
  apply Follows.require
  intro hShape
  apply Follows.look
  intro raw hRaw
  simp only [not_or, not_lt, not_not, List.any_eq_true, not_exists, not_and, Bool.not_eq_true', Bool.not_eq_false] at hShape
  obtain ⟨-, hShort, hEven, hUpper⟩ := hShape
  have hLength := length_fromHexString hRaw
  have hAid := encodeAid_of_hex hEven hUpper hRaw
  intro bytes hRun rest a rest' hRead
  obtain ⟨value, _, hValue, hRead⟩ := bind_ok.1 hRead
  obtain ⟨hSame, rfl⟩ := bytes_follows (by decide) (by omega) bytes hRun rest value _ hValue
  obtain rfl := Option.some.inj hSame
  obtain ⟨_, _, hLong, hRead⟩ := bind_ok.1 hRead
  obtain ⟨-, rfl⟩ := failIf_ok.1 hLong
  obtain ⟨rfl, rfl⟩ := pure_ok.1 hRead
  exact ⟨hText.trans (congrArg some hAid.symm), rfl⟩

/-- A list of records, each of which is followed. -/
theorem records_follows {α : Type} {write : Json → Output PUnit} {read : Decoder α} {value : Json → Option α} {maximum : Nat}
    (json : Json) (hMaximum : maximum < 2 ^ 64) (hCount : ∀ items, json.enumerateArray = some items → items.length < 2 ^ 64)
    (h : ∀ item, Follows (write item) read (value item)) :
    Follows (records write json) (readList maximum read) (json.list value) := by
  apply Follows.given
  intro items hItems
  refine @Follows.bind _ _ _ _ _ _ _ _ (fun _ => items.mapM value) (array_follows (hCount items hItems) hMaximum) fun count hCount => ?_
  obtain rfl := Option.some.inj hCount
  exact Follows.forM fun item _ => h item

end Parts

section Records

theorem export_follows (json : Json) : Follows (dependencyExport json) ManifestCbor.dependencyExport json.dependencyExport := by
  apply (record_follows (by decide)).step
  apply Follows.given
  intro access _
  apply (u8_follows access).bind
  intro _ _
  apply Follows.given
  intro key _
  exact (key_follows key).last _

theorem entry_follows (json : Json) : Follows (entry json) ManifestCbor.entry json.entry := by
  apply (record_follows (by decide)).step
  apply Follows.given
  intro aid _
  apply (aid_follows aid).bind
  intro _ _
  apply Follows.given
  intro process _
  apply (u16_follows process).bind
  intro _ _
  apply Follows.item method_follows
  intro _
  apply Follows.item method_follows
  intro _
  apply Follows.item method_follows
  intro _
  apply Follows.item method_follows
  intro _
  exact Follows.ret _

theorem range_follows (json : Json) : Follows (range json) ManifestCbor.range json.range := by
  apply (record_follows (by decide)).step
  apply Follows.given
  intro min _
  apply (optionalVersion_follows min).bind
  intro _ _
  apply Follows.given
  intro minInclusive _
  apply (boolean_follows minInclusive).bind
  intro _ _
  apply Follows.given
  intro max _
  apply (optionalVersion_follows max).bind
  intro _ _
  apply Follows.given
  intro maxInclusive _
  exact (boolean_follows maxInclusive).last _

theorem dependency_follows (json : Json) : Follows (dependency json) ManifestCbor.dependency json.dependency := by
  apply (record_follows (by decide)).step
  apply Follows.given
  intro assembly _
  apply (text_follows assembly).bind
  intro _ _
  apply Follows.given
  intro ranges _
  apply Follows.look
  intro count hCount
  apply Follows.require
  intro hFew
  apply (records_follows ranges (by decide) ?_ range_follows).bind
  · intro _ _
    apply Follows.given
    intro packageVersion _
    apply (u32_follows packageVersion).bind
    intro _ _
    apply Follows.given
    intro signer _
    apply (key_follows signer).bind
    intro _ _
    apply Follows.given
    intro digest _
    apply (key_follows digest).bind
    intro _ _
    apply Follows.given
    intro scope _
    exact (u8_follows scope).last _
  · intro items hItems
    rw [Json.getArrayLength, hItems] at hCount
    obtain rfl := Option.some.inj hCount
    omega

theorem declaration_follows (json : Json) : Follows (declaration json) ManifestCbor.declaration json.declaration := by
  apply (record_follows (by decide)).step
  apply Follows.given
  intro key _
  apply (i32_follows key).bind
  intro _ _
  apply Follows.given
  intro kind _
  apply (u8_follows kind).bind
  intro _ _
  apply Follows.given
  intro maxBytes _
  exact (u16_follows maxBytes).last _

theorem limits_follows (json : Json) : Follows (limits json) ManifestCbor.limits json.limits := by
  apply (record_follows (by decide)).step
  apply Follows.item u32_follows
  intro _
  apply Follows.item u16_follows
  intro _
  apply Follows.item u8_follows
  intro _
  apply Follows.item u32_follows
  intro _
  exact Follows.ret _

/-- Numbers are written in their shortest form. -/
example : (limits (.object [("arena", .number ['9', '6']), ("stack", .number ['8']), ("frames", .number ['4']),
    ("instructions", .number ['1', '0', '0', '0'])])).run =
      some ((), [0x84, 0x18, 0x60, 0x08, 0x04, 0x19, 0x03, 0xe8]) := by
  decide +kernel

theorem collection_ok {value collection' : Json} {name : String} {maximum : Nat}
    (h : collection value name maximum = some collection') :
    value.getProperty name = some collection' ∧ ∃ count, collection'.getArrayLength = some count ∧ count ≤ maximum := by
  simp only [collection, Option.bind_eq_bind, Option.bind_eq_some_iff, Option.guard_eq_some', Option.pure_def,
    Option.some.injEq] at h
  obtain ⟨_, hGet, count, hCount, _, hFew, rfl⟩ := h
  exact ⟨hGet, count, hCount, hFew⟩

/-- A collection of records. -/
theorem collection_follows {α : Type} {write : Json → Output PUnit} {read : Decoder α} {item : Json → Option α} {maximum : Nat}
    {value list : Json} {name : String} (hMaximum : maximum < 2 ^ 64) (hList : collection value name maximum = some list)
    (h : ∀ json, Follows (write json) read (item json)) :
    Follows (records write list) (readList maximum read) (list.list item) := by
  refine records_follows list hMaximum (fun items hItems => ?_) h
  obtain ⟨-, count, hCount, hFew⟩ := collection_ok hList
  rw [Json.getArrayLength, hItems] at hCount
  obtain rfl := Option.some.inj hCount
  omega

theorem fields_follows (value : Json) : Follows (fields value) ManifestCbor.fields value.manifest := by
  have hFormat : Follows (writeArgument 0 1) unsigned (some 1) := by
    intro bytes hRun rest a rest' hRead
    obtain rfl := argument_run.1 hRun
    obtain ⟨hLt, hBytes⟩ := unsigned_ok.1 hRead
    obtain ⟨rfl, rfl⟩ := (unsigned_exact.append_inj (by decide) hLt).1 hBytes
    exact ⟨rfl, rfl⟩
  apply (record_follows (by decide)).step
  refine @Follows.bind _ _ _ _ _ _ _ _ (fun _ => value.manifest) hFormat ?_
  intro _ _
  apply Follows.refuse
  apply Follows.given
  intro domain _
  apply (text_follows domain).bind
  intro _ _
  apply Follows.given
  intro incarnation _
  apply (fixed_follows incarnation (by decide)).bind
  intro _ _
  apply Follows.given
  intro assembly _
  apply (text_follows assembly).bind
  intro _ _
  apply Follows.given
  intro assemblyVersion _
  apply (version_follows assemblyVersion).bind
  intro _ _
  apply Follows.given
  intro packageVersion _
  apply (u32_follows packageVersion).bind
  intro _ _
  apply Follows.given
  intro export' _
  apply (export_follows export').bind
  intro _ _
  apply Follows.through fun _ hEntries => (collection_ok hEntries).1
  intro entryPoints hEntries
  apply (collection_follows (by decide) hEntries entry_follows).bind
  intro _ _
  apply Follows.through fun _ hDependencies => (collection_ok hDependencies).1
  intro dependencies hDependencies
  apply (collection_follows (by decide) hDependencies dependency_follows).bind
  intro _ _
  apply Follows.through fun _ hCapabilities => (collection_ok hCapabilities).1
  intro capabilities hCapabilities
  apply Follows.look
  intro count hCount
  apply (binary_follows capabilities ?_ (by decide)).bind
  · intro _ _
    apply Follows.through fun _ hStorage => (collection_ok hStorage).1
    intro storage hStorage
    apply (collection_follows (by decide) hStorage declaration_follows).bind
    intro _ _
    apply Follows.given
    intro limits' _
    exact (limits_follows limits').ending _ fun hEnd => by rw [(finish_ok.1 hEnd).1, (finish_ok.1 hEnd).2]
  · obtain ⟨-, count', hCount', hFew⟩ := collection_ok hCapabilities
    rw [hCount] at hCount'
    obtain rfl := Option.some.inj hCount'
    omega

end Records

section Agreement

open Manifest

/-- What the card makes of the output of the build has the field values that were put in. -/
theorem manifest_of_decode {value : Json} {bytes : List Byte} {manifest : Manifest} (hEncode : encode value = some bytes)
    (hDecode : decodeCbor bytes = .ok manifest) : value.manifest = some manifest := by
  simp only [encode, Option.bind_eq_bind, Option.bind_eq_some_iff, Option.pure_def] at hEncode
  obtain ⟨⟨_, output⟩, hRun, _, -, hOutput⟩ := hEncode
  obtain rfl : output = bytes := Option.some.inj hOutput
  obtain ⟨hShaped, hCapital, hBytes, -⟩ := decodeCbor_ok.1 hDecode
  have hFields := ManifestCbor.fields_ok.2 ⟨written_of_shaped hShaped hCapital, hBytes, rfl⟩
  rw [← List.append_nil output] at hFields
  exact (fields_follows value output hRun [] manifest [] hFields).1

/-- The manifest codecs agree and are canonical. A manifest with the required shape and
identifiers in capital digits is encoded if it fits; what is encoded is decoded to the same
manifest; what is decoded is encoded to the same bytes; and where the card takes the output of
the build, it has the same field values and is what the card would have encoded. -/
theorem manifest_codecs_agree :
    (∀ manifest : Manifest, manifest.validateShape = .ok () → manifest.Capital → manifest.encodeCbor =
      if (ManifestCbor.manifestBytes manifest).length ≤ maxPackageBytes then .ok (ManifestCbor.manifestBytes manifest)
      else .error .quota) ∧
    (∀ (manifest : Manifest) (bytes : List Byte), manifest.encodeCbor = .ok bytes → decodeCbor bytes = .ok manifest) ∧
    (∀ (bytes : List Byte) (manifest : Manifest), decodeCbor bytes = .ok manifest → manifest.encodeCbor = .ok bytes) ∧
    ∀ (value : Json) (bytes : List Byte), encode value = some bytes →
      (∃ e, decodeCbor bytes = .error e) ∨
        ∃ manifest, decodeCbor bytes = .ok manifest ∧ value.manifest = some manifest ∧ manifest.encodeCbor = .ok bytes := by
  refine ⟨?_, fun _ _ => encodeCbor_ok.1, fun _ _ => encodeCbor_ok.2, ?_⟩
  · intro manifest hShape hCapital
    rw [encodeCbor, hShape]
    exact encodeCborFields_eq hCapital
  · intro value bytes hEncode
    cases hDecode : decodeCbor bytes with
    | error e => exact .inl ⟨e, rfl⟩
    | ok manifest => exact .inr ⟨manifest, rfl, manifest_of_decode hEncode hDecode, encodeCbor_ok.2 hDecode⟩

end Agreement

end MicroCard.Mc04.HostManifest
