import MicroCard.Mc04.ManifestCbor

/-! The card's manifest codec is exact: what the decoder accepts are the written forms of
the manifests with the required shape and identifiers in capital digits. -/
namespace MicroCard.Mc04.ManifestCbor

open Bytes CrashTriple Cbor Codec

section Forms

def versionForm (value : Version) : List Byte :=
  arrayBytes 4 ++ value.toList.flatMap fun part => unsignedBytes part.toNat

def keyBytes (key : Fixed 32) : List Byte := stringBytes key.1

def methodBytes (method : UInt16) : List Byte := unsignedBytes method.toNat

def exportBytes (export' : DependencyExport) : List Byte :=
  arrayBytes 2 ++ unsignedBytes export'.access.toNat ++ optionalBytes keyBytes export'.key

/-- The bytes that capital digits stand for. -/
def digitBytes (text : String) : List Byte := (digitPairs (utf8 text)).toOption.getD []

def entryBytes (entry : AssemblyEntry) : List Byte :=
  arrayBytes 6 ++ stringBytes (digitBytes entry.aid) ++ unsignedBytes entry.process.toNat ++
    [entry.install, entry.uninstall, entry.select, entry.deselect].flatMap (optionalBytes methodBytes)

def rangeBytes (range : VersionRange) : List Byte :=
  arrayBytes 4 ++ optionalBytes versionForm range.min ++ booleanBytes range.minInclusive ++
    optionalBytes versionForm range.max ++ booleanBytes range.maxInclusive

def dependencyForm (dependency : Dependency) : List Byte :=
  arrayBytes 6 ++ textBytes dependency.assembly ++ listBytes rangeBytes dependency.ranges ++
    unsignedBytes dependency.packageVersion.toNat ++ optionalBytes keyBytes dependency.signer ++
    optionalBytes keyBytes dependency.digest ++ unsignedBytes dependency.scope.toNat

def limitsBytes (limits : Limits) : List Byte :=
  arrayBytes 4 ++ unsignedBytes limits.arena.toNat ++ unsignedBytes limits.stack.toNat ++
    unsignedBytes limits.frames.toNat ++ unsignedBytes limits.instructions.toNat

/-- The written form of a manifest. -/
def manifestBytes (manifest : Manifest) : List Byte :=
  arrayBytes 12 ++ unsignedBytes 1 ++ textBytes manifest.domain ++ stringBytes manifest.incarnation.1 ++
    textBytes manifest.assembly ++ versionForm manifest.assemblyVersion ++ unsignedBytes manifest.version.toNat ++
    exportBytes manifest.export' ++ listBytes entryBytes manifest.entryPoints ++
    listBytes dependencyForm manifest.dependencies ++ stringBytes manifest.capabilities ++
    listBytes declarationBytes manifest.storage ++ limitsBytes manifest.limits

end Forms

section Aids

/-- Capital digits are read back as the bytes they were made of. -/
theorem digit_hexByte {n : Nat} (h : n < 16) : digit (hexByte n) = .ok (UInt8.ofNat n) := by
  revert n
  decide

/-- Two digits side by side. -/
theorem halves : ∀ high < 16, ∀ low < 16,
    UInt8.ofNat high <<< 4 ||| UInt8.ofNat low = UInt8.ofNat (high * 16 + low) := by
  decide +kernel

theorem digitPairs_hexDigits (value : List Byte) : digitPairs (hexDigits value) = .ok value := by
  induction value with
  | nil => rfl
  | cons byte rest ih =>
      have hLt := byte.toNat_lt
      show digitPairs (hexByte (byte.toNat / 16) :: hexByte (byte.toNat % 16) :: hexDigits rest) = _
      rw [digitPairs, digit_hexByte (show byte.toNat / 16 < 16 by omega), digit_hexByte (show byte.toNat % 16 < 16 by omega),
        ih]
      show Except.ok (_ :: rest) = _
      rw [halves _ (by omega) _ (by omega), Nat.mul_comm, Nat.div_add_mod, UInt8.ofNat_toNat]

/-- A digit that is read is the capital digit of its value. -/
theorem digit_ok {c value : Byte} (h : digit c = .ok value) : value.toNat < 16 ∧ hexByte value.toNat = c := by
  unfold digit at h
  split_ifs at h with hDigit hLetter
  · obtain rfl : c - 0x30 = value := Except.ok.inj h
    have hLow := UInt8.le_iff_toNat_le.1 hDigit.1
    have hHigh := UInt8.le_iff_toNat_le.1 hDigit.2
    have hBounds : (0x30 : UInt8).toNat = 48 ∧ (0x39 : UInt8).toNat = 57 := by decide
    rw [UInt8.toNat_sub_of_le _ _ hDigit.1, hexByte, if_pos (by omega)]
    refine ⟨by omega, ?_⟩
    rw [hBounds.1, show 48 + (c.toNat - 48) = c.toNat by omega, UInt8.ofNat_toNat]
  · obtain rfl : c - 0x41 + 10 = value := Except.ok.inj h
    have hLow := UInt8.le_iff_toNat_le.1 hLetter.1
    have hHigh := UInt8.le_iff_toNat_le.1 hLetter.2
    have hBounds : (0x41 : UInt8).toNat = 65 ∧ (0x46 : UInt8).toNat = 70 := by decide
    have hValue : (c - 0x41 + 10).toNat = c.toNat - 55 := by
      rw [UInt8.toNat_add, UInt8.toNat_sub_of_le _ _ hLetter.1, hBounds.1, show (10 : UInt8).toNat = 10 from rfl]
      omega
    rw [hValue, hexByte, if_neg (by omega)]
    refine ⟨by omega, ?_⟩
    rw [show 55 + (c.toNat - 55) = c.toNat by omega, UInt8.ofNat_toNat]

/-- An even number of digits that are read are the digits of what was read. -/
theorem digitPairs_ok {digits value : List Byte} (h : digitPairs digits = .ok value) (hEven : digits.length % 2 = 0) :
    digits = hexDigits value := by
  induction digits using digitPairs.induct generalizing value with
  | case1 high low rest ih =>
      simp only [digitPairs, Checks.bind_ok] at h
      obtain ⟨a, hHigh, b, hLow, others, hOthers, hValue⟩ := h
      obtain rfl := Except.ok.inj hValue
      obtain ⟨ha, rfl⟩ := digit_ok hHigh
      obtain ⟨hb, rfl⟩ := digit_ok hLow
      have hByte : (a <<< 4 ||| b).toNat = a.toNat * 16 + b.toNat := by
        have hHalves := halves a.toNat ha b.toNat hb
        rw [UInt8.ofNat_toNat, UInt8.ofNat_toNat] at hHalves
        rw [hHalves, UInt8.toNat_ofNat']
        omega
      have hRest := ih hOthers (by simp only [List.length_cons] at hEven; omega)
      show _ = hexByte _ :: hexByte _ :: hexDigits others
      rw [hByte, ← hRest]
      congr 2
      · omega
      · congr 2
        omega
  | case2 digits hShort =>
      cases digits with
      | nil =>
          obtain rfl : [] = value := Except.ok.inj h
          rfl
      | cons first rest =>
          cases rest with
          | nil => simp at hEven
          | cons second rest => exact absurd rfl (hShort first second rest)

theorem digitBytes_encodeAid (value : List Byte) : digitBytes (encodeAid value) = value := by
  rw [digitBytes, utf8_encodeAid, digitPairs_hexDigits]
  rfl

theorem aid_exact : Exact aid (fun text => stringBytes (digitBytes text)) CanonicalAid := by
  intro input text rest
  simp only [aid, bind_ok, bytes_ok 16 (by decide), failIf_ok, pure_ok, not_lt]
  constructor
  · rintro ⟨value, _, ⟨hLength, rfl⟩, _, _, ⟨hLong, rfl⟩, rfl, rfl⟩
    exact ⟨⟨value, hLong, hLength, rfl⟩, by rw [digitBytes_encodeAid]⟩
  · rintro ⟨⟨value, hLong, hLength, rfl⟩, rfl⟩
    exact ⟨value, rest, ⟨hLength, by rw [digitBytes_encodeAid]⟩, (), rest, ⟨hLong, rfl⟩, rfl, rfl⟩

/-- Capital digits are written as the bytes they stand for. -/
theorem writeAid_appends {text : String} (h : CanonicalAid text) : Appends (writeAid text) (stringBytes (digitBytes text)) := by
  obtain ⟨value, hLong, hLength, rfl⟩ := h
  intro encoder hWithin
  have hWrite : writeAid (encodeAid value) encoder = Encoder.byteString value encoder := by
    unfold writeAid
    rw [utf8_encodeAid, length_hexDigits, digitPairs_hexDigits, failIf, if_neg (by omega)]
    rfl
  rw [hWrite, digitBytes_encodeAid]
  exact Appends.byteString value encoder hWithin

/-- No other text is written. -/
theorem canonical_of_writeAid {text : String} {encoder after : Encoder} (h : writeAid text encoder = .ok () after) :
    CanonicalAid text := by
  simp only [writeAid, bind_ok, failIf_ok, readOnly_ok, not_or, not_not] at h
  obtain ⟨_, _, ⟨⟨⟨hLong, hShort⟩, hEven⟩, rfl⟩, value, _, ⟨hPairs, rfl⟩, -⟩ := h
  have hDigits := digitPairs_ok hPairs hEven
  have hLength := congrArg List.length hDigits
  rw [length_hexDigits] at hLength
  exact ⟨value, by omega, by omega, utf8_injective (hDigits.trans (utf8_encodeAid value).symm)⟩

end Aids

section Exactness

theorem version_exact : Exact version versionForm fun _ => True := by
  intro input value rest
  simp only [version, versionForm, bind_ok, record_ok 4 (by decide), u16_ok, pure_ok, true_and, List.append_assoc]
  constructor
  · rintro ⟨_, _, rfl, a, _, rfl, b, _, rfl, c, _, rfl, d, _, rfl, rfl, rfl⟩
    simp
  · rintro rfl
    obtain ⟨⟨parts⟩, hSize⟩ := value
    match parts, hSize with
    | [a, b, c, d], _ => exact ⟨(), _, rfl, a, _, by simp, b, _, rfl, c, _, rfl, d, _, rfl, rfl, rfl⟩

theorem first_of_argument {major value : Nat} (hMajor : major < 7) (hValue : value < 2 ^ 64) (rest : List Byte) :
    ∃ first tail, argumentBytes major value ++ rest = first :: tail ∧ first ≠ 0xf6 := by
  obtain ⟨first, tail, hBytes, hFirst⟩ := argumentBytes_major (show major < 8 by omega) hValue
  refine ⟨first, tail ++ rest, by rw [hBytes, List.cons_append], ?_⟩
  rintro rfl
  have : (0xf6 : UInt8).toNat / 32 = 7 := by decide
  omega

theorem version_first (value : Version) : ∃ first tail, versionForm value = first :: tail ∧ first ≠ 0xf6 :=
  first_of_argument (by decide) (by decide) _

theorem key_exact : Exact (optional (fixed 32)) (optionalBytes keyBytes) fun _ => True := readKey_exact

theorem method_exact : Exact (optional u16) (optionalBytes methodBytes) fun _ => True := by
  have hMethod : Exact u16 methodBytes fun _ => True := by
    intro input method rest
    rw [u16_ok, true_and]
    rfl
  intro input method rest
  rw [optional_exact hMethod (fun method => ?_) input method rest]
  · simp
  · have hFirst := first_of_argument (show 0 < 7 by decide) (show method.toNat < 2 ^ 64 by have := method.toNat_lt; omega) []
    rwa [List.append_nil] at hFirst

theorem optionalVersion_exact : Exact (optional version) (optionalBytes versionForm) fun _ => True := by
  intro input value rest
  rw [optional_exact version_exact version_first input value rest]
  simp

theorem export_exact : Exact dependencyExport exportBytes fun _ => True := by
  intro input export' rest
  simp only [dependencyExport, exportBytes, bind_ok, record_ok 2 (by decide), u8_ok, key_exact _ _ _, pure_ok, true_and,
    List.append_assoc]
  constructor
  · rintro ⟨_, _, rfl, _, _, rfl, _, _, rfl, rfl, rfl⟩
    rfl
  · rintro rfl
    exact ⟨(), _, rfl, _, _, rfl, _, _, rfl, rfl, rfl⟩

theorem entry_exact : Exact entry entryBytes fun entry => CanonicalAid entry.aid := by
  intro input entry' rest
  simp only [entry, entryBytes, bind_ok, record_ok 6 (by decide), aid_exact _ _ _, u16_ok, method_exact _ _ _, pure_ok,
    true_and, List.append_assoc, List.flatMap_cons, List.flatMap_nil, List.nil_append]
  constructor
  · rintro ⟨_, _, rfl, _, _, ⟨hAid, rfl⟩, _, _, rfl, _, _, rfl, _, _, rfl, _, _, rfl, _, _, rfl, rfl, rfl⟩
    exact ⟨hAid, rfl⟩
  · rintro ⟨hAid, rfl⟩
    exact ⟨(), _, rfl, _, _, ⟨hAid, rfl⟩, _, _, rfl, _, _, rfl, _, _, rfl, _, _, rfl, _, _, rfl, rfl, rfl⟩

theorem range_exact : Exact range rangeBytes fun _ => True := by
  intro input range' rest
  simp only [range, rangeBytes, bind_ok, record_ok 4 (by decide), optionalVersion_exact _ _ _, boolean_ok, pure_ok, true_and,
    List.append_assoc]
  constructor
  · rintro ⟨_, _, rfl, _, _, rfl, _, _, rfl, _, _, rfl, _, _, rfl, rfl, rfl⟩
    rfl
  · rintro rfl
    exact ⟨(), _, rfl, _, _, rfl, _, _, rfl, _, _, rfl, _, _, rfl, rfl, rfl⟩

/-- What reading a dependency checks. -/
def Readable (dependency : Dependency) : Prop :=
  validIdentifier dependency.assembly = true ∧ dependency.ranges.length ≤ 8

theorem dependency_exact : Exact dependency dependencyForm Readable := by
  intro input dependency' rest
  simp only [dependency, dependencyForm, Readable, bind_ok, record_ok 6 (by decide), identifier_ok,
    readList_exact 8 (by decide) range_exact _ _ _, u32_ok, key_exact _ _ _, u8_ok, pure_ok, true_and, implies_true, and_true,
    List.append_assoc]
  constructor
  · rintro ⟨_, _, rfl, _, _, ⟨hName, rfl⟩, _, _, ⟨hRanges, rfl⟩, _, _, rfl, _, _, rfl, _, _, rfl, _, _, rfl, rfl, rfl⟩
    exact ⟨⟨hName, hRanges⟩, rfl⟩
  · rintro ⟨⟨hName, hRanges⟩, rfl⟩
    exact ⟨(), _, rfl, _, _, ⟨hName, rfl⟩, _, _, ⟨hRanges, rfl⟩, _, _, rfl, _, _, rfl, _, _, rfl, _, _, rfl, rfl, rfl⟩

theorem declaration_exact : Exact declaration declarationBytes fun declaration => 0 ≤ declaration.key.toInt := by
  intro input declaration' rest
  simp only [declaration, declarationBytes, bind_ok, record_ok 3 (by decide), i32_ok, u8_ok, u16_ok, pure_ok,
    List.append_assoc]
  constructor
  · rintro ⟨_, _, rfl, _, _, ⟨hKey, rfl⟩, _, _, rfl, _, _, rfl, rfl, rfl⟩
    exact ⟨hKey, rfl⟩
  · rintro ⟨hKey, rfl⟩
    exact ⟨(), _, rfl, _, _, ⟨hKey, rfl⟩, _, _, rfl, _, _, rfl, rfl, rfl⟩

theorem limits_exact : Exact limits limitsBytes fun _ => True := by
  intro input limits' rest
  simp only [limits, limitsBytes, bind_ok, record_ok 4 (by decide), u32_ok, u16_ok, u8_ok, pure_ok, true_and,
    List.append_assoc]
  constructor
  · rintro ⟨_, _, rfl, _, _, rfl, _, _, rfl, _, _, rfl, _, _, rfl, rfl, rfl⟩
    rfl
  · rintro rfl
    exact ⟨(), _, rfl, _, _, rfl, _, _, rfl, _, _, rfl, _, _, rfl, rfl, rfl⟩

/-- What reading the fields checks. -/
structure Written (manifest : Manifest) : Prop where
  domain : validIdentifier manifest.domain = true
  assembly : validIdentifier manifest.assembly = true
  entries : manifest.entryPoints.length ≤ 4 ∧ ∀ e ∈ manifest.entryPoints, CanonicalAid e.aid
  dependencies : manifest.dependencies.length ≤ 16 ∧ ∀ d ∈ manifest.dependencies, Readable d
  capabilities : manifest.capabilities.length ≤ 35
  storage : manifest.storage.length ≤ maxStorageDeclarations ∧ ∀ d ∈ manifest.storage, 0 ≤ d.key.toInt

/-- The fields are read from their written form, up to the end of the input. -/
theorem fields_ok {manifest : Manifest} {input rest : List Byte} :
    fields input = .ok manifest rest ↔ Written manifest ∧ input = manifestBytes manifest ∧ rest = [] := by
  simp only [fields, manifestBytes, bind_ok, record_ok 12 (by decide), unsigned_ok, failIf_ok, identifier_ok, fixed_ok 16 (by decide),
    version_exact _ _ _, u32_ok, export_exact _ _ _, readList_exact 4 (by decide) entry_exact _ _ _,
    readList_exact 16 (by decide) dependency_exact _ _ _, bytes_ok 35 (by decide),
    readList_exact maxStorageDeclarations (by decide) declaration_exact _ _ _, limits_exact _ _ _, finish_ok, pure_ok, true_and,
    not_not, List.append_assoc]
  constructor
  · rintro ⟨_, _, rfl, _, _, ⟨-, rfl⟩, _, _, ⟨rfl, rfl⟩, _, _, ⟨hDomain, rfl⟩, _, _, rfl, _, _, ⟨hAssembly, rfl⟩, _, _, rfl, _, _,
      rfl, _, _, rfl, _, _, ⟨hEntries, rfl⟩, _, _, ⟨hDependencies, rfl⟩, _, _, ⟨hCapabilities, rfl⟩, _, _, ⟨hStorage, rfl⟩, _, _,
      rfl, _, _, ⟨rfl, rfl⟩, rfl, rfl⟩
    exact ⟨⟨hDomain, hAssembly, hEntries, hDependencies, hCapabilities, hStorage⟩, by rw [List.append_nil], rfl⟩
  · rintro ⟨h, rfl, rfl⟩
    exact ⟨(), _, rfl, 1, _, ⟨by decide, rfl⟩, (), _, ⟨rfl, rfl⟩, _, _, ⟨h.domain, rfl⟩, _, _, rfl, _, _, ⟨h.assembly, rfl⟩, _, _,
      rfl, _, _, rfl, _, _, rfl, _, _, ⟨h.entries, rfl⟩, _, _, ⟨h.dependencies, rfl⟩, _, _, ⟨h.capabilities, rfl⟩, _, _,
      ⟨h.storage, rfl⟩, _, [], by rw [List.append_nil], (), [], ⟨rfl, rfl⟩, rfl, rfl⟩

end Exactness

section Written

theorem forM_appends {α : Type} {write : α → EncoderM Unit} {output : α → List Byte} {items : List α}
    (h : ∀ a ∈ items, Appends (write a) (output a)) : Appends (writeList write items) (listBytes output items) :=
  Appends.bind (Appends.array _) (Appends.forM _ h)

theorem writeVersion_appends (value : Version) : Appends (writeVersion value) (versionForm value) :=
  Appends.bind (Appends.array _) (Appends.forM _ fun _ _ => Appends.unsigned _)

theorem writeKey_appends (key : Fixed 32) : Appends (writeKey key) (keyBytes key) := Appends.byteString key.1

theorem writeMethod_appends (method : UInt16) : Appends (writeMethod method) (methodBytes method) := Appends.unsigned _

theorem writeExport_appends (export' : DependencyExport) : Appends (writeExport export') (exportBytes export') := by
  rw [exportBytes, List.append_assoc]
  exact Appends.bind (Appends.array _) (Appends.bind (Appends.unsigned _) (Appends.optional writeKey_appends _))

theorem writeEntry_appends {entry : AssemblyEntry} (h : CanonicalAid entry.aid) :
    Appends (writeEntry entry) (entryBytes entry) := by
  simp only [entryBytes, List.append_assoc]
  apply Appends.bind (Appends.array _)
  apply Appends.bind (writeAid_appends h)
  exact Appends.bind (Appends.unsigned _) (Appends.forM _ fun method _ => Appends.optional writeMethod_appends method)

theorem writeRange_appends (range : VersionRange) : Appends (writeRange range) (rangeBytes range) := by
  simp only [rangeBytes, List.append_assoc]
  apply Appends.bind (Appends.array _)
  apply Appends.bind (Appends.optional writeVersion_appends _)
  apply Appends.bind (Appends.append _)
  exact Appends.bind (Appends.optional writeVersion_appends _) (Appends.append _)

theorem writeDependency_appends (dependency : Dependency) :
    Appends (writeDependency dependency) (dependencyForm dependency) := by
  simp only [dependencyForm, List.append_assoc]
  apply Appends.bind (Appends.array _)
  apply Appends.bind (Appends.text _)
  apply Appends.bind (writeList_appends writeRange_appends _)
  apply Appends.bind (Appends.unsigned _)
  apply Appends.bind (Appends.optional writeKey_appends _)
  exact Appends.bind (Appends.optional writeKey_appends _) (Appends.unsigned _)

theorem writeLimits_appends (limits : Limits) : Appends (writeLimits limits) (limitsBytes limits) := by
  simp only [limitsBytes, List.append_assoc]
  apply Appends.bind (Appends.array _)
  apply Appends.bind (Appends.unsigned _)
  apply Appends.bind (Appends.unsigned _)
  exact Appends.bind (Appends.unsigned _) (Appends.unsigned _)

/-- Only an identifier that is not in capital digits could be refused. -/
theorem writeFields_appends {manifest : Manifest} (h : ∀ e ∈ manifest.entryPoints, CanonicalAid e.aid) :
    Appends (writeFields manifest) (manifestBytes manifest) := by
  simp only [manifestBytes, List.append_assoc]
  apply Appends.bind (Appends.array _)
  apply Appends.bind (Appends.unsigned _)
  apply Appends.bind (Appends.text _)
  apply Appends.bind (Appends.byteString _)
  apply Appends.bind (Appends.text _)
  apply Appends.bind (writeVersion_appends _)
  apply Appends.bind (Appends.unsigned _)
  apply Appends.bind (writeExport_appends _)
  apply Appends.bind (forM_appends fun e he => writeEntry_appends (h e he))
  apply Appends.bind (writeList_appends writeDependency_appends _)
  apply Appends.bind (Appends.byteString _)
  apply Appends.bind (writeList_appends writeDeclaration_appends _)
  exact writeLimits_appends _

/-- A loop that ends has written each item. -/
theorem forM_ok {α : Type} {write : α → EncoderM Unit} {items : List α} {encoder after : Encoder}
    (h : items.forM write encoder = .ok () after) : ∀ a ∈ items, ∃ before then', write a before = .ok () then' := by
  induction items generalizing encoder with
  | nil => exact fun _ ha => (nomatch ha)
  | cons first rest ih =>
      have hStep : (write first >>= fun _ => rest.forM write) encoder = .ok () after := h
      obtain ⟨_, middle, hFirst, hRest⟩ := bind_ok.1 hStep
      exact List.forall_mem_cons.2 ⟨⟨encoder, middle, hFirst⟩, ih hRest⟩

/-- Whatever is written has its identifiers in capital digits. -/
theorem canonical_of_writeFields {manifest : Manifest} {encoder after : Encoder}
    (h : writeFields manifest encoder = .ok () after) : ∀ e ∈ manifest.entryPoints, CanonicalAid e.aid := by
  simp only [writeFields, writeList, bind_assoc, bind_ok] at h
  obtain ⟨_, _, -, _, _, -, _, _, -, _, _, -, _, _, -, _, _, -, _, _, -, _, _, -, _, _, -, _, _, hEntries, -⟩ := h
  intro e he
  obtain ⟨before, then', hEntry⟩ := forM_ok hEntries e he
  simp only [writeEntry, bind_ok] at hEntry
  obtain ⟨_, _, -, _, _, hAid, -⟩ := hEntry
  exact canonical_of_writeAid hAid

end Written

end MicroCard.Mc04.ManifestCbor

namespace MicroCard.Mc04.Manifest

open Bytes CrashTriple Cbor Codec ManifestCbor

variable {manifest : Manifest} {bytes : List Byte}

/-- Every application identifier is in capital hexadecimal digits. -/
def Capital (manifest : Manifest) : Prop := ∀ e ∈ manifest.entryPoints, CanonicalAid e.aid

theorem validateShape_ok {u : Unit} : manifest.validateShape = .ok u ↔ manifest.shaped = true := by
  rw [validateShape, Checks.failIf_ok, Bool.not_eq_false]

/-- The decoder finds every field of a manifest with the required shape. -/
theorem written_of_shaped (hShaped : manifest.shaped = true) (hCapital : manifest.Capital) : Written manifest := by
  simp only [shaped, Bool.and_eq_true, decide_eq_true_eq, List.all_eq_true] at hShaped
  obtain ⟨⟨⟨⟨⟨⟨⟨⟨⟨⟨⟨⟨⟨⟨hDomain, hAssembly⟩, -⟩, -⟩, -⟩, hEntries⟩, hFew⟩, hDependencies⟩, -⟩, hCapabilities⟩, -⟩, hStorage⟩,
    hDeclarations⟩, -⟩, -⟩ := hShaped
  refine ⟨hDomain, hAssembly, ⟨hEntries, hCapital⟩, ⟨hFew, fun d hd => ?_⟩, hCapabilities, hStorage, fun d hd => ?_⟩
  · have hValid := hDependencies d hd
    simp only [Dependency.valid, Bool.and_eq_true, decide_eq_true_eq] at hValid
    exact ⟨hValid.1.1.1.1.1.1, hValid.1.1.2⟩
  · have hValid := hDeclarations d hd
    simp only [StorageDeclaration.valid, Bool.and_eq_true, decide_eq_true_eq] at hValid
    exact hValid.1

/-- Decoding takes the written forms that fit, of the manifests with the required shape. -/
theorem decodeCbor_ok : decodeCbor bytes = .ok manifest ↔
    manifest.shaped = true ∧ manifest.Capital ∧ bytes = manifestBytes manifest ∧ bytes.length ≤ maxPackageBytes := by
  simp only [decodeCbor, Checks.bind_ok, Checks.failIf_ok, not_lt]
  constructor
  · rintro ⟨_, hFits, hRun⟩
    split at hRun
    · rename_i decoded rest hFields
      simp only [Checks.bind_ok, validateShape_ok] at hRun
      obtain ⟨_, hShaped, hDecoded⟩ := hRun
      obtain rfl := Except.ok.inj hDecoded
      obtain ⟨hWritten, hBytes, -⟩ := fields_ok.1 hFields
      exact ⟨hShaped, hWritten.entries.2, hBytes, hFits⟩
    · cases hRun
  · rintro ⟨hShaped, hCapital, rfl, hFits⟩
    refine ⟨(), hFits, ?_⟩
    rw [fields_ok.2 ⟨written_of_shaped hShaped hCapital, rfl, rfl⟩]
    simp only [Checks.bind_ok, validateShape_ok]
    exact ⟨(), hShaped, rfl⟩

/-- Encoding a manifest with capital digits fails only for want of room. -/
theorem encodeCborFields_eq (hCapital : manifest.Capital) : manifest.encodeCborFields =
    if (manifestBytes manifest).length ≤ maxPackageBytes then .ok (manifestBytes manifest) else .error .quota := by
  have h := writeFields_appends hCapital ⟨[], maxPackageBytes⟩ (Nat.zero_le _)
  unfold encodeCborFields
  cases hRun : writeFields manifest ⟨[], maxPackageBytes⟩ with
  | ok u after =>
      rw [hRun] at h
      obtain ⟨rfl, hFits⟩ := h
      simp only [List.nil_append] at hFits ⊢
      rw [if_pos hFits]
  | error e after =>
      rw [hRun] at h
      obtain ⟨rfl, hFull⟩ := h
      simp only [List.length_nil, Nat.zero_add] at hFull
      dsimp only
      rw [if_neg (by omega)]

/-- Encoding succeeds on exactly the manifests that decoding returns, with the bytes it
returns them for. -/
theorem encodeCbor_ok : manifest.encodeCbor = .ok bytes ↔ decodeCbor bytes = .ok manifest := by
  rw [decodeCbor_ok]
  simp only [encodeCbor, Checks.bind_ok, validateShape_ok]
  constructor
  · rintro ⟨_, hShaped, hEncode⟩
    have hCapital : manifest.Capital := by
      unfold encodeCborFields at hEncode
      split at hEncode
      · rename_i hRun
        exact canonical_of_writeFields hRun
      · cases hEncode
    rw [encodeCborFields_eq hCapital] at hEncode
    split_ifs at hEncode with hFits
    obtain rfl := Except.ok.inj hEncode
    exact ⟨hShaped, hCapital, rfl, hFits⟩
  · rintro ⟨hShaped, hCapital, rfl, hFits⟩
    exact ⟨(), hShaped, by rw [encodeCborFields_eq hCapital, if_pos hFits]⟩

end MicroCard.Mc04.Manifest
