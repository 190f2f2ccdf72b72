import MicroCard.Mc04.Entries
import MicroCard.Mc04.Platform
import MicroCard.Library.Checks

/-! Retry-limited credentials of a domain: a PIN and the secret that unblocks it, kept as
salted digests. -/
namespace MicroCard.Mc04

open Bytes CrashTriple Cbor Codec

def minPinBytes : Nat := 4
def minPukBytes : Nat := 6
def maxSecretBytes : Nat := 32
def maxRetries : Nat := 15

/-- `MAX_SLOTS`. -/
def maxCredentialSlots : Nat := 8

def digestContext : List Byte := utf8 "MicroCard credential v1"

structure CredentialEntry where
  slot : Int32
  owner : Fixed 16
  pinSalt : Fixed 16
  pinDigest : Fixed 32
  pukSalt : Fixed 16
  pukDigest : Fixed 32
  pinRetries : UInt8
  pinMaxRetries : UInt8
  pukRetries : UInt8
  pukMaxRetries : UInt8
  deriving DecidableEq

structure CredentialStore where
  entries : Entries Int32.toInt CredentialEntry
  deriving DecidableEq

def validRetries (value : UInt8) : Bool := 1 ≤ value.toNat && value.toNat ≤ maxRetries

def validateSecret (secret : List Byte) (minimum : Nat) : Except Error Unit :=
  failIf (¬(minimum ≤ secret.length ∧ secret.length ≤ maxSecretBytes)) .bounds

def retryCount (value : Int32) : Except Error UInt8 := do
  failIf (¬(0 ≤ value.toInt ∧ value.toInt < 256)) .bounds
  let count := UInt8.ofNat value.toInt.toNat
  failIf (validRetries count = false) .bounds
  pure count

def credentialDigest (platform : Platform) (owner : Fixed 16) (slot : Int32) (purpose : Byte) (salt : Fixed 16)
    (secret : List Byte) : Except Error (Fixed 32) :=
  platform.sha256 (digestContext ++ owner.1 ++ toBE 4 (slot.toInt % 2 ^ 32).toNat ++ [purpose] ++ salt.1 ++ secret)

/-- What a stored entry satisfies, next to its slot. -/
def CredentialEntry.sound (owner : Fixed 16) (slot : Int32) (entry : CredentialEntry) : Bool :=
  0 ≤ slot.toInt && slot = entry.slot && entry.owner = owner && validRetries entry.pinMaxRetries &&
    validRetries entry.pukMaxRetries && entry.pinRetries ≤ entry.pinMaxRetries && entry.pukRetries ≤ entry.pukMaxRetries

namespace CredentialStore

def empty : CredentialStore := ⟨KeyedList.empty⟩

def length (store : CredentialStore) : Nat := store.entries.length

def isEmpty (store : CredentialStore) : Bool := store.entries.isEmpty

def validate (store : CredentialStore) (owner : Fixed 16) : Except Error Unit := do
  failIf (maxCredentialSlots < store.length) .storage
  failIf (¬store.entries.entries.all fun e => e.2.sound owner e.1) .storage

/-- The entry of a slot, for its owner. -/
def entry (store : CredentialStore) (owner : Fixed 16) (slot : Int32) : Except Error CredentialEntry := do
  let found ← orFail (store.entries.find slot.toInt) .missing
  failIf (found.2.owner ≠ owner) .unauthorized
  pure found.2

/-- The store with another entry in a slot. -/
def put (store : CredentialStore) (slot : Int32) (entry : CredentialEntry) : CredentialStore :=
  ⟨store.entries.insert (slot, entry)⟩

theorem length_first_salt (salts : Fixed 32) : (salts.1.take 16).length = 16 := by simp [salts.2]

theorem length_last_salt (salts : Fixed 32) : (salts.1.drop 16).length = 16 := by simp [salts.2]

def create (store : CredentialStore) (platform : Platform) (owner : Fixed 16) (slot : Int32) (pin puk : List Byte)
    (retries : Int32 × Int32) : Except Error CredentialStore := do
  validateSecret pin minPinBytes
  validateSecret puk minPukBytes
  let pinMaxRetries ← retryCount retries.1
  let pukMaxRetries ← retryCount retries.2
  failIf (slot.toInt < 0) .bounds
  failIf (store.entries.contains slot.toInt = true) .busy
  failIf (maxCredentialSlots ≤ store.length) .quota
  let salts ← platform.random 0 32
  let pinSalt : Fixed 16 := ⟨salts.1.take 16, length_first_salt salts⟩
  let pukSalt : Fixed 16 := ⟨salts.1.drop 16, length_last_salt salts⟩
  let pinDigest ← credentialDigest platform owner slot 1 pinSalt pin
  let pukDigest ← credentialDigest platform owner slot 2 pukSalt puk
  pure (store.put slot ⟨slot, owner, pinSalt, pinDigest, pukSalt, pukDigest, pinMaxRetries, pinMaxRetries, pukMaxRetries,
    pukMaxRetries⟩)

/-- Whether the candidate matches and whether the entry changed. -/
def verifyPin (store : CredentialStore) (platform : Platform) (owner : Fixed 16) (slot : Int32) (candidate : List Byte) :
    Except Error ((Bool × Bool) × CredentialStore) := do
  validateSecret candidate minPinBytes
  let entry ← store.entry owner slot
  if entry.pinRetries = 0 then pure ((false, false), store)
  else do
    let digest ← credentialDigest platform owner slot 1 entry.pinSalt candidate
    if digest = entry.pinDigest then
      pure ((true, entry.pinRetries ≠ entry.pinMaxRetries), store.put slot { entry with pinRetries := entry.pinMaxRetries })
    else pure ((false, true), store.put slot { entry with pinRetries := entry.pinRetries - 1 })

def changePin (store : CredentialStore) (platform : Platform) (owner : Fixed 16) (slot : Int32) (newPin : List Byte) :
    Except Error (Bool × CredentialStore) := do
  validateSecret newPin minPinBytes
  let salt ← platform.random 0 16
  let digest ← credentialDigest platform owner slot 1 salt newPin
  let entry ← store.entry owner slot
  pure (true, store.put slot { entry with pinSalt := salt, pinDigest := digest, pinRetries := entry.pinMaxRetries })

def unblock (store : CredentialStore) (platform : Platform) (owner : Fixed 16) (slot : Int32) (puk newPin : List Byte) :
    Except Error ((Bool × Bool) × CredentialStore) := do
  validateSecret puk minPukBytes
  validateSecret newPin minPinBytes
  let entry ← store.entry owner slot
  if entry.pukRetries = 0 then pure ((false, false), store)
  else do
    let candidate ← credentialDigest platform owner slot 2 entry.pukSalt puk
    if candidate ≠ entry.pukDigest then
      pure ((false, true), store.put slot { entry with pukRetries := entry.pukRetries - 1 })
    else do
      let salt ← platform.random 0 16
      let digest ← credentialDigest platform owner slot 1 salt newPin
      pure ((true, true), store.put slot { entry with
        pinSalt := salt, pinDigest := digest, pinRetries := entry.pinMaxRetries, pukRetries := entry.pukMaxRetries })

def retries (store : CredentialStore) (owner : Fixed 16) (slot : Int32) : Except Error (UInt8 × UInt8) := do
  let entry ← store.entry owner slot
  pure (entry.pinRetries, entry.pukRetries)

/-- Lower the counters of an entry to a floor. -/
def CredentialEntry.lower (entry : CredentialEntry) (floor : UInt8 × UInt8) : CredentialEntry :=
  { entry with pinRetries := min entry.pinRetries floor.1, pukRetries := min entry.pukRetries floor.2 }

/-- Apply one recorded floor; slots without an entry are left out. -/
def applyFloor (owner : Fixed 16) (state : Bool × CredentialStore) (floor : Int32 × (UInt8 × UInt8)) :
    Except Error (Bool × CredentialStore) :=
  match state.2.entries.find floor.1.toInt with
  | none => .ok state
  | some found =>
      if found.2.owner ≠ owner ∨ found.2.pinMaxRetries < floor.2.1 ∨ found.2.pukMaxRetries < floor.2.2 then .error .storage
      else .ok (state.1 || floor.2.1 < found.2.pinRetries || floor.2.2 < found.2.pukRetries,
        state.2.put floor.1 (CredentialEntry.lower found.2 floor.2))

/-- Apply only retry-counter decreases recorded before an invocation fault. -/
def applyRetryFloor (store : CredentialStore) (owner : Fixed 16) (floors : List (Int32 × (UInt8 × UInt8))) :
    Except Error (Bool × CredentialStore) :=
  floors.foldlM (applyFloor owner) (false, store)

section Codec

/-- The written form of an entry repeats no slot: a stored entry has that of its key. -/
def encodeEntry (e : Int32 × CredentialEntry) : EncoderM Unit := do
  failIf (e.1 ≠ e.2.slot) .storage
  Encoder.array 10
  Encoder.unsigned (asU64 e.1)
  Encoder.byteString e.2.owner.1
  Encoder.byteString e.2.pinSalt.1
  Encoder.byteString e.2.pinDigest.1
  Encoder.byteString e.2.pukSalt.1
  Encoder.byteString e.2.pukDigest.1
  [e.2.pinRetries, e.2.pinMaxRetries, e.2.pukRetries, e.2.pukMaxRetries].forM fun value => Encoder.unsigned value.toNat

def encodeState (store : CredentialStore) : EncoderM Unit := writeMap encodeEntry store.entries

def decodeEntry (slot : Int32) : Decoder CredentialEntry := do
  let owner ← fixed 16
  let pinSalt ← fixed 16
  let pinDigest ← fixed 32
  let pukSalt ← fixed 16
  let pukDigest ← fixed 32
  let pinRetries ← u8
  let pinMaxRetries ← u8
  let pukRetries ← u8
  let pukMaxRetries ← u8
  pure ⟨slot, owner, pinSalt, pinDigest, pukSalt, pukDigest, pinRetries, pinMaxRetries, pukRetries, pukMaxRetries⟩

def decodeState (owner : Fixed 16) : Decoder CredentialStore := do
  let entries ← readPlainMap Int32.toInt maxCredentialSlots 10 i32 decodeEntry
  readOnly (validate ⟨entries⟩ owner)
  pure ⟨entries⟩

end Codec

end CredentialStore

/-- What every stored credential store of an owner satisfies. -/
structure CredentialStore.Valid (owner : Fixed 16) (store : CredentialStore) : Prop where
  few : store.length ≤ maxCredentialSlots
  sound : ∀ e ∈ store.entries.entries, e.2.sound owner e.1 = true

namespace CredentialStore

variable {store next : CredentialStore} {owner : Fixed 16} {slot : Int32} {platform : Platform}

theorem validate_ok : store.validate owner = .ok () ↔ store.Valid owner := by
  simp only [validate, Checks.bind_ok, Checks.failIf_ok, not_lt, not_not, List.all_eq_true]
  constructor
  · rintro ⟨_, hFew, hSound⟩
    exact ⟨hFew, hSound⟩
  · intro h
    exact ⟨(), h.few, h.sound⟩

theorem empty_valid (owner : Fixed 16) : empty.Valid owner := ⟨Nat.zero_le _, fun _ he => (nomatch he)⟩

theorem entry_ok {entry : CredentialEntry} (h : store.entry owner slot = .ok entry) :
    ∃ key, key.toInt = slot.toInt ∧ (key, entry) ∈ store.entries.entries ∧ entry.owner = owner := by
  simp only [CredentialStore.entry, Checks.bind_ok, Checks.orFail_ok, Checks.failIf_ok, not_not, Checks.pure_ok] at h
  obtain ⟨⟨key, found⟩, hFound, _, hOwner, rfl⟩ := h
  obtain ⟨hMem, hKey⟩ := KeyedList.find_eq_some.1 hFound
  exact ⟨key, hKey, hMem, hOwner⟩

theorem sound_iff {entry : CredentialEntry} : entry.sound owner slot = true ↔
    0 ≤ slot.toInt ∧ slot = entry.slot ∧ entry.owner = owner ∧ validRetries entry.pinMaxRetries = true ∧
      validRetries entry.pukMaxRetries = true ∧ entry.pinRetries ≤ entry.pinMaxRetries ∧
      entry.pukRetries ≤ entry.pukMaxRetries := by
  simp only [CredentialEntry.sound, Bool.and_eq_true, decide_eq_true_eq, and_assoc]

/-- Replacing an entry that is there keeps the store valid. -/
theorem Valid.put (h : store.Valid owner) {entry : CredentialEntry} (hThere : store.entries.contains slot.toInt = true)
    (hSound : entry.sound owner slot = true) : (store.put slot entry).Valid owner := by
  have hLength := KeyedList.length_insert_of_contains (m := store.entries) (a := (slot, entry)) hThere
  refine ⟨by simpa only [length, CredentialStore.put, hLength] using h.few, fun e he => ?_⟩
  rcases KeyedList.mem_insert.1 he with rfl | ⟨he, -⟩
  · exact hSound
  · exact h.sound e he

/-- An entry of a valid store can be replaced by one that keeps its identity. -/
theorem Valid.update (h : store.Valid owner) {entry entry' : CredentialEntry} (hEntry : store.entry owner slot = .ok entry)
    (hSound : entry.sound owner slot = true → entry'.sound owner slot = true) : (store.put slot entry').Valid owner := by
  obtain ⟨key, hKey, hMem, -⟩ := entry_ok hEntry
  have hThere : store.entries.contains slot.toInt = true := KeyedList.contains_iff.2 ⟨(key, entry), hMem, hKey⟩
  have hStored : entry.sound owner key = true := h.sound (key, entry) hMem
  rw [Int32.toInt.inj hKey] at hStored
  exact h.put hThere (hSound hStored)

theorem retryCount_valid {value : Int32} {count : UInt8} (h : retryCount value = .ok count) : validRetries count = true := by
  simp only [retryCount, Checks.bind_ok, Checks.failIf_ok, Checks.pure_ok, Bool.not_eq_false] at h
  obtain ⟨_, -, _, hValid, rfl⟩ := h
  exact hValid

theorem create_valid {pin puk : List Byte} {retries : Int32 × Int32} (h : store.Valid owner)
    (hRun : store.create platform owner slot pin puk retries = .ok next) : next.Valid owner := by
  simp only [create, Checks.bind_ok, Checks.failIf_ok, Checks.pure_ok, not_lt, not_le] at hRun
  obtain ⟨_, -, _, -, pinMax, hPin, pukMax, hPuk, _, hSlot, _, hNew, _, hRoom, salts, -, pinDigest, -, pukDigest, -, rfl⟩ := hRun
  have hLength := store.entries.length_insert_le (slot, CredentialEntry.mk slot owner ⟨salts.1.take 16, by simp [salts.2]⟩
    pinDigest ⟨salts.1.drop 16, by simp [salts.2]⟩ pukDigest pinMax pinMax pukMax pukMax)
  refine ⟨?_, fun e he => ?_⟩
  · simp only [length, CredentialStore.put] at hRoom ⊢
    omega
  · rcases KeyedList.mem_insert.1 he with rfl | ⟨he, -⟩
    · exact sound_iff.2 ⟨hSlot, rfl, rfl, retryCount_valid hPin, retryCount_valid hPuk, UInt8.le_refl _, UInt8.le_refl _⟩
    · exact h.sound e he

theorem pred_le {a b : UInt8} (h : a ≠ 0) (hLe : a ≤ b) : a - 1 ≤ b := by
  have hPos : a.toNat ≠ 0 := fun hZero => h (UInt8.toNat.inj hZero)
  have hOne : (1 : UInt8) ≤ a := UInt8.le_iff_toNat_le.2 (Nat.pos_of_ne_zero hPos)
  rw [UInt8.le_iff_toNat_le] at hLe ⊢
  rw [UInt8.toNat_sub_of_le _ _ hOne]
  omega

theorem lowered_le {a b : UInt8} (floor : UInt8) (h : a ≤ b) : min a floor ≤ b := by
  have hMin : min a floor = if a ≤ floor then a else floor := rfl
  rw [hMin]
  split
  · exact h
  · rename_i hAbove
    rw [UInt8.le_iff_toNat_le] at *
    omega

theorem verifyPin_valid {candidate : List Byte} {result : Bool × Bool} (h : store.Valid owner)
    (hRun : store.verifyPin platform owner slot candidate = .ok (result, next)) : next.Valid owner := by
  simp only [verifyPin, Checks.bind_ok] at hRun
  obtain ⟨_, -, entry, hEntry, hRun⟩ := hRun
  split at hRun
  · cases hRun
    exact h
  · rename_i hLeft
    obtain ⟨digest, -, hRun⟩ := Checks.bind_ok.1 hRun
    split at hRun
    · cases hRun
      apply h.update hEntry
      rw [sound_iff, sound_iff]
      exact fun ⟨hSlot, hKey, hOwner, hPin, hPuk, _, hLe⟩ => ⟨hSlot, hKey, hOwner, hPin, hPuk, UInt8.le_refl _, hLe⟩
    · cases hRun
      apply h.update hEntry
      rw [sound_iff, sound_iff]
      exact fun ⟨hSlot, hKey, hOwner, hPin, hPuk, hLe, hLe'⟩ => ⟨hSlot, hKey, hOwner, hPin, hPuk, pred_le hLeft hLe, hLe'⟩

theorem changePin_valid {newPin : List Byte} {changed : Bool} (h : store.Valid owner)
    (hRun : store.changePin platform owner slot newPin = .ok (changed, next)) : next.Valid owner := by
  simp only [changePin, Checks.bind_ok, Checks.pure_ok, Prod.mk.injEq] at hRun
  obtain ⟨_, -, salt, -, digest, -, entry, hEntry, -, rfl⟩ := hRun
  apply h.update hEntry
  rw [sound_iff, sound_iff]
  exact fun ⟨hSlot, hKey, hOwner, hPin, hPuk, _, hLe⟩ => ⟨hSlot, hKey, hOwner, hPin, hPuk, UInt8.le_refl _, hLe⟩

theorem unblock_valid {puk newPin : List Byte} {result : Bool × Bool} (h : store.Valid owner)
    (hRun : store.unblock platform owner slot puk newPin = .ok (result, next)) : next.Valid owner := by
  simp only [unblock, Checks.bind_ok] at hRun
  obtain ⟨_, -, _, -, entry, hEntry, hRun⟩ := hRun
  split at hRun
  · cases hRun
    exact h
  · rename_i hLeft
    obtain ⟨candidate, -, hRun⟩ := Checks.bind_ok.1 hRun
    split at hRun
    · cases hRun
      apply h.update hEntry
      rw [sound_iff, sound_iff]
      exact fun ⟨hSlot, hKey, hOwner, hPin, hPuk, hLe, hLe'⟩ => ⟨hSlot, hKey, hOwner, hPin, hPuk, hLe, pred_le hLeft hLe'⟩
    · simp only [Checks.bind_ok, Checks.pure_ok, Prod.mk.injEq] at hRun
      obtain ⟨salt, -, digest, -, -, rfl⟩ := hRun
      apply h.update hEntry
      rw [sound_iff, sound_iff]
      exact fun ⟨hSlot, hKey, hOwner, hPin, hPuk, _, _⟩ => ⟨hSlot, hKey, hOwner, hPin, hPuk, UInt8.le_refl _, UInt8.le_refl _⟩

theorem applyFloor_valid {state state' : Bool × CredentialStore} {floor : Int32 × (UInt8 × UInt8)}
    (hValid : state.2.Valid owner) (hStep : applyFloor owner state floor = .ok state') : state'.2.Valid owner := by
  unfold applyFloor at hStep
  cases hFound : state.2.entries.find floor.1.toInt with
  | none =>
      rw [hFound] at hStep
      cases hStep
      exact hValid
  | some found =>
      rw [hFound] at hStep
      simp only at hStep
      split at hStep
      · cases hStep
      · rename_i hBounds
        cases hStep
        obtain ⟨hMem, hKey⟩ := KeyedList.find_eq_some.1 hFound
        have hKey : found.1 = floor.1 := Int32.toInt.inj hKey
        apply hValid.put (KeyedList.contains_iff.2 ⟨found, hMem, congrArg Int32.toInt hKey⟩)
        have hSound := sound_iff.1 (hValid.sound found hMem)
        rw [hKey] at hSound
        obtain ⟨hSlot, hSame, hOwner, hPin, hPuk, hLe, hLe'⟩ := hSound
        exact sound_iff.2 ⟨hSlot, hSame, hOwner, hPin, hPuk, lowered_le _ hLe, lowered_le _ hLe'⟩

theorem applyRetryFloor_valid {floors : List (Int32 × (UInt8 × UInt8))} {changed : Bool} (h : store.Valid owner)
    (hRun : store.applyRetryFloor owner floors = .ok (changed, next)) : next.Valid owner := by
  let I : Bool × CredentialStore → Prop := fun state => state.2.Valid owner
  have hKeeps : ∀ state floor state', floor ∈ floors → applyFloor owner state floor = .ok state' → I state → I state' := by
    intro state floor state' _ hStep hValid
    exact applyFloor_valid hValid hStep
  have hLast : I (changed, next) := Checks.foldlM_invariant hKeeps h hRun
  exact hLast

section Codec

def slotBytes (slot : Int32) : List Byte := unsignedBytes (asU64 slot)

def valueBytes (entry : CredentialEntry) : List Byte :=
  stringBytes entry.owner.1 ++ stringBytes entry.pinSalt.1 ++ stringBytes entry.pinDigest.1 ++ stringBytes entry.pukSalt.1 ++
    stringBytes entry.pukDigest.1 ++ unsignedBytes entry.pinRetries.toNat ++ unsignedBytes entry.pinMaxRetries.toNat ++
    unsignedBytes entry.pukRetries.toNat ++ unsignedBytes entry.pukMaxRetries.toNat

def stateBytes (store : CredentialStore) : List Byte := mapBytes Int32.toInt 10 slotBytes valueBytes store.entries

theorem decodeEntry_exact (slot : Int32) : Exact (decodeEntry slot) valueBytes fun entry => entry.slot = slot := by
  intro input entry rest
  simp only [decodeEntry, valueBytes, bind_ok, fixed_ok 16 (by decide), fixed_ok 32 (by decide), u8_ok, pure_ok,
    List.append_assoc]
  constructor
  · rintro ⟨_, _, rfl, _, _, rfl, _, _, rfl, _, _, rfl, _, _, rfl, _, _, rfl, _, _, rfl, _, _, rfl, _, _, rfl, rfl, rfl⟩
    exact ⟨rfl, rfl⟩
  · rintro ⟨rfl, rfl⟩
    exact ⟨_, _, rfl, _, _, rfl, _, _, rfl, _, _, rfl, _, _, rfl, _, _, rfl, _, _, rfl, _, _, rfl, _, _, rfl, rfl, rfl⟩

/-- A credential store is read exactly as it is written. -/
theorem decodeState_exact (owner : Fixed 16) : Exact (decodeState owner) stateBytes (Valid owner) := by
  intro input store rest
  have hKey : Exact i32 slotBytes fun slot => 0 ≤ slot.toInt := fun _ _ _ => i32_ok
  have hMap : ∀ {entries : Entries Int32.toInt CredentialEntry} {input rest : List Byte},
      readPlainMap Int32.toInt maxCredentialSlots 10 i32 decodeEntry input = .ok entries rest ↔ _ :=
    readPlainMap_ok (show maxCredentialSlots < 2 ^ 64 by decide) (show 10 < 2 ^ 64 by decide) hKey decodeEntry_exact
  simp only [decodeState, bind_ok, readOnly_ok, pure_ok, hMap]
  constructor
  · rintro ⟨entries, _, ⟨-, -, rfl⟩, _, _, ⟨hValid, rfl⟩, rfl, rfl⟩
    exact ⟨validate_ok.1 hValid, rfl⟩
  · rintro ⟨hValid, rfl⟩
    refine ⟨store.entries, rest, ⟨hValid.few, fun e he => ?_, rfl⟩, (), rest, ⟨validate_ok.2 hValid, rfl⟩, rfl, rfl⟩
    have hSound := sound_iff.1 (hValid.sound e he)
    exact ⟨hSound.1, hSound.2.1.symm⟩

theorem encodeState_appends (h : store.Valid owner) : Appends store.encodeState store.stateBytes := by
  apply writeMap_appends
  intro e he
  have hSlot : ¬e.1 ≠ e.2.slot := not_not.2 (sound_iff.1 (h.sound e he)).2.1
  have hChecked : encodeEntry e = (failIf (e.1 ≠ e.2.slot) .storage : EncoderM Unit) >>= fun _ => _ := rfl
  rw [hChecked, failIf, if_neg hSlot]
  simp only [entryBytes, slotBytes, valueBytes, List.append_assoc, pure_bind]
  have hCounters := Appends.forM [e.2.pinRetries, e.2.pinMaxRetries, e.2.pukRetries, e.2.pukMaxRetries]
    fun value _ => Appends.unsigned value.toNat
  simp only [List.flatMap_cons, List.flatMap_nil, List.append_nil] at hCounters
  exact Appends.bind (Appends.array _) (Appends.bind (Appends.unsigned _) (Appends.bind (Appends.byteString _)
    (Appends.bind (Appends.byteString _) (Appends.bind (Appends.byteString _) (Appends.bind (Appends.byteString _)
    (Appends.bind (Appends.byteString _) hCounters))))))

end Codec

end CredentialStore

end MicroCard.Mc04
