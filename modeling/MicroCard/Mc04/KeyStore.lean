import MicroCard.Mc04.Entries
import MicroCard.Mc04.Platform
import MicroCard.Library.Checks

/-! Persistent framework keys, separate from application values. A token binds a key to
the incarnation of its domain by the nonce of the key. -/
namespace MicroCard.Mc04

open Bytes CrashTriple Cbor Codec

inductive Algorithm where
  | hmacSha256
  | aes128
  | p256
  deriving DecidableEq

def Algorithm.code : Algorithm → Nat
  | hmacSha256 => 1
  | aes128 => 2
  | p256 => 3

def Algorithm.ofCode : Int → Option Algorithm
  | 1 => some hmacSha256
  | 2 => some aes128
  | 3 => some p256
  | _ => none

structure KeyEntry where
  algorithm : Algorithm
  nonce : Fixed 16
  key : Fixed 32
  deriving DecidableEq

/-- `MAX_ENTRIES`. -/
def maxKeyEntries : Nat := 8

def keySlot (slot : Int32) : Bool := 0 ≤ slot.toInt && slot.toInt < maxKeyEntries

structure KeyStore where
  entries : Entries Int32.toInt KeyEntry
  deriving DecidableEq

/-- An AES key is padded with zeros, and a P-256 key is a scalar of the group. -/
def KeyEntry.sound (entry : KeyEntry) : Bool :=
  match entry.algorithm with
  | .hmacSha256 => true
  | .aes128 => entry.key.1.drop 16 = List.replicate 16 0
  | .p256 => p256PrivateKeyValid entry.key

namespace KeyStore

def empty : KeyStore := ⟨KeyedList.empty⟩

def length (store : KeyStore) : Nat := store.entries.length

def values (store : KeyStore) : List KeyEntry := store.entries.entries.map Prod.snd

def isEmpty (store : KeyStore) : Bool := store.entries.isEmpty

def validate (store : KeyStore) : Except Error Unit := do
  failIf (maxKeyEntries < store.length ∨ ¬(store.entries.entries.all fun e => keySlot e.1)) .storage
  failIf (¬(store.values.map KeyEntry.nonce).Nodup ∨ ¬store.values.all KeyEntry.sound) .storage

/-- The key of a new entry, from the draws behind the one of its nonce. -/
def drawKey (algorithm : Algorithm) (random : Nat → (length : Nat) → Except Error (Fixed length)) :
    Except Error (Fixed 32) :=
  match algorithm with
  | .hmacSha256 => random 1 32
  | .aes128 => do
      let key ← random 1 16
      pure ⟨key.1 ++ List.replicate 16 0, by simp [key.2]⟩
  | .p256 => p256GeneratePrivate (fun n => random (n + 1) 32) 8

def open' (store : KeyStore) (owner : Fixed 16) (slot : Int32) : Except Error (List Byte) := do
  let entry ← orFail (store.entries.find slot.toInt) .missing
  pure (owner.1 ++ entry.2.nonce.1)

instance decMemNonce (nonce : Fixed 16) (nonces : List (Fixed 16)) : Decidable (nonce ∈ nonces) := inferInstance

def generate (store : KeyStore) (owner : Fixed 16) (slot algorithm : Int32)
    (random : Nat → (length : Nat) → Except Error (Fixed length)) : Except Error (List Byte × KeyStore) := do
  failIf (keySlot slot = false) .bounds
  failIf (store.entries.contains slot.toInt = true) .busy
  failIf (maxKeyEntries ≤ store.length) .quota
  let algorithm ← orFail (Algorithm.ofCode algorithm.toInt) .unsupported
  let nonce ← random 0 16
  let key ← drawKey algorithm random
  failIf (nonce ∈ store.values.map KeyEntry.nonce) .native
  let next : KeyStore := ⟨store.entries.insert (slot, ⟨algorithm, nonce, key⟩)⟩
  let token ← next.open' owner slot
  pure (token, next)

def delete (store : KeyStore) (slot : Int32) : Except Error KeyStore := do
  failIf (store.entries.contains slot.toInt = false) .missing
  pure ⟨store.entries.erase slot.toInt⟩

/-- The key that a token names, for the algorithm it was made for. -/
def key (store : KeyStore) (owner : Fixed 16) (token : List Byte) (algorithm : Algorithm) : Except Error (Fixed 32) := do
  failIf (token.length ≠ 32 ∨ token.take 16 ≠ owner.1) .unauthorized
  let entry ← orFail (store.values.find? fun e => e.nonce.1 = token.drop 16) .missing
  failIf (entry.algorithm ≠ algorithm) .unauthorized
  pure entry.key

section Services

variable (store : KeyStore) (platform : Platform) (owner : Fixed 16) (token : List Byte)

def hmac (data : List Byte) : Except Error (List Byte) := do
  let key ← store.key owner token .hmacSha256
  let output ← platform.hmacSha256 key data
  pure output.1

def cmac (data : List Byte) : Except Error (List Byte) := do
  let key ← store.key owner token .aes128
  let output ← platform.aesCmac (key.1.take 16) data
  pure output.1

def cbc (iv data : List Byte) (encrypt : Bool) : Except Error (List Byte) := do
  let key ← store.key owner token .aes128
  failIf (iv.length ≠ 16) .bounds
  let capacity := if encrypt then (data.length / 16 + 1) * 16 else data.length
  let output ← platform.aesCbc encrypt (key.1.take 16) iv data
  failIf (capacity < output.length ∨ encrypt = true ∧ output.length ≠ capacity) .native
  pure output

def ccm (nonce aad data : List Byte) (encrypt : Bool) : Except Error (List Byte) := do
  let key ← store.key owner token .aes128
  failIf (nonce.length ≠ 13) .bounds
  failIf (encrypt = false ∧ data.length < 16) .authentication
  let capacity := if encrypt then data.length + 16 else data.length - 16
  let output ← platform.aesCcm encrypt (key.1.take 16) nonce aad data
  failIf (output.length ≠ capacity) .native
  pure output

def p256PublicKey : Except Error (List Byte) := do
  let key ← store.key owner token .p256
  let output ← platform.p256PublicKey key
  pure output.1

def p256Sign (message : List Byte) : Except Error (List Byte) := do
  let key ← store.key owner token .p256
  let output ← platform.p256EcdsaSign key message
  pure output.1

def p256Ecdh (peer : List Byte) : Except Error (List Byte) := do
  let key ← store.key owner token .p256
  let output ← platform.p256Ecdh key peer
  pure output.1

end Services

section Codec

def encodeEntry (entry : Int32 × KeyEntry) : EncoderM Unit := do
  Encoder.array 4
  Encoder.unsigned (asU64 entry.1)
  Encoder.unsigned entry.2.algorithm.code
  Encoder.byteString entry.2.nonce.1
  Encoder.byteString entry.2.key.1

def encodeState (store : KeyStore) : EncoderM Unit := writeMap encodeEntry store.entries

def decodeSlot : Decoder Int32 := do
  let slot ← i32
  failIf (keySlot slot = false) .format
  pure slot

def decodeEntry : Decoder KeyEntry := do
  let code ← unsigned
  let algorithm ← orFail (Algorithm.ofCode code) .format
  let nonce ← fixed 16
  let key ← fixed 32
  pure ⟨algorithm, nonce, key⟩

def decodeState : Decoder KeyStore := do
  let entries ← readPlainMap Int32.toInt maxKeyEntries 4 decodeSlot fun _ => decodeEntry
  readOnly (validate ⟨entries⟩)
  pure ⟨entries⟩

end Codec

end KeyStore

/-- What every stored key store satisfies. -/
structure KeyStore.Valid (store : KeyStore) : Prop where
  few : store.length ≤ maxKeyEntries
  slots : ∀ e ∈ store.entries.entries, keySlot e.1 = true
  nonces : (store.values.map KeyEntry.nonce).Nodup
  sound : ∀ e ∈ store.values, e.sound = true

namespace KeyStore

variable {store : KeyStore}

theorem validate_ok : store.validate = .ok () ↔ store.Valid := by
  simp only [validate, Checks.bind_ok, Checks.failIf_ok, not_or, not_lt, not_not, List.all_eq_true]
  constructor
  · rintro ⟨_, ⟨hFew, hSlots⟩, hNonces, hSound⟩
    exact ⟨hFew, hSlots, hNonces, hSound⟩
  · intro h
    exact ⟨(), ⟨h.few, h.slots⟩, h.nonces, h.sound⟩

theorem empty_valid : empty.Valid :=
  ⟨Nat.zero_le _, fun _ he => (nomatch he), List.nodup_nil, fun _ he => (nomatch he)⟩

theorem drawKey_sound {algorithm : Algorithm} {random : Nat → (length : Nat) → Except Error (Fixed length)}
    {nonce : Fixed 16} {key : Fixed 32} (h : drawKey algorithm random = .ok key) :
    (⟨algorithm, nonce, key⟩ : KeyEntry).sound = true := by
  cases algorithm with
  | hmacSha256 => rfl
  | aes128 =>
      simp only [drawKey, Checks.bind_ok, Checks.pure_ok] at h
      obtain ⟨half, -, rfl⟩ := h
      have hHalf := half.2
      simp [KeyEntry.sound, hHalf]
  | p256 =>
      have hDrawn : p256GeneratePrivate (fun n => random (n + 1) 32) 8 = .ok key := h
      exact p256GeneratePrivate_valid 8 hDrawn

theorem generate_valid {next : KeyStore} {owner : Fixed 16} {slot algorithm : Int32} {token : List Byte}
    {random : Nat → (length : Nat) → Except Error (Fixed length)} (h : store.Valid)
    (hRun : store.generate owner slot algorithm random = .ok (token, next)) : next.Valid ∧ next.length ≤ store.length + 1 := by
  simp only [generate, Checks.bind_ok, Checks.failIf_ok, Checks.orFail_ok, Checks.pure_ok, Prod.mk.injEq] at hRun
  obtain ⟨_, hSlot, _, -, _, hRoom, kind, -, nonce, -, key, hKey, _, hFresh, _, -, -, rfl⟩ := hRun
  have hPerm := (store.entries.insert_perm (slot, ⟨kind, nonce, key⟩)).map Prod.snd
  rw [List.map_cons] at hPerm
  have hErased : ((store.entries.erase slot.toInt).entries.map Prod.snd).Sublist store.values :=
    List.filter_sublist.map _
  have hLength := store.entries.length_insert_le (slot, ⟨kind, nonce, key⟩)
  refine ⟨⟨?_, ?_, ?_, ?_⟩, hLength⟩
  · simp only [length] at hRoom ⊢
    omega
  · intro e he
    rcases KeyedList.mem_insert.1 he with rfl | ⟨he, -⟩
    · simpa using hSlot
    · exact h.slots e he
  · have hNonces := (hErased.map KeyEntry.nonce).nodup h.nonces
    apply (hPerm.map KeyEntry.nonce).nodup_iff.2
    rw [List.map_cons, List.nodup_cons]
    exact ⟨fun hMem => hFresh ((hErased.map KeyEntry.nonce).subset hMem), hNonces⟩
  · intro e he
    rcases List.mem_cons.1 (hPerm.mem_iff.1 he) with rfl | he
    · exact drawKey_sound hKey
    · exact h.sound e (hErased.subset he)

theorem delete_valid {next : KeyStore} {slot : Int32} (h : store.Valid) (hRun : store.delete slot = .ok next) :
    next.Valid ∧ next.length ≤ store.length := by
  simp only [delete, Checks.bind_ok, Checks.failIf_ok, Checks.pure_ok] at hRun
  obtain ⟨_, -, rfl⟩ := hRun
  have hErased : ((store.entries.erase slot.toInt).entries.map Prod.snd).Sublist store.values :=
    List.filter_sublist.map _
  have hLength := store.entries.length_erase_le slot.toInt
  refine ⟨⟨hLength.trans h.few, ?_, (hErased.map KeyEntry.nonce).nodup h.nonces, ?_⟩, hLength⟩
  · exact fun e he => h.slots e (KeyedList.mem_erase.1 he).1
  · exact fun e he => h.sound e (hErased.subset he)

section Codec

def valueBytes (entry : KeyEntry) : List Byte :=
  unsignedBytes entry.algorithm.code ++ stringBytes entry.nonce.1 ++ stringBytes entry.key.1

def slotBytes (slot : Int32) : List Byte := unsignedBytes (asU64 slot)

def stateBytes (store : KeyStore) : List Byte := mapBytes Int32.toInt 4 slotBytes valueBytes store.entries

theorem ofCode_code (algorithm : Algorithm) : Algorithm.ofCode algorithm.code = some algorithm := by
  cases algorithm <;> rfl

theorem code_of_ofCode {code : Int} {algorithm : Algorithm} (h : Algorithm.ofCode code = some algorithm) :
    code = algorithm.code := by
  unfold Algorithm.ofCode at h
  split at h <;> cases h <;> rfl

theorem decodeSlot_exact : Exact decodeSlot slotBytes fun slot => keySlot slot = true := by
  intro input slot rest
  simp only [decodeSlot, bind_ok, i32_ok, failIf_ok, pure_ok, Bool.not_eq_false]
  constructor
  · rintro ⟨_, _, ⟨-, rfl⟩, _, _, ⟨hSlot, rfl⟩, rfl, rfl⟩
    exact ⟨hSlot, rfl⟩
  · rintro ⟨hSlot, rfl⟩
    have hNonneg : 0 ≤ slot.toInt := by
      simp only [keySlot, Bool.and_eq_true, decide_eq_true_eq] at hSlot
      exact hSlot.1
    exact ⟨slot, rest, ⟨hNonneg, rfl⟩, (), rest, ⟨hSlot, rfl⟩, rfl, rfl⟩

theorem decodeEntry_exact : Exact decodeEntry valueBytes fun _ => True := by
  intro input entry rest
  simp only [decodeEntry, valueBytes, bind_ok, unsigned_ok, orFail_ok, fixed_ok 16 (by decide), fixed_ok 32 (by decide),
    pure_ok, true_and, List.append_assoc]
  constructor
  · rintro ⟨code, _, ⟨-, rfl⟩, algorithm, _, ⟨hCode, rfl⟩, _, _, rfl, _, _, rfl, rfl, rfl⟩
    rw [Int.ofNat.inj (code_of_ofCode hCode)]
  · rintro rfl
    exact ⟨_, _, ⟨by cases entry.algorithm <;> decide, rfl⟩, entry.algorithm, _, ⟨ofCode_code _, rfl⟩, _, _, rfl, _, _, rfl,
      rfl, rfl⟩

/-- A key store is read exactly as it is written. -/
theorem decodeState_exact : Exact decodeState stateBytes Valid := by
  intro input store rest
  have hMap : ∀ {entries : Entries Int32.toInt KeyEntry} {input rest : List Byte},
      readPlainMap Int32.toInt maxKeyEntries 4 decodeSlot (fun _ => decodeEntry) input = .ok entries rest ↔ _ :=
    readPlainMap_ok (show maxKeyEntries < 2 ^ 64 by decide) (show 4 < 2 ^ 64 by decide) decodeSlot_exact
      fun _ => decodeEntry_exact
  simp only [decodeState, bind_ok, readOnly_ok, pure_ok, hMap]
  constructor
  · rintro ⟨entries, _, ⟨-, -, rfl⟩, _, _, ⟨hValid, rfl⟩, rfl, rfl⟩
    exact ⟨validate_ok.1 hValid, rfl⟩
  · rintro ⟨hValid, rfl⟩
    exact ⟨store.entries, rest, ⟨hValid.few, fun e he => ⟨hValid.slots e he, trivial⟩, rfl⟩, (), rest,
      ⟨validate_ok.2 hValid, rfl⟩, rfl, rfl⟩

theorem encodeState_appends (store : KeyStore) : Appends store.encodeState store.stateBytes := by
  apply writeMap_appends
  intro e _
  simp only [entryBytes, slotBytes, valueBytes, List.append_assoc]
  exact Appends.bind (Appends.array _) (Appends.bind (Appends.unsigned _) (Appends.bind (Appends.unsigned _)
    (Appends.bind (Appends.byteString _) (Appends.byteString _))))

end Codec

end KeyStore

end MicroCard.Mc04
