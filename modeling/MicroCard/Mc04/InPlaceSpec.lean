import MicroCard.Mc04.InPlace

/-! The calls in place against the calls that hand on a new store: where a call writes at
its end only, the two agree and a failure leaves the store as it was. -/
namespace MicroCard.Mc04.InPlace

open Bytes CrashTriple Cbor Codec

variable {ε σ α β : Type}

section Steps

variable {state : σ} {next : α → EStateM ε σ β}

theorem get_bind {next : σ → EStateM ε σ β} : (get >>= next) state = next state state := rfl

theorem failIf_bind_fail {c : Prop} [Decidable c] {e : ε} {next : Unit → EStateM ε σ β} (h : c) :
    (failIf c e >>= next) state = .error e state := by
  simp only [failIf, if_pos h]
  rfl

theorem failIf_bind_pass {c : Prop} [Decidable c] {e : ε} {next : Unit → EStateM ε σ β} (h : ¬c) :
    (failIf c e >>= next) state = next () state := by
  simp only [failIf, if_neg h]
  rfl

theorem orFail_bind_none {e : ε} : (orFail none e >>= next) state = .error e state := rfl

theorem orFail_bind_some {e : ε} {a : α} : (orFail (some a) e >>= next) state = next a state := rfl

theorem readOnly_bind_error {e : ε} : (readOnly (.error e) >>= next) state = .error e state := rfl

theorem readOnly_bind_ok {a : α} : (readOnly (.ok a) >>= next) state = next a state := rfl

end Steps

/-- A call that writes when nothing can fail any more. -/
def atEnd (call : σ → Except ε (α × σ)) : EStateM ε σ α := fun state =>
  match call state with
  | .ok (a, next) => .ok a next
  | .error e => .error e state

theorem atEnd_error {call : σ → Except ε (α × σ)} {state after : σ} {e : ε} (h : atEnd call state = .error e after) :
    after = state := by
  rw [atEnd] at h
  split at h
  · cases h
  · injection h with _ hState
    exact hState.symm

theorem atEnd_ok {call : σ → Except ε (α × σ)} {state after : σ} {a : α} :
    atEnd call state = .ok a after ↔ call state = .ok (a, after) := by
  rw [atEnd]
  cases call state with
  | error e => simp
  | ok pair => simp [Prod.ext_iff]

variable (platform : Platform) (owner : Fixed 16) (slot : Int32)

theorem delete_eq : delete slot = atEnd fun store => (store.delete slot).map fun next => ((), next) := by
  funext store
  rw [atEnd, delete, KeyStore.delete]
  by_cases hThere : store.entries.contains slot.toInt = false
  · simp only [failIf, if_pos hThere]
    simp only [bind, EStateM.bind, get, getThe, MonadStateOf.get, EStateM.get, if_pos hThere]
    rfl
  · simp only [failIf, if_neg hThere]
    simp only [bind, EStateM.bind, get, getThe, MonadStateOf.get, EStateM.get, if_neg hThere]
    rfl

theorem verifyPin_eq (candidate : List Byte) :
    verifyPin platform owner slot candidate = atEnd fun store => store.verifyPin platform owner slot candidate := by
  funext store
  rw [atEnd, verifyPin, CredentialStore.verifyPin]
  cases validateSecret candidate minPinBytes with
  | error e => rfl
  | ok _ =>
      simp only [bind, EStateM.bind, readOnly, entry, get, getThe, MonadStateOf.get, EStateM.get, Except.bind]
      cases store.entry owner slot with
      | error e => rfl
      | ok found =>
          by_cases hBlocked : found.pinRetries = 0
          · simp only [if_pos hBlocked]
            rfl
          · simp only [if_neg hBlocked]
            cases credentialDigest platform owner slot 1 found.pinSalt candidate with
            | error e => rfl
            | ok digest =>
                by_cases hSame : digest = found.pinDigest
                · simp only [EStateM.bind, readOnly, if_pos hSame]
                  rfl
                · simp only [EStateM.bind, readOnly, if_neg hSame]
                  rfl

theorem changePin_eq (newPin : List Byte) :
    changePin platform owner slot newPin = atEnd fun store => store.changePin platform owner slot newPin := by
  funext store
  rw [atEnd, changePin, CredentialStore.changePin]
  cases validateSecret newPin minPinBytes with
  | error e => rfl
  | ok _ =>
      cases platform.random 0 16 with
      | error e => rfl
      | ok salt =>
          simp only [bind, EStateM.bind, readOnly, entry, get, getThe, MonadStateOf.get, EStateM.get, Except.bind]
          cases credentialDigest platform owner slot 1 salt newPin with
          | error e => rfl
          | ok digest =>
              cases hEntry : store.entry owner slot with
              | error e =>
                  simp only [hEntry]
              | ok found =>
                  simp only [hEntry]
                  rfl

theorem unblock_eq (puk newPin : List Byte) :
    unblock platform owner slot puk newPin = atEnd fun store => store.unblock platform owner slot puk newPin := by
  funext store
  rw [atEnd, unblock, CredentialStore.unblock]
  cases validateSecret puk minPukBytes with
  | error e => rfl
  | ok _ =>
      cases validateSecret newPin minPinBytes with
      | error e => rfl
      | ok _ =>
          simp only [bind, EStateM.bind, readOnly, entry, get, getThe, MonadStateOf.get, EStateM.get, Except.bind]
          cases hEntry : store.entry owner slot with
          | error e => rfl
          | ok found =>
              by_cases hBlocked : found.pukRetries = 0
              · simp only [if_pos hBlocked]
                rfl
              · simp only [if_neg hBlocked]
                cases credentialDigest platform owner slot 2 found.pukSalt puk with
                | error e => rfl
                | ok candidate =>
                    by_cases hWrong : candidate ≠ found.pukDigest
                    · simp only [EStateM.bind, readOnly, if_pos hWrong]
                      rfl
                    · simp only [EStateM.bind, readOnly, if_neg hWrong]
                      cases platform.random 0 16 with
                      | error e => rfl
                      | ok salt =>
                          simp only []
                          cases credentialDigest platform owner slot 1 salt newPin with
                          | error e => rfl
                          | ok digest =>
                              simp only [EStateM.get, hEntry]
                              rfl

theorem create_eq {grants : Grants} (hGranted : grants.entry = true) (pin puk : List Byte) (retries : Int32 × Int32) :
    create grants platform owner slot pin puk retries =
      atEnd fun store => (store.create platform owner slot pin puk retries).map fun next => ((), next) := by
  funext store
  rw [atEnd, create, CredentialStore.create]
  cases validateSecret pin minPinBytes with
  | error e => rfl
  | ok _ =>
      cases validateSecret puk minPukBytes with
      | error e => rfl
      | ok _ =>
          cases retryCount retries.1 with
          | error e => rfl
          | ok pinMaxRetries =>
              cases retryCount retries.2 with
              | error e => rfl
              | ok pukMaxRetries =>
                  simp only [bind, EStateM.bind, readOnly, get, getThe, MonadStateOf.get, EStateM.get, Except.bind, failIf, hGranted]
                  by_cases hSlot : slot.toInt < 0
                  · simp only [if_pos hSlot]
                    rfl
                  by_cases hBusy : store.entries.contains slot.toInt = true
                  · simp only [if_neg hSlot, if_pos hBusy]
                    rfl
                  by_cases hFull : maxCredentialSlots ≤ store.length
                  · simp only [if_neg hSlot, if_neg hBusy, if_pos hFull]
                    rfl
                  simp only [if_neg hSlot, if_neg hBusy, if_neg hFull]
                  cases platform.random 0 32 with
                  | error e => rfl
                  | ok salts =>
                      simp only []
                      cases credentialDigest platform owner slot 1 ⟨salts.1.take 16, by simp [salts.2]⟩ pin with
                      | error e => rfl
                      | ok pinDigest =>
                          simp only []
                          cases credentialDigest platform owner slot 2 ⟨salts.1.drop 16, by simp [salts.2]⟩ puk with
                          | error e => rfl
                          | ok pukDigest => rfl

/-- Without room for the entry nothing is created. -/
theorem create_refused {grants : Grants} (hRefused : grants.entry = false) (pin puk : List Byte) (retries : Int32 × Int32)
    (store : CredentialStore) : ∃ e, create grants platform owner slot pin puk retries store = .error e store := by
  rw [create]
  cases validateSecret pin minPinBytes with
  | error e => exact ⟨e, rfl⟩
  | ok _ =>
      cases validateSecret puk minPukBytes with
      | error e => exact ⟨e, rfl⟩
      | ok _ =>
          cases retryCount retries.1 with
          | error e => exact ⟨e, rfl⟩
          | ok pinMaxRetries =>
              cases retryCount retries.2 with
              | error e => exact ⟨e, rfl⟩
              | ok pukMaxRetries =>
                  simp only [bind, EStateM.bind, readOnly, get, getThe, MonadStateOf.get, EStateM.get, failIf, hRefused]
                  by_cases hSlot : slot.toInt < 0
                  · simp only [if_pos hSlot]
                    exact ⟨.bounds, rfl⟩
                  by_cases hBusy : store.entries.contains slot.toInt = true
                  · simp only [if_neg hSlot, if_pos hBusy]
                    exact ⟨.busy, rfl⟩
                  by_cases hFull : maxCredentialSlots ≤ store.length
                  · simp only [if_neg hSlot, if_neg hBusy, if_pos hFull]
                    exact ⟨.quota, rfl⟩
                  · simp only [if_neg hSlot, if_neg hBusy, if_neg hFull]
                    exact ⟨.quota, rfl⟩

/-- Every check of a generation succeeds, so that its key is inserted. -/
structure Inserts (store : KeyStore) (grants : Grants) (slot algorithm : Int32)
    (random : Nat → (length : Nat) → Except Error (Fixed length)) (entry : KeyEntry) : Prop where
  inRange : keySlot slot = true
  free : store.entries.contains slot.toInt = false
  room : store.length < maxKeyEntries
  granted : grants.entry = true
  kind : Algorithm.ofCode algorithm.toInt = some entry.algorithm
  nonce : random 0 16 = .ok entry.nonce
  key : KeyStore.drawKey entry.algorithm random = .ok entry.key
  fresh : entry.nonce ∉ store.values.map KeyEntry.nonce

def inserted (store : KeyStore) (slot : Int32) (entry : KeyEntry) : KeyStore := ⟨store.entries.insert (slot, entry)⟩

variable {store : KeyStore} {grants : Grants} {algorithm : Int32}
  {random : Nat → (length : Nat) → Except Error (Fixed length)}

theorem insert_eq {entry : KeyEntry} (hSlot : keySlot slot = true) (hRoom : store.length < maxKeyEntries) :
    insert slot entry store = .ok () (inserted store slot entry) := by
  rw [insert, failIf_bind_pass (by rw [hSlot]; exact nofun), get_bind, failIf_bind_pass fun hFull => absurd hRoom (Nat.not_lt.2 hFull.2)]
  rfl

theorem open'_eq (grants : Grants) (store : KeyStore) :
    open' grants owner slot store =
      match store.entries.find slot.toInt with
      | none => .error .missing store
      | some found => if grants.buffer then .ok (owner.1 ++ found.2.nonce.1) store else .error .quota store := by
  rw [open', get_bind]
  cases store.entries.find slot.toInt with
  | none => rfl
  | some found =>
      rw [orFail_bind_some]
      cases hBuffer : grants.buffer with
      | false => exact failIf_bind_fail rfl
      | true => exact failIf_bind_pass nofun

/-- A generation fails and keeps the store, or it inserts its key and then opens it. -/
theorem generate_cases :
    (∃ e, generate grants owner slot algorithm random store = .error e store) ∧ (∀ entry, ¬Inserts store grants slot algorithm random entry) ∨
    ∃ entry, Inserts store grants slot algorithm random entry ∧
      generate grants owner slot algorithm random store = open' grants owner slot (inserted store slot entry) := by
  rw [generate]
  by_cases hSlot : keySlot slot = false
  · left
    refine ⟨⟨.bounds, failIf_bind_fail hSlot⟩, fun entry h => ?_⟩
    rw [h.inRange] at hSlot
    cases hSlot
  rw [failIf_bind_pass hSlot, get_bind]
  by_cases hBusy : store.entries.contains slot.toInt = true
  · left
    refine ⟨⟨.busy, failIf_bind_fail hBusy⟩, fun entry h => ?_⟩
    rw [h.free] at hBusy
    cases hBusy
  rw [failIf_bind_pass hBusy, reserveEntry, bind_assoc, get_bind, bind_assoc]
  by_cases hFull : maxKeyEntries ≤ store.length
  · left
    exact ⟨⟨.quota, failIf_bind_fail hFull⟩, fun entry h => absurd h.room (Nat.not_lt.2 hFull)⟩
  rw [failIf_bind_pass hFull]
  by_cases hRefused : grants.entry = false
  · left
    refine ⟨⟨.quota, failIf_bind_fail hRefused⟩, fun entry h => ?_⟩
    rw [h.granted] at hRefused
    cases hRefused
  rw [failIf_bind_pass hRefused]
  cases hKind : Algorithm.ofCode algorithm.toInt with
  | none =>
      left
      refine ⟨⟨.unsupported, orFail_bind_none⟩, fun entry h => ?_⟩
      rw [h.kind] at hKind
      cases hKind
  | some kind =>
  rw [orFail_bind_some]
  cases hNonce : random 0 16 with
  | error e =>
      left
      refine ⟨⟨e, readOnly_bind_error⟩, fun entry h => ?_⟩
      rw [h.nonce] at hNonce
      cases hNonce
  | ok nonce =>
  rw [readOnly_bind_ok]
  cases hKey : KeyStore.drawKey kind random with
  | error e =>
      left
      refine ⟨⟨e, readOnly_bind_error⟩, fun entry h => ?_⟩
      rw [h.kind] at hKind
      injection hKind with hKind
      rw [← hKind, h.key] at hKey
      cases hKey
  | ok key =>
  rw [readOnly_bind_ok]
  by_cases hUsed : nonce ∈ store.values.map KeyEntry.nonce
  · left
    refine ⟨⟨.native, failIf_bind_fail hUsed⟩, fun entry h => ?_⟩
    rw [h.nonce] at hNonce
    injection hNonce with hNonce
    exact h.fresh (hNonce ▸ hUsed)
  · right
    have hRange : keySlot slot = true := by
      rw [Bool.not_eq_false] at hSlot
      exact hSlot
    refine ⟨⟨kind, nonce, key⟩, ⟨hRange, by rw [Bool.not_eq_true] at hBusy; exact hBusy, Nat.not_le.1 hFull,
      by rw [Bool.not_eq_false] at hRefused; exact hRefused, hKind, hNonce, hKey, hUsed⟩, ?_⟩
    rw [failIf_bind_pass hUsed]
    have hInsert := @insert_eq slot store ⟨kind, nonce, key⟩ hRange (Nat.not_le.1 hFull)
    simp only [bind, EStateM.bind, hInsert]

end MicroCard.Mc04.InPlace
