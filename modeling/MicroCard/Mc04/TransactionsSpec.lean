import MicroCard.Mc04.Transactions
import MicroCard.Library.Checks

/-! What a run of an application can do to the data that its command has staged. Each
native call is one of a few steps; a condition that every step keeps holds of whole runs. -/
namespace MicroCard.Mc04

open Bytes CrashTriple Cbor
open Card (Aid)
open Journal (CryptoProvider)

section Steps

/-- The same command, but for what calls spend and which slots they have verified. -/
def Running.Frames (running running' : Running) : Prop :=
  ∃ budget capabilities slots comparisons, running' = { running with
    host := { running.host with budget := budget, capabilities := capabilities, authorizedCredentials := slots }
    comparisons := comparisons }

/-- Other data are staged. -/
def Running.put (running : Running) (application : StagedApplication) : Running :=
  { running with host := { running.host with application := application } }

/-- Other data are staged, and the command has something to write. -/
def Running.stage (running : Running) (application : StagedApplication) : Running :=
  { running with host := { running.host with application := application, persistentDirty := true } }

def Running.turn (running : Running) (transaction : TransactionDisposition) : Running :=
  { running with host := { running.host with transaction := transaction } }

/-- The data that one call can stage. -/
inductive Staged (host : Host) : StagedApplication → Prop where
  | integer (key value : Int32) (hRoom : ¬(host.application.store.contains key.toInt = false ∧
      host.maxIntRecords ≤ host.application.store.length)) :
      Staged host { host.application with store := host.application.store.insert (key, value) }
  | blob (key : Int32) (value : List Byte) (hLength : value.length ≤ maxDeclaredBlobBytes)
      (hRoom : ¬(host.application.blobs.contains key.toInt = false ∧ host.maxBlobRecords ≤ host.application.blobs.length))
      (hHeld : blobBytes host.application.blobs - host.application.blobs.weightOf (fun e => e.2.length) key.toInt + value.length
        ≤ host.maxBlobBytes) :
      Staged host { host.application with blobs := host.application.blobs.insert (key, value) }
  | noBlob (key : Int32) : Staged host { host.application with blobs := host.application.blobs.erase key.toInt }
  | key {slot algorithm : Int32} {random : Nat → (length : Nat) → Except Error (Fixed length)} {token : List Byte}
      {keys : KeyStore} (hRoom : host.application.keys.length < host.maxKeySlots)
      (hRun : host.application.keys.generate host.owner slot algorithm random = .ok (token, keys)) :
      Staged host { host.application with keys := keys }
  | noKey {slot : Int32} {keys : KeyStore} (hRun : host.application.keys.delete slot = .ok keys) :
      Staged host { host.application with keys := keys }
  | credential {platform : Platform} {slot : Int32} {pin puk : List Byte} {retries : Int32 × Int32}
      {credentials : CredentialStore}
      (hRun : host.application.credentials.create platform host.owner slot pin puk retries = .ok credentials) :
      Staged host { host.application with credentials := credentials }
  | verified {platform : Platform} {slot : Int32} {candidate : List Byte} {credentials : CredentialStore}
      (hRun : host.application.credentials.verifyPin platform host.owner slot candidate = .ok ((true, true), credentials)) :
      Staged host { host.application with credentials := credentials }
  | changed {platform : Platform} {slot : Int32} {newPin : List Byte} {changed : Bool} {credentials : CredentialStore}
      (hRun : host.application.credentials.changePin platform host.owner slot newPin = .ok (changed, credentials)) :
      Staged host { host.application with credentials := credentials }
  | unblocked {platform : Platform} {slot : Int32} {puk newPin : List Byte} {credentials : CredentialStore}
      (hRun : host.application.credentials.unblock platform host.owner slot puk newPin = .ok ((true, true), credentials)) :
      Staged host { host.application with credentials := credentials }

/-- The credentials after a comparison that did not match. -/
inductive Missed (host : Host) (slot : Int32) : CredentialStore → Prop where
  | pin {platform : Platform} {candidate : List Byte} {credentials : CredentialStore}
      (hRun : host.application.credentials.verifyPin platform host.owner slot candidate = .ok ((false, true), credentials)) :
      Missed host slot credentials
  | puk {platform : Platform} {puk newPin : List Byte} {credentials : CredentialStore}
      (hRun : host.application.credentials.unblock platform host.owner slot puk newPin = .ok ((false, true), credentials)) :
      Missed host slot credentials

/-- What the steps of a command keep: a condition while it runs, and one for when a call has
failed. -/
structure Kept (provider : CryptoProvider) (aid : Aid) (P C : Running → Prop) : Prop where
  failed : ∀ {running}, P running → C running
  framed : ∀ {running running'}, P running → running.Frames running' → P running'
  staged : ∀ {running application}, P running → Staged running.host application → P (running.stage application)
  halfway : ∀ {running running' application}, P running → Staged running.host application →
    (running.put application).Frames running' → C running'
  missed : ∀ {running running' slot credentials}, P running → Missed running.host slot credentials →
    (running.put { running.host.application with credentials := credentials }).Frames running' → ∀ later,
    Triple (fun r => r = running') (Host.checkpointCredentialRetryFloor provider aid later slot) (fun _ => P) fun _ => C
  begun : ∀ {running}, P running → running.host.transaction = .inactive → running.host.persistentDirty = false →
    running.host.irreversibleOutput = false → P { running with host := { running.host with
      transaction := .begun, transactionSnapshot := some running.host.application } }
  ended : ∀ {running transaction}, P running → (running.host.transaction = .active ∨ running.host.transaction = .begun) →
    (transaction = .commit ∨ transaction = .abort) → P (running.turn transaction)
  wrote : ∀ {running pin}, P running → running.host.transaction = .inactive → P { running with
    host := { running.host with irreversibleOutput := true }, hardware := running.hardware ++ [pin] }

theorem Running.Frames.refl (running : Running) : running.Frames running :=
  ⟨running.host.budget, running.host.capabilities, running.host.authorizedCredentials, running.comparisons, rfl⟩

theorem Running.Frames.trans {running running' running'' : Running} (h : running.Frames running')
    (h' : running'.Frames running'') : running.Frames running'' := by
  obtain ⟨_, _, _, _, rfl⟩ := h
  obtain ⟨budget, capabilities, slots, comparisons, rfl⟩ := h'
  exact ⟨budget, capabilities, slots, comparisons, rfl⟩

end Steps

section Credentials

variable {store next : CredentialStore} {platform : Platform} {owner : Fixed 16} {slot : Int32}

/-- Putting back the entry of a slot changes nothing. -/
theorem CredentialStore.put_same {entry : CredentialEntry} (h : store.entry owner slot = .ok entry) :
    store.put slot entry = store := by
  obtain ⟨key, hKey, hMem, -⟩ := CredentialStore.entry_ok h
  have hSlot : key = slot := Int32.toInt.inj hKey
  subst hSlot
  rw [CredentialStore.put]
  congr 1
  apply KeyedList.ext_mem
  intro e
  rw [KeyedList.mem_insert]
  constructor
  · rintro (rfl | ⟨he, -⟩)
    · exact hMem
    · exact he
  · intro he
    by_cases hSame : e.1.toInt = key.toInt
    · exact .inl (KeyedList.unique he hMem hSame)
    · exact .inr ⟨he, hSame⟩

/-- A comparison with a PIN that changes nothing leaves the store as it was. -/
theorem CredentialStore.verifyPin_same {candidate : List Byte} {matched : Bool}
    (h : store.verifyPin platform owner slot candidate = .ok ((matched, false), next)) : next = store := by
  simp only [verifyPin, Checks.bind_ok] at h
  obtain ⟨_, -, entry, hEntry, h⟩ := h
  split at h
  · cases h
    rfl
  · obtain ⟨digest, -, h⟩ := Checks.bind_ok.1 h
    split at h
    · simp only [Checks.pure_ok, Prod.mk.injEq, decide_eq_false_iff_not, not_not] at h
      obtain ⟨⟨-, hFull⟩, rfl⟩ := h
      have hSame : ({ entry with pinRetries := entry.pinMaxRetries } : CredentialEntry) = entry := by
        cases entry
        cases hFull
        rfl
      rw [hSame]
      exact put_same hEntry
    · cases h

/-- A PUK that is compared changes the store. -/
theorem CredentialStore.unblock_same {puk newPin : List Byte} {matched : Bool}
    (h : store.unblock platform owner slot puk newPin = .ok ((matched, false), next)) : matched = false ∧ next = store := by
  simp only [unblock, Checks.bind_ok] at h
  obtain ⟨_, -, _, -, entry, hEntry, h⟩ := h
  split at h
  · cases h
    exact ⟨rfl, rfl⟩
  · obtain ⟨candidate, -, h⟩ := Checks.bind_ok.1 h
    split at h
    · cases h
    · simp only [Checks.bind_ok, Checks.pure_ok, Prod.mk.injEq, Bool.true_eq_false, and_false, false_and, exists_false] at h

theorem CredentialStore.changePin_changed {newPin : List Byte} {changed : Bool}
    (h : store.changePin platform owner slot newPin = .ok (changed, next)) : changed = true := by
  simp only [changePin, Checks.bind_ok, Checks.pure_ok, Prod.mk.injEq] at h
  obtain ⟨_, -, _, -, _, -, _, -, rfl, -⟩ := h
  rfl

end Credentials

section Calls

open Host

variable {provider : CryptoProvider} {aid : Aid} {P C : Running → Prop} {running : Running}

/-- An action that touches nothing but what calls spend. -/
def Spends {α : Type} (action : HostM α) : Prop :=
  ∀ running, Triple (fun r => r = running) action (fun _ r => running.Frames r) fun _ r => running.Frames r

theorem Spends.bind {α β : Type} {first : HostM α} {next : α → HostM β} (hFirst : Spends first)
    (hNext : ∀ a, Spends (next a)) : Spends (first >>= next) := by
  intro running
  apply Triple.bind (hFirst running)
  intro a
  apply Triple.of_state
  intro middle hMiddle
  exact (hNext a middle).conseq (fun _ h => h) (fun _ _ h => hMiddle.trans h) fun _ _ h => hMiddle.trans h

theorem Spends.readOnly {α : Type} (result : Except Error α) : Spends (readOnly result : HostM α) := by
  intro running
  have hSame : ∀ r, r = running → running.Frames r := fun _ hr => hr ▸ Running.Frames.refl running
  exact Triple.readOnly (fun _ _ => hSame) fun _ _ => hSame

theorem Spends.failIf (c : Prop) [Decidable c] (e : Error) : Spends (failIf c e : HostM Unit) := by
  intro running
  exact (Invariant.failIf (P := fun r => running.Frames r) c e).conseq (fun _ hr => hr ▸ Running.Frames.refl running)
    (fun _ _ h => h) fun _ _ h => h

theorem requireCapability_spends (native : Native) : Spends (requireCapability native) := by
  intro running
  apply Triple.get
  rintro _ rfl
  exact Spends.failIf _ _ _

theorem spend_spends (cost : Nat) : Spends (spend cost) := by
  intro running
  apply Triple.get
  rintro _ rfl
  apply Triple.failIf_bind
  · rintro - _ rfl
    exact Running.Frames.refl _
  intro _
  apply Triple.update
  rintro _ rfl
  exact ⟨_, _, _, _, rfl⟩

theorem charge_spends (native : Native) (cost : Nat) : Spends (charge native cost) :=
  Spends.bind (requireCapability_spends native) fun _ => spend_spends cost

theorem spendSecrets_spends (bytes : Nat) : Spends (spendSecrets bytes) :=
  Spends.bind (Spends.failIf _ _) fun _ => spend_spends _

/-- A comparison is noted without a failure. -/
theorem compared_frames (slot : Int32) (puk : Bool) (result : Bool × Bool) (running : Running) {E : Error → Running → Prop} :
    Triple (fun r => r = running) (compared slot puk result) (fun _ r => running.Frames r) E := by
  apply Triple.onlyIf
  · intro _
    apply Triple.update
    rintro _ rfl
    exact ⟨_, _, _, _, rfl⟩
  · rintro - _ rfl
    exact Running.Frames.refl _

theorem revokeSlot_frames (slot : Int32) (running : Running) {E : Error → Running → Prop} :
    Triple (fun r => r = running) (revokeSlot slot) (fun _ r => running.Frames r) E := by
  apply Triple.update
  rintro _ rfl
  exact ⟨_, _, _, _, rfl⟩

theorem authorizeSlot_spends (slot : Int32) : Spends (authorizeSlot slot) := by
  intro running
  apply Triple.get
  rintro _ rfl
  apply Triple.readOnly_bind
  · intro slots _
    apply Triple.update
    rintro _ rfl
    exact ⟨_, _, _, _, rfl⟩
  · rintro _ - _ rfl
    exact Running.Frames.refl _

variable (h : Kept provider aid P C)

include h

theorem Kept.spends {α : Type} {action : HostM α} (hSpends : Spends action) : Triple P action (fun _ => P) fun _ => C := by
  apply Triple.of_state
  intro running hP
  apply (hSpends running).conseq (fun _ hr => hr)
  · exact fun _ _ hFrames => h.framed hP hFrames
  · exact fun _ _ hFrames => h.failed (h.framed hP hFrames)

/-- A call that has spent something goes on from a state of the command. -/
theorem Kept.after {α β : Type} {action : HostM α} {next : α → HostM β} (hSpends : Spends action)
    (hNext : ∀ a running, P running → Triple (fun r => r = running) (next a) (fun _ => P) fun _ => C) :
    Triple P (action >>= next) (fun _ => P) fun _ => C := by
  apply Triple.bind (h.spends hSpends)
  intro a
  apply Triple.of_state
  exact hNext a

/-- A read that is answered without any change. -/
theorem Kept.answers {α : Type} (hP : P running) (result : Except Error α) :
    Triple (fun r => r = running) (readOnly result) (fun _ => P) fun _ => C := by
  apply Triple.readOnly
  · rintro _ - _ rfl
    exact hP
  · rintro _ - _ rfl
    exact h.failed hP

theorem Kept.stage (hP : P running) {f : StagedApplication → StagedApplication}
    (hStaged : Staged running.host (f running.host.application)) :
    Triple (fun r => r = running) (stage f) (fun _ => P) fun _ => C := by
  have hEnd : P (running.stage (f running.host.application)) := h.staged hP hStaged
  apply Triple.bind (Q := fun _ r => r = running.put (f running.host.application))
  · apply Triple.update
    rintro _ rfl
    rfl
  · intro _
    apply Triple.update
    rintro _ rfl
    simpa only [Running.put, Running.stage, Bool.or_true] using hEnd

section Storage

theorem Kept.getInt32 (key : Int32) : Triple P (getInt32 key) (fun _ => P) fun _ => C := by
  apply h.after (charge_spends _ _)
  intro _ running hP
  apply Triple.get
  rintro _ rfl
  exact Triple.ret fun _ hr => hr ▸ hP

theorem Kept.setInt32 (key value : Int32) : Triple P (setInt32 key value) (fun _ => P) fun _ => C := by
  apply h.after (charge_spends _ _)
  intro _ running hP
  apply Triple.get
  rintro _ rfl
  apply Triple.failIf_bind
  · exact fun _ _ hr => hr ▸ h.failed hP
  intro hRoom
  apply Triple.bind (Q := fun _ => P)
  · apply Triple.onlyIf
    · exact fun _ => h.stage hP (Staged.integer key value hRoom)
    · exact fun _ _ hr => hr ▸ hP
  · exact fun _ => Triple.ret fun _ hP => hP

theorem Kept.getBytes (key : Int32) : Triple P (getBytes key) (fun _ => P) fun _ => C := by
  apply h.after (charge_spends _ _)
  intro _ running hP
  apply Triple.get
  rintro _ rfl
  exact Triple.ret fun _ hr => hr ▸ hP

theorem Kept.storeBytes (key : Int32) (value : List Byte) : Triple P (storeBytes key value) (fun _ => P) fun _ => C := by
  apply h.after (Spends.failIf _ _)
  intro _ running hP
  apply Triple.bind ((h.spends (spend_spends _)).at hP)
  intro _
  apply Triple.get
  intro running hP
  apply Triple.failIf_bind
  · exact fun _ _ hr => hr ▸ h.failed hP
  intro hLength
  apply Triple.failIf_bind
  · exact fun _ _ hr => hr ▸ h.failed hP
  intro hRoom
  rw [not_or] at hRoom
  apply Triple.bind (Q := fun _ => P)
  · apply Triple.onlyIf
    · exact fun _ => h.stage hP (Staged.blob key value (not_lt.1 hLength) hRoom.1 (not_lt.1 hRoom.2))
    · exact fun _ _ hr => hr ▸ hP
  · exact fun _ => Triple.ret fun _ hP => hP

theorem Kept.setBytes (key : Int32) (value : List Byte) : Triple P (setBytes key value) (fun _ => P) fun _ => C := by
  apply Triple.bind (h.spends (requireCapability_spends _))
  intro _
  apply Triple.bind (h.spends (Spends.failIf _ _))
  exact fun _ => h.storeBytes key value

theorem Kept.setBytesRange (key : Int32) (value : ArrayRange) :
    Triple P (setBytesRange key value) (fun _ => P) fun _ => C := by
  apply Triple.bind (h.spends (requireCapability_spends _))
  intro _
  apply Triple.bind (h.spends (Spends.failIf _ _))
  intro _
  apply Triple.bind (h.spends (Spends.readOnly _))
  exact fun bytes => h.storeBytes key bytes

theorem Kept.deleteBytes (key : Int32) : Triple P (deleteBytes key) (fun _ => P) fun _ => C := by
  apply h.after (charge_spends _ _)
  intro _ running hP
  apply Triple.get
  rintro _ rfl
  apply Triple.failIf_bind
  · exact fun _ _ hr => hr ▸ h.failed hP
  intro _
  apply Triple.bind (h.stage hP (Staged.noBlob key))
  exact fun _ => Triple.ret fun _ hP => hP

theorem Kept.containsBytes (key : Int32) : Triple P (containsBytes key) (fun _ => P) fun _ => C := by
  apply h.after (charge_spends _ _)
  intro _ running hP
  apply Triple.get
  rintro _ rfl
  exact Triple.ret fun _ hr => hr ▸ hP

end Storage

section Keys

theorem Kept.generateKey (platform : Platform) (slot algorithm : Int32) :
    Triple P (generateKey platform slot algorithm) (fun _ => P) fun _ => C := by
  apply h.after (charge_spends _ _)
  intro _ running hP
  apply Triple.get
  rintro _ rfl
  apply Triple.failIf_bind
  · exact fun _ _ hr => hr ▸ h.failed hP
  intro hRoom
  apply Triple.readOnly_bind
  · intro generated hRun
    apply Triple.bind (h.stage hP (Staged.key (not_le.1 hRoom) hRun))
    exact fun _ => Triple.ret fun _ hP => hP
  · exact fun _ _ _ hr => hr ▸ h.failed hP

theorem Kept.deleteKey (slot : Int32) : Triple P (deleteKey slot) (fun _ => P) fun _ => C := by
  apply h.after (charge_spends _ _)
  intro _ running hP
  apply Triple.get
  rintro _ rfl
  apply Triple.readOnly_bind
  · intro keys hRun
    apply Triple.bind (h.stage hP (Staged.noKey hRun))
    exact fun _ => Triple.ret fun _ hP => hP
  · exact fun _ _ _ hr => hr ▸ h.failed hP

theorem Kept.useKey (native : Native) (cost : Nat) (use : KeyStore → Fixed 16 → Except Error (List Byte)) :
    Triple P (useKey native cost use) (fun _ => P) fun _ => C := by
  apply h.after (charge_spends _ _)
  intro _ running hP
  apply Triple.get
  rintro _ rfl
  apply Triple.bind (h.answers hP _)
  exact fun _ => Triple.ret fun _ hP => hP

end Keys

section Credentials

theorem Kept.createCredential (platform : Platform) (slot : Int32) (pin puk : ArrayRange) (retries : Int32 × Int32) :
    Triple P (createCredential platform slot pin puk retries) (fun _ => P) fun _ => C := by
  apply Triple.bind (h.spends (requireCapability_spends _))
  intro _
  apply Triple.bind (h.spends (Spends.readOnly _))
  intro pinBytes
  apply Triple.bind (h.spends (Spends.readOnly _))
  intro pukBytes
  apply h.after (spendSecrets_spends _)
  intro _ running hP
  apply Triple.get
  rintro _ rfl
  apply Triple.readOnly_bind
  · intro credentials hRun
    apply Triple.bind (h.stage hP (Staged.credential hRun))
    exact fun _ => Triple.ret fun _ hP => hP
  · exact fun _ _ _ hr => hr ▸ h.failed hP

/-- The slot of a secret that matched is verified, and what has changed is written. -/
theorem Kept.matched (hP : P running) {credentials : CredentialStore} {changed : Bool} (slot : Int32) {start : Running}
    (hStart : (running.put { running.host.application with credentials := credentials }).Frames start)
    (hChanged : changed = true → Staged running.host { running.host.application with credentials := credentials })
    (hSame : changed = false → credentials = running.host.application.credentials) :
    Triple (fun r => r = start) (do
      authorizeSlot slot
      setDirty changed) (fun _ => P) fun _ => C := by
  cases changed with
  | true =>
      have hStaged := hChanged rfl
      apply Triple.bind (Q := fun _ r => (running.put { running.host.application with credentials := credentials }).Frames r)
      · apply (authorizeSlot_spends slot start).conseq (fun _ hr => hr)
        · exact fun _ _ hFrames => hStart.trans hFrames
        · exact fun _ _ hFrames => h.halfway hP hStaged (hStart.trans hFrames)
      · intro _
        apply Triple.update
        rintro _ ⟨budget, capabilities, slots, comparisons, rfl⟩
        have hEnd := h.staged hP hStaged
        apply h.framed hEnd
        refine ⟨budget, capabilities, slots, comparisons, ?_⟩
        simp only [Running.put, Running.stage, Bool.or_true]
  | false =>
      have hPut : running.put { running.host.application with credentials := credentials } = running := by
        rw [hSame rfl]
        rfl
      rw [hPut] at hStart
      have hFirst : P start := h.framed hP hStart
      apply Triple.bind ((h.spends (authorizeSlot_spends slot)).at hFirst)
      intro _
      apply Triple.update
      intro r hr
      simpa only [Bool.or_false] using hr

/-- A comparison that changed nothing leaves the command as it was. -/
theorem Kept.same (hP : P running) {credentials : CredentialStore} (hSame : credentials = running.host.application.credentials)
    {start : Running} (hStart : (running.put { running.host.application with credentials := credentials }).Frames start) :
    P start := by
  subst hSame
  exact h.framed hP hStart

theorem Kept.finishVerify (hP : P running) {platform : Platform} {slot : Int32} {candidate : List Byte} {result : Bool × Bool}
    {credentials : CredentialStore}
    (hRun : running.host.application.credentials.verifyPin platform running.host.owner slot candidate =
      .ok (result, credentials)) (later : Option Nat) {start : Running}
    (hStart : (running.put { running.host.application with credentials := credentials }).Frames start) :
    Triple (fun r => r = start) (finishVerify provider aid later slot result) (fun _ => P) fun _ => C := by
  obtain ⟨matched, changed⟩ := result
  cases matched with
  | true =>
      apply h.matched hP slot hStart
      · rintro rfl
        exact Staged.verified hRun
      · rintro rfl
        exact CredentialStore.verifyPin_same hRun
  | false =>
      apply Triple.bind (revokeSlot_frames slot start)
      intro _
      apply Triple.of_state
      intro r hFrames
      apply Triple.onlyIf
      · rintro rfl
        exact h.missed hP (Missed.pin hRun) (hStart.trans hFrames) later
      · rintro hChanged _ rfl
        have hSame : changed = false := Bool.eq_false_iff.2 hChanged
        subst hSame
        exact h.same hP (CredentialStore.verifyPin_same hRun) (hStart.trans hFrames)

theorem Kept.verify (moment : Moment) (slot : Int32) (candidate : ArrayRange) :
    Triple P (verify provider aid moment slot candidate) (fun _ => P) fun _ => C := by
  apply Triple.bind (h.spends (requireCapability_spends _))
  intro _
  apply Triple.bind (h.spends (Spends.readOnly _))
  intro bytes
  apply h.after (spendSecrets_spends _)
  intro _ running hP
  apply Triple.get
  rintro running rfl
  apply Triple.readOnly_bind
  · rintro ⟨result, credentials⟩ hRun
    apply Triple.bind (Q := fun _ r => r = running.put { running.host.application with credentials := credentials })
    · apply Triple.update
      rintro _ rfl
      rfl
    intro _
    apply Triple.bind (compared_frames slot false result _)
    intro _
    apply Triple.of_state
    intro start hStart
    apply Triple.bind (h.finishVerify hP hRun moment.later hStart)
    exact fun _ => Triple.ret fun _ hP => hP
  · exact fun _ _ _ hr => hr ▸ h.failed hP

theorem Kept.isVerified (slot : Int32) : Triple P (isVerified slot) (fun _ => P) fun _ => C := by
  apply Triple.bind (h.spends (requireCapability_spends _))
  intro _
  apply h.after (spendSecrets_spends _)
  intro _ running hP
  apply Triple.get
  rintro _ rfl
  exact Triple.ret fun _ hr => hr ▸ hP

theorem Kept.change (platform : Platform) (slot : Int32) (newPin : ArrayRange) :
    Triple P (change platform slot newPin) (fun _ => P) fun _ => C := by
  apply Triple.bind (h.spends (requireCapability_spends _))
  intro _
  apply Triple.bind (h.spends (Spends.readOnly _))
  intro bytes
  apply h.after (spendSecrets_spends _)
  intro _ running hP
  apply Triple.get
  rintro running rfl
  apply Triple.failIf_bind
  · exact fun _ _ hr => hr ▸ h.failed hP
  intro _
  apply Triple.readOnly_bind
  · rintro ⟨changed, credentials⟩ hRun
    have hStaged : Staged running.host { running.host.application with credentials := credentials } := Staged.changed hRun
    have hChanged := CredentialStore.changePin_changed hRun
    subst hChanged
    have hEnd := h.staged hP hStaged
    apply Triple.bind (Q := fun _ r => r = running.put { running.host.application with credentials := credentials })
    · apply Triple.update
      rintro _ rfl
      rfl
    intro _
    apply Triple.bind (Q := fun _ => P)
    · apply Triple.update
      rintro _ rfl
      simpa only [Running.put, Running.stage, Bool.or_true] using hEnd
    · exact fun _ => Triple.ret fun _ hP => hP
  · exact fun _ _ _ hr => hr ▸ h.failed hP

theorem Kept.finishUnblock (hP : P running) {platform : Platform} {slot : Int32} {puk newPin : List Byte}
    {result : Bool × Bool} {credentials : CredentialStore}
    (hRun : running.host.application.credentials.unblock platform running.host.owner slot puk newPin =
      .ok (result, credentials)) (later : Option Nat) {start : Running}
    (hStart : (running.put { running.host.application with credentials := credentials }).Frames start) :
    Triple (fun r => r = start) (finishUnblock provider aid later slot result) (fun _ => P) fun _ => C := by
  obtain ⟨matched, changed⟩ := result
  cases matched with
  | true =>
      apply h.matched hP slot hStart
      · rintro rfl
        exact Staged.unblocked hRun
      · rintro rfl
        exact (CredentialStore.unblock_same hRun).2
  | false =>
      apply Triple.onlyIf
      · rintro rfl
        exact h.missed hP (Missed.puk hRun) hStart later
      · rintro hChanged _ rfl
        have hSame : changed = false := Bool.eq_false_iff.2 hChanged
        subst hSame
        exact h.same hP (CredentialStore.unblock_same hRun).2 hStart

theorem Kept.unblock (moment : Moment) (slot : Int32) (puk newPin : ArrayRange) :
    Triple P (unblock provider aid moment slot puk newPin) (fun _ => P) fun _ => C := by
  apply Triple.bind (h.spends (requireCapability_spends _))
  intro _
  apply Triple.bind (h.spends (Spends.readOnly _))
  intro pukBytes
  apply Triple.bind (h.spends (Spends.readOnly _))
  intro pinBytes
  apply h.after (spendSecrets_spends _)
  intro _ running hP
  apply Triple.get
  rintro running rfl
  apply Triple.readOnly_bind
  · rintro ⟨result, credentials⟩ hRun
    apply Triple.bind (Q := fun _ r => r = running.put { running.host.application with credentials := credentials })
    · apply Triple.update
      rintro _ rfl
      rfl
    intro _
    apply Triple.bind (compared_frames slot true result _)
    intro _
    apply Triple.of_state
    intro start hStart
    apply Triple.bind (h.finishUnblock hP hRun moment.later hStart)
    exact fun _ => Triple.ret fun _ hP => hP
  · exact fun _ _ _ hr => hr ▸ h.failed hP

theorem Kept.retriesRemaining (slot kind : Int32) : Triple P (retriesRemaining slot kind) (fun _ => P) fun _ => C := by
  apply Triple.bind (h.spends (requireCapability_spends _))
  intro _
  apply h.after (spendSecrets_spends _)
  intro _ running hP
  apply Triple.get
  rintro _ rfl
  apply Triple.bind (h.answers hP _)
  intro _
  apply Triple.bind (h.spends (Spends.failIf _ _))
  exact fun _ => Triple.ret fun _ hP => hP

end Credentials

section Transactions

theorem Kept.beginTransaction : Triple P beginTransaction (fun _ => P) fun _ => C := by
  apply Triple.get
  intro running hP
  apply Triple.failIf_bind
  · exact fun _ _ hr => hr ▸ h.failed hP
  intro hClean
  rw [not_or, Bool.not_eq_true, Bool.not_eq_true] at hClean
  apply Triple.readOnly_bind
  · intro transaction hBegin
    cases hInactive : running.host.transaction with
    | inactive =>
        rw [hInactive] at hBegin
        cases hBegin
        apply Triple.bind (Q := fun _ => P)
        · apply Triple.update
          rintro _ rfl
          exact h.begun hP hInactive hClean.2 hClean.1
        · exact fun _ => Triple.ret fun _ hP => hP
    | active | begun | commit | abort =>
        rw [hInactive] at hBegin
        cases hBegin
  · exact fun _ _ _ hr => hr ▸ h.failed hP

/-- The end of a transaction, either way. -/
theorem Kept.turn (hP : P running) {result : Except Error TransactionDisposition}
    (hTurn : ∀ transaction, result = .ok transaction →
      (running.host.transaction = .active ∨ running.host.transaction = .begun) ∧ (transaction = .commit ∨ transaction = .abort)) :
    Triple (fun r => r = running) (do
      let transaction ← readOnly result
      modifyHost fun host => { host with transaction := transaction }
      pure Reply.void) (fun _ => P) fun _ => C := by
  apply Triple.readOnly_bind
  · intro transaction hResult
    have hEnds := hTurn transaction hResult
    apply Triple.bind (Q := fun _ => P)
    · apply Triple.update
      rintro _ rfl
      exact h.ended hP hEnds.1 hEnds.2
    · exact fun _ => Triple.ret fun _ hP => hP
  · exact fun _ _ _ hr => hr ▸ h.failed hP

theorem Kept.commitTransaction : Triple P commitTransaction (fun _ => P) fun _ => C := by
  apply Triple.get
  intro running hP
  apply h.turn hP
  intro transaction hCommit
  cases hOpen : running.host.transaction with
  | active | begun =>
      rw [hOpen] at hCommit
      cases hCommit
      exact ⟨by simp, .inl rfl⟩
  | inactive | commit | abort =>
      rw [hOpen] at hCommit
      cases hCommit

theorem Kept.abortTransaction : Triple P abortTransaction (fun _ => P) fun _ => C := by
  apply Triple.get
  intro running hP
  apply h.turn hP
  intro transaction hAbort
  cases hOpen : running.host.transaction with
  | active | begun =>
      rw [hOpen] at hAbort
      cases hAbort
      exact ⟨by simp, .inr rfl⟩
  | inactive | commit | abort =>
      rw [hOpen] at hAbort
      cases hAbort

theorem Kept.writeHardware (platform : Platform) (resource value : Int32) :
    Triple P (writeHardware platform resource value) (fun _ => P) fun _ => C := by
  apply Triple.get
  intro running hP
  apply Triple.failIf_bind
  · exact fun _ _ hr => hr ▸ h.failed hP
  intro hFree
  have hInactive : running.host.transaction = .inactive := by simpa [TransactionDisposition.involved] using hFree
  apply Triple.bind ((charge_spends _ _ running).conseq (fun _ hr => hr) (fun _ _ hr => hr)
    fun _ _ hFrames => h.failed (h.framed hP hFrames))
  intro _
  apply Triple.of_state
  rintro charged hCharged
  have hP' := h.framed hP hCharged
  have hInactive' : charged.host.transaction = .inactive := by
    obtain ⟨_, _, _, _, rfl⟩ := hCharged
    exact hInactive
  apply Triple.readOnly_bind
  · intro _ _
    apply Triple.bind (Q := fun _ r => r = { charged with hardware := charged.hardware ++ [(resource, value)] })
    · apply Triple.update
      rintro _ rfl
      rfl
    intro _
    apply Triple.bind (Q := fun _ => P)
    · apply Triple.update
      rintro _ rfl
      exact h.wrote hP' hInactive'
    · exact fun _ => Triple.ret fun _ hP => hP
  · exact fun _ _ _ hr => hr ▸ h.failed hP'

end Transactions

section Runs

/-- One call keeps what every step keeps. -/
theorem Kept.dispatch (moment : Moment) (call : HostCall) :
    Triple P (dispatch provider aid moment call) (fun _ => P) fun _ => C := by
  cases call with
  | getInt32 key => exact h.getInt32 key
  | setInt32 key value => exact h.setInt32 key value
  | getBytes key => exact h.getBytes key
  | setBytes key value => exact h.setBytes key value
  | setBytesRange key value => exact h.setBytesRange key value
  | deleteBytes key => exact h.deleteBytes key
  | containsBytes key => exact h.containsBytes key
  | generateKey slot algorithm => exact h.generateKey moment.platform slot algorithm
  | deleteKey slot => exact h.deleteKey slot
  | useKey native cost use => exact h.useKey native cost use
  | createCredential slot pin puk retries => exact h.createCredential moment.platform slot pin puk retries
  | verify slot candidate => exact h.verify moment slot candidate
  | isVerified slot => exact h.isVerified slot
  | change slot newPin => exact h.change moment.platform slot newPin
  | unblock slot puk newPin => exact h.unblock moment slot puk newPin
  | retriesRemaining slot kind => exact h.retriesRemaining slot kind
  | begin' => exact h.beginTransaction
  | commit' => exact h.commitTransaction
  | abort' => exact h.abortTransaction
  | writeHardware resource value => exact h.writeHardware moment.platform resource value
  | service native cost answer =>
      apply Triple.bind (h.spends (spend_spends cost))
      exact fun _ => h.spends (Spends.readOnly answer)

theorem Kept.invoke (moment : Moment) (unit member : Nat) (call : HostCall) :
    Triple P (invoke provider aid moment unit member call) (fun _ => P) fun _ => C := by
  apply Triple.get
  intro running hP
  apply Triple.orFail_bind
  · exact fun _ _ hr => hr ▸ h.failed hP
  intro source _
  apply Triple.failIf_bind
  · exact fun _ _ hr => hr ▸ h.failed hP
  intro _
  apply Triple.failIf_bind
  · exact fun _ _ hr => hr ▸ h.failed hP
  intro _
  apply Triple.bind (Q := fun _ => P)
  · apply Triple.update
    rintro _ rfl
    exact h.framed hP ⟨_, _, _, _, rfl⟩
  intro _
  apply Triple.bind (h.spends (Spends.readOnly _))
  exact fun _ => h.dispatch moment call

/-- A run of an application is one call after the other. -/
theorem Kept.run (program : Application) : Triple P (program.run provider aid) (fun _ => P) fun _ => C := by
  induction program with
  | done outcome => exact h.spends (Spends.readOnly outcome)
  | call moment unit member operation next ih =>
      apply Triple.bind (h.invoke moment unit member operation)
      exact fun reply => ih reply

/-- Whatever comes of a command, what its steps keep holds of what it leaves. -/
theorem Kept.runApplication {domain : Domain} {application : StagedApplication} {units : List ExecutionUnit}
    {transaction : TransactionDisposition} {journal : Journal.Journal}
    (hStart : P ⟨Host.start domain application units transaction, journal, [], []⟩) (program : Application) :
    Triple (fun j => j = journal) (runApplication provider aid domain application units transaction program)
      (fun execution j => C ⟨execution.host, j, execution.comparisons, execution.hardware⟩) fun _ _ => False := by
  intro j hJournal
  subst hJournal
  have hRun := h.run program _ hStart
  simp only [Mc04.runApplication]
  split at hRun
  · rename_i _ running hOk
    rw [hOk]
    exact h.failed hRun
  · rename_i e running hError
    rw [hError]
    exact hRun

end Runs

end Calls

end MicroCard.Mc04
