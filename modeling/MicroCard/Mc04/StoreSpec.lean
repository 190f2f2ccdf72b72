import MicroCard.Mc04.Store
import MicroCard.Journal.Holding
import MicroCard.Library.Checks
import MicroCard.Library.HighWater

/-! No operation of the store loses a reserved counter. A lower bound of the counter that
is live and of the one that is stored survives every operation, however it ends. -/
namespace MicroCard.Mc04

open Bytes CrashTriple Cbor Codec
open Card (Aid Descriptor)
open Journal (CryptoProvider JournalM recorder commitOwnedWithNonce recoverWithReplayMode Records Holding)

section Written

/-- What the encoder holds still begins with this. -/
abbrev Begins (front : List Byte) (encoder : Encoder) : Prop := front <+: encoder.bytes

variable {front : List Byte}

theorem append_begins (output : List Byte) : Invariant (Begins front) (Encoder.append output) := by
  apply Triple.get
  intro encoder hBegins
  apply Triple.failIf_bind
  · rintro _ _ rfl
    exact hBegins
  · rintro _ _ rfl
    exact hBegins.trans (List.prefix_append _ _)

/-- What an encoder holds after a first write. -/
theorem append_front (encoder : Encoder) (output : List Byte) : Triple (fun s => s = encoder) (Encoder.append output)
    (fun _ s => s = { encoder with bytes := encoder.bytes ++ output }) fun _ _ => True := by
  apply Triple.get
  rintro _ rfl
  apply Triple.failIf_bind
  · intro _ _ _
    trivial
  · rintro _ _ rfl
    rfl

theorem byteString_begins (bytes : List Byte) : Invariant (Begins front) (Encoder.byteString bytes) :=
  Invariant.bind (append_begins _) fun _ => append_begins _

theorem text_begins (text : String) : Invariant (Begins front) (Encoder.text text) :=
  Invariant.bind (append_begins _) fun _ => append_begins _

theorem integer_begins (value : Int64) : Invariant (Begins front) (Encoder.integer value) := by
  unfold Encoder.integer
  split <;> exact append_begins _

theorem writeMap_begins {α ν κ : Type} [LinearOrder κ] {order : α → κ} {write : α × ν → EncoderM Unit}
    {entries : Entries order ν} (h : ∀ e, Invariant (Begins front) (write e)) :
    Invariant (Begins front) (writeMap write entries) :=
  Invariant.bind (append_begins _) fun _ => Invariant.forM h

theorem writeList_begins {α : Type} {write : α → EncoderM Unit} (h : ∀ a, Invariant (Begins front) (write a)) (items : List α) :
    Invariant (Begins front) (writeList write items) :=
  Invariant.bind (append_begins _) fun _ => Invariant.forM h

theorem writeNames_begins {α : Type} {write : α → EncoderM Unit} (h : ∀ a, Invariant (Begins front) (write a))
    (values : NameMap α) : Invariant (Begins front) (writeNames write values) := by
  apply writeMap_begins
  intro e
  exact Invariant.bind (append_begins _) fun _ => Invariant.bind (text_begins _) fun _ => h e.2

theorem writeCall_begins (call : ResolvedCall) : Invariant (Begins front) (writeCall call) := by
  apply Invariant.bind (append_begins _)
  intro _
  apply Invariant.bind (append_begins _)
  intro _
  cases call.target with
  | native id => exact Invariant.bind (append_begins _) fun _ => Invariant.bind (append_begins _) fun _ => append_begins _
  | managed dependency method =>
      exact Invariant.bind (append_begins _) fun _ => Invariant.bind (append_begins _) fun _ =>
        Invariant.bind (append_begins _) fun _ => append_begins _
  | _ => exact Invariant.bind (append_begins _) fun _ => append_begins _

theorem writeDescriptor_begins (descriptor : Descriptor) : Invariant (Begins front) (writeDescriptor descriptor) :=
  Invariant.bind (append_begins _) fun _ => Invariant.bind (append_begins _) fun _ => Invariant.bind (append_begins _) fun _ =>
    byteString_begins _

theorem writePolicy_begins (policy : DomainPolicy) : Invariant (Begins front) (writePolicy policy) :=
  Invariant.bind (append_begins _) fun _ => Invariant.bind (byteString_begins _) fun _ => Invariant.forM fun _ => append_begins _

theorem writeVersion_begins (version : UInt32 × Fixed 32) : Invariant (Begins front) (writeVersion version) :=
  Invariant.bind (append_begins _) fun _ => Invariant.bind (append_begins _) fun _ => byteString_begins _

theorem writeDeclaration_begins (entry : StorageDeclaration) : Invariant (Begins front) (writeDeclaration entry) :=
  Invariant.bind (append_begins _) fun _ => Invariant.bind (append_begins _) fun _ => Invariant.bind (append_begins _) fun _ =>
    append_begins _

theorem writeInstance_begins (e : String × String) : Invariant (Begins front) (writeInstance e) :=
  Invariant.bind (Invariant.readOnly _) fun _ => Invariant.bind (append_begins _) fun _ =>
    Invariant.bind (byteString_begins _) fun _ => text_begins _

theorem writeInteger_begins (e : Int32 × Int32) : Invariant (Begins front) (writeInteger e) :=
  Invariant.bind (append_begins _) fun _ => Invariant.bind (integer_begins _) fun _ => integer_begins _

theorem writeBlob_begins (e : Int32 × List Byte) : Invariant (Begins front) (writeBlob e) :=
  Invariant.bind (append_begins _) fun _ => Invariant.bind (integer_begins _) fun _ => byteString_begins _

theorem keys_begins (keys : KeyStore) : Invariant (Begins front) keys.encodeState := by
  apply writeMap_begins
  intro e
  exact Invariant.bind (append_begins _) fun _ => Invariant.bind (append_begins _) fun _ => Invariant.bind (append_begins _)
    fun _ => Invariant.bind (byteString_begins _) fun _ => byteString_begins _

theorem credentials_begins (credentials : CredentialStore) : Invariant (Begins front) credentials.encodeState := by
  apply writeMap_begins
  intro e
  apply Invariant.bind (Invariant.failIf _ _)
  intro _
  apply Invariant.bind (append_begins _)
  intro _
  apply Invariant.bind (append_begins _)
  intro _
  exact Invariant.bind (byteString_begins _) fun _ => Invariant.bind (byteString_begins _) fun _ =>
    Invariant.bind (byteString_begins _) fun _ => Invariant.bind (byteString_begins _) fun _ =>
    Invariant.bind (byteString_begins _) fun _ => Invariant.forM fun _ => append_begins _

theorem key_begins (key : Option (Fixed 32)) :
    Invariant (Begins front) (Encoder.optional (fun key : Fixed 32 => Encoder.byteString key.1) key) := by
  cases key with
  | none => exact append_begins _
  | some key => exact byteString_begins key.1

theorem writeDomain_begins (domain : Domain) : Invariant (Begins front) (writeDomain domain) := by
  apply Invariant.bind (append_begins _)
  intro _
  apply Invariant.bind (byteString_begins _)
  intro _
  apply Invariant.bind (byteString_begins _)
  intro _
  apply Invariant.bind (key_begins _)
  intro _
  apply Invariant.bind (writePolicy_begins _)
  intro _
  apply Invariant.bind (writeNames_begins writeDescriptor_begins _)
  intro _
  apply Invariant.bind (writeNames_begins (writeList_begins fun value => byteString_begins _) _)
  intro _
  apply Invariant.bind (writeNames_begins (writeList_begins writeCall_begins) _)
  intro _
  apply Invariant.bind (writeNames_begins writeVersion_begins _)
  intro _
  apply Invariant.bind (writeList_begins writeDeclaration_begins _)
  intro _
  apply Invariant.bind (writeMap_begins writeInstance_begins)
  intro _
  apply Invariant.bind (writeMap_begins writeInteger_begins)
  intro _
  apply Invariant.bind (writeMap_begins writeBlob_begins)
  intro _
  exact Invariant.bind (keys_begins _) fun _ => credentials_begins _

/-- Whatever the rest of a state is, its written form begins with the counter. -/
theorem encodeSnapshot_begins {state : State} {data : List Byte} (h : state.encodeSnapshot = .ok data) :
    headerBytes ++ unsignedBytes state.scp03Sequence.toNat <+: data := by
  have hFront : Triple (fun s => s = ⟨[], maxSnapshotBytes⟩) (writeState state)
      (fun _ => Begins (headerBytes ++ unsignedBytes state.scp03Sequence.toNat)) fun _ _ => True := by
    apply Triple.bind (append_front _ _)
    intro _
    apply Triple.bind (append_front _ _)
    intro _
    apply Triple.bind (append_front _ _)
    intro _
    apply Triple.bind (append_front _ _)
    intro _
    have hRest : Invariant (Begins (headerBytes ++ unsignedBytes state.scp03Sequence.toNat)) (do
        writeDomain state.isd
        writeNames writeDomain state.domains) :=
      Invariant.bind (writeDomain_begins _) fun _ => writeNames_begins writeDomain_begins _
    apply hRest.conseq _ (fun _ _ h => h) fun _ _ _ => trivial
    rintro _ rfl
    exact List.prefix_rfl
  have hRun := hFront ⟨[], maxSnapshotBytes⟩ rfl
  unfold State.encodeSnapshot at h
  split at h
  · rename_i encoder hOk
    cases h
    rw [hOk] at hRun
    exact hRun
  · cases h

/-- The counter is read back from any written form. -/
theorem encoded_sequence {state decoded : State} {data : List Byte} (h : state.encodeSnapshot = .ok data)
    (hDecode : State.decodeSnapshot data = .ok decoded) : decoded.scp03Sequence = state.scp03Sequence := by
  obtain ⟨rest, hData⟩ := encodeSnapshot_begins h
  obtain ⟨-, hForm, -⟩ := State.decodeSnapshot_ok.1 hDecode
  rw [hForm, stateBytes, List.append_assoc, List.append_assoc, List.append_assoc, List.append_cancel_left_eq] at hData
  have hRead : u32 (unsignedBytes state.scp03Sequence.toNat ++ rest) = .ok state.scp03Sequence rest := u32_ok.2 rfl
  have hRead' := u32_ok.2 hData
  rw [hRead] at hRead'
  injection hRead' with hSequence
  exact hSequence.symm

end Written

section Reserved

/-- An encoded state whose counter lies between a lower bound and the ceiling. -/
def Between (m : Nat) (contents : Journal.Contents) : Prop :=
  ∃ state : State, state.encodeSnapshot = .ok contents.snapshot ∧ m ≤ state.scp03Sequence.toNat ∧
    state.scp03Sequence.toNat ≤ sequenceCeiling + 1

/-- The counter of a live state lies between a lower bound and the ceiling. -/
def CounterBounded (m : Nat) (state : State) : Prop :=
  m ≤ state.scp03Sequence.toNat ∧ state.scp03Sequence.toNat ≤ sequenceCeiling + 1

/-- The bound holds of what is stored and of what is live, and the block held back is
this one. -/
structure Above (provider : CryptoProvider) (m : Nat) (block : Nat × Nat) (store : Store) : Prop where
  stored : Records provider (Between m) store.journal
  live : CounterBounded m store.state
  block : store.sequence = block

variable {provider : CryptoProvider} {package : Descriptor → Except Error StoredPackage} {m : Nat} {block : Nat × Nat}

theorem decodeRecovered_ok {data : List Byte} {state : State} (h : decodeRecovered data = .ok state) :
    State.decodeSnapshot data = .ok state := by
  rw [decodeRecovered] at h
  cases hCase : State.decodeSnapshot data with
  | ok found =>
      rw [hCase] at h
      exact h
  | error e =>
      rw [hCase] at h
      cases h

theorem Between.decode {data : Journal.Contents} {state : State} (h : Between m data)
    (hDecode : decodeRecovered data.snapshot = .ok state) :
    CounterBounded m state := by
  obtain ⟨stored, hEncode, hLow, hHigh⟩ := h
  have hSame := encoded_sequence hEncode (decodeRecovered_ok hDecode)
  exact ⟨hSame ▸ hLow, hSame ▸ hHigh⟩

/-- What was read bounds what is stored. -/
theorem Between.raise {data : Journal.Contents} {state : State} (h : Between m data)
    (hDecode : decodeRecovered data.snapshot = .ok state) :
    Between state.scp03Sequence.toNat data := by
  obtain ⟨stored, hEncode, -, hHigh⟩ := h
  have hSame := encoded_sequence hEncode (decodeRecovered_ok hDecode)
  exact ⟨stored, hEncode, hSame ▸ le_rfl, hHigh⟩

theorem CounterBounded.encode {data : List Byte} {state : State} (h : CounterBounded m state) (hEncode : state.encodeSnapshot = .ok data) :
    Between m ⟨data, []⟩ := ⟨state, hEncode, h.1, h.2⟩

theorem onJournal_above {α : Type} {operation : JournalM α} {Q : α → Prop}
    (h : Triple (Records provider (Between m)) operation (fun a j => Records provider (Between m) j ∧ Q a)
      fun _ => Records provider (Between m)) :
    Triple (Above provider m block) (onJournal operation) (fun a store => Above provider m block store ∧ Q a)
      fun _ => Above provider m block := by
  intro store hStore
  have hRun := h store.journal hStore.stored
  simp only [onJournal]
  split at hRun
  · rename_i a journal hOk
    rw [hOk]
    exact ⟨⟨hRun.1, hStore.live, hStore.block⟩, hRun.2⟩
  · rename_i e journal hError
    rw [hError]
    exact ⟨hRun, hStore.live, hStore.block⟩

/-- A change of the live state that leaves the counter alone. -/
def Steady (change : State → State) : Prop := ∀ state, (change state).scp03Sequence = state.scp03Sequence

theorem modifyState_above {change : State → State} (h : Steady change) :
    Invariant (Above provider m block) (modifyState change) := by
  apply Invariant.update
  intro store hStore
  exact ⟨hStore.stored, by rw [CounterBounded, h]; exact hStore.live, hStore.block⟩

/-- A commit raises what is stored to what is live, or fails and leaves the bound. -/
theorem commitMetadataSnapshot_spec (hCorrect : provider.Correct) {store : Store} (h : Above provider m block store) :
    Triple (fun s => s = store) (commitMetadataSnapshot provider)
      (fun _ s => s.state = store.state ∧ Above provider store.state.scp03Sequence.toNat block s)
      fun _ s => s.state = store.state ∧ Above provider m block s := by
  have hLive : CounterBounded store.state.scp03Sequence.toNat store.state := ⟨le_rfl, h.live.2⟩
  apply Triple.get
  rintro s rfl
  apply Triple.readOnly_bind
  · intro data hEncode
    have hCommit := (Journal.commit_records hCorrect (hLive.encode hEncode) (h.live.encode hEncode) none).at h.stored
    intro s' hs'
    subst hs'
    have hRun := hCommit s'.journal rfl
    simp only [onJournal, bind, EStateM.bind, modify, modifyGet, MonadStateOf.modifyGet, EStateM.modifyGet]
    split at hRun
    · rename_i record journal hOk
      rw [hOk]
      exact ⟨rfl, hRun, hLive, h.block⟩
    · rename_i e journal hError
      rw [hError]
      exact ⟨rfl, hRun, h.live, h.block⟩
  · rintro e - _ rfl
    exact ⟨rfl, h⟩

theorem commitMetadataSnapshot_above (hCorrect : provider.Correct) :
    Invariant (Above provider m block) (commitMetadataSnapshot provider) := by
  apply Triple.of_state
  intro store h
  apply (commitMetadataSnapshot_spec hCorrect h).conseq (fun _ hs => hs)
  · rintro _ s ⟨-, hStored, hLive, hBlock⟩
    exact ⟨hStored.weaken fun data ⟨state, hEncode, hLow, hHigh⟩ => ⟨state, hEncode, h.live.1.trans hLow, hHigh⟩,
      ⟨h.live.1.trans hLive.1, hLive.2⟩, hBlock⟩
  · exact fun _ _ hs => hs.2

theorem publish_above (hCorrect : provider.Correct) {change undo : State → State} (hChange : Steady change) (hUndo : Steady undo) :
    Invariant (Above provider m block) (publish provider change undo) := by
  apply Invariant.bind (modifyState_above hChange)
  intro _
  apply Triple.capture_bind (commitMetadataSnapshot_above hCorrect)
  · intro _
    exact Invariant.ret _
  · intro e
    exact Invariant.bind (modifyState_above hUndo) fun _ => Triple.raise fun _ hs => hs

end Reserved

section Operations

variable {provider : CryptoProvider} {package : Descriptor → Except Error StoredPackage} {m : Nat} {block : Nat × Nat}

theorem Owner.update_steady (f : Domain → Domain) (owner : Owner) : Steady fun state => owner.update f state := by
  intro state
  cases owner <;> rfl

theorem insertDomain_above (hCorrect : provider.Correct) (id : String) (domain : Domain) :
    Invariant (Above provider m block) (insertDomain provider id domain) := by
  apply Invariant.get
  intro store
  apply Invariant.bind (Invariant.failIf _ _)
  intro _
  exact publish_above hCorrect (fun _ => rfl) fun _ => rfl

theorem removeDomain_above (hCorrect : provider.Correct) (index : Nat) :
    Invariant (Above provider m block) (removeDomain provider index) := by
  apply Invariant.get
  intro store
  apply Invariant.bind (Invariant.orFail _ _)
  intro previous
  exact publish_above hCorrect (fun _ => rfl) fun _ => rfl

theorem updateDomainPolicy_above (hCorrect : provider.Correct) (id : String) (policy : DomainPolicy) :
    Invariant (Above provider m block) (updateDomainPolicy provider id policy) := by
  apply Invariant.get
  intro store
  apply Invariant.bind (Invariant.orFail _ _)
  intro found
  apply Invariant.bind (Invariant.failIf _ _)
  intro _
  exact Invariant.onlyIf (publish_above hCorrect (fun _ => rfl) fun _ => rfl)

theorem activateImage_above (hCorrect : provider.Correct) (owner : Owner) (previous : Domain) (candidate : PackageActivation)
    (protected' : List Descriptor) (linked : State → Except Error Unit) (cancelled : Bool)
    (stage : List Descriptor → Except Error Descriptor) :
    Invariant (Above provider m block) (activateImage provider owner previous candidate protected' linked cancelled stage) := by
  apply Invariant.get
  intro store
  apply Invariant.bind (Invariant.readOnly _)
  intro _
  apply Invariant.bind (Invariant.failIf _ _)
  intro _
  apply Invariant.bind (Invariant.readOnly _)
  intro descriptor
  apply Invariant.bind (Invariant.failIf _ _)
  intro _
  apply Invariant.bind (Invariant.update fun s hs => ⟨hs.stored, hs.live, hs.block⟩)
  intro _
  exact publish_above hCorrect (Owner.update_steady _ _) (Owner.update_steady _ _)

theorem activatePackage_above (hCorrect : provider.Correct) (candidate : PackageActivation)
    (linked : State → Except Error Unit) (cancelled : Bool) (stage : List Descriptor → Except Error Descriptor) :
    Invariant (Above provider m block) (activatePackage provider candidate linked cancelled stage) := by
  apply Invariant.get
  intro store
  apply Invariant.bind (Invariant.orFail _ _)
  intro domain
  apply Invariant.bind (Invariant.readOnly _)
  intro owner
  apply Invariant.bind (Invariant.readOnly _)
  intro protected'
  apply Invariant.bind (Invariant.orFail _ _)
  intro previous
  apply Invariant.bind (modifyState_above (Owner.update_steady _ _))
  intro _
  apply Triple.capture_bind (activateImage_above hCorrect owner previous candidate protected' linked cancelled stage)
  · intro _
    exact Invariant.ret _
  · intro e
    exact Invariant.bind (modifyState_above (Owner.update_steady _ _)) fun _ => Triple.raise fun _ hs => hs

theorem removePackage_above (hCorrect : provider.Correct) (id name : String) :
    Invariant (Above provider m block) (removePackage provider id name) := by
  apply Invariant.get
  intro store
  apply Invariant.bind (Invariant.failIf _ _)
  intro _
  apply Invariant.bind (Invariant.failIf _ _)
  intro _
  apply Invariant.bind (Invariant.orFail _ _)
  intro domain
  apply Invariant.bind (Invariant.failIf _ _)
  intro _
  apply Invariant.bind (Invariant.readOnly _)
  intro owner
  apply Invariant.bind (Invariant.orFail _ _)
  intro found
  apply Invariant.bind (Invariant.orFail _ _)
  intro image
  apply Invariant.bind (Invariant.orFail _ _)
  intro binding
  apply Invariant.bind (Invariant.orFail _ _)
  intro imports
  exact publish_above hCorrect (Owner.update_steady _ _) (Owner.update_steady _ _)

theorem commitInstanceLifecycle_above (hCorrect : provider.Correct) (aid : Aid) (instances : NameMap String)
    (application : Option StagedApplication) :
    Invariant (Above provider m block) (commitInstanceLifecycle provider aid instances application) := by
  apply Invariant.get
  intro store
  apply Invariant.bind (Invariant.readOnly _)
  intro owner
  apply Invariant.bind (Invariant.orFail _ _)
  intro previous
  exact publish_above hCorrect (Owner.update_steady _ _) (Owner.update_steady _ _)

theorem loadPackages_sequence {state loaded : State} (h : state.loadPackages package = .ok loaded) :
    loaded.scp03Sequence = state.scp03Sequence := by
  obtain ⟨isd, -, h⟩ := Checks.bind_ok.1 h
  obtain ⟨domains, -, h⟩ := Checks.bind_ok.1 h
  cases h
  rfl

theorem recoverCommittedStateMode_above (allowUnanchored : Bool) :
    Invariant (Above provider m block) (recoverCommittedStateMode provider package allowUnanchored) := by
  apply Triple.bind (onJournal_above (Journal.recover_records _ _ allowUnanchored))
  intro contents
  apply Triple.of_state
  rintro store ⟨hStore, data, rfl, hBetween⟩
  have hStay : ∀ s, s = store → Above provider m block s := fun _ hs => hs ▸ hStore
  apply Triple.orFail_bind
  · intro hNone
    cases hNone
  intro found hFound
  cases hFound
  apply Triple.readOnly_bind _ fun _ _ => hStay
  intro recovered hDecode
  apply Triple.readOnly_bind _ fun _ _ => hStay
  intro loaded hLoad
  have hBounded : CounterBounded m loaded := by
    rw [CounterBounded, loadPackages_sequence hLoad]
    exact hBetween.decode hDecode
  apply Triple.bind (Q := fun _ => Above provider m block)
  · apply Triple.update
    rintro _ rfl
    exact ⟨hStore.stored, hBounded, hStore.block⟩
  · intro _
    exact Triple.ret fun _ hs => hs

theorem commitApplicationSnapshot_above (hCorrect : provider.Correct) (later : Option Nat) :
    Invariant (Above provider m block) (commitApplicationSnapshot provider package later) := by
  apply Triple.capture_bind (commitMetadataSnapshot_above hCorrect)
  · intro _
    exact Invariant.ret _
  · intro e
    have hPower : Invariant (Above provider m block) (onJournal (restorePower later)) := by
      intro store hStore
      exact ⟨hStore.stored.withBudget later, hStore.live, hStore.block⟩
    apply Invariant.get
    intro store
    apply Invariant.bind hPower
    intro _
    apply Invariant.bind (recoverCommittedStateMode_above true)
    intro recovered
    exact Invariant.failIf _ _

theorem restoreApplication_above (aid : Aid) (application : StagedApplication) :
    Invariant (Above provider m block) (restoreApplication aid application) := by
  apply Invariant.get
  intro store
  apply Invariant.bind (Invariant.readOnly _)
  intro found
  exact modifyState_above fun _ => rfl

theorem commitOrdinaryApplication_above (hCorrect : provider.Correct) (aid : Aid) (application : StagedApplication)
    (dirty : Bool) (later : Option Nat) :
    Invariant (Above provider m block) (commitOrdinaryApplication provider package aid application dirty later) :=
  Invariant.bind (restoreApplication_above _ _) fun _ => Invariant.onlyIf (commitApplicationSnapshot_above hCorrect later)

theorem installApplications_steady (resolved : List (String × Domain × StagedApplication)) :
    Steady fun state => resolved.foldl (fun state change => installApplication change.1 change.2.2 state) state := by
  intro state
  induction resolved generalizing state with
  | nil => rfl
  | cons change rest ih => exact ih _

theorem commitApplicationChanges_above (hCorrect : provider.Correct) (changes : List (Aid × StagedApplication))
    (later : Option Nat) : Invariant (Above provider m block) (commitApplicationChanges provider package changes later) := by
  apply Invariant.get
  intro store
  apply Invariant.bind (Invariant.readOnly _)
  intro resolved
  apply Invariant.onlyIf
  exact Invariant.bind (modifyState_above (installApplications_steady resolved)) fun _ =>
    commitApplicationSnapshot_above hCorrect later

theorem commitCredentialRetryFloor_above (hCorrect : provider.Correct) (aid : Aid) (floors : List (Int32 × (UInt8 × UInt8)))
    (later : Option Nat) : Invariant (Above provider m block) (commitCredentialRetryFloor provider package aid floors later) := by
  apply Invariant.get
  intro store
  apply Invariant.bind (Invariant.readOnly _)
  intro owner
  apply Invariant.bind (Invariant.orFail _ _)
  intro domain
  apply Invariant.bind (Invariant.readOnly _)
  intro next
  apply Invariant.onlyIf
  exact Invariant.bind (modifyState_above (Owner.update_steady _ _)) fun _ => commitApplicationSnapshot_above hCorrect later

theorem applyCredentialRetryFloor_above (aid : Aid) (floors : List (Int32 × (UInt8 × UInt8))) :
    Invariant (Above provider m block) (applyCredentialRetryFloor aid floors) := by
  apply Invariant.get
  intro store
  apply Invariant.bind (Invariant.readOnly _)
  intro owner
  apply Invariant.bind (Invariant.orFail _ _)
  intro domain
  cases lowerInPlace domain.incarnation floors (false, domain.credentials) with
  | ok _ next => exact modifyState_above (Owner.update_steady _ _)
  | error e next => exact Invariant.bind (modifyState_above (Owner.update_steady _ _)) fun _ => Triple.raise fun _ hs => hs

theorem restorePower_records {P : Journal.Contents → Prop} (later : Option Nat) :
    Invariant (Records provider P) (restorePower later) := fun _ hRecords => hRecords.withBudget later

/-- A checkpoint stores the state that it has read, with other credentials. -/
theorem checkpoint_records (hCorrect : provider.Correct) (aid : Aid) (floors : List (Int32 × (UInt8 × UInt8)))
    (later : Option Nat) : Invariant (Records provider (Between m)) (checkpoint provider aid floors later) := by
  apply Triple.bind (Journal.recover_records _ _ false)
  intro contents
  apply Triple.of_state
  rintro journal ⟨hRecords, data, rfl, hBetween⟩
  have hStay : ∀ j, j = journal → Records provider (Between m) j := fun _ hj => hj ▸ hRecords
  apply Triple.orFail_bind
  · intro hNone
    cases hNone
  intro found hFound
  cases hFound
  apply Triple.readOnly_bind _ fun _ _ => hStay
  intro durable hDecode
  apply Triple.readOnly_bind _ fun _ _ => hStay
  intro owner _
  apply Triple.orFail_bind
  · exact fun _ => hStay
  intro domain _
  apply Triple.readOnly_bind _ fun _ _ => hStay
  intro next _
  apply Triple.onlyIf _ fun _ => hStay
  intro _
  apply Triple.readOnly_bind _ fun _ _ => hStay
  intro intended hEncode
  have hBounded : CounterBounded m (setCredentials owner next.2 durable) := by
    rw [CounterBounded, setCredentials, Owner.update_steady]
    exact hBetween.decode hDecode
  have hIntended := hBounded.encode hEncode
  apply Triple.capture_bind ((Journal.commit_records hCorrect hIntended hIntended none).at hRecords)
  · intro _
    exact Triple.ret fun _ hj => hj
  · intro e
    apply Invariant.bind (restorePower_records later)
    intro _
    apply Triple.bind (Journal.recover_records _ _ true)
    intro contents
    have hKept : Invariant (Records provider (Between m)) (do
        let recovered ← orFail contents .storage
        failIf (recovered.snapshot ≠ intended) e : JournalM Unit) :=
      Invariant.bind (Invariant.orFail _ _) fun _ => Invariant.failIf _ _
    exact hKept.conseq (fun _ hj => hj.1) (fun _ _ hj => hj) fun _ _ hj => hj

end Operations

section Issue

open HighWater (Issued)

variable {provider : CryptoProvider} {m : Nat} {block : Nat × Nat} {issued : List Nat}

/-- A window is reserved as a whole, or not at all as far as the live state goes. -/
theorem reserveSequenceWindow_spec (hCorrect : provider.Correct) {store : Store} (h : Above provider m block store)
    {reserved : UInt32} (hLow : store.state.scp03Sequence ≤ reserved) (hHigh : reserved.toNat ≤ sequenceCeiling + 1) :
    Triple (fun s => s = store) (reserveSequenceWindow provider reserved)
      (fun _ s => Above provider reserved.toNat block s) fun _ s => Above provider m block s := by
  have hRaised : m ≤ reserved.toNat := h.live.1.trans (UInt32.le_iff_toNat_le.1 hLow)
  apply Triple.get
  rintro s rfl
  apply Triple.bind (Q := fun _ s' => s'.state.scp03Sequence = reserved ∧ Above provider m block s')
  · apply Triple.update
    rintro _ rfl
    exact ⟨rfl, h.stored, ⟨hRaised, hHigh⟩, h.block⟩
  intro _
  apply Triple.of_state
  rintro changed ⟨hChanged, hAbove⟩
  apply Triple.capture_bind (commitMetadataSnapshot_spec hCorrect hAbove)
  · intro _
    apply Triple.ret
    rintro s' ⟨-, hDone⟩
    rw [hChanged] at hDone
    exact hDone
  · intro e
    apply Triple.bind (Q := fun _ s' => Above provider m block s')
    · apply Triple.update
      rintro s' ⟨-, hFailed⟩
      exact ⟨hFailed.stored, h.live, hFailed.block⟩
    · intro _
      exact Triple.raise fun _ hs => hs

/-- What was handed out is behind the mark, and so is the block that is held back. -/
def Guarded (provider : CryptoProvider) (issued : List Nat) (store : Store) : Prop :=
  ∃ m, Above provider m store.sequence store ∧ Issued issued store.sequence.1 store.sequence.2 m

/-- Any operation keeps what it must keep of the counters, since it keeps every bound. -/
theorem Guarded.invariant {α : Type} {operation : StoreM α}
    (h : ∀ m block, Invariant (Above provider m block) operation) : Invariant (Guarded provider issued) operation := by
  apply Triple.of_state
  rintro store ⟨m, hAbove, hIssued⟩
  have hKept : ∀ s, Above provider m store.sequence s → Guarded provider issued s := by
    intro s hs
    refine ⟨m, ?_, ?_⟩
    · rw [hs.block]
      exact hs
    · rw [hs.block]
      exact hIssued
  exact ((h m store.sequence).at hAbove).conseq (fun _ hs => hs) (fun _ s hs => hKept s hs) fun _ s hs => hKept s hs

theorem Guarded.withBudget {store : Store} (h : Guarded provider issued store) (budget : Option Nat) :
    Guarded provider issued (store.withBudget budget) := by
  obtain ⟨m, hAbove, hIssued⟩ := h
  exact ⟨m, ⟨hAbove.stored.withBudget budget, hAbove.live, rfl⟩, hIssued⟩

/-- No operation of the store moves what was handed out before the mark. -/
theorem operation_guarded (hCorrect : provider.Correct) (package : Descriptor → Except Error StoredPackage)
    (operation : StoreOperation) : Invariant (Guarded provider issued) (operation.run provider package) := by
  apply Guarded.invariant
  intro m block
  cases operation with
  | insertDomain id domain => exact insertDomain_above hCorrect id domain
  | removeDomain index => exact removeDomain_above hCorrect index
  | updateDomainPolicy id policy => exact updateDomainPolicy_above hCorrect id policy
  | activatePackage candidate linked cancelled stage => exact activatePackage_above hCorrect candidate linked cancelled stage
  | removePackage id name => exact removePackage_above hCorrect id name
  | commitInstanceLifecycle aid instances application => exact commitInstanceLifecycle_above hCorrect aid instances application
  | restoreApplication aid application => exact restoreApplication_above aid application
  | commitOrdinaryApplication aid application dirty later =>
      exact commitOrdinaryApplication_above hCorrect aid application dirty later
  | commitApplicationChanges changes later => exact commitApplicationChanges_above hCorrect changes later
  | commitCredentialRetryFloor aid floors later => exact commitCredentialRetryFloor_above hCorrect aid floors later
  | applyCredentialRetryFloor aid floors => exact applyCredentialRetryFloor_above aid floors
  | checkpoint aid floors later =>
      have hJournal := (checkpoint_records (m := m) hCorrect aid floors later).conseq (fun _ h => h)
        (fun _ _ h => (⟨h, trivial⟩ : _ ∧ True)) fun _ _ h => h
      exact (onJournal_above hJournal).conseq (fun _ h => h) (fun _ _ h => h.1) fun _ _ h => h
  | recoverCommittedState =>
      exact Invariant.bind (recoverCommittedStateMode_above false) fun _ => Invariant.ret _
  | setTransaction transaction => exact Invariant.update fun store h => ⟨h.stored, h.live, h.block⟩

/-- Each counter that is handed out is new and fits its three bytes. -/
theorem nextSecureChannelSequence_spec (hCorrect : provider.Correct) :
    Triple (Guarded provider issued) (nextSecureChannelSequence provider)
      (fun v s => v ≤ sequenceCeiling ∧ v ∉ issued ∧ Guarded provider (v :: issued) s) fun _ => Guarded provider issued := by
  apply Triple.get
  rintro store ⟨m, hAbove, hIssued⟩
  have hStay : ∀ s, s = store → Guarded provider issued s := fun _ hs => hs ▸ ⟨m, hAbove, hIssued⟩
  apply Triple.bind (Q := fun _ s => Guarded provider issued s ∧ s.sequence.1 < s.sequence.2)
  · apply Triple.onlyIf
    · intro _
      apply Triple.failIf_bind
      · exact fun _ => hStay
      intro hOpen
      have hSequence : store.state.scp03Sequence.toNat ≤ sequenceCeiling := not_lt.1 hOpen
      simp only [sequenceCeiling, sequenceWindow] at hSequence ⊢
      generalize hReserved : min (min (store.state.scp03Sequence.toNat + 64) (2 ^ 32 - 1)) (0xffffff + 1) = reserved
      have hMore : store.state.scp03Sequence.toNat < reserved := by omega
      have hMost : reserved ≤ 0xffffff + 1 := by omega
      have hToNat : (UInt32.ofNat reserved).toNat = reserved := by
        rw [UInt32.toNat_ofNat', Nat.mod_eq_of_lt (by omega)]
      have hLow : store.state.scp03Sequence ≤ UInt32.ofNat reserved := by
        rw [UInt32.le_iff_toNat_le, hToNat]
        exact hMore.le
      have hHigh : (UInt32.ofNat reserved).toNat ≤ sequenceCeiling + 1 := by
        rw [hToNat]
        exact hMost
      have hReserve := reserveSequenceWindow_spec hCorrect hAbove hLow hHigh
      rw [hToNat] at hReserve
      apply Triple.bind (hReserve.conseq (fun _ hs => hs) (fun _ _ hs => hs) _)
      · intro _
        apply Triple.update
        intro s hs
        have hMark : m ≤ reserved := hAbove.live.1.trans hMore.le
        have hNext : s.sequence.1 = store.sequence.1 := congrArg Prod.fst hs.block
        refine ⟨⟨reserved, ⟨hs.stored, hs.live, rfl⟩, ?_⟩, ?_⟩
        · rw [hNext]
          exact (hIssued.raise hMark).extend
        · rw [hNext]
          exact (hIssued.reach.trans hAbove.live.1).trans_lt hMore
      · intro _ s hs
        refine ⟨m, ?_, ?_⟩
        · rw [hs.block]
          exact hs
        · rw [hs.block]
          exact hIssued
    · rintro hLeft s rfl
      exact ⟨hStay s rfl, not_le.1 hLeft⟩
  · intro _
    apply Triple.get
    rintro s ⟨hGuarded, hLeft⟩
    obtain ⟨m', hAbove', hIssued'⟩ := hGuarded
    apply Triple.failIf_bind
    · rintro - _ rfl
      exact ⟨m', hAbove', hIssued'⟩
    intro hSmall
    apply Triple.bind (Q := fun _ s' => Guarded provider (s.sequence.1 :: issued) s')
    · apply Triple.update
      rintro _ rfl
      exact ⟨m', ⟨hAbove'.stored, hAbove'.live, rfl⟩, hIssued'.issue hLeft⟩
    · intro _
      exact Triple.ret fun s' hs' => ⟨not_lt.1 hSmall, hIssued'.fresh, hs'⟩

/-- A card without power: nothing was ever handed out, or all of it is behind what is
stored. -/
def Resting (provider : CryptoProvider) (issued : List Nat) (journal : Journal.Journal) : Prop :=
  (Journal.Young journal ∧ issued = []) ∨ ∃ m, Records provider (Between m) journal ∧ Issued issued m m m

theorem Guarded.resting {store : Store} (h : Guarded provider issued store) : Resting provider issued store.journal := by
  obtain ⟨m, hAbove, hIssued⟩ := h
  exact .inr ⟨m, hAbove.stored, hIssued.forget⟩

theorem Resting.unopened {journal : Journal.Journal} (h : Resting provider issued journal) (budget : Option Nat) :
    Resting provider issued (Journal.Journal.unopened { journal.flash with failAfter := budget } journal.key
      journal.appendEnabled) := by
  rcases h with ⟨hYoung, hNone⟩ | ⟨m, ⟨e, hKeeps, hBetween⟩, hIssued⟩
  · exact .inl ⟨hYoung.unopened budget, hNone⟩
  · exact .inr ⟨m, ⟨e, hKeeps.unopened budget, hBetween⟩, hIssued⟩

/-- What has been read is what is stored, so nothing from it on was handed out. -/
theorem opened_guarded {journal : Journal.Journal} {state loaded : State} {data : Journal.Contents}
    {package : Descriptor → Except Error StoredPackage} (hStored : Records provider (fun d => d = data) journal)
    (hBetween : Between m data) (hDecode : decodeRecovered data.snapshot = .ok state)
    (hLoad : state.loadPackages package = .ok loaded)
    (hIssued : Issued issued m m m) : Guarded provider issued (Store.opened journal loaded) := by
  have hSequence := loadPackages_sequence hLoad
  have hBounded : CounterBounded m loaded := by
    rw [CounterBounded, hSequence]
    exact hBetween.decode hDecode
  have hRaised : Between loaded.scp03Sequence.toNat data := by
    rw [hSequence]
    exact hBetween.raise hDecode
  refine ⟨loaded.scp03Sequence.toNat, ⟨?_, ⟨le_rfl, hBounded.2⟩, rfl⟩, (hIssued.raise hBounded.1).forget⟩
  exact hStored.weaken fun _ hData => hData ▸ hRaised

/-- The first state of a card is committed before it is used. -/
theorem openState_young (hCorrect : provider.Correct) (incarnation : Except Error (Fixed 16)) {journal : Journal.Journal}
    (hYoung : Journal.Young journal) :
    Triple (fun j => j = journal) (openState provider incarnation none)
      (fun state j => Records provider (Between 0) j ∧ state.scp03Sequence = 0) fun _ j => Resting provider [] j := by
  have hStay : ∀ j, j = journal → Resting provider [] j := fun _ hj => hj ▸ .inl ⟨hYoung, rfl⟩
  apply Triple.readOnly_bind _ fun _ _ => hStay
  intro fresh _
  apply Triple.readOnly_bind _ fun _ _ => hStay
  intro encoded hEncode
  have hBounded : CounterBounded 0 (State.initial fresh) := ⟨Nat.zero_le _, Nat.zero_le _⟩
  apply Triple.bind (((Journal.commit_young hCorrect (hBounded.encode hEncode) none).at hYoung).conseq (fun _ h => h)
    (fun _ _ h => h) _)
  · intro record
    exact Triple.ret fun _ hj => ⟨hj, rfl⟩
  · rintro _ j (hStill | hStored)
    · exact .inl ⟨hStill, rfl⟩
    · exact .inr ⟨0, hStored, Issued.start 0⟩

/-- Opening a card hands out nothing, and what it stores first is the first counter. -/
theorem openStore_spec (hCorrect : provider.Correct) (incarnation : Except Error (Fixed 16))
    (package : Descriptor → Except Error StoredPackage) (check : State → Except Error Unit) :
    Triple (Resting provider issued) (openStore provider incarnation package check)
      (fun state journal => Guarded provider issued (Store.opened journal state)) fun _ journal => Resting provider issued journal := by
  apply Triple.of_state
  rintro journal (⟨hYoung, rfl⟩ | ⟨m, ⟨e, hKeeps, hBetween⟩, hIssued⟩)
  · have hOpen := Journal.recover_holding provider (fun _ => False) false
    apply Triple.bind ((hOpen.at (.inl hYoung)).conseq (fun _ h => h) (fun _ _ h => h) _)
    · intro contents
      apply Triple.of_state
      rintro j (⟨rfl, hStill⟩ | ⟨-, data, -, hNo⟩)
      · have hFirst := openState_young hCorrect incarnation hStill
        apply Triple.bind hFirst
        intro state
        apply Triple.of_state
        rintro j' ⟨hStored, hZero⟩
        have hStay : ∀ j, j = j' → Resting provider [] j := fun _ hj => hj ▸ .inr ⟨0, hStored, Issued.start 0⟩
        apply Triple.readOnly_bind _ fun _ _ => hStay
        intro loaded hLoad
        apply Triple.readOnly_bind _ fun _ _ => hStay
        intro _ _
        apply Triple.ret
        rintro _ rfl
        have hSequence : loaded.scp03Sequence.toNat = 0 := by
          rw [loadPackages_sequence hLoad, hZero]
          rfl
        have hBounded : CounterBounded 0 loaded := ⟨Nat.zero_le _, hSequence ▸ Nat.zero_le _⟩
        refine ⟨0, ⟨hStored, hBounded, rfl⟩, ?_⟩
        simp only [Store.opened, hSequence]
        exact Issued.start 0
      · exact hNo.elim
    · rintro _ j (hStill | ⟨_, _, hNo⟩)
      · exact .inl ⟨hStill, rfl⟩
      · exact hNo.elim
  · have hOpen := Journal.recover_records provider (fun d => d = e.contents) false
    have hRest : ∀ j, Records provider (fun d => d = e.contents) j → Resting provider issued j :=
      fun j hj => .inr ⟨m, hj.weaken fun _ hd => hd ▸ hBetween, hIssued⟩
    apply Triple.bind ((hOpen.at ⟨e, hKeeps, rfl⟩).conseq (fun _ h => h) (fun _ _ h => h) fun _ j hj => hRest j hj)
    intro contents
    apply Triple.of_state
    rintro j ⟨hStored, data, rfl, hData⟩
    have hStay : ∀ j', j' = j → Resting provider issued j' := fun _ hj => hj ▸ hRest j hStored
    apply Triple.readOnly_bind _ fun _ _ => hStay
    intro state hDecode
    apply Triple.readOnly_bind _ fun _ _ => hStay
    intro loaded hLoad
    apply Triple.readOnly_bind _ fun _ _ => hStay
    intro _ _
    apply Triple.ret
    rintro _ rfl
    rw [hData] at hDecode
    exact opened_guarded hStored hBetween hDecode hLoad hIssued

end Issue

end MicroCard.Mc04
