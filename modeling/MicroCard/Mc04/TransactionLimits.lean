import MicroCard.Mc04.TransactionsSpec

/-! The limits of a domain hold of the data that its applications stage, whatever they call. -/
namespace MicroCard.Mc04

open Bytes CrashTriple Cbor
open Card (Aid)
open Journal (CryptoProvider JournalM)

/-- Application data that a domain with this policy and this incarnation can have. -/
structure Admissible (policy : DomainPolicy) (incarnation : Fixed 16) (application : StagedApplication) : Prop where
  integers : application.store.length ≤ policy.maxIntRecords.toNat
  blobs : application.blobs.length ≤ policy.maxBlobRecords.toNat
  blob : ∀ e ∈ application.blobs.entries, e.2.length ≤ maxDeclaredBlobBytes
  held : blobBytes application.blobs ≤ policy.maxBlobBytes.toNat
  slots : application.keys.length ≤ policy.maxKeySlots.toNat
  keys : application.keys.Valid
  credentials : application.credentials.Valid incarnation

/-- A host works under a policy, for an incarnation. -/
structure Host.Governed (policy : DomainPolicy) (incarnation : Fixed 16) (host : Host) : Prop where
  owner : host.owner = incarnation
  integers : host.maxIntRecords = policy.maxIntRecords.toNat
  blobs : host.maxBlobRecords = policy.maxBlobRecords.toNat
  held : host.maxBlobBytes = policy.maxBlobBytes.toNat
  slots : host.maxKeySlots = policy.maxKeySlots.toNat

/-- What a command holds while it runs: data within the limits, also in the copy that a
transaction started from, and a journal as before. -/
structure Within (policy : DomainPolicy) (incarnation : Fixed 16) (J : Journal.Journal → Prop) (running : Running) : Prop where
  governed : running.host.Governed policy incarnation
  staged : Admissible policy incarnation running.host.application
  snapshot : ∀ a ∈ running.host.transactionSnapshot, Admissible policy incarnation a
  journal : J running.journal

section Steps

variable {policy : DomainPolicy} {incarnation : Fixed 16} {application : StagedApplication} {host : Host}

theorem Admissible.empty : Admissible policy incarnation StagedApplication.empty :=
  ⟨Nat.zero_le _, Nat.zero_le _, fun _ he => (by cases he), Nat.zero_le _, Nat.zero_le _, KeyStore.empty_valid,
    CredentialStore.empty_valid incarnation⟩

theorem Missed.valid {slot : Int32} {credentials : CredentialStore} (h : host.application.credentials.Valid host.owner)
    (hMissed : Missed host slot credentials) : credentials.Valid host.owner := by
  cases hMissed with
  | pin hRun => exact CredentialStore.verifyPin_valid h hRun
  | puk hRun => exact CredentialStore.unblock_valid h hRun

end Steps

section Runs

variable {provider : CryptoProvider} {aid : Aid} {policy : DomainPolicy} {incarnation : Fixed 16}
  {J : Journal.Journal → Prop} {running running' : Running}

theorem Within.framed (h : Within policy incarnation J running) (hFrames : running.Frames running') :
    Within policy incarnation J running' := by
  obtain ⟨_, _, _, _, rfl⟩ := hFrames
  exact ⟨⟨h.governed.owner, h.governed.integers, h.governed.blobs, h.governed.held, h.governed.slots⟩, h.staged, h.snapshot,
    h.journal⟩

theorem Within.put (h : Within policy incarnation J running) {application : StagedApplication}
    (hAdmissible : Admissible policy incarnation application) : Within policy incarnation J (running.put application) :=
  ⟨⟨h.governed.owner, h.governed.integers, h.governed.blobs, h.governed.held, h.governed.slots⟩, hAdmissible, h.snapshot,
    h.journal⟩

/-- A change of what the limits do not speak of. -/
theorem Within.modifyHost {f : Host → Host} (hApplication : ∀ host, (f host).application = host.application)
    (hSnapshot : ∀ host, (f host).transactionSnapshot = host.transactionSnapshot)
    (hGoverned : ∀ host : Host, host.Governed policy incarnation → (f host).Governed policy incarnation) :
    Invariant (Within policy incarnation J) (Host.modifyHost f) := by
  apply Invariant.update
  intro running h
  refine ⟨hGoverned _ h.governed, ?_, ?_, h.journal⟩
  · rw [hApplication]
    exact h.staged
  · rw [hSnapshot]
    exact h.snapshot

theorem Within.onJournal {α : Type} {operation : JournalM α} (hJournal : Invariant J operation) :
    Invariant (Within policy incarnation J) (Host.onJournal operation) := by
  intro running h
  have hRun := hJournal running.journal h.journal
  simp only [Host.onJournal]
  split at hRun
  · rename_i a journal hOk
    rw [hOk]
    exact { h with journal := hRun }
  · rename_i e journal hError
    rw [hError]
    exact { h with journal := hRun }

theorem Within.checkpoint (hCheckpoint : ∀ floors later, Invariant J (checkpoint provider aid floors later)) (later : Option Nat)
    (slot : Int32) : Invariant (Within policy incarnation J) (Host.checkpointCredentialRetryFloor provider aid later slot) := by
  have hDirty : ∀ dirty, Invariant (Within policy incarnation J)
      (Host.modifyHost fun host => { host with persistentDirty := dirty }) := fun dirty =>
    Within.modifyHost (fun _ => rfl) (fun _ => rfl) fun _ h => ⟨h.owner, h.integers, h.blobs, h.held, h.slots⟩
  have hRecord : Invariant (Within policy incarnation J) (Host.recordCredentialRetryFloor slot) := by
    apply Invariant.get
    intro running
    apply Invariant.bind (Invariant.readOnly _)
    intro remaining
    apply Invariant.bind (Invariant.readOnly _)
    intro floors
    exact Within.modifyHost (fun _ => rfl) (fun _ => rfl) fun _ h => ⟨h.owner, h.integers, h.blobs, h.held, h.slots⟩
  apply Invariant.bind hRecord
  intro _
  apply Invariant.get
  intro running
  apply Invariant.bind (hDirty true)
  intro _
  apply Invariant.get
  intro running'
  apply Invariant.bind (Within.onJournal (hCheckpoint _ _))
  exact fun _ => hDirty _

end Runs

end MicroCard.Mc04
