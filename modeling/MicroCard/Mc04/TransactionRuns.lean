import MicroCard.Mc04.TransactionLimits
import MicroCard.Mc04.InPlaceRuns

/-! What holds of every run of an application, whatever it calls: its data stay within the
limits of the domain, a transaction goes back to the data of the command, and no pin is
written in a transaction. -/
namespace MicroCard.Mc04

open Bytes CrashTriple Cbor
open Card (Aid)
open Journal (CryptoProvider JournalM)

section Limits

end Limits

section Checkpoints

variable {provider : CryptoProvider} {aid : Aid}

/-- A checkpoint in a command touches the floors and the journal. Only a failure leaves the
command dirty. -/
theorem checkpoint_spec (later : Option Nat) (slot : Int32) (running : Running) :
    Triple (fun r => r = running) (Host.checkpointCredentialRetryFloor provider aid later slot)
      (fun _ r => ∃ floors journal,
        r = { running with host := { running.host with credentialRetryFloor := floors }, journal := journal })
      fun _ r => ∃ floors dirty journal, r = { running with
        host := { running.host with credentialRetryFloor := floors, persistentDirty := dirty }, journal := journal } := by
  have hStill : ∃ floors dirty journal, running = { running with
      host := { running.host with credentialRetryFloor := floors, persistentDirty := dirty }, journal := journal } :=
    ⟨_, _, _, rfl⟩
  apply Triple.bind (Q := fun _ r => ∃ floors,
    r = { running with host := { running.host with credentialRetryFloor := floors } })
  · apply Triple.get
    intro found hFound
    apply Triple.readOnly_bind
    · intro remaining _
      apply Triple.readOnly_bind
      · intro floors _
        apply Triple.update
        intro r hr
        rw [hr, hFound]
        exact ⟨floors, rfl⟩
      · intro _ _ r hr
        rw [hr, hFound]
        exact hStill
    · intro _ _ r hr
      rw [hr, hFound]
      exact hStill
  intro _
  apply Triple.get
  intro found hFound
  obtain ⟨floors, hFloors⟩ := hFound
  apply Triple.bind (Q := fun _ r => r = { running with
    host := { running.host with credentialRetryFloor := floors, persistentDirty := true } })
  · apply Triple.update
    intro r hr
    rw [hr, hFloors]
  intro _
  apply Triple.get
  intro dirty hDirty
  apply Triple.bind (Q := fun _ r => ∃ journal, r = { running with
    host := { running.host with credentialRetryFloor := floors, persistentDirty := true }, journal := journal })
  · intro r hr
    rw [hr, hDirty]
    simp only [Host.onJournal]
    cases checkpoint provider aid floors later running.journal with
    | ok _ journal => exact ⟨journal, rfl⟩
    | error e journal => exact ⟨floors, true, journal, rfl⟩
  intro _
  apply Triple.update
  intro r hr
  obtain ⟨journal, hJournal⟩ := hr
  rw [hJournal, hFloors]
  exact ⟨floors, journal, rfl⟩

end Checkpoints

section Pins

variable {provider : CryptoProvider} {aid : Aid} {first : TransactionDisposition} {running running' : Running}

/-- Pins are written outside of transactions, and a transaction that a command started in is
not left behind. -/
structure Outside (first : TransactionDisposition) (running : Running) : Prop where
  written : running.hardware ≠ [] ↔ running.host.irreversibleOutput = true
  outside : running.host.irreversibleOutput = true → running.host.transaction = .inactive
  involved : first ≠ .inactive → running.host.transaction ≠ .inactive

theorem Outside.congr (h : Outside first running) (hHardware : running'.hardware = running.hardware)
    (hOutput : running'.host.irreversibleOutput = running.host.irreversibleOutput)
    (hTransaction : running'.host.transaction = running.host.transaction) : Outside first running' := by
  constructor
  · rw [hHardware, hOutput]
    exact h.written
  · rw [hOutput, hTransaction]
    exact h.outside
  · rw [hTransaction]
    exact h.involved

theorem Outside.framed (h : Outside first running) (hFrames : running.Frames running') : Outside first running' := by
  obtain ⟨_, _, _, _, rfl⟩ := hFrames
  exact h.congr rfl rfl rfl

theorem Outside.put (h : Outside first running) (application : StagedApplication) : Outside first (running.put application) :=
  h.congr rfl rfl rfl

theorem outside_kept : Kept provider aid (Outside first) (Outside first) where
  failed h := h
  framed h hFrames := h.framed hFrames
  staged h _ := h.congr rfl rfl rfl
  halfway h _ hFrames := (h.put _).framed hFrames
  missed := by
    intro running running' slot credentials h _ hFrames later
    have hStart := (h.put { running.host.application with credentials := credentials }).framed hFrames
    apply (checkpoint_spec later slot running').conseq (fun _ hr => hr)
    · intro _ r hr
      obtain ⟨floors, journal, rfl⟩ := hr
      exact hStart.congr rfl rfl rfl
    · intro _ r hr
      obtain ⟨floors, dirty, journal, rfl⟩ := hr
      exact hStart.congr rfl rfl rfl
  begun h _ _ hOutput := by
    refine ⟨h.written, fun hWritten => ?_, fun _ hNo => by cases hNo⟩
    rw [hOutput] at hWritten
    cases hWritten
  ended h hOpen hEnd := by
    have hClosed : ∀ t : TransactionDisposition, t = .commit ∨ t = .abort → t ≠ .inactive := by
      intro t ht hNo
      subst hNo
      rcases ht with ht | ht <;> cases ht
    refine ⟨h.written, fun hWritten => ?_, fun _ => hClosed _ hEnd⟩
    have hInactive := h.outside hWritten
    rw [hInactive] at hOpen
    rcases hOpen with hOpen | hOpen <;> cases hOpen
  wrote h hInactive := by
    refine ⟨⟨fun _ => rfl, fun _ => ?_⟩, fun _ => hInactive, h.involved⟩
    exact List.append_ne_nil_of_right_ne_nil _ (List.cons_ne_nil _ _)

/-- A command that takes part in a transaction has written no pin, be it one that the command
has begun or one that it has found open; and the pins that were written are noted. -/
theorem pins_outside_transactions (provider : CryptoProvider) (aid : Aid) (domain : Domain) (application : StagedApplication)
    (units : List ExecutionUnit) (transaction : TransactionDisposition) (program : Application) :
    Triple (fun _ => True) (runApplication provider aid domain application units transaction program)
      (fun execution _ => (transaction ≠ .inactive ∨ execution.host.transaction ≠ .inactive → execution.hardware = []) ∧
        (execution.hardware ≠ [] ↔ execution.host.irreversibleOutput = true))
      fun _ _ => False := by
  apply Triple.of_state
  intro journal _
  have hStart : Outside transaction ⟨Host.start domain application units transaction, journal, [], []⟩ :=
    ⟨⟨fun hNo => absurd rfl hNo, fun hNo => (by cases hNo)⟩, fun hNo => (by cases hNo), fun h => h⟩
  apply (outside_kept.runApplication hStart program).conseq (fun _ hj => hj)
  · intro execution _ hEnd
    refine ⟨fun hInvolved => ?_, hEnd.written⟩
    by_contra hWritten
    have hInactive := hEnd.outside (hEnd.written.1 hWritten)
    rcases hInvolved with hFound | hLeft
    · exact hEnd.involved hFound hInactive
    · exact hLeft hInactive
  · exact fun _ _ hNo => hNo

end Pins

section Attempts

/-- The same credential after some failed comparisons: only its counters have fallen. -/
structure CredentialEntry.Tried (old new : CredentialEntry) : Prop where
  same : new = { old with pinRetries := new.pinRetries, pukRetries := new.pukRetries }
  pin : new.pinRetries ≤ old.pinRetries
  puk : new.pukRetries ≤ old.pukRetries

/-- The same credentials after some failed comparisons. -/
def CredentialStore.Tried (old new : CredentialStore) : Prop :=
  ∀ slot, Option.Rel (fun e e' => e'.1 = e.1 ∧ e.2.Tried e'.2) (old.entries.find slot) (new.entries.find slot)

theorem CredentialEntry.Tried.refl (entry : CredentialEntry) : entry.Tried entry :=
  ⟨rfl, UInt8.le_refl _, UInt8.le_refl _⟩

theorem CredentialEntry.Tried.trans {old middle new : CredentialEntry} (h : old.Tried middle) (h' : middle.Tried new) :
    old.Tried new := by
  refine ⟨?_, UInt8.le_trans h'.pin h.pin, UInt8.le_trans h'.puk h.puk⟩
  have hNew := h'.same
  rw [h.same] at hNew
  exact hNew

theorem CredentialStore.Tried.refl (store : CredentialStore) : store.Tried store := by
  intro slot
  cases store.entries.find slot with
  | none => exact .none
  | some e => exact .some ⟨rfl, CredentialEntry.Tried.refl e.2⟩

theorem CredentialStore.Tried.trans {old middle new : CredentialStore} (h : old.Tried middle) (h' : middle.Tried new) :
    old.Tried new := by
  intro slot
  have hFirst := h slot
  have hLast := h' slot
  cases hOld : old.entries.find slot with
  | none =>
      rw [hOld] at hFirst
      cases hMiddle : middle.entries.find slot with
      | none =>
          rw [hMiddle] at hLast
          exact hLast
      | some e =>
          rw [hMiddle] at hFirst
          cases hFirst
  | some e =>
      rw [hOld] at hFirst
      cases hMiddle : middle.entries.find slot with
      | none =>
          rw [hMiddle] at hFirst
          cases hFirst
      | some e' =>
          rw [hMiddle] at hFirst hLast
          cases hNew : new.entries.find slot with
          | none =>
              rw [hNew] at hLast
              cases hLast
          | some e'' =>
              rw [hNew] at hLast
              cases hFirst with
              | some hFirst =>
                  cases hLast with
                  | some hLast => exact .some ⟨hLast.1.trans hFirst.1, hFirst.2.trans hLast.2⟩

variable {store : CredentialStore} {owner : Fixed 16} {slot : Int32} {entry next : CredentialEntry}

theorem CredentialStore.put_tried (hEntry : store.entry owner slot = .ok entry) (h : entry.Tried next) :
    store.Tried (store.put slot next) := by
  obtain ⟨key, hKey, hMem, -⟩ := CredentialStore.entry_ok hEntry
  have hSlot : key = slot := Int32.toInt.inj hKey
  subst hSlot
  intro k
  rw [CredentialStore.put, KeyedList.find_insert]
  split_ifs with hHere
  · rw [KeyedList.find_eq_some.2 ⟨hMem, hHere⟩]
    exact .some ⟨rfl, h⟩
  · exact CredentialStore.Tried.refl store k

theorem Missed.tried {host : Host} {credentials : CredentialStore} (h : Missed host slot credentials) :
    host.application.credentials.Tried credentials := by
  cases h with
  | pin hRun =>
      simp only [CredentialStore.verifyPin, Checks.bind_ok] at hRun
      obtain ⟨_, -, entry, hEntry, hRun⟩ := hRun
      split at hRun
      · cases hRun
      · rename_i hLeft
        obtain ⟨digest, -, hRun⟩ := Checks.bind_ok.1 hRun
        split at hRun
        · cases hRun
        · cases hRun
          exact CredentialStore.put_tried hEntry
            ⟨rfl, CredentialStore.pred_le hLeft (UInt8.le_refl _), UInt8.le_refl _⟩
  | puk hRun =>
      simp only [CredentialStore.unblock, Checks.bind_ok] at hRun
      obtain ⟨_, -, _, -, entry, hEntry, hRun⟩ := hRun
      split at hRun
      · cases hRun
      · rename_i hLeft
        obtain ⟨candidate, -, hRun⟩ := Checks.bind_ok.1 hRun
        split at hRun
        · cases hRun
          exact CredentialStore.put_tried hEntry
            ⟨rfl, UInt8.le_refl _, CredentialStore.pred_le hLeft (UInt8.le_refl _)⟩
        · simp only [Checks.bind_ok, Checks.pure_ok, Prod.mk.injEq, Bool.true_eq_false, and_false, false_and,
            exists_false] at hRun

end Attempts

section Rollback

variable {provider : CryptoProvider} {aid : Aid} {start : StagedApplication} {running running' : Running}

/-- The data that a command started with, but for failed comparisons. -/
structure StagedApplication.Untouched (start data : StagedApplication) : Prop where
  store : data.store = start.store
  blobs : data.blobs = start.blobs
  keys : data.keys = start.keys
  credentials : start.credentials.Tried data.credentials

/-- A command with nothing to write holds the data it started with, and so does the copy that
its transaction can go back to. -/
structure Returns (start : StagedApplication) (running : Running) : Prop where
  clean : running.host.persistentDirty = false → start.Untouched running.host.application
  snapshot : ∀ a ∈ running.host.transactionSnapshot, start.Untouched a

/-- The copy of a failed command. -/
def KeepsCopy (start : StagedApplication) (running : Running) : Prop :=
  ∀ a ∈ running.host.transactionSnapshot, start.Untouched a

theorem Returns.framed (h : Returns start running) (hFrames : running.Frames running') : Returns start running' := by
  obtain ⟨_, _, _, _, rfl⟩ := hFrames
  exact ⟨h.clean, h.snapshot⟩

theorem returns_kept : Kept provider aid (Returns start) (KeepsCopy start) where
  failed h := h.snapshot
  framed h hFrames := h.framed hFrames
  staged h _ := ⟨fun hNo => (by cases hNo), h.snapshot⟩
  halfway h _ hFrames := by
    obtain ⟨_, _, _, _, rfl⟩ := hFrames
    exact h.snapshot
  missed := by
    intro running running' slot credentials h hMissed hFrames later
    obtain ⟨_, _, _, _, rfl⟩ := hFrames
    apply (checkpoint_spec later slot _).conseq (fun _ hr => hr)
    · intro _ r hr
      obtain ⟨floors, journal, rfl⟩ := hr
      refine ⟨fun hClean => ?_, h.snapshot⟩
      have hBefore := h.clean hClean
      exact ⟨hBefore.store, hBefore.blobs, hBefore.keys, hBefore.credentials.trans hMissed.tried⟩
    · intro _ r hr
      obtain ⟨floors, dirty, journal, rfl⟩ := hr
      exact h.snapshot
  begun h _ hClean _ := by
    refine ⟨h.clean, ?_⟩
    intro a ha
    cases ha
    exact h.clean hClean
  ended h _ _ := ⟨h.clean, h.snapshot⟩
  wrote h _ := ⟨h.clean, h.snapshot⟩

/-- A transaction goes back to the data that its command started with. Only the counters of
credentials may have fallen, by comparisons that failed before it was begun. -/
theorem transaction_returns (provider : CryptoProvider) (aid : Aid) (domain : Domain) (application : StagedApplication)
    (units : List ExecutionUnit) (transaction : TransactionDisposition) (program : Application) :
    Triple (fun _ => True) (runApplication provider aid domain application units transaction program)
      (fun execution _ => ∀ a ∈ execution.host.transactionSnapshot, application.Untouched a)
      fun _ _ => False := by
  apply Triple.of_state
  intro journal _
  have hSame : application.Untouched application := ⟨rfl, rfl, rfl, CredentialStore.Tried.refl _⟩
  have hStart : Returns application ⟨Host.start domain application units transaction, journal, [], []⟩ :=
    ⟨fun _ => hSame, fun a ha => (by cases ha)⟩
  apply (returns_kept.runApplication hStart program).conseq (fun _ hj => hj)
  · exact fun _ _ hEnd => hEnd
  · exact fun _ _ hNo => hNo

end Rollback

end MicroCard.Mc04
