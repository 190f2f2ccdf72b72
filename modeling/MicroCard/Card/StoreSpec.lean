import MicroCard.Card.Store

/-! The registry invariant over runs of the store. What the journal stores is always
the encoding of a reachable registry, and unless recovery is required the registry
in memory is that one. -/
namespace MicroCard.Card

open Bytes CrashTriple Cbor Codec
open Journal (CryptoProvider JournalM Keeps Epoch Logical MemoryFlash Contents recorder commitOwnedWithNonce
  recoverWithReplay reserveIdentityNonce)

section Settled

variable (provider : CryptoProvider)

/-- The journal stores exactly this registry. -/
def Stores (registry : Registry) (journal : Journal.Journal) : Prop :=
  ∃ e, Keeps provider journal e ∧ e.contents = ⟨registryBytes registry, []⟩

/-- The store is settled on a registry: the journal stores it, and so does the
memory unless recovery is required. What the memory holds until then was once
reached, too. -/
structure Settled (registry : Registry) (store : Store) : Prop where
  reachable : registry.Reachable
  stored : Stores provider registry store.journal
  held : store.state.Reachable
  agrees : store.recoveryRequired = false → store.state = registry

end Settled

variable {provider : CryptoProvider} {registry next : Registry} {store : Store}

theorem Registry.Reachable.decode (h : registry.Reachable) :
    Registry.decode (registryBytes registry) = .ok registry :=
  decode_ok.2 ⟨validate_ok.2 h.valid, rfl⟩

/-- A journal operation changes the journal of the store and nothing else. -/
theorem onJournal_spec (store : Store) {α : Type} {operation : JournalM α} {Q : α → Journal.Journal → Prop}
    {C : Error → Journal.Journal → Prop} (h : Triple (fun j => j = store.journal) operation Q C) :
    Triple (fun s => s = store) (onJournal operation)
      (fun a s => ∃ journal, s = { store with journal := journal } ∧ Q a journal)
      fun e s => ∃ journal, s = { store with journal := journal } ∧ C e journal := by
  intro s hs
  subst hs
  have hRun := h s.journal rfl
  simp only [onJournal]
  split at hRun
  · rename_i a journal hOk
    rw [hOk]
    exact ⟨journal, rfl, hRun⟩
  · rename_i e journal hError
    rw [hError]
    exact ⟨journal, rfl, hRun⟩

/-- Recovery settles the store on what the journal stores. -/
theorem recover_spec (store : Store) (hReachable : registry.Reachable) (hStored : Stores provider registry store.journal)
    (hHeld : store.state.Reachable) :
    Triple (fun s => s = store) (recover provider) (fun _ s => Settled provider registry s)
      fun _ s => Settled provider registry s := by
  obtain ⟨e, hKeeps, hContents⟩ := hStored
  refine Triple.bind (Q := fun _ s => s = { store with recoveryRequired := true })
    (Triple.update fun s hs => by rw [hs]) fun _ => ?_
  have hRecover := onJournal_spec { store with recoveryRequired := true }
    (Journal.recoverWithReplayMode_spec false hKeeps)
  refine Triple.bind (hRecover.conseq (fun _ h => h) (fun _ _ h => h) ?_) fun contents => ?_
  · rintro _ _ ⟨journal, rfl, hKept, -⟩
    exact ⟨hReachable, ⟨e, hKept, hContents⟩, hHeld, fun hNo => nomatch hNo⟩
  refine Triple.of_state ?_
  rintro _ ⟨journal, rfl, rfl, hKept, -⟩
  have hDecode : Registry.decode e.contents.snapshot = .ok registry := by
    rw [hContents]
    exact hReachable.decode
  show Triple _ (readOnly (Registry.decode e.contents.snapshot) >>= _) _ _
  rw [hDecode]
  refine Triple.readOnly_bind (fun state hState => ?_) fun _ hError => nomatch hError
  cases hState
  refine Triple.update fun s hs => ?_
  subst hs
  exact ⟨hReachable, ⟨e, hKept, hContents⟩, hReachable, fun _ => rfl⟩

/-- A commit of a registry leaves the journal storing the old or the new one. -/
theorem commitOwned_stores (hCorrect : provider.Correct) {journal : Journal.Journal}
    (h : Stores provider registry journal) (next : Registry) (token : Option Nat) :
    Triple (fun j => j = journal) (commitOwnedWithNonce (registryBytes next) .anchored provider token)
      (fun _ j => Stores provider next j) fun _ j => Stores provider registry j ∨ Stores provider next j := by
  obtain ⟨e, hKeeps, hContents⟩ := h
  have hNew : ∀ {e' : Epoch}, (Journal.nextGeneration e.generation journal.appendEnabled .anchored).toOption.map
      (fun g => Logical.mk g ⟨registryBytes next, []⟩) = some e'.logical → e'.contents = ⟨registryBytes next, []⟩ := by
    intro e' hAfter
    obtain ⟨g, -, hLogical⟩ := Option.map_eq_some_iff.1 hAfter
    exact (congrArg Logical.contents hLogical).symm
  apply (Journal.commit_logical hCorrect hKeeps fun _ => rfl).conseq (fun _ h => h)
  · rintro _ j ⟨e', hKept, hAfter⟩
    exact ⟨e', hKept, hNew hAfter⟩
  · rintro _ j ⟨e', hKept, hOld | hAfter⟩
    · exact .inl ⟨e', hKept, (congrArg Logical.contents hOld).trans hContents⟩
    · exact .inr ⟨e', hKept, hNew hAfter⟩

/-- A commit settles the store on the new registry, or fails and leaves it settled
on the old or the new one. -/
theorem commitSnapshot_spec (hCorrect : provider.Correct) (h : Settled provider registry store)
    (hNext : next.Reachable) (token : Option Nat) :
    Triple (fun s => s = store) (commitSnapshot provider token next) (fun _ s => Settled provider next s)
      fun _ s => Settled provider registry s ∨ Settled provider next s := by
  refine Triple.readOnly_bind (fun encoded hEncode => ?_) fun _ _ s hs => .inl (hs ▸ h)
  obtain ⟨-, rfl⟩ := encode_ok.1 hEncode
  have hCommit := onJournal_spec store (commitOwned_stores hCorrect h.stored next token)
  refine Triple.capture_bind hCommit (fun record => ?_) fun err => ?_
  · apply Triple.update
    rintro _ ⟨journal, rfl, hStored⟩
    exact ⟨hNext, hStored, hNext, fun _ => rfl⟩
  · apply Triple.of_state
    rintro _ ⟨journal, rfl, hEither⟩
    have hSettle : ∀ {r : Registry}, r.Reachable → Stores provider r journal →
        Triple (fun s => s = { store with journal := journal }) (finishCommitSnapshot provider next (.error err))
          (fun _ _ => False) fun _ s => Settled provider r s := by
      intro r hr hStored
      have hRecover := recover_spec { store with journal := journal } hr hStored h.held
      exact Triple.bind hRecover fun _ => Triple.raise fun _ hSettled => hSettled
    rcases hEither with hOld | hNew
    · exact (hSettle h.reachable hOld).conseq (fun _ h => h) (fun _ _ h => h.elim) fun _ _ h => .inl h
    · exact (hSettle hNext hNew).conseq (fun _ h => h) (fun _ _ h => h.elim) fun _ _ h => .inr h

/-- The store is settled on some registry. -/
def Consistent (provider : CryptoProvider) (store : Store) : Prop := ∃ registry, Settled provider registry store

/-- The store is settled on a registry with a property. -/
def SettledOn (provider : CryptoProvider) (P : Registry → Prop) (store : Store) : Prop :=
  ∃ registry, Settled provider registry store ∧ P registry

/-- A property that no permitted change takes from a reachable registry. -/
def Preserved (P : Registry → Prop) : Prop :=
  ∀ {registry next : Registry} {change : Change} {u : Unit}, registry.Reachable → P registry → change.Offered →
    change.Permitted registry → change.run registry = .ok u next → P next

variable {P : Registry → Prop}

theorem readState_ok {state : Registry} (hRead : store.readState = .ok state) :
    store.recoveryRequired = false ∧ state = store.state ∧ store.state.renewal = none := by
  simp only [Store.readState, Checks.bind_ok, Checks.failIf_ok, Checks.pure_ok] at hRead
  obtain ⟨_, hRecovered, _, hIdle, rfl⟩ := hRead
  exact ⟨by simpa using hRecovered, rfl, by simpa using hIdle⟩

/-- What `readState` returns is the registry the store is settled on. -/
theorem Settled.readState {state : Registry} (h : Settled provider registry store)
    (hRead : store.readState = .ok state) : state = registry ∧ registry.renewal = none := by
  obtain ⟨hRecovered, rfl, hIdle⟩ := readState_ok hRead
  have hAgrees := h.agrees hRecovered
  exact ⟨hAgrees, hAgrees ▸ hIdle⟩

theorem commitSnapshot_settledOn (hCorrect : provider.Correct) (h : SettledOn provider P store)
    (hNext : next.Reachable) (hP : P next) (token : Option Nat) :
    Triple (fun s => s = store) (commitSnapshot provider token next) (fun _ s => SettledOn provider P s)
      fun _ s => SettledOn provider P s := by
  obtain ⟨registry, hSettled, hOldP⟩ := h
  apply (commitSnapshot_spec hCorrect hSettled hNext token).conseq (fun _ h => h)
  · intro _ s hNew
    exact ⟨_, hNew, hP⟩
  · rintro _ s (hOld | hNew)
    · exact ⟨_, hOld, hOldP⟩
    · exact ⟨_, hNew, hP⟩

theorem commit_settledOn (hCorrect : provider.Correct) (h : SettledOn provider P store) (hNext : next.Reachable)
    (hP : P next) : Triple (fun s => s = store) (commit provider next) (fun _ s => SettledOn provider P s)
      fun _ s => SettledOn provider P s := by
  refine Triple.get fun s hs => ?_
  subst hs
  exact Triple.readOnly_bind (fun _ _ => commitSnapshot_settledOn hCorrect h hNext hP none) fun _ _ _ hs => hs ▸ h

theorem manage_settledOn (hCorrect : provider.Correct) (hKept : Preserved P) (h : SettledOn provider P store) {change : Change}
    (hOffered : change.Offered) (cancelled : Bool) :
    Triple (fun s => s = store) (manage provider change cancelled) (fun _ s => SettledOn provider P s)
      fun _ s => SettledOn provider P s := by
  refine Triple.get fun s hs => ?_
  subst hs
  refine Triple.readOnly_bind (fun state hRead => ?_) fun _ _ _ hs => hs ▸ h
  obtain ⟨registry, hSettled, hP⟩ := h
  obtain ⟨rfl, hIdle⟩ := hSettled.readState hRead
  have hStay : ∀ s', s' = s → SettledOn provider P s' := fun _ hs => hs ▸ ⟨_, hSettled, hP⟩
  cases hRun : change.run state with
  | error e _ => exact Triple.raise hStay
  | ok u next =>
      have hNext : next.Reachable := .change hSettled.reachable hOffered (.inr hIdle) hRun
      have hNextP : P next := hKept hSettled.reachable hP hOffered (.inr hIdle) hRun
      exact Triple.failIf_bind (fun _ => hStay) fun _ => commit_settledOn hCorrect ⟨_, hSettled, hP⟩ hNext hNextP

theorem loadRequested_settledOn (hCorrect : provider.Correct) (hKept : Preserved P) (h : SettledOn provider P store)
    (request : LoadRequest) (raw : List Byte) (sha256 : List Byte → Except Error (Fixed 32)) (scratch : Nat)
    (stage : List Descriptor → Except Error Descriptor) (cancelEarly cancelLate : Bool) :
    Triple (fun s => s = store) (loadRequested provider request raw sha256 scratch stage cancelEarly cancelLate)
      (fun _ s => SettledOn provider P s) fun _ s => SettledOn provider P s := by
  have hStay : ∀ s, s = store → SettledOn provider P s := fun _ hs => hs ▸ h
  refine Triple.get fun s hs => ?_
  subst hs
  refine Triple.readOnly_bind (fun state hRead => ?_) fun _ _ => hStay
  obtain ⟨registry, hSettled, hP⟩ := h
  obtain ⟨rfl, hIdle⟩ := hSettled.readState hRead
  refine Triple.failIf_bind (fun _ => hStay) fun _ => ?_
  refine Triple.readOnly_bind (fun domain _ => ?_) fun _ _ => hStay
  refine Triple.orFail_bind (fun _ => hStay) fun authority _ => ?_
  refine Triple.readOnly_bind (fun package hPackage => ?_) fun _ _ => hStay
  refine Triple.failIf_bind (fun _ => hStay) fun _ => ?_
  refine Triple.readOnly_bind (fun _ _ => ?_) fun _ _ => hStay
  refine Triple.readOnly_bind (fun image _ => ?_) fun _ _ => hStay
  cases hRun : activate package image state with
  | error e _ => exact Triple.raise hStay
  | ok u next =>
      have hOffered : (Change.activate package image).Offered := ⟨_, _, _, _, _, hPackage⟩
      have hNext : next.Reachable := .change hSettled.reachable hOffered (.inr hIdle) hRun
      have hNextP : P next := hKept hSettled.reachable hP hOffered (.inr hIdle) hRun
      refine Triple.failIf_bind (fun _ => hStay) fun _ => ?_
      refine Triple.bind (Triple.onlyIf (fun _ => commit_settledOn hCorrect ⟨_, hSettled, hP⟩ hNext hNextP) fun _ => hStay) fun _ => ?_
      exact Triple.ret fun _ hs => hs

/-- Two stores with the same registry in memory. -/
def Same (store store' : Store) : Prop :=
  store'.state = store.state ∧ store'.recoveryRequired = store.recoveryRequired

theorem reserveHeapIdentity_spec (h : Settled provider registry store) :
    Triple (fun s => s = store) reserveHeapIdentity
      (fun _ s => Settled provider registry s ∧ Same store s)
      fun _ s => Settled provider registry s ∧ Same store s := by
  refine Triple.get fun s hs => ?_
  subst hs
  have hStay : ∀ s', s' = s → Settled provider registry s' ∧ Same s s' := by
    intro s' hs
    subst hs
    exact ⟨h, rfl, rfl⟩
  refine Triple.readOnly_bind (fun _ _ => ?_) fun _ _ => hStay
  obtain ⟨hReachable, ⟨e, hKeeps, hContents⟩, hHeld, hAgrees⟩ := h
  refine Triple.bind ((onJournal_spec s (Journal.reserveIdentityNonce_spec hKeeps)).conseq (fun _ h => h) (fun _ _ h => h) ?_)
    fun nonce => Triple.ret ?_
  · rintro _ _ ⟨journal, rfl, hKept⟩
    exact ⟨⟨hReachable, ⟨e, hKept, hContents⟩, hHeld, hAgrees⟩, rfl, rfl⟩
  · rintro _ ⟨journal, rfl, hKept⟩
    exact ⟨⟨hReachable, ⟨e, hKept, hContents⟩, hHeld, hAgrees⟩, rfl, rfl⟩

theorem publish_settledOn (hCorrect : provider.Correct) (hKept : Preserved P) (h : SettledOn provider P store)
    {change : Fixed 16 → Change} (hOffered : ∀ identity, (change identity).Offered)
    (prepared : Fixed 16 → Except Error Unit) :
    Triple (fun s => s = store) (publish provider change prepared) (fun _ s => SettledOn provider P s)
      fun _ s => SettledOn provider P s := by
  refine Triple.get fun s hs => ?_
  subst hs
  refine Triple.readOnly_bind (fun state hRead => ?_) fun _ _ _ hs => hs ▸ h
  obtain ⟨registry, hSettled, hP⟩ := h
  obtain ⟨rfl, hIdle⟩ := hSettled.readState hRead
  refine Triple.bind ((reserveHeapIdentity_spec hSettled).conseq (fun _ h => h) (fun _ _ h => h) fun _ _ h => ⟨_, h.1, hP⟩)
    fun reserved => ?_
  refine Triple.of_state fun s' hs' => ?_
  have hStay : ∀ s, s = s' → SettledOn provider P s := fun _ hs => hs ▸ ⟨_, hs'.1, hP⟩
  refine Triple.readOnly_bind (fun _ _ => ?_) fun _ _ => hStay
  cases hRun : (change reserved.1).run state with
  | error e _ => exact Triple.raise hStay
  | ok u next =>
      exact commitSnapshot_settledOn hCorrect ⟨_, hs'.1, hP⟩ (.change hSettled.reachable (hOffered _) (.inr hIdle) hRun)
        (hKept hSettled.reachable hP (hOffered _) (.inr hIdle) hRun) _

theorem resolve_settledOn (hCorrect : provider.Correct) (hKept : Preserved P) (h : SettledOn provider P store) (restored : Except Error Unit) :
    Triple (fun s => s = store) (resolve provider restored) (fun _ s => SettledOn provider P s)
      fun _ s => SettledOn provider P s := by
  have hStay : ∀ s, s = store → SettledOn provider P s := fun _ hs => hs ▸ h
  refine Triple.get fun s hs => ?_
  subst hs
  refine Triple.readOnly_bind (fun pending hPending => ?_) fun _ _ => hStay
  cases pending with
  | none => exact Triple.ret hStay
  | some renewal =>
      refine Triple.readOnly_bind (fun _ _ => ?_) fun _ _ => hStay
      obtain ⟨registry, hSettled, hP⟩ := h
      have hState : s.state = registry := by
        simp only [Store.pendingRenewal, Checks.bind_ok, Checks.failIf_ok, Checks.pure_ok] at hPending
        obtain ⟨_, hRecovered, -⟩ := hPending
        exact hSettled.agrees (by simpa using hRecovered)
      cases hRun : finishRenewal s.state with
      | error e _ => exact Triple.raise hStay
      | ok u next =>
          rw [hState] at hRun
          have hOffered : Change.finishRenewal.Offered := trivial
          exact commitSnapshot_settledOn hCorrect ⟨_, hSettled, hP⟩ (.change hSettled.reachable hOffered (.inl rfl) hRun)
            (hKept hSettled.reachable hP hOffered (.inl rfl) hRun) none

/-- One operation of the store, however it ends, leaves it settled, and what no change
takes from the registry is still true of it. -/
theorem StoreOperation.settledOn (hCorrect : provider.Correct) (hKept : Preserved P) (h : SettledOn provider P store)
    {operation : StoreOperation} (hOffered : operation.Offered) :
    Triple (fun s => s = store) (operation.run provider) (fun _ s => SettledOn provider P s)
      fun _ s => SettledOn provider P s := by
  cases operation with
  | manage change cancelled =>
      refine manage_settledOn hCorrect hKept h ?_ cancelled
      rcases hOffered with ⟨_, _, rfl⟩ | ⟨_, rfl⟩ | ⟨_, rfl⟩ | ⟨_, rfl⟩ | ⟨_, rfl⟩ <;> trivial
  | load request raw sha256 scratch stage cancelEarly cancelLate =>
      exact Triple.bind (loadRequested_settledOn hCorrect hKept h request raw sha256 scratch stage cancelEarly cancelLate)
        fun _ => Triple.ret fun _ h => h
  | install package module aid heapBank prepared =>
      exact publish_settledOn hCorrect hKept h (fun identity => show (Change.register package module aid identity heapBank).Offered
        from trivial) prepared
  | beginRenewal renewal prepared =>
      exact publish_settledOn hCorrect hKept h (fun identity => show (Change.publishRenewal (renewal identity)).Offered
        from trivial) prepared
  | recoverRenewal restored => exact resolve_settledOn hCorrect hKept h restored
  | recover =>
      obtain ⟨registry, hSettled, hP⟩ := h
      exact (recover_spec store hSettled.reachable hSettled.stored hSettled.held).conseq (fun _ h => h)
        (fun _ _ h => ⟨_, h, hP⟩) fun _ _ h => ⟨_, h, hP⟩

theorem Settled.withBudget (h : Settled provider registry store) (budget : Option Nat) :
    Settled provider registry (store.withBudget budget) := by
  obtain ⟨hReachable, ⟨e, hKeeps, hContents⟩, hHeld, hAgrees⟩ := h
  exact ⟨hReachable, ⟨e, hKeeps.withBudget budget, hContents⟩, hHeld, hAgrees⟩

theorem SettledOn.withBudget (h : SettledOn provider P store) (budget : Option Nat) :
    SettledOn provider P (store.withBudget budget) := by
  obtain ⟨registry, hSettled, hP⟩ := h
  exact ⟨registry, hSettled.withBudget budget, hP⟩

theorem Consistent.withBudget (h : Consistent provider store) (budget : Option Nat) :
    Consistent provider (store.withBudget budget) := by
  obtain ⟨registry, hSettled⟩ := h
  exact ⟨registry, hSettled.withBudget budget⟩

/-- A registry that passes its own check and survives its codec. -/
def Registry.Sound (registry : Registry) : Prop :=
  registry.validate = .ok () ∧ ∃ bytes, registry.encode = .ok bytes ∧ bytes.length ≤ maxSnapshotBytes ∧
    Registry.decode bytes = .ok registry

theorem Registry.Reachable.sound (h : registry.Reachable) : registry.Sound := by
  have hValid := validate_ok.2 h.valid
  exact ⟨hValid, registryBytes registry, encode_ok.2 ⟨hValid, rfl⟩, length_registryBytes registry, h.decode⟩

/-- The operations that change the registry in place; a renewal is computed on a copy. -/
def Change.InPlace : Change → Prop
  | publishRenewal _ => False
  | finishRenewal => False
  | _ => True

/-- The registry refuses this change. -/
def Change.Refused (change : Change) (registry : Registry) : Prop := ∃ e left, change.run registry = .error e left

/-- The store refuses this operation: it was cancelled, what it needs first failed,
or the registry refuses the change it asks for. -/
def StoreOperation.Refused (registry : Registry) : StoreOperation → Prop
  | manage change cancelled => cancelled = true ∨ change.Refused registry
  | load request raw sha256 scratch stage cancelEarly cancelLate =>
      cancelEarly = true ∨ cancelLate = true ∨ ∀ domain authority package image,
        Package.verify raw domain authority sha256 scratch = .ok package →
        stage (registry.loads.entries.filterMap Load.image) = .ok image →
        request.contradicts package = true ∨ (Change.activate package image).Refused registry
  | install package module aid heapBank prepared => ∀ identity, prepared identity = .ok () →
      (Change.register package module aid identity heapBank).Refused registry
  | beginRenewal renewal prepared => ∀ identity, prepared identity = .ok () →
      (Change.publishRenewal (renewal identity)).Refused registry
  | recoverRenewal restored => registry.renewal.isSome = true ∧ ∃ e, restored = .error e
  | recover => False

/-- A refusal leaves the store settled where it was, with the same registry in
memory. -/
def Unmoved (provider : CryptoProvider) (registry : Registry) (store store' : Store) : Prop :=
  Settled provider registry store' ∧ Same store store'

theorem Settled.unmoved (h : Settled provider registry store) {s : Store} (hs : s = store) :
    Unmoved provider registry store s := by
  subst hs
  exact ⟨h, rfl, rfl⟩

theorem manage_refused (h : Settled provider registry store) {change : Change} {cancelled : Bool}
    (hRefused : cancelled = true ∨ change.Refused store.state) :
    Triple (fun s => s = store) (manage provider change cancelled) (fun _ _ => False)
      fun _ s => Unmoved provider registry store s := by
  refine Triple.get fun s hs => ?_
  subst hs
  refine Triple.readOnly_bind (fun state hRead => ?_) fun _ _ _ hs => h.unmoved hs
  obtain ⟨-, rfl, -⟩ := readState_ok hRead
  cases hRun : change.run s.state with
  | error e left => exact Triple.raise fun _ hs => h.unmoved hs
  | ok u next =>
      refine Triple.failIf_bind (fun _ _ hs => h.unmoved hs) fun hGo => ?_
      rcases hRefused with hCancelled | ⟨e, left, hError⟩
      · exact absurd hCancelled hGo
      · rw [hRun] at hError
        cases hError

theorem loadRequested_refused (h : Settled provider registry store) {request : LoadRequest} {raw : List Byte}
    {sha256 : List Byte → Except Error (Fixed 32)} {scratch : Nat} {stage : List Descriptor → Except Error Descriptor}
    {cancelEarly cancelLate : Bool}
    (hRefused : StoreOperation.Refused store.state (.load request raw sha256 scratch stage cancelEarly cancelLate)) :
    Triple (fun s => s = store) (loadRequested provider request raw sha256 scratch stage cancelEarly cancelLate)
      (fun _ _ => False) fun _ s => Unmoved provider registry store s := by
  have hStay : ∀ s, s = store → Unmoved provider registry store s := fun _ hs => h.unmoved hs
  refine Triple.get fun s hs => ?_
  subst hs
  refine Triple.readOnly_bind (fun state hRead => ?_) fun _ _ => hStay
  obtain ⟨-, rfl, -⟩ := readState_ok hRead
  refine Triple.failIf_bind (fun _ => hStay) fun hEarly => ?_
  refine Triple.readOnly_bind (fun domain _ => ?_) fun _ _ => hStay
  refine Triple.orFail_bind (fun _ => hStay) fun authority _ => ?_
  refine Triple.readOnly_bind (fun package hPackage => ?_) fun _ _ => hStay
  refine Triple.failIf_bind (fun _ => hStay) fun hAgrees => ?_
  refine Triple.readOnly_bind (fun _ _ => ?_) fun _ _ => hStay
  refine Triple.readOnly_bind (fun image hImage => ?_) fun _ _ => hStay
  cases hRun : activate package image s.state with
  | error e left => exact Triple.raise hStay
  | ok u next =>
      refine Triple.failIf_bind (fun _ => hStay) fun hLate => ?_
      rcases hRefused with hCancelled | hCancelled | hRefuses
      · exact absurd hCancelled hEarly
      · exact absurd hCancelled hLate
      · rcases hRefuses _ _ _ _ hPackage hImage with hContradicts | ⟨e, left, hError⟩
        · exact absurd hContradicts hAgrees
        · rw [show (Change.activate package image).run s.state = .ok u next from hRun] at hError
          cases hError

theorem publish_refused (h : Settled provider registry store) {change : Fixed 16 → Change}
    {prepared : Fixed 16 → Except Error Unit}
    (hRefused : ∀ identity, prepared identity = .ok () → (change identity).Refused store.state) :
    Triple (fun s => s = store) (publish provider change prepared) (fun _ _ => False)
      fun _ s => Unmoved provider registry store s := by
  refine Triple.get fun s hs => ?_
  subst hs
  refine Triple.readOnly_bind (fun state hRead => ?_) fun _ _ _ hs => h.unmoved hs
  obtain ⟨-, rfl, -⟩ := readState_ok hRead
  refine Triple.bind (reserveHeapIdentity_spec h) fun reserved => ?_
  refine Triple.readOnly_bind (fun _ hPrepared => ?_) fun _ _ _ hs => hs
  obtain ⟨e, left, hError⟩ := hRefused reserved.1 hPrepared
  simp only [hError]
  exact Triple.raise fun _ hs => hs

theorem resolve_refused (h : Settled provider registry store) {restored : Except Error Unit}
    (hRefused : store.state.renewal.isSome = true ∧ ∃ e, restored = .error e) :
    Triple (fun s => s = store) (resolve provider restored) (fun _ _ => False)
      fun _ s => Unmoved provider registry store s := by
  refine Triple.get fun s hs => ?_
  subst hs
  refine Triple.readOnly_bind (fun pending hPending => ?_) fun _ _ _ hs => h.unmoved hs
  simp only [Store.pendingRenewal, Checks.bind_ok, Checks.failIf_ok, Checks.pure_ok] at hPending
  obtain ⟨_, -, rfl⟩ := hPending
  obtain ⟨hSome, e, hError⟩ := hRefused
  cases hRenewal : s.state.renewal with
  | none =>
      rw [hRenewal] at hSome
      cases hSome
  | some renewal =>
      refine Triple.readOnly_bind (fun _ hOk => ?_) fun _ _ _ hs => h.unmoved hs
      rw [hError] at hOk
      cases hOk

/-- A refused operation fails and moves neither the registry in memory nor the one
the journal stores. -/
theorem StoreOperation.refused (h : Settled provider registry store) {operation : StoreOperation}
    (hRefused : operation.Refused store.state) :
    Triple (fun s => s = store) (operation.run provider) (fun _ _ => False)
      fun _ s => Unmoved provider registry store s := by
  cases operation with
  | manage change cancelled => exact manage_refused h hRefused
  | load request raw sha256 scratch stage cancelEarly cancelLate =>
      exact Triple.bind (loadRequested_refused h hRefused) fun _ _ hs => hs.elim
  | install package module aid heapBank prepared => exact publish_refused h hRefused
  | beginRenewal renewal prepared => exact publish_refused h hRefused
  | recoverRenewal restored => exact resolve_refused h hRefused
  | recover => exact hRefused.elim

end MicroCard.Card
