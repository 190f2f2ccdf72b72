import MicroCard.Card.StoreSpec
import MicroCard.Journal.Holding
import MicroCard.Library.HighWater

/-! The counters of the secure channel on the Java Card engine. They are taken from a
range that the registry has reserved; the range itself is lost with the power. -/
namespace MicroCard.Card

open Bytes CrashTriple Cbor Codec
open Journal (CryptoProvider JournalM Records recorder commitOwnedWithNonce recoverWithReplay)
open HighWater (Issued)

/-- The part of the engine that hands out counters. -/
structure Channel where
  store : Store
  sequences : Option (Nat × Nat)

abbrev ChannelM := EStateM Error Channel

def onStore {α : Type} (operation : StoreM α) : ChannelM α := fun channel =>
  match operation channel.store with
  | .ok a store => .ok a { channel with store := store }
  | .error e store => .error e { channel with store := store }

/-- The next value of an inclusive range. -/
def nextInRange (range : Option (Nat × Nat)) : Option Nat :=
  range.bind fun (first, last) => if first ≤ last then some first else none

def spendSequence (value : Nat) : ChannelM Nat := do
  modify fun channel => { channel with sequences := channel.sequences.map fun range => (range.1 + 1, range.2) }
  pure value

section Operations

variable (provider : CryptoProvider)

/-- Reserve a range on a copy of the registry and commit the copy before the range is
used. -/
def reserveRange (registry : Registry) : ChannelM Nat :=
  match reserveSequences 32 registry with
  | .error e _ => throw e
  | .ok range next => do
      onStore (commit provider next)
      modify fun channel => { channel with sequences := some range }
      let value ← orFail (nextInRange (some range)) .storage
      spendSequence value

def nextSecureChannelSequence : ChannelM Nat := do
  let channel ← get
  match nextInRange channel.sequences with
  | some value => spendSequence value
  | none => do
      let registry ← readOnly channel.store.readState
      reserveRange provider registry

/-- What the journal holds, or a new registry that is committed first. -/
def openRegistry (initial : Registry) : Option Journal.Contents → JournalM Registry
  | some data => readOnly (Registry.decode data.snapshot)
  | none => do
      let encoded ← readOnly initial.encode
      let _ ← commitOwnedWithNonce encoded .anchored provider none
      pure initial

/-- `Store::open`, on a journal that knows nothing yet. -/
def openStore (initial : Registry) : JournalM Registry := do
  let contents ← recoverWithReplay provider recorder
  openRegistry provider initial contents

end Operations

/-- The channel of an engine that has just been opened. -/
def Channel.opened (journal : Journal.Journal) (registry : Registry) : Channel := ⟨⟨journal, registry, false⟩, none⟩

section Sequence

variable {registry next : Registry}

/-- No change lowers the counter of the registry. -/
theorem Change.sequence_le {change : Change} {u : Unit} (h : change.run registry = .ok u next) :
    registry.sequence.toNat ≤ next.sequence.toNat := by
  cases change with
  | addDomain aid incarnation =>
      obtain ⟨-, slot, -, rfl⟩ := addDomain_ok h
      exact le_rfl
  | removeDomain aid =>
      obtain ⟨-, slot, d, -, rfl⟩ := removeDomain_ok h
      exact le_rfl
  | reserveSequences count =>
      obtain ⟨range, hReserve⟩ := reserveSequencesChange_ok h
      obtain ⟨stop, hMost, hStop, -, -, rfl⟩ := reserveSequences_ok hReserve
      simp only [maxSequence] at hMost
      rw [UInt32.toNat_ofNat', Nat.mod_eq_of_lt (by omega)]
      omega
  | activate package image =>
      obtain ⟨owner, aid, index, -, -, -, -, -, -, -, -, rfl⟩ := activate_ok h
      exact le_rfl
  | removeLoad aid =>
      obtain ⟨-, slot, removed, hFound, -, rfl⟩ := removeLoad_ok h
      exact le_rfl
  | register package module aid identity heapBank =>
      obtain ⟨_, _, slot, -, -, -, -, -, rfl⟩ := register_ok h
      exact le_rfl
  | removeInstance aid =>
      obtain ⟨slot, i, -, rfl⟩ := removeInstance_ok h
      exact le_rfl
  | publishRenewal renewal =>
      obtain ⟨rfl, -⟩ := publishRenewal_ok h
      exact le_rfl
  | finishRenewal =>
      cases hRenewal : registry.renewal with
      | none => rw [finishRenewal_idle hRenewal h]
      | some renewal =>
          obtain ⟨-, _, _, _, -, -, rfl⟩ := finishRenewal_ok (by rw [hRenewal]; rfl) h
          exact le_rfl

end Sequence

section Issue

variable {provider : CryptoProvider} {issued : List Nat} {registry next : Registry} {m : Nat}

/-- The first counter that the registry has not reserved is not below a bound. -/
def Reaches (m : Nat) (registry : Registry) : Prop := m ≤ registry.sequence.toNat + 1

theorem reaches_preserved : Preserved (Reaches m) := by
  intro registry next change u _ hReaches _ _ hRun
  exact hReaches.trans (Nat.succ_le_succ (Change.sequence_le hRun))

/-- What was handed out is behind the mark, and so is the range that is held back. -/
def Guarded (provider : CryptoProvider) (issued : List Nat) (channel : Channel) : Prop :=
  ∃ m first stop, SettledOn provider (Reaches m) channel.store ∧ Issued issued first stop m ∧ m ≤ maxSequence + 1 ∧
    ∀ range ∈ channel.sequences, first = range.1 ∧ stop = range.2 + 1

theorem Guarded.withBudget {channel : Channel} (h : Guarded provider issued channel) (budget : Option Nat) :
    Guarded provider issued { channel with store := channel.store.withBudget budget } := by
  obtain ⟨m, first, stop, hSettled, hRest⟩ := h
  exact ⟨m, first, stop, hSettled.withBudget budget, hRest⟩

theorem onStore_guarded {α : Type} {operation : StoreM α} (h : ∀ m, Invariant (SettledOn provider (Reaches m)) operation) :
    Invariant (Guarded provider issued) (onStore operation) := by
  rintro channel ⟨m, first, stop, hSettled, hIssued, hMost, hRange⟩
  have hRun := h m channel.store hSettled
  simp only [onStore]
  split at hRun
  · rename_i a store hOk
    rw [hOk]
    exact ⟨m, first, stop, hRun, hIssued, hMost, hRange⟩
  · rename_i e store hError
    rw [hError]
    exact ⟨m, first, stop, hRun, hIssued, hMost, hRange⟩

theorem operation_guarded (hCorrect : provider.Correct) {operation : StoreOperation} (hOffered : operation.Offered) :
    Invariant (Guarded provider issued) (onStore (operation.run provider)) := by
  apply onStore_guarded
  intro m
  apply Triple.of_state
  intro store hSettled
  exact StoreOperation.settledOn hCorrect reaches_preserved hSettled hOffered

theorem commit_spec (hCorrect : provider.Correct) {store : Store} (h : Settled provider registry store)
    (hNext : next.Reachable) : Triple (fun s => s = store) (commit provider next) (fun _ s => Settled provider next s)
      fun _ s => Settled provider registry s ∨ Settled provider next s := by
  apply Triple.get
  rintro s rfl
  apply Triple.readOnly_bind
  · intro _ _
    exact commitSnapshot_spec hCorrect h hNext none
  · rintro _ _ _ rfl
    exact .inl h

/-- Spending the next value of a range that is behind the mark. -/
theorem spendSequence_spec {value : Nat} {channel : Channel} (h : Guarded provider issued channel)
    (hNext : nextInRange channel.sequences = some value) :
    Triple (fun c => c = channel) (spendSequence value)
      (fun v c => v ≤ maxSequence ∧ v ∉ issued ∧ Guarded provider (v :: issued) c) fun _ => Guarded provider issued := by
  obtain ⟨m, first, stop, hSettled, hIssued, hMost, hRange⟩ := h
  cases hSequences : channel.sequences with
  | none =>
      rw [hSequences] at hNext
      cases hNext
  | some range =>
      obtain ⟨rfl, rfl⟩ := hRange range hSequences
      rw [hSequences] at hNext
      simp only [nextInRange, Option.bind_some] at hNext
      split at hNext
      · rename_i hLeft
        cases hNext
        have hBelow : range.1 < range.2 + 1 := Nat.lt_succ_of_le hLeft
        have hHeld := hIssued.held hBelow
        apply Triple.bind (Q := fun _ c => Guarded provider (range.1 :: issued) c)
        · apply Triple.update
          rintro _ rfl
          refine ⟨m, range.1 + 1, range.2 + 1, hSettled, hIssued.issue hBelow, hMost, ?_⟩
          intro range' hRange'
          rw [hSequences] at hRange'
          cases hRange'
          exact ⟨rfl, rfl⟩
        · intro _
          exact Triple.ret fun c hc => ⟨by omega, hIssued.fresh, hc⟩
      · cases hNext

/-- A reserved range begins behind everything that was handed out. -/
theorem reserveRange_spec (hCorrect : provider.Correct) {channel : Channel} {first stop : Nat}
    (hSettled : Settled provider registry channel.store) (hReaches : Reaches m registry) (hIdle : registry.renewal = none)
    (hIssued : Issued issued first stop m) (hMost : m ≤ maxSequence + 1)
    (hRange : ∀ range ∈ channel.sequences, first = range.1 ∧ stop = range.2 + 1) :
    Triple (fun c => c = channel) (reserveRange provider registry)
      (fun v c => v ≤ maxSequence ∧ v ∉ issued ∧ Guarded provider (v :: issued) c) fun _ => Guarded provider issued := by
  unfold reserveRange
  cases hReserve : reserveSequences 32 registry with
  | error e _ => exact Triple.raise fun _ hc => hc ▸ ⟨m, first, stop, ⟨registry, hSettled, hReaches⟩, hIssued, hMost, hRange⟩
  | ok range next =>
      obtain ⟨last, hLast, hStop, -, rfl, hNext⟩ := reserveSequences_ok hReserve
      have hCount : (32 : UInt32).toNat = 32 := rfl
      rw [hCount] at hStop
      have hSequence : next.sequence.toNat = last := by
        simp only [maxSequence] at hLast
        rw [hNext, UInt32.toNat_ofNat', Nat.mod_eq_of_lt (by omega)]
      have hRun : (Change.reserveSequences 32).run registry = .ok () next := by
        simp only [Change.run, bind_ok, Codec.pure_ok]
        exact ⟨_, _, hReserve, trivial, rfl⟩
      have hOffered : (Change.reserveSequences 32).Offered := trivial
      have hReachable : next.Reachable := .change hSettled.reachable hOffered (.inr hIdle) hRun
      have hFresh : Issued issued (registry.sequence.toNat + 1) (last + 1) (last + 1) :=
        ((hIssued.raise hReaches).forget.raise (by omega)).extend
      apply Triple.bind (Q := fun _ c => ∃ store, c = { channel with store := store } ∧ Settled provider next store)
      · rintro c rfl
        have hCommit := commit_spec hCorrect hSettled hReachable c.store rfl
        simp only [onStore]
        split at hCommit
        · rename_i store hOk
          rw [hOk]
          exact ⟨store, rfl, hCommit⟩
        · rename_i e store hError
          rw [hError]
          have hKept : SettledOn provider (Reaches m) store := by
            rcases hCommit with hOld | hNew
            · exact ⟨registry, hOld, hReaches⟩
            · exact ⟨next, hNew, reaches_preserved hSettled.reachable hReaches hOffered (.inr hIdle) hRun⟩
          exact ⟨m, first, stop, hKept, hIssued, hMost, hRange⟩
      intro _
      apply Triple.of_state
      rintro _ ⟨store, rfl, hStore⟩
      let filled : Channel := ⟨store, some (registry.sequence.toNat + 1, last)⟩
      have hFilled : Guarded provider issued filled := by
        refine ⟨last + 1, registry.sequence.toNat + 1, last + 1, ⟨next, hStore, ?_⟩, hFresh, by omega, ?_⟩
        · rw [Reaches, hSequence]
        · intro range hMem
          cases hMem
          exact ⟨rfl, rfl⟩
      have hValue : nextInRange filled.sequences = some (registry.sequence.toNat + 1) := by
        simp only [filled, nextInRange, Option.bind_some]
        rw [if_pos (by omega)]
      apply Triple.bind (Q := fun _ c => c = filled)
      · exact Triple.update fun _ hc => hc ▸ rfl
      intro _
      apply Triple.orFail_bind
      · intro hNone
        cases hNone.symm.trans hValue
      intro value hFound
      exact spendSequence_spec hFilled hFound

/-- Each counter that is handed out is new and fits its three bytes. -/
theorem nextSecureChannelSequence_spec (hCorrect : provider.Correct) :
    Triple (Guarded provider issued) (nextSecureChannelSequence provider)
      (fun v c => v ≤ maxSequence ∧ v ∉ issued ∧ Guarded provider (v :: issued) c) fun _ => Guarded provider issued := by
  apply Triple.get
  intro channel hGuarded
  cases hNext : nextInRange channel.sequences with
  | some value => exact spendSequence_spec hGuarded hNext
  | none =>
      have hStay : ∀ c, c = channel → Guarded provider issued c := fun _ hc => hc ▸ hGuarded
      apply Triple.readOnly_bind _ fun _ _ => hStay
      intro state hRead
      obtain ⟨m, first, stop, ⟨registry, hSettled, hReaches⟩, hIssued, hMost, hRange⟩ := hGuarded
      obtain ⟨rfl, hIdle⟩ := hSettled.readState hRead
      exact reserveRange_spec hCorrect hSettled hReaches hIdle hIssued hMost hRange

/-- A card without power: nothing was ever handed out, or all of it is behind what is
stored. -/
def Resting (provider : CryptoProvider) (issued : List Nat) (journal : Journal.Journal) : Prop :=
  (Journal.Young journal ∧ issued = []) ∨ ∃ m registry, registry.Reachable ∧ Stores provider registry journal ∧
    Reaches m registry ∧ Issued issued m m m ∧ m ≤ maxSequence + 1

theorem Guarded.resting {channel : Channel} (h : Guarded provider issued channel) :
    Resting provider issued channel.store.journal := by
  obtain ⟨m, first, stop, ⟨registry, hSettled, hReaches⟩, hIssued, hMost, -⟩ := h
  exact .inr ⟨m, registry, hSettled.reachable, hSettled.stored, hReaches, hIssued.forget, hMost⟩

theorem Resting.unopened {journal : Journal.Journal} (h : Resting provider issued journal) (budget : Option Nat) :
    Resting provider issued (Journal.Journal.unopened { journal.flash with failAfter := budget } journal.key
      journal.appendEnabled) := by
  rcases h with ⟨hYoung, hNone⟩ | ⟨m, registry, hReachable, ⟨e, hKeeps, hContents⟩, hRest⟩
  · exact .inl ⟨hYoung.unopened budget, hNone⟩
  · exact .inr ⟨m, registry, hReachable, ⟨e, hKeeps.unopened budget, hContents⟩, hRest⟩

theorem stores_of_records {journal : Journal.Journal}
    (h : Records provider (fun c => c = ⟨registryBytes registry, []⟩) journal) : Stores provider registry journal := h

/-- The first registry of a card is committed before it is used. -/
theorem openRegistry_young (hCorrect : provider.Correct) (incarnation : Fixed 16) {journal : Journal.Journal}
    (hYoung : Journal.Young journal) :
    Triple (fun j => j = journal) (openRegistry provider (Registry.new incarnation) none)
      (fun registry j => Guarded provider [] (Channel.opened j registry)) fun _ j => Resting provider [] j := by
  have hReachable : (Registry.new incarnation).Reachable := .new incarnation
  have hReaches : Reaches 1 (Registry.new incarnation) := le_rfl
  apply Triple.readOnly_bind _ fun _ _ j hj => hj ▸ .inl ⟨hYoung, rfl⟩
  intro encoded hEncode
  obtain ⟨-, rfl⟩ := encode_ok.1 hEncode
  have hCommit := Journal.commit_young (P := fun c => c = ⟨registryBytes (Registry.new incarnation), []⟩) hCorrect rfl none
  apply Triple.bind ((hCommit.at hYoung).conseq (fun _ h => h) (fun _ _ h => h) _)
  · intro record
    apply Triple.ret
    intro j hj
    refine ⟨1, 1, 1, ⟨_, ⟨hReachable, stores_of_records hj, hReachable, fun _ => rfl⟩, hReaches⟩, Issued.start 1, by decide, ?_⟩
    intro range hMem
    cases hMem
  · rintro _ j (hStill | hStored)
    · exact .inl ⟨hStill, rfl⟩
    · exact .inr ⟨1, _, hReachable, stores_of_records hStored, hReaches, Issued.start 1, by decide⟩

/-- Opening a card hands out nothing. -/
theorem openStore_spec (hCorrect : provider.Correct) (incarnation : Fixed 16) :
    Triple (Resting provider issued) (openStore provider (Registry.new incarnation))
      (fun registry journal => Guarded provider issued (Channel.opened journal registry))
      fun _ journal => Resting provider issued journal := by
  apply Triple.of_state
  rintro journal (⟨hYoung, rfl⟩ | ⟨m, registry, hReachable, ⟨e, hKeeps, hContents⟩, hReaches, hIssued, hMost⟩)
  · have hOpen := Journal.recover_holding provider (fun _ => False) false
    apply Triple.bind ((hOpen.at (.inl hYoung)).conseq (fun _ h => h) (fun _ _ h => h) _)
    · intro contents
      apply Triple.of_state
      rintro j (⟨rfl, hStill⟩ | ⟨-, data, -, hNo⟩)
      · exact openRegistry_young hCorrect incarnation hStill
      · exact hNo.elim
    · rintro _ j (hStill | ⟨_, _, hNo⟩)
      · exact .inl ⟨hStill, rfl⟩
      · exact hNo.elim
  · have hOpen := Journal.recover_records provider (fun c => c = ⟨registryBytes registry, []⟩) false
    have hRest : ∀ j, Stores provider registry j → Resting provider issued j :=
      fun j hj => .inr ⟨m, registry, hReachable, hj, hReaches, hIssued, hMost⟩
    apply Triple.bind ((hOpen.at ⟨e, hKeeps, hContents⟩).conseq (fun _ h => h) (fun _ _ h => h) fun _ j hj => hRest j hj)
    intro contents
    apply Triple.of_state
    rintro j ⟨hStored, data, rfl, rfl⟩
    apply Triple.readOnly
    · intro opened hDecode _ hj
      rw [hReachable.decode] at hDecode
      cases hDecode
      subst hj
      refine ⟨m, m, m, ⟨registry, ⟨hReachable, stores_of_records hStored, hReachable, fun _ => rfl⟩, hReaches⟩, hIssued, hMost, ?_⟩
      intro range hMem
      cases hMem
    · intro _ _ _ hj
      exact hj ▸ hRest j hStored

end Issue

end MicroCard.Card
