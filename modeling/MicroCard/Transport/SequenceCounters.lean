import MicroCard.Card.Sequences
import MicroCard.Mc04.StoreSpec
import MicroCard.Transport.Scp03

/-! The counters in the responses to INITIALIZE UPDATE, over whole runs of a card with
either engine: power comes and goes at any flash step, and every operation of the engine
may come between two challenges. -/
namespace MicroCard.Transport

open Bytes CrashTriple Cbor
open Card (Descriptor)
open Journal (CryptoProvider MemoryFlash)

/-- A card is off, and has its flash, or an engine runs on it. -/
inductive Power (σ : Type) where
  | off (journal : Journal.Journal)
  | on (engine : σ)

/-- The card after an engine was opened, or not. -/
def Power.opened {σ α : Type} (engine : Journal.Journal → α → σ) : EStateM.Result Error Journal.Journal α → Power σ
  | .ok a journal => .on (engine journal a)
  | .error _ journal => .off journal

/-- How an engine deals with counters. -/
structure Issuer (σ : Type) where
  journal : σ → Journal.Journal
  /-- What opening a flash may come to. -/
  Opens : Journal.Journal → Power σ → Prop
  /-- What one operation may come to, cut at any step. -/
  Works : σ → σ → Prop
  /-- The next counter, when the power lasts for so many flash steps. -/
  issue : Option Nat → σ → EStateM.Result Error σ Nat

/-- A response to INITIALIZE UPDATE, and the counter it was built from. -/
structure Challenge where
  counter : Nat
  response : List Byte

structure Device (σ : Type) where
  power : Power σ
  /-- Every counter the engine has handed out. -/
  issued : List Nat
  sent : List Challenge

/-- The response: key diversification, key information, challenge, cryptogram, counter
and status. -/
def challengeResponse (scp03 : Scp03) (counter : Nat) (challenge cryptogram : List Byte) : List Byte :=
  List.replicate 10 0 ++ [1, 3, scp03.i] ++ challenge ++ cryptogram ++ toBE 3 counter ++ [0x90, 0]

/-- The counter in a response: the three bytes before the status. -/
def sentCounter (response : List Byte) : Nat := fromBE ((response.drop (response.length - 5)).take 3)

section Runs

variable {σ : Type} (scp03 : Scp03) (issuer : Issuer σ)

/-- INITIALIZE UPDATE takes a counter before anything else can fail; what is derived
from it is sent unless the platform fails. -/
def initializeUpdate (budget : Option Nat) (derived : Except Error (List Byte × List Byte)) (engine : σ) (issued : List Nat)
    (sent : List Challenge) : Device σ :=
  match issuer.issue budget engine with
  | .error _ engine => ⟨.on engine, issued, sent⟩
  | .ok counter engine =>
      match derived with
      | .error _ => ⟨.on engine, counter :: issued, sent⟩
      | .ok (challenge, cryptogram) =>
          ⟨.on engine, counter :: issued, ⟨counter, challengeResponse scp03 counter challenge cryptogram⟩ :: sent⟩

/-- Cards reached from an erased flash of a shape that a journal takes. -/
inductive Run : Device σ → Prop where
  | erased {size slotCount : Nat} {bounded : size < 2 ^ 63} {key : List Byte} (count : 2 ≤ slotCount ∧ slotCount ≤ 8)
      (large : Journal.overhead ≤ size) (whole : size % 4 = 0) :
      Run ⟨.off (Journal.Journal.unopened (MemoryFlash.withSlots size slotCount bounded) key false), [], []⟩
  | powerOn {journal : Journal.Journal} {issued : List Nat} {sent : List Challenge} {power : Power σ}
      (run : Run ⟨.off journal, issued, sent⟩) (budget : Option Nat)
      (opens : issuer.Opens (Journal.Journal.unopened { journal.flash with failAfter := budget } journal.key
        journal.appendEnabled) power) : Run ⟨power, issued, sent⟩
  | work {engine engine' : σ} {issued : List Nat} {sent : List Challenge} (run : Run ⟨.on engine, issued, sent⟩)
      (works : issuer.Works engine engine') : Run ⟨.on engine', issued, sent⟩
  | initializeUpdate {engine : σ} {issued : List Nat} {sent : List Challenge} (run : Run ⟨.on engine, issued, sent⟩)
      (budget : Option Nat) (derived : Except Error (List Byte × List Byte)) :
      Run (initializeUpdate scp03 issuer budget derived engine issued sent)
  | powerOff {engine : σ} {issued : List Nat} {sent : List Challenge} (run : Run ⟨.on engine, issued, sent⟩) :
      Run ⟨.off (issuer.journal engine), issued, sent⟩

/-- No counter is sent twice, each fits its three bytes, and the response carries it. -/
def SentOnce (sent : List Challenge) : Prop :=
  (sent.map Challenge.counter).Nodup ∧ (sent.map fun c => sentCounter c.response).Nodup ∧
    ∀ c ∈ sent, c.counter ≤ 0xffffff ∧ sentCounter c.response = c.counter

/-- What an engine has to show of its counters. -/
structure Issuer.Sound where
  Resting : List Nat → Journal.Journal → Prop
  Guarded : List Nat → σ → Prop
  distinct : ∀ {issued engine}, Guarded issued engine → issued.Nodup
  unopened : ∀ {issued journal} (budget : Option Nat), Resting issued journal →
    Resting issued (Journal.Journal.unopened { journal.flash with failAfter := budget } journal.key journal.appendEnabled)
  erased : ∀ {journal}, Journal.Young journal → Resting [] journal
  rested : ∀ {issued journal}, Resting issued journal → issued.Nodup
  opens : ∀ {issued journal power}, Resting issued journal → issuer.Opens journal power →
    match power with
    | .off journal => Resting issued journal
    | .on engine => Guarded issued engine
  works : ∀ {issued engine engine'}, Guarded issued engine → issuer.Works engine engine' → Guarded issued engine'
  issue : ∀ {issued engine} (budget : Option Nat), Guarded issued engine →
    match issuer.issue budget engine with
    | .ok counter engine => counter ≤ 0xffffff ∧ Guarded (counter :: issued) engine
    | .error _ engine => Guarded issued engine
  powerOff : ∀ {issued engine}, Guarded issued engine → Resting issued (issuer.journal engine)

variable {scp03 issuer}

theorem sentCounter_response {counter : Nat} (h : counter ≤ 0xffffff) (challenge cryptogram : List Byte) :
    sentCounter (challengeResponse scp03 counter challenge cryptogram) = counter := by
  have hDrop : ∀ front : List Byte, ((front ++ toBE 3 counter ++ [0x90, 0]).drop
      ((front ++ toBE 3 counter ++ [0x90, 0]).length - 5)).take 3 = toBE 3 counter := by
    intro front
    have hLength : (front ++ toBE 3 counter ++ [0x90, 0]).length - 5 = front.length := by
      simp only [List.length_append, length_toBE, List.length_cons, List.length_nil]
      omega
    rw [hLength, List.append_assoc, List.drop_left, List.take_append_of_le_length (by simp), List.take_of_length_le (by simp)]
  rw [sentCounter, challengeResponse, hDrop]
  exact fromBE_toBE (lt_of_le_of_lt h (by decide))

/-- The engine's guarantee for one state of the card. -/
def Issuer.Sound.Holds (sound : issuer.Sound) (issued : List Nat) : Power σ → Prop
  | .off journal => sound.Resting issued journal
  | .on engine => sound.Guarded issued engine

/-- What was sent was handed out before. -/
structure Issuer.Sound.Invariant (sound : issuer.Sound) (device : Device σ) : Prop where
  holds : sound.Holds device.issued device.power
  sublist : (device.sent.map Challenge.counter).Sublist device.issued
  carried : ∀ c ∈ device.sent, c.counter ≤ 0xffffff ∧ sentCounter c.response = c.counter

theorem Issuer.Sound.initializeUpdate (sound : issuer.Sound) {engine : σ} {issued : List Nat} {sent : List Challenge}
    (h : sound.Invariant ⟨.on engine, issued, sent⟩) (budget : Option Nat)
    (derived : Except Error (List Byte × List Byte)) :
    sound.Invariant (initializeUpdate scp03 issuer budget derived engine issued sent) := by
  have hIssue := sound.issue budget h.holds
  unfold Transport.initializeUpdate
  split at hIssue
  · rename_i counter after hOk
    obtain ⟨hSmall, hGuarded⟩ := hIssue
    rw [hOk]
    cases derived with
    | error e => exact ⟨hGuarded, h.sublist.cons _, h.carried⟩
    | ok parts =>
        refine ⟨hGuarded, h.sublist.cons_cons _, ?_⟩
        intro c hc
        rcases List.mem_cons.1 hc with rfl | hc
        · exact ⟨hSmall, sentCounter_response hSmall _ _⟩
        · exact h.carried c hc
  · rename_i e after hError
    rw [hError]
    exact ⟨hIssue, h.sublist, h.carried⟩

theorem Run.invariant (sound : issuer.Sound) {device : Device σ} (h : Run scp03 issuer device) : sound.Invariant device := by
  induction h with
  | erased count large whole =>
      refine ⟨sound.erased (Journal.erased_young count large whole), List.Sublist.slnil, ?_⟩
      intro c hc
      cases hc
  | @powerOn journal issued sent power run budget opens ih =>
      have hOpened := sound.opens (sound.unopened budget ih.holds) opens
      refine ⟨?_, ih.sublist, ih.carried⟩
      cases power with
      | off journal' => exact hOpened
      | on engine => exact hOpened
  | work run works ih => exact ⟨sound.works ih.holds works, ih.sublist, ih.carried⟩
  | initializeUpdate run budget derived ih => exact sound.initializeUpdate ih budget derived
  | powerOff run ih => exact ⟨sound.powerOff ih.holds, ih.sublist, ih.carried⟩

/-- An engine that is sound sends each counter once. -/
theorem Run.sentOnce (sound : issuer.Sound) {device : Device σ} (h : Run scp03 issuer device) : SentOnce device.sent := by
  have hInvariant := h.invariant sound
  have hIssued : device.issued.Nodup := by
    have hHolds := hInvariant.holds
    cases hPower : device.power with
    | off journal =>
        rw [hPower] at hHolds
        exact sound.rested hHolds
    | on engine =>
        rw [hPower] at hHolds
        exact sound.distinct hHolds
  have hCounters := hIssued.sublist hInvariant.sublist
  have hSame : device.sent.map (fun c => sentCounter c.response) = device.sent.map Challenge.counter :=
    List.map_congr_left fun c hc => (hInvariant.carried c hc).2
  exact ⟨hCounters, hSame ▸ hCounters, hInvariant.carried⟩

end Runs

section Engines

/-- The Java Card engine. -/
def jcvmIssuer (provider : CryptoProvider) : Issuer Card.Channel where
  journal channel := channel.store.journal
  Opens journal power := ∃ incarnation,
    power = Power.opened Card.Channel.opened (Card.openStore provider (Card.Registry.new incarnation) journal)
  Works channel channel' := ∃ (operation : Card.StoreOperation) (budget : Option Nat), operation.Offered ∧
    channel' = final (Card.onStore (operation.run provider) { channel with store := channel.store.withBudget budget })
  issue budget channel := Card.nextSecureChannelSequence provider { channel with store := channel.store.withBudget budget }

/-- The MC04 engine. -/
def mc04Issuer (provider : CryptoProvider) : Issuer Mc04.Store where
  journal store := store.journal
  Opens journal power := ∃ (incarnation : Except Error (Fixed 16)) (package : Descriptor → Except Error Mc04.StoredPackage)
    (check : Mc04.State → Except Error Unit),
      power = Power.opened Mc04.Store.opened (Mc04.openStore provider incarnation package check journal)
  Works store store' := ∃ (operation : Mc04.StoreOperation) (package : Descriptor → Except Error Mc04.StoredPackage)
    (budget : Option Nat), store' = final (operation.run provider package (store.withBudget budget))
  issue budget store := Mc04.nextSecureChannelSequence provider (store.withBudget budget)

variable {provider : CryptoProvider}

def jcvmSound (hCorrect : provider.Correct) : Issuer.Sound (jcvmIssuer provider) where
  Resting := Card.Resting provider
  Guarded := Card.Guarded provider
  distinct := by
    rintro issued channel ⟨m, first, stop, -, hIssued, -⟩
    exact hIssued.distinct
  unopened := fun budget h => h.unopened budget
  erased := fun h => .inl ⟨h, rfl⟩
  rested := by
    rintro issued journal (⟨-, rfl⟩ | ⟨m, registry, -, -, -, hIssued, -⟩)
    · exact List.nodup_nil
    · exact hIssued.distinct
  opens := by
    rintro issued journal power hResting ⟨incarnation, rfl⟩
    have hOpen := Card.openStore_spec hCorrect incarnation journal hResting
    cases hRun : Card.openStore provider (Card.Registry.new incarnation) journal with
    | ok registry journal' =>
        rw [hRun] at hOpen
        exact hOpen
    | error e journal' =>
        rw [hRun] at hOpen
        exact hOpen
  works := by
    rintro issued channel channel' hGuarded ⟨operation, budget, hOffered, rfl⟩
    exact Triple.final (Card.operation_guarded hCorrect hOffered) (hGuarded.withBudget budget)
  issue := by
    intro issued channel budget hGuarded
    have hIssue := Card.nextSecureChannelSequence_spec hCorrect _ (hGuarded.withBudget budget)
    cases hRun : (jcvmIssuer provider).issue budget channel with
    | ok counter channel' =>
        rw [show Card.nextSecureChannelSequence provider _ = _ from hRun] at hIssue
        exact ⟨hIssue.1, hIssue.2.2⟩
    | error e channel' =>
        rw [show Card.nextSecureChannelSequence provider _ = _ from hRun] at hIssue
        exact hIssue
  powerOff := fun h => h.resting

def mc04Sound (hCorrect : provider.Correct) : Issuer.Sound (mc04Issuer provider) where
  Resting := Mc04.Resting provider
  Guarded := Mc04.Guarded provider
  distinct := by
    rintro issued store ⟨m, -, hIssued⟩
    exact hIssued.distinct
  unopened := fun budget h => h.unopened budget
  erased := fun h => .inl ⟨h, rfl⟩
  rested := by
    rintro issued journal (⟨-, rfl⟩ | ⟨m, -, hIssued⟩)
    · exact List.nodup_nil
    · exact hIssued.distinct
  opens := by
    rintro issued journal power hResting ⟨incarnation, package, check, rfl⟩
    have hOpen := Mc04.openStore_spec hCorrect incarnation package check journal hResting
    cases hRun : Mc04.openStore provider incarnation package check journal with
    | ok state journal' =>
        rw [hRun] at hOpen
        exact hOpen
    | error e journal' =>
        rw [hRun] at hOpen
        exact hOpen
  works := by
    rintro issued store store' hGuarded ⟨operation, package, budget, rfl⟩
    exact Triple.final (Mc04.operation_guarded hCorrect package operation) (hGuarded.withBudget budget)
  issue := by
    intro issued store budget hGuarded
    have hIssue := Mc04.nextSecureChannelSequence_spec hCorrect _ (hGuarded.withBudget budget)
    cases hRun : (mc04Issuer provider).issue budget store with
    | ok counter store' =>
        rw [show Mc04.nextSecureChannelSequence provider _ = _ from hRun] at hIssue
        exact ⟨hIssue.1, hIssue.2.2⟩
    | error e store' =>
        rw [show Mc04.nextSecureChannelSequence provider _ = _ from hRun] at hIssue
        exact hIssue
  powerOff := fun h => h.resting

/-- Counters of the secure channel are never reissued, whichever engine the card runs. -/
theorem sequence_counters_once (hCorrect : provider.Correct) (scp03 : Scp03) :
    (∀ device, Run scp03 (jcvmIssuer provider) device → SentOnce device.sent) ∧
      ∀ device, Run scp03 (mc04Issuer provider) device → SentOnce device.sent :=
  ⟨fun _ h => h.sentOnce (jcvmSound hCorrect), fun _ h => h.sentOnce (mc04Sound hCorrect)⟩

end Engines

section Example

def secureProtocol : Scp03 := ⟨false, true, true, false⟩

/-- The journal of two erased slots of 512 bytes. -/
def erasedJournal : Journal.Journal := Journal.Journal.unopened (MemoryFlash.withSlots 512 2 Journal.longSlot_bounded) [] false

/-- A new Java Card with the power on. -/
def newCard : Power Card.Channel :=
  Power.opened Card.Channel.opened (Card.openStore Journal.plainProvider (Card.Registry.new (Cbor.Fixed.replicate 16 0))
    (Journal.Journal.unopened { erasedJournal.flash with failAfter := none } erasedJournal.key erasedJournal.appendEnabled))

/-- A challenge for a card with the power on. -/
def challenged (device : Device Card.Channel) : Device Card.Channel :=
  match device.power with
  | .off _ => device
  | .on engine =>
      initializeUpdate secureProtocol (jcvmIssuer Journal.plainProvider) none (.ok ([], [])) engine device.issued device.sent

theorem challenged_run {device : Device Card.Channel} (h : Run secureProtocol (jcvmIssuer Journal.plainProvider) device) :
    Run secureProtocol (jcvmIssuer Journal.plainProvider) (challenged device) := by
  obtain ⟨power, issued, sent⟩ := device
  cases power with
  | off journal => exact h
  | on engine => exact h.initializeUpdate none (.ok ([], []))

/-- A new card answers two challenges, with different counters. -/
theorem sequence_counters_once_two_challenges :
    (challenged (challenged ⟨newCard, [], []⟩)).sent.length = 2 ∧
      SentOnce (challenged (challenged ⟨newCard, [], []⟩)).sent := by
  have hSent : (challenged (challenged ⟨newCard, [], []⟩)).sent.length = 2 := by decide +kernel
  have hErased : Run secureProtocol (jcvmIssuer Journal.plainProvider) ⟨.off erasedJournal, [], []⟩ := Run.erased (by decide) (by decide) (by decide)
  have hNew : Run secureProtocol (jcvmIssuer Journal.plainProvider) ⟨newCard, [], []⟩ :=
    hErased.powerOn none ⟨Cbor.Fixed.replicate 16 0, rfl⟩
  exact ⟨hSent, (sequence_counters_once Journal.plainProvider_correct secureProtocol).1 _
    (challenged_run (challenged_run hNew))⟩

end Example

end MicroCard.Transport
