import MicroCard.Journal.Rollback

/-! What a journal holds, for its clients: nothing yet, or a snapshot with a property.
Neither a failure at any step of an operation nor a loss of power takes the property
from the snapshot that a recovery will select. -/
namespace MicroCard.Journal

open Bytes CrashTriple

variable {provider : CryptoProvider} {P P' : Contents → Prop}

/-- The journal stores a snapshot with a property. -/
def Records (provider : CryptoProvider) (P : Contents → Prop) (j : Journal) : Prop :=
  ∃ e, Keeps provider j e ∧ P e.contents

/-- Whatever the journal stores has the property; before its first commit is done, it
may store nothing. -/
def Holding (provider : CryptoProvider) (P : Contents → Prop) (j : Journal) : Prop := Young j ∨ Records provider P j

theorem Records.weaken {j : Journal} (h : Records provider P j) (hImp : ∀ contents, P contents → P' contents) :
    Records provider P' j := by
  obtain ⟨e, hKeeps, hP⟩ := h
  exact ⟨e, hKeeps, hImp _ hP⟩

theorem Records.withBudget {j : Journal} (h : Records provider P j) (budget : Option Nat) :
    Records provider P (j.withBudget budget) := by
  obtain ⟨e, hKeeps, hP⟩ := h
  exact ⟨e, hKeeps.withBudget budget, hP⟩

/-- Recovery yields the stored snapshot, and keeps it even when it fails. -/
theorem recover_records (provider : CryptoProvider) (P : Contents → Prop) (allowUnreconciled : Bool) :
    Triple (Records provider P) (recoverWithReplayMode provider recorder allowUnreconciled)
      (fun contents j => Records provider P j ∧ ∃ data, contents = some data ∧ P data)
      fun _ j => Records provider P j := by
  apply Triple.of_state
  rintro j ⟨e, hKeeps, hP⟩
  apply (recoverWithReplayMode_spec allowUnreconciled hKeeps).conseq (fun _ h => h)
  · rintro contents j' ⟨rfl, hKept, -⟩
    exact ⟨⟨e, hKept, hP⟩, _, rfl, hP⟩
  · rintro err j' ⟨hKept, -⟩
    exact ⟨e, hKept, hP⟩

/-- A commit replaces the snapshot, or fails and leaves the old or the new one. -/
theorem commit_records (hCorrect : provider.Correct) {data : List Byte} (hNew : P' ⟨data, []⟩) (hData : P ⟨data, []⟩)
    (token : Option Nat) : Triple (Records provider P) (commitOwnedWithNonce data .anchored provider token)
      (fun _ j => Records provider P' j) fun _ j => Records provider P j := by
  apply Triple.of_state
  rintro j ⟨e, hKeeps, hP⟩
  have hWritten : ∀ {e' : Epoch}, (nextGeneration e.generation j.appendEnabled .anchored).toOption.map
      (fun g => Logical.mk g ⟨data, []⟩) = some e'.logical → e'.contents = ⟨data, []⟩ := by
    intro e' hAfter
    obtain ⟨g, -, hLogical⟩ := Option.map_eq_some_iff.1 hAfter
    exact (congrArg Logical.contents hLogical).symm
  apply (commit_logical hCorrect hKeeps fun _ => rfl).conseq (fun _ h => h)
  · rintro _ j' ⟨e', hKept, hAfter⟩
    exact ⟨e', hKept, (hWritten hAfter).symm ▸ hNew⟩
  · rintro _ j' ⟨e', hKept, hOld | hAfter⟩
    · have hContents : e'.contents = e.contents := congrArg Logical.contents hOld
      rw [← hContents] at hP
      exact ⟨e', hKept, hP⟩
    · exact ⟨e', hKept, (hWritten hAfter).symm ▸ hData⟩

theorem Young.withBudget {j : Journal} (h : Young j) (budget : Option Nat) : Young (j.withBudget budget) := by
  obtain ⟨reserved, hNascent, hUnwritten⟩ := h
  exact ⟨reserved, { hNascent with }, fun hIntact => { hUnwritten hIntact with flash := { (hUnwritten hIntact).flash with } }⟩

theorem Young.unopened {j : Journal} (h : Young j) (budget : Option Nat) :
    Young (Journal.unopened { j.flash with failAfter := budget } j.key j.appendEnabled) := by
  obtain ⟨reserved, hNascent, -⟩ := h
  exact ⟨reserved, { hNascent with }, fun hIntact => nomatch hIntact⟩

/-- An erased flash of the shape a journal takes holds nothing. -/
theorem erased_young {size slotCount : Nat} {bounded : size < 2 ^ 63} {key : List Byte}
    (hCount : 2 ≤ slotCount ∧ slotCount ≤ 8) (hLarge : overhead ≤ size) (hWhole : size % 4 = 0) :
    Young (Journal.unopened (MemoryFlash.withSlots size slotCount bounded) key false) := by
  have hCounter : CounterIs (fun _ => 0xff) size 0 :=
    ⟨Nat.zero_le _, fun i hi => absurd hi (Nat.not_lt_zero i), fun i _ _ => rfl⟩
  have hFresh : FreshFlash (MemoryFlash.withSlots size slotCount bounded) 0 :=
    ⟨hCount.1, hCount.2, hWhole, hLarge, hCounter, hCounter, fun _ _ _ _ => rfl⟩
  exact ⟨0, hFresh.nascent, fun hIntact => nomatch hIntact⟩

/-- Recovery finds nothing, or the stored snapshot. -/
theorem recover_holding (provider : CryptoProvider) (P : Contents → Prop) (allowUnreconciled : Bool) :
    Triple (Holding provider P) (recoverWithReplayMode provider recorder allowUnreconciled)
      (fun contents j => (contents = none ∧ Young j) ∨ Records provider P j ∧ ∃ data, contents = some data ∧ P data)
      fun _ j => Holding provider P j := by
  apply Triple.of_state
  rintro j (⟨reserved, hNascent, -⟩ | hRecords)
  · exact (recover_young hNascent).conseq (fun _ h => h) (fun _ _ h => .inl h) fun _ _ h => .inl h
  · exact ((recover_records provider P allowUnreconciled).at hRecords).conseq (fun _ h => h) (fun _ _ h => .inr h) fun _ _ h => .inr h

/-- The first commit stores its snapshot, or fails with it stored or with nothing. -/
theorem commit_young (hCorrect : provider.Correct) {data : List Byte} (hData : P ⟨data, []⟩) (token : Option Nat) :
    Triple Young (commitOwnedWithNonce data .anchored provider token) (fun _ j => Records provider P j)
      fun _ j => Holding provider P j := by
  apply Triple.of_state
  intro j hYoung
  cases hIntact : j.poisoned with
  | true =>
      apply Triple.get
      rintro s rfl
      apply Triple.failIf_bind
      · rintro - _ rfl
        exact .inl hYoung
      · intro hNot
        exact absurd hIntact hNot
  | false =>
      obtain ⟨reserved, -, hUnwritten⟩ := hYoung
      apply (commit_first_spec hCorrect (hUnwritten hIntact) fun _ => rfl).conseq (fun _ h => h)
      · rintro _ j' ⟨-, attempt, generation, reserved', -, -, hLive⟩
        exact ⟨_, hLive.keeps, hData⟩
      · rintro _ j' ⟨-, ⟨hStill, -⟩ | ⟨attempt, generation, -, -, ⟨hStill, -⟩ | hKeeps⟩⟩
        · exact .inl hStill
        · exact .inl hStill
        · exact .inr ⟨_, hKeeps, hData⟩

end MicroCard.Journal
