import MicroCard.Card.Registry
import MicroCard.Library.Checks

/-! What validation establishes, and that every operation keeps it. The checks of
the source are read once, as one predicate over the entries; the operations are
then compared with that predicate only. -/
namespace MicroCard.Card

open Bytes CrashTriple Cbor Codec

section Predicate

/-- Two loads differ in AID and in image slot. -/
def Load.Apart (first second : Load) : Prop := first.aid ≠ second.aid ∧ Registry.sharesSlot first second = false

/-- Two instances share neither AID nor heap bank nor identity. -/
def Instance.Apart (first second : Instance) : Prop :=
  first.aid ≠ second.aid ∧ first.heapBank ≠ second.heapBank ∧ first.identity ≠ second.identity

/-- Two domains differ in AID. -/
def Domain.Apart (first second : Domain) : Prop := first.aid ≠ second.aid

/-- An image in a slot the device has, of a length a package may have. -/
def Descriptor.Bounded (image : Descriptor) : Prop :=
  image.slot.toNat < 64 ∧ image.length ≠ 0 ∧ image.length.toNat ≤ maxPackageBytes

/-- A load that a registry may hold next to its domains. -/
structure Load.Placed (load : Load) (registry : Registry) : Prop where
  version : load.version ≠ 0
  owned : ∃ d ∈ registry.domains.entries, d.aid = load.domain
  fresh : ∀ d ∈ registry.domains.entries, d.aid ≠ load.aid
  image : ∀ image ∈ load.image, image.Bounded

/-- An instance that a registry may hold next to its domains and loads. -/
structure Instance.Placed (instance' : Instance) (registry : Registry) : Prop where
  bank : instance'.heapBank.toNat < maxInstances
  loaded : ∃ p ∈ registry.loads.entries, p.aid = instance'.load ∧ p.domain = instance'.domain ∧ p.image.isSome
  domains : ∀ d ∈ registry.domains.entries, d.aid ≠ instance'.aid
  loads : ∀ p ∈ registry.loads.entries, p.aid ≠ instance'.aid

/-- A renewal of the instance it names, which is still the old one. -/
structure Renewal.Placed (renewal : Renewal) (registry : Registry) : Prop where
  owner : ∃ i ∈ registry.instances.entries, i.aid = renewal.aid ∧ i.heapBank = renewal.bank ∧
    i.identity = renewal.oldIdentity ∧
    ∃ p ∈ registry.loads.entries, p.aid = i.load ∧ ∃ image ∈ p.image, image.digest = renewal.packageDigest
  fresh : ∀ i ∈ registry.instances.entries, i.identity ≠ renewal.newIdentity
  least : seedMinBytes ≤ renewal.recordLength.toNat
  most : renewal.recordLength.toNat ≤ seedMaxBytes

/-- A registry whose entries are apart and whose references resolve. -/
structure Registry.Valid (registry : Registry) : Prop where
  isd : ∃ d, registry.domains.slots.head? = some (some d) ∧ d.aid = Aid.isd
  sequence : registry.sequence.toNat ≤ maxSequence
  domains : registry.domains.entries.Pairwise Domain.Apart
  loads : registry.loads.entries.Pairwise Load.Apart
  load : ∀ p ∈ registry.loads.entries, p.Placed registry
  instances : registry.instances.entries.Pairwise Instance.Apart
  placed : ∀ i ∈ registry.instances.entries, i.Placed registry
  renewal : ∀ renewal ∈ registry.renewal, renewal.Placed registry

end Predicate

section Checks

/-- Checking each entry against those before it checks every pair once. -/
theorem validateEach_from {α : Type} {conflict : α → α → Bool} {refused : α → Bool} (entries : List α) :
    ∀ before : List α,
      validateEach (fun before entry => before.any (fun b => conflict b entry) || refused entry) before entries =
          .ok () ↔
        (∀ a ∈ entries, refused a = false) ∧ (∀ b ∈ before, ∀ a ∈ entries, conflict b a = false) ∧
          entries.Pairwise fun a b => conflict a b = false := by
  induction entries with
  | nil => simp [validateEach]
  | cons a rest ih =>
      intro before
      unfold validateEach
      split
      · rename_i hRefused
        simp only [reduceCtorEq, false_iff, not_and]
        intro hGood hBefore
        rw [Bool.or_eq_true, List.any_eq_true] at hRefused
        rcases hRefused with ⟨b, hb, hConflict⟩ | hBad
        · rw [hBefore b hb a List.mem_cons_self] at hConflict
          cases hConflict
        · rw [hGood a List.mem_cons_self] at hBad
          cases hBad
      · rename_i hPassed
        simp only [Bool.or_eq_true, List.any_eq_true, not_or, not_exists, not_and, Bool.not_eq_true] at hPassed
        rw [ih]
        constructor
        · rintro ⟨hGood, hBefore, hRest⟩
          refine ⟨?_, ?_, List.pairwise_cons.2 ⟨fun b hb => hBefore a (by simp) b hb, hRest⟩⟩
          · intro b hb
            rcases List.mem_cons.1 hb with rfl | hb
            · exact hPassed.2
            · exact hGood b hb
          · intro b hb c hc
            rcases List.mem_cons.1 hc with rfl | hc
            · exact hPassed.1 b hb
            · exact hBefore b (List.mem_append_left _ hb) c hc
        · rintro ⟨hGood, hBefore, hPairs⟩
          rw [List.pairwise_cons] at hPairs
          refine ⟨fun b hb => hGood b (List.mem_cons_of_mem _ hb), ?_, hPairs.2⟩
          intro b hb c hc
          rcases List.mem_append.1 hb with hb | hb
          · exact hBefore b hb c (List.mem_cons_of_mem _ hc)
          · rw [List.mem_singleton.1 hb]
            exact hPairs.1 c hc

theorem validateEach_ok {α : Type} (conflict : α → α → Bool) (refused : α → Bool) {check : List α → α → Bool}
    (hCheck : ∀ before entry, check before entry = (before.any (fun b => conflict b entry) || refused entry))
    {entries : List α} :
    validateEach check [] entries = .ok () ↔
      (∀ a ∈ entries, refused a = false) ∧ entries.Pairwise fun a b => conflict a b = false := by
  have hEq : check = fun before entry => before.any (fun b => conflict b entry) || refused entry := by
    funext before entry
    exact hCheck before entry
  rw [hEq, validateEach_from]
  simp

theorem validateDomains_ok {registry : Registry} :
    validateEach Registry.refusesDomain [] registry.domains.entries = .ok () ↔
      registry.domains.entries.Pairwise Domain.Apart := by
  rw [validateEach_ok (fun b d => b.aid = d.aid) fun _ => false]
  · simp only [decide_eq_false_iff_not, implies_true, true_and]
    rfl
  · intro before entry
    simp [Registry.refusesDomain]

theorem validateLoads_ok {registry : Registry} :
    validateEach registry.refusesLoad [] registry.loads.entries = .ok () ↔
      (∀ p ∈ registry.loads.entries, p.Placed registry) ∧ registry.loads.entries.Pairwise Load.Apart := by
  rw [validateEach_ok (fun p load => p.aid = load.aid || Registry.sharesSlot p load) fun load =>
    load.version = 0 || !registry.domains.entries.any (fun d => d.aid = load.domain) ||
      registry.domains.entries.any (fun d => d.aid = load.aid) ||
      load.image.any fun image => 64 ≤ image.slot.toNat || image.length = 0 || maxPackageBytes < image.length.toNat]
  · apply and_congr
    · refine forall₂_congr fun p _ => ?_
      constructor
      · intro h
        simp only [Bool.or_eq_false_iff, decide_eq_false_iff_not, Bool.not_eq_false', List.any_eq_true,
          decide_eq_true_eq, List.any_eq_false] at h
        refine ⟨h.1.1.1, h.1.1.2, h.1.2, fun image hImage => ?_⟩
        have hBad := h.2
        rw [Option.mem_def.1 hImage] at hBad
        simp only [Option.any_some, Bool.or_eq_false_iff, decide_eq_false_iff_not, not_le, not_lt] at hBad
        exact ⟨hBad.1.1, hBad.1.2, hBad.2⟩
      · intro h
        simp only [Bool.or_eq_false_iff, decide_eq_false_iff_not, Bool.not_eq_false', List.any_eq_true,
          decide_eq_true_eq, List.any_eq_false]
        refine ⟨⟨⟨h.version, h.owned⟩, h.fresh⟩, ?_⟩
        cases hImage : p.image with
        | none => rfl
        | some image =>
            obtain ⟨hSlot, hLength, hMost⟩ := h.image image hImage
            simp [hLength, Nat.not_le.2 hSlot, Nat.not_lt.2 hMost]
    · simp only [Bool.or_eq_false_iff, decide_eq_false_iff_not]
      rfl
  · intro before entry
    simp only [Registry.refusesLoad]
    generalize before.any _ = conflicts
    generalize Option.any _ _ = bad
    cases conflicts <;> cases bad <;> simp

theorem validateInstances_ok {registry : Registry} :
    validateEach registry.refusesInstance [] registry.instances.entries = .ok () ↔
      (∀ i ∈ registry.instances.entries, i.Placed registry) ∧ registry.instances.entries.Pairwise Instance.Apart := by
  rw [validateEach_ok (fun i j => i.aid = j.aid || i.heapBank = j.heapBank || i.identity = j.identity) fun i =>
    maxInstances ≤ i.heapBank.toNat ||
      !registry.loads.entries.any (fun p => p.aid = i.load && p.domain = i.domain && p.image.isSome) ||
      registry.domains.entries.any (fun d => d.aid = i.aid) || registry.loads.entries.any fun p => p.aid = i.aid]
  · apply and_congr
    · refine forall₂_congr fun i _ => ?_
      simp only [Bool.or_eq_false_iff, decide_eq_false_iff_not, Bool.not_eq_false', List.any_eq_true,
        decide_eq_true_eq, List.any_eq_false, Bool.and_eq_true, not_le]
      constructor
      · rintro ⟨⟨⟨hBank, p, hp, ⟨hAid, hDomain⟩, hImage⟩, hDomains⟩, hLoads⟩
        exact ⟨hBank, ⟨p, hp, hAid, hDomain, hImage⟩, hDomains, hLoads⟩
      · intro h
        obtain ⟨p, hp, hAid, hDomain, hImage⟩ := h.loaded
        exact ⟨⟨⟨h.bank, p, hp, ⟨hAid, hDomain⟩, hImage⟩, h.domains⟩, h.loads⟩
    · simp only [Bool.or_eq_false_iff, decide_eq_false_iff_not, and_assoc]
      rfl
  · intro before entry
    simp only [Registry.refusesInstance]
    generalize before.any _ = conflicts
    cases conflicts <;> simp

theorem Registry.sharesSlot_comm (first second : Load) : sharesSlot first second = sharesSlot second first := by
  unfold sharesSlot
  cases first.image <;> cases second.image <;> simp [eq_comm]

instance : Std.Symm Domain.Apart := ⟨fun _ _ h => Ne.symm h⟩

instance : Std.Symm Instance.Apart := ⟨fun _ _ h => ⟨h.1.symm, h.2.1.symm, h.2.2.symm⟩⟩

instance : Std.Symm Load.Apart := ⟨fun first second h => ⟨h.1.symm, Registry.sharesSlot_comm first second ▸ h.2⟩⟩

/-- The instance of an AID is the one a search finds. -/
theorem find_instance {entries : List Instance} (hApart : entries.Pairwise Instance.Apart) {i : Instance} {aid : Aid}
    (hMem : i ∈ entries) (hAid : i.aid = aid) : entries.find? (fun i => i.aid = aid) = some i := by
  cases hFind : entries.find? fun i => i.aid = aid with
  | none =>
      have := List.find?_eq_none.1 hFind i hMem
      simp [hAid] at this
  | some j =>
      have hFound : j.aid = aid := by simpa using List.find?_some hFind
      by_contra hNe
      have hApart' := hApart.forall hMem (List.mem_of_find?_eq_some hFind) fun hEq => hNe (by rw [hEq])
      exact hApart'.1 (hAid.trans hFound.symm)

theorem renewalValidate_ok {renewal : Renewal} {registry : Registry}
    (hApart : registry.instances.entries.Pairwise Instance.Apart) :
    renewal.validate registry = .ok () ↔ renewal.Placed registry := by
  simp only [Renewal.validate, Checks.bind_ok, Checks.orFail_ok, Checks.failIf_ok, not_or, not_not, not_lt,
    List.any_eq_true, Bool.not_eq_true', Bool.and_eq_true, decide_eq_true_eq, not_exists, not_and,
    Bool.not_eq_false, Option.any_eq_true]
  constructor
  · rintro ⟨i, hFind, hBank, hIdentity, hFresh, hLeast, hMost, p, hp, hLoad, image, hImage, hDigest⟩
    have hAid : i.aid = renewal.aid := by simpa using List.find?_some hFind
    exact ⟨⟨i, List.mem_of_find?_eq_some hFind, hAid, hBank, hIdentity, p, hp, hLoad, image, hImage, hDigest⟩,
      hFresh, hLeast, hMost⟩
  · rintro ⟨⟨i, hMem, hAid, hBank, hIdentity, p, hp, hLoad, image, hImage, hDigest⟩, hFresh, hLeast, hMost⟩
    exact ⟨i, find_instance hApart hMem hAid, hBank, hIdentity, hFresh, hLeast, hMost, p, hp, hLoad, image, hImage,
      hDigest⟩

/-- Validation decides the predicate. -/
theorem validate_ok {registry : Registry} : registry.validate = .ok () ↔ registry.Valid := by
  have hFirst : (¬((registry.domains.slots.head?.join.all fun d => decide (d.aid ≠ Aid.isd)) = true ∨
      maxSequence < registry.sequence.toNat)) ↔
      (∃ d, registry.domains.slots.head? = some (some d) ∧ d.aid = Aid.isd) ∧
        registry.sequence.toNat ≤ maxSequence := by
    rw [not_or, not_lt]
    refine and_congr_left fun _ => ?_
    cases registry.domains.slots.head? with
    | none => simp
    | some slot => cases slot <;> simp
  simp only [Registry.validate, Checks.bind_ok, Checks.failIf_ok, hFirst]
  constructor
  · rintro ⟨_, ⟨hIsd, hSequence⟩, _, hDomains, _, hLoads, _, hInstances, hRenewal⟩
    rw [validateDomains_ok] at hDomains
    rw [validateLoads_ok] at hLoads
    rw [validateInstances_ok] at hInstances
    refine ⟨hIsd, hSequence, hDomains, hLoads.2, hLoads.1, hInstances.2, hInstances.1, fun renewal hMem => ?_⟩
    rw [Option.mem_def.1 hMem] at hRenewal
    exact (renewalValidate_ok hInstances.2).1 hRenewal
  · intro h
    refine ⟨(), ⟨h.isd, h.sequence⟩, (), validateDomains_ok.2 h.domains, (), validateLoads_ok.2 ⟨h.load, h.loads⟩, (),
      validateInstances_ok.2 ⟨h.placed, h.instances⟩, ?_⟩
    cases hRenewal : registry.renewal with
    | none => rfl
    | some renewal => exact (renewalValidate_ok h.instances).2 (h.renewal renewal hRenewal)

end Checks

end MicroCard.Card
