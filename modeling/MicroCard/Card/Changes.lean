import MicroCard.Card.Operations
import MicroCard.Card.Encoding

/-! The changes a management store makes to its registry, and their runs. A change
is computed on a copy; the store commits the copy or drops it. -/
namespace MicroCard.Card

open Bytes CrashTriple Cbor Codec

/-- Publish the ownership of the staging region. -/
def publishRenewal (renewal : Renewal) : RegistryM Unit := do
  modify fun registry => { registry with renewal := some renewal }
  let registry ← get
  readOnly registry.validate

/-- Give the renewed instance its new identity and release the staging region. -/
def finishRenewal : RegistryM Unit := do
  let registry ← get
  match registry.renewal with
  | none => pure ()
  | some renewal => do
      let (slot, instance') ← orFail (registry.instances.lookup fun i => i.aid = renewal.aid) .storage
      set { registry with
        instances := registry.instances.set slot (some { instance' with identity := renewal.newIdentity })
        renewal := none }
      let registry ← get
      readOnly registry.validate

/-- What is computed on a copy of the registry before it is committed. -/
inductive Change where
  | addDomain (aid : Aid) (incarnation : Fixed 16)
  | removeDomain (aid : Aid)
  | reserveSequences (count : UInt32)
  | activate (package : Package) (image : Descriptor)
  | removeLoad (aid : Aid)
  | register (package : Package) (module aid : Aid) (identity : Fixed 16) (heapBank : UInt8)
  | removeInstance (aid : Aid)
  | publishRenewal (renewal : Renewal)
  | finishRenewal

namespace Change

def run : Change → RegistryM Unit
  | addDomain aid incarnation => Card.addDomain aid incarnation
  | removeDomain aid => Card.removeDomain aid
  | reserveSequences count => do
      let _ ← Card.reserveSequences count
  | activate package image => Card.activate package image
  | removeLoad aid => Card.removeLoad aid
  | register package module aid identity heapBank => Card.register package module aid identity heapBank
  | removeInstance aid => Card.removeInstance aid
  | publishRenewal renewal => Card.publishRenewal renewal
  | finishRenewal => Card.finishRenewal

/-- Only a package that passed verification is activated. -/
def Offered : Change → Prop
  | activate package _ => ∃ raw domain incarnation sha256 scratch,
      Package.verify raw domain incarnation sha256 scratch = .ok package
  | _ => True

/-- All changes but the end of a renewal wait until no renewal is pending. -/
def Permitted (change : Change) (registry : Registry) : Prop :=
  change = finishRenewal ∨ registry.renewal = none

end Change

variable {registry next : Registry}

theorem publishRenewal_ok {renewal : Renewal} {u : Unit} (h : publishRenewal renewal registry = .ok u next) :
    next = { registry with renewal := some renewal } ∧ next.Valid := by
  simp only [publishRenewal, bind_ok, get_ok, readOnly_ok] at h
  obtain ⟨_, _, hModify, _, _, ⟨rfl, rfl⟩, hValid, rfl⟩ := h
  cases hModify
  exact ⟨rfl, validate_ok.1 hValid⟩

theorem finishRenewal_ok {u : Unit} (hPending : registry.renewal.isSome = true)
    (h : finishRenewal registry = .ok u next) :
    next.Valid ∧ ∃ renewal slot instance', registry.renewal = some renewal ∧
      registry.instances.lookup (fun i => i.aid = renewal.aid) = some (slot, instance') ∧
      next = { registry with
        instances := registry.instances.set slot (some { instance' with identity := renewal.newIdentity })
        renewal := none } := by
  obtain ⟨renewal, hRenewal⟩ := Option.isSome_iff_exists.1 hPending
  simp only [finishRenewal, bind_ok, get_ok] at h
  obtain ⟨_, _, ⟨rfl, rfl⟩, h⟩ := h
  rw [hRenewal] at h
  simp only [bind_ok, orFail_ok, set_ok, get_ok, readOnly_ok] at h
  obtain ⟨⟨slot, instance'⟩, _, ⟨hLookup, rfl⟩, _, _, rfl, _, _, ⟨rfl, rfl⟩, hValid, rfl⟩ := h
  exact ⟨validate_ok.1 hValid, renewal, slot, instance', hRenewal, hLookup, rfl⟩

theorem finishRenewal_idle {u : Unit} (hIdle : registry.renewal = none) (h : finishRenewal registry = .ok u next) :
    next = registry := by
  simp only [finishRenewal, bind_ok, get_ok] at h
  obtain ⟨_, _, ⟨rfl, rfl⟩, h⟩ := h
  rw [hIdle] at h
  exact (Codec.pure_ok.1 h).2.symm

theorem reserveSequencesChange_ok {count : UInt32} {u : Unit}
    (h : (Change.reserveSequences count).run registry = .ok u next) :
    ∃ range, reserveSequences count registry = .ok range next := by
  simp only [Change.run, bind_ok, Codec.pure_ok] at h
  obtain ⟨range, _, hRun, -, rfl⟩ := h
  exact ⟨range, hRun⟩

/-- Every permitted change keeps the registry valid. -/
theorem Change.valid {change : Change} {u : Unit} (hValid : registry.Valid) (hOffered : change.Offered)
    (hPermitted : change.Permitted registry) (h : change.run registry = .ok u next) : next.Valid := by
  cases change with
  | addDomain aid incarnation => exact addDomain_valid hValid h
  | removeDomain aid => exact removeDomain_valid hValid (hPermitted.resolve_left (by simp)) h
  | reserveSequences count =>
      obtain ⟨range, hRun⟩ := reserveSequencesChange_ok h
      exact reserveSequences_valid hValid hRun
  | activate package image =>
      obtain ⟨raw, domain, incarnation, sha256, scratch, hVerify⟩ := hOffered
      exact activate_valid (Package.verify_ok hVerify).1 hValid (hPermitted.resolve_left (by simp)) h
  | removeLoad aid => exact removeLoad_valid hValid (hPermitted.resolve_left (by simp)) h
  | register package module aid identity heapBank => exact register_valid hValid (hPermitted.resolve_left (by simp)) h
  | removeInstance aid => exact removeInstance_valid hValid (hPermitted.resolve_left (by simp)) h
  | publishRenewal renewal => exact (publishRenewal_ok h).2
  | finishRenewal =>
      cases hRenewal : registry.renewal with
      | none =>
          rw [finishRenewal_idle hRenewal h]
          exact hValid
      | some renewal => exact (finishRenewal_ok (by rw [hRenewal]; rfl) h).1

/-- A registry reached from a new one by permitted changes. -/
inductive Registry.Reachable : Registry → Prop where
  | new (incarnation : Fixed 16) : Registry.Reachable (Registry.new incarnation)
  | change {registry next : Registry} {change : Change} {u : Unit} (reachable : registry.Reachable)
      (offered : change.Offered) (permitted : change.Permitted registry) (ok : change.run registry = .ok u next) :
      Registry.Reachable next

theorem new_valid (incarnation : Fixed 16) : (Registry.new incarnation).Valid := by
  have hDomains : (Registry.new incarnation).domains.entries = [⟨Aid.isd, incarnation⟩] := rfl
  have hLoads : (Registry.new incarnation).loads.entries = [] := SlotTable.entries_empty
  have hInstances : (Registry.new incarnation).instances.entries = [] := SlotTable.entries_empty
  refine ⟨⟨⟨Aid.isd, incarnation⟩, rfl, rfl⟩, Nat.zero_le _, ?_, ?_, ?_, ?_, ?_, ?_⟩
  · rw [hDomains]
    exact List.pairwise_singleton _ _
  · rw [hLoads]
    exact List.Pairwise.nil
  · rw [hLoads]
    exact fun p hp => nomatch hp
  · rw [hInstances]
    exact List.Pairwise.nil
  · rw [hInstances]
    exact fun i hi => nomatch hi
  · exact fun _ hRenewal => nomatch hRenewal

theorem Registry.Reachable.valid (h : registry.Reachable) : registry.Valid := by
  induction h with
  | new incarnation => exact new_valid incarnation
  | change _ offered permitted ok ih => exact Change.valid ih offered permitted ok

end MicroCard.Card
