import MicroCard.Card.Changes
import MicroCard.Jcvm.Package

/-! Rollback policy over whole histories. The registry enforces it from the retained
entry of a load alone: the entry keeps the version when the image is deleted, but
not the digest of the deleted image. -/
namespace MicroCard.Card

open Bytes CrashTriple Cbor Codec

/-- What a history shows of a load. -/
inductive Event where
  | activated (domain load : Aid) (version : UInt32) (digest : Fixed 32)
  | deleted (load : Aid)
  deriving DecidableEq

def Change.event : Change → Option Event
  | .activate package _ =>
      match Aid.new package.manifest.domain, Aid.new package.manifest.package with
      | .ok domain, .ok load => some (.activated domain load package.manifest.version package.digest)
      | _, _ => none
  | .removeLoad aid => some (.deleted aid)
  | _ => none

/-- The events of a run in which the domain is never removed. -/
inductive History (domain : Aid) (start : Registry) : List Event → Registry → Prop where
  | start : History domain start [] start
  | step {events : List Event} {registry next : Registry} {change : Change} {u : Unit}
      (earlier : History domain start events registry) (offered : change.Offered)
      (permitted : change.Permitted registry) (kept : change ≠ .removeDomain domain)
      (ok : change.run registry = .ok u next) : History domain start (events ++ change.event.toList) next

/-- The entry of a load that was once activated as version `version` with this
digest. Its version is not lower, and unless the load was deleted since, the same
version still means the same image. -/
def Held (domain load : Aid) (version : UInt32) (digest : Fixed 32) (deleted : Prop) (registry : Registry) : Prop :=
  ∃ p ∈ registry.loads.entries, p.aid = load ∧ p.domain = domain ∧ version ≤ p.version ∧
    (¬deleted → p.version = version → ∃ image ∈ p.image, image.digest = digest)

variable {domain load : Aid} {version : UInt32} {digest : Fixed 32} {deleted : Prop} {registry next : Registry}

theorem Held.mono {deleted' : Prop} (h : Held domain load version digest deleted registry) (hMore : deleted → deleted') :
    Held domain load version digest deleted' registry := by
  obtain ⟨p, hp, hAid, hDomain, hVersion, hImage⟩ := h
  exact ⟨p, hp, hAid, hDomain, hVersion, fun hNot => hImage fun hDeleted => hNot (hMore hDeleted)⟩

/-- A change that leaves the loads alone keeps what they hold. -/
theorem Held.of_loads (h : Held domain load version digest deleted registry) (hLoads : next.loads = registry.loads) :
    Held domain load version digest deleted next := by
  unfold Held
  rw [hLoads]
  exact h

/-- The entry of an AID is the one a lookup finds. -/
theorem load_unique (hValid : registry.Valid) {index : Nat} {p previous : Load} {aid : Aid}
    (hFound : registry.loads.lookup (fun p => p.aid = aid) = some (index, previous))
    (hp : p ∈ registry.loads.entries) (hAid : p.aid = aid) : p = previous := by
  have hPrevious : previous.aid = aid := by simpa using SlotTable.select_lookup hFound
  by_contra hNe
  exact (hValid.loads.forall hp (SlotTable.mem_lookup hFound) hNe).1 (hAid.trans hPrevious.symm)

/-- An activation of the load. Its version is not lower than the held one, and the
same version has the same digest unless the load was deleted since. -/
theorem Held.activates (hValid : registry.Valid) (h : Held domain load version digest deleted registry)
    {package : Package} {index : Nat} (hActivates : Activates registry domain load package index) :
    version ≤ package.manifest.version ∧
      (¬deleted → package.manifest.version = version → package.digest = digest) := by
  obtain ⟨p, hp, hAid, -, hVersion, hImage⟩ := h
  cases hActivates with
  | first hUnused => exact absurd hAid ((inUse_eq_false hUnused).2.1 p hp)
  | again previous image hFound _ hActive hSame hDigest =>
      have hEq := load_unique hValid hFound hp hAid
      subst hEq
      refine ⟨hSame ▸ hVersion, fun hKept hVersionEq => ?_⟩
      obtain ⟨held, hHeld, hHeldDigest⟩ := hImage hKept (hSame.symm.trans hVersionEq)
      rw [hActive] at hHeld
      cases hHeld
      exact hDigest.symm.trans hHeldDigest
  | replace previous hFound _ hNewer hChanged =>
      have hEq := load_unique hValid hFound hp hAid
      subst hEq
      refine ⟨UInt32.le_trans hVersion hNewer, fun hKept hVersionEq => ?_⟩
      have hSame : p.version = version := UInt32.le_antisymm (hVersionEq ▸ hNewer) hVersion
      obtain ⟨held, hHeld, -⟩ := hImage hKept hSame
      rw [hChanged (hVersionEq.trans hSame.symm)] at hHeld
      cases hHeld

theorem Held.activated (hValid : registry.Valid) (h : Held domain load version digest deleted registry)
    {package : Package} {image : Descriptor} {u : Unit} (hRun : activate package image registry = .ok u next) :
    Held domain load version digest deleted next := by
  obtain ⟨owner, aid, index, -, -, -, hActivates, hDigest, -, -, -, rfl⟩ := activate_ok hRun
  by_cases hLoad : aid = load
  · subst hLoad
    have hOwner : owner = domain := by
      obtain ⟨p, hp, hAid, hDomain, -⟩ := h
      cases hActivates with
      | first hUnused => exact absurd hAid ((inUse_eq_false hUnused).2.1 p hp)
      | again previous _ hFound hOwner => exact hOwner.symm.trans (load_unique hValid hFound hp hAid ▸ hDomain)
      | replace previous hFound hOwner => exact hOwner.symm.trans (load_unique hValid hFound hp hAid ▸ hDomain)
    subst hOwner
    obtain ⟨hVersion, hSame⟩ := h.activates hValid hActivates
    refine ⟨⟨owner, aid, package.manifest.version, some image⟩, ?_, rfl, rfl, hVersion, fun hKept hEq =>
      ⟨image, rfl, hDigest.trans (hSame hKept hEq)⟩⟩
    cases hActivates with
    | first _ hFree => exact (SlotTable.mem_fill hFree).2 (.inl rfl)
    | again previous _ hFound => exact SlotTable.mem_written hFound
    | replace previous hFound => exact SlotTable.mem_written hFound
  · obtain ⟨p, hp, hAid, hHeld⟩ := h
    refine ⟨p, ?_, hAid, hHeld⟩
    have hOther : ∀ {previous : Load}, registry.loads.lookup (fun p => p.aid = aid) = some (index, previous) →
        p ∈ (registry.loads.set index (some ⟨owner, aid, package.manifest.version, some image⟩)).entries := by
      intro previous hFound
      refine SlotTable.mem_kept hFound hp ?_
      rintro rfl
      have hPrevious : p.aid = aid := by simpa using SlotTable.select_lookup hFound
      exact hLoad (hPrevious.symm.trans hAid)
    cases hActivates with
    | first _ hFree => exact (SlotTable.mem_fill hFree).2 (.inr hp)
    | again previous _ hFound => exact hOther hFound
    | replace previous hFound => exact hOther hFound

theorem Held.removed (hValid : registry.Valid) (h : Held domain load version digest deleted registry) {aid : Aid}
    {u : Unit} (hRun : removeLoad aid registry = .ok u next) :
    Held domain load version digest (deleted ∨ aid = load) next := by
  obtain ⟨-, slot, removed, hFound, -, rfl⟩ := removeLoad_ok hRun
  have hRemoved : removed.aid = aid := by simpa using SlotTable.select_lookup hFound
  obtain ⟨p, hp, hAid, hDomain, hVersion, hImage⟩ := h
  by_cases hLoad : aid = load
  · have hEq := load_unique hValid hFound hp (hAid.trans hLoad.symm)
    subst hEq
    exact ⟨{ p with image := none }, SlotTable.mem_written hFound, hAid, hDomain, hVersion,
      fun hNot => absurd (.inr hLoad) hNot⟩
  · refine ⟨p, SlotTable.mem_kept hFound hp ?_, hAid, hDomain, hVersion, fun hNot => hImage fun h => hNot (.inl h)⟩
    rintro rfl
    exact hLoad (hRemoved.symm.trans hAid)

/-- One change of a history keeps what a load holds, up to its own deletion. -/
theorem Held.step (hValid : registry.Valid) (h : Held domain load version digest deleted registry) {change : Change}
    {u : Unit} (hKept : change ≠ .removeDomain domain) (hRun : change.run registry = .ok u next) :
    Held domain load version digest (deleted ∨ Event.deleted load ∈ change.event.toList) next := by
  cases change with
  | addDomain aid incarnation =>
      obtain ⟨-, slot, -, rfl⟩ := addDomain_ok hRun
      exact (h.of_loads rfl).mono .inl
  | removeDomain aid =>
      obtain ⟨-, slot, d, -, rfl⟩ := removeDomain_ok hRun
      obtain ⟨p, hp, hAid, hDomain, hHeld⟩ := h
      refine Held.mono ⟨p, ?_, hAid, hDomain, hHeld⟩ .inl
      rw [SlotTable.entries_clear, List.mem_filter]
      refine ⟨hp, ?_⟩
      simp only [hDomain, Bool.not_eq_eq_eq_not, Bool.not_true, decide_eq_false_iff_not]
      rintro rfl
      exact hKept rfl
  | reserveSequences count =>
      obtain ⟨range, hReserve⟩ := reserveSequencesChange_ok hRun
      obtain ⟨stop, -, -, -, -, rfl⟩ := reserveSequences_ok hReserve
      exact (h.of_loads rfl).mono .inl
  | activate package image => exact (h.activated hValid hRun).mono .inl
  | removeLoad aid =>
      refine (h.removed hValid hRun).mono (Or.imp_right fun hEq => ?_)
      rw [hEq]
      exact List.mem_singleton.2 rfl
  | register package module aid identity heapBank =>
      obtain ⟨_, _, slot, -, -, -, -, -, rfl⟩ := register_ok hRun
      exact (h.of_loads rfl).mono .inl
  | removeInstance aid =>
      obtain ⟨slot, i, -, rfl⟩ := removeInstance_ok hRun
      exact (h.of_loads rfl).mono .inl
  | publishRenewal renewal =>
      obtain ⟨rfl, -⟩ := publishRenewal_ok hRun
      exact (h.of_loads rfl).mono .inl
  | finishRenewal =>
      refine (h.of_loads ?_).mono .inl
      cases hRenewal : registry.renewal with
      | none =>
          rw [finishRenewal_idle hRenewal hRun]
      | some renewal =>
          obtain ⟨-, _, _, _, -, -, rfl⟩ := finishRenewal_ok (by rw [hRenewal]; rfl) hRun
          rfl

section Histories

variable {start last : Registry} {events : List Event}

theorem History.valid (h : History domain start events last) (hValid : start.Valid) : last.Valid := by
  induction h with
  | start => exact hValid
  | step _ offered permitted _ ok ih => exact Change.valid ih offered permitted ok

/-- Each event of a history was made by a change, after the events before it. -/
theorem History.at (h : History domain start events last) {before after : List Event} {event : Event}
    (hEvents : events = before ++ event :: after) :
    ∃ registry next change u, History domain start before registry ∧ Change.run change registry = .ok u next ∧
      change.event = some event := by
  induction h generalizing after with
  | start => simp at hEvents
  | @step events registry next change u earlier offered permitted kept ok ih =>
      cases hEvent : change.event with
      | none =>
          rw [hEvent, Option.toList_none, List.append_nil] at hEvents
          exact ih hEvents
      | some new =>
          rw [hEvent, Option.toList_some] at hEvents
          rcases List.eq_nil_or_concat after with rfl | ⟨after', final, rfl⟩
          · obtain ⟨rfl, hNew⟩ := List.append_inj' hEvents rfl
            cases hNew
            exact ⟨registry, next, change, u, earlier, ok, hEvent⟩
          · rw [List.concat_eq_append, ← List.cons_append, ← List.append_assoc] at hEvents
            exact ih (List.append_inj' hEvents rfl).1

theorem activate_event {package : Package} {image : Descriptor} {u : Unit}
    (hEvent : (Change.activate package image).event = some (.activated domain load version digest))
    (hRun : activate package image registry = .ok u next) :
    package.manifest.version = version ∧ package.digest = digest ∧
      ∃ index, Activates registry domain load package index := by
  obtain ⟨domain', load', index, hDomain, hLoad, -, hActivates, -⟩ := activate_ok hRun
  simp only [Change.event, hDomain, hLoad, Option.some.injEq, Event.activated.injEq] at hEvent
  obtain ⟨rfl, rfl, hVersion, hDigest⟩ := hEvent
  exact ⟨hVersion, hDigest, index, hActivates⟩

theorem event_activated {change : Change}
    (hEvent : change.event = some (.activated domain load version digest)) :
    ∃ package image, change = .activate package image := by
  cases change with
  | activate package image => exact ⟨package, image, rfl⟩
  | removeLoad aid => cases hEvent
  | _ => cases hEvent

/-- A fresh activation is held. -/
theorem Held.of_activation {package : Package} {image : Descriptor} {u : Unit}
    (hEvent : (Change.activate package image).event = some (.activated domain load version digest))
    (hRun : activate package image registry = .ok u next) : Held domain load version digest False next := by
  obtain ⟨domain', load', index, hDomain, hLoad, -, hActivates, hDigest, -, -, -, rfl⟩ := activate_ok hRun
  simp only [Change.event, hDomain, hLoad, Option.some.injEq, Event.activated.injEq] at hEvent
  obtain ⟨rfl, rfl, rfl, rfl⟩ := hEvent
  refine ⟨⟨domain', load', package.manifest.version, some image⟩, ?_, rfl, rfl, UInt32.le_refl _,
    fun _ _ => ⟨image, rfl, hDigest⟩⟩
  cases hActivates with
  | first _ hFree => exact (SlotTable.mem_fill hFree).2 (.inl rfl)
  | again previous _ hFound => exact SlotTable.mem_written hFound
  | replace previous hFound => exact SlotTable.mem_written hFound

/-- What was activated stays held to the end of the history, up to a deletion. -/
theorem History.held (h : History domain start events last) (hValid : start.Valid) {before after : List Event}
    (hEvents : events = before ++ .activated domain load version digest :: after) :
    Held domain load version digest (Event.deleted load ∈ after) last := by
  induction h generalizing after with
  | start => simp at hEvents
  | @step events registry next change u earlier offered permitted kept ok ih =>
      have hRegistry := earlier.valid hValid
      cases hEvent : change.event with
      | none =>
          rw [hEvent, Option.toList_none, List.append_nil] at hEvents
          refine ((ih hEvents).step hRegistry kept ok).mono fun hDeleted => ?_
          simpa [hEvent] using hDeleted
      | some new =>
          rw [hEvent, Option.toList_some] at hEvents
          rcases List.eq_nil_or_concat after with rfl | ⟨after', final, rfl⟩
          · obtain ⟨rfl, hNew⟩ := List.append_inj' hEvents rfl
            cases hNew
            obtain ⟨package, image, rfl⟩ := event_activated hEvent
            exact (Held.of_activation hEvent ok).mono False.elim
          · rw [List.concat_eq_append, ← List.cons_append, ← List.append_assoc] at hEvents
            obtain ⟨hBefore, hNew⟩ := List.append_inj' hEvents rfl
            cases hNew
            refine ((ih hBefore).step hRegistry kept ok).mono fun hDeleted => ?_
            simpa [hEvent] using hDeleted

/-- Rollback policy over a history of one security domain. The version of a load
never goes down, and one version is activated with one digest between two deletions
of the load. -/
theorem load_history (h : History domain start events last) (hValid : start.Valid) {before middle after : List Event}
    {later : UInt32} {other : Fixed 32}
    (hEvents : events = before ++ .activated domain load version digest ::
      (middle ++ .activated domain load later other :: after)) :
    version ≤ later ∧ (later = version → Event.deleted load ∉ middle → other = digest) := by
  rw [← List.cons_append, ← List.append_assoc] at hEvents
  obtain ⟨registry, next, change, u, hHistory, hRun, hEvent⟩ := h.at hEvents
  obtain ⟨package, image, rfl⟩ := event_activated hEvent
  obtain ⟨rfl, rfl, index, hActivates⟩ := activate_event hEvent hRun
  obtain ⟨hVersion, hSame⟩ := (hHistory.held hValid rfl).activates (hHistory.valid hValid) hActivates
  exact ⟨hVersion, fun hEq hKept => hSame hKept hEq⟩

end Histories

section Reload

/-- What a change leaves, and whether it was accepted. -/
def Change.after (change : Change) (registry : Registry) : Registry :=
  match change.run registry with
  | .ok _ next => next
  | .error _ next => next

def Change.accepted (change : Change) (registry : Registry) : Bool :=
  match change.run registry with
  | .ok _ _ => true
  | .error _ _ => false

theorem Change.run_after {change : Change} {registry : Registry} (h : change.accepted registry = true) :
    change.run registry = .ok () (change.after registry) := by
  unfold Change.accepted at h
  unfold Change.after
  cases hRun : change.run registry with
  | ok u next => rfl
  | error e next =>
      rw [hRun] at h
      cases h

theorem History.accepted {domain : Aid} {start registry : Registry} {events : List Event}
    (h : History domain start events registry) (change : Change) (hOffered : change.Offered)
    (hIdle : registry.renewal = none) (hKept : change ≠ .removeDomain domain)
    (hAccepted : change.accepted registry = true) :
    History domain start (events ++ change.event.toList) (change.after registry) :=
  h.step hOffered (.inr hIdle) hKept (Change.run_after hAccepted)

/-- A stand-in for the hash; it tells load files of different lengths apart. -/
def lengthDigest (raw : List Byte) : Fixed 32 := ⟨List.replicate 32 (UInt8.ofNat raw.length), List.length_replicate⟩

def oneIncarnation : Fixed 16 := ⟨List.replicate 16 1, List.length_replicate⟩

/-- A load file with one method, and the same file with a `nop` before its `return`. -/
def plainFile : List Byte := Jcvm.Package.build {}
def paddedFile : List Byte := Jcvm.Package.build { code := [0x00, 0x7a] }

/-- The package that verification makes of one of the two files. -/
def packageOf (raw : List Byte) : Package where
  image := raw
  digest := lengthDigest raw
  manifest := {
    domain := Aid.isd.bytes
    incarnation := oneIncarnation
    package := [0xf0, 1, 2, 3, 4]
    packageVersion := (1, 0)
    version := 257
    sizes := boardSizes }
  report := ⟨1, 0, 3, 2⟩

theorem files_verify :
    Package.verify plainFile Aid.isd.bytes oneIncarnation (fun raw => .ok (lengthDigest raw)) 256 =
      .ok (packageOf plainFile) ∧
    Package.verify paddedFile Aid.isd.bytes oneIncarnation (fun raw => .ok (lengthDigest raw)) 256 =
      .ok (packageOf paddedFile) := by
  decide +kernel

def plainImage : Descriptor := ⟨0, 114, lengthDigest plainFile⟩
def paddedImage : Descriptor := ⟨1, 115, lengthDigest paddedFile⟩
def packageAid : Aid := ⟨[0xf0, 1, 2, 3, 4], by decide⟩

/-- The registry after the first file was activated, and after it was deleted. -/
def activatedOnce : Registry := (Change.activate (packageOf plainFile) plainImage).after (Registry.new oneIncarnation)
def deletedOnce : Registry := (Change.removeLoad packageAid).after activatedOnce
def activatedAgain : Registry := (Change.activate (packageOf paddedFile) paddedImage).after deletedOnce

/-- The image that is active may be activated again, from another slot. -/
theorem load_history_reactivation :
    History Aid.isd (Registry.new oneIncarnation)
      [.activated Aid.isd packageAid 257 (lengthDigest plainFile),
        .activated Aid.isd packageAid 257 (lengthDigest plainFile)]
      ((Change.activate (packageOf plainFile) { plainImage with slot := 1 }).after activatedOnce) ∧
      (257 : UInt32) ≤ 257 ∧ ((257 : UInt32) = 257 → Event.deleted packageAid ∉ ([] : List Event) →
        lengthDigest plainFile = lengthDigest plainFile) := by
  have hStart : History Aid.isd (Registry.new oneIncarnation) [] (Registry.new oneIncarnation) := .start
  have hOnce := hStart.accepted (.activate (packageOf plainFile) plainImage) ⟨_, _, _, _, _, files_verify.1⟩
    (by decide +kernel) (fun hEq => nomatch hEq) (by decide +kernel)
  have hTwice := hOnce.accepted (.activate (packageOf plainFile) { plainImage with slot := 1 })
    ⟨_, _, _, _, _, files_verify.1⟩ (by decide +kernel) (fun hEq => nomatch hEq) (by decide +kernel)
  have hEvents : [Event.activated Aid.isd packageAid 257 (lengthDigest plainFile),
      Event.activated Aid.isd packageAid 257 (lengthDigest plainFile)] =
    [] ++ .activated Aid.isd packageAid 257 (lengthDigest plainFile) ::
      ([] ++ .activated Aid.isd packageAid 257 (lengthDigest plainFile) :: []) := rfl
  exact ⟨hTwice, load_history hTwice (new_valid _) hEvents⟩

/-- Deleting a load forgets its digest: the same version comes back as another
image. -/
theorem reload_changes_digest : ∃ start last events domain load version digest other,
    Registry.Reachable start ∧ History domain start events last ∧
      events = [.activated domain load version digest, .deleted load, .activated domain load version other] ∧
      digest ≠ other := by
  refine ⟨Registry.new oneIncarnation, activatedAgain, _, Aid.isd, packageAid, 257, lengthDigest plainFile,
    lengthDigest paddedFile, .new _, ?_, rfl, by decide +kernel⟩
  have hStart : History Aid.isd (Registry.new oneIncarnation) [] (Registry.new oneIncarnation) := .start
  have hActivated := hStart.accepted
    (.activate (packageOf plainFile) plainImage) ⟨_, _, _, _, _, files_verify.1⟩ (by decide +kernel)
    (fun hEq => nomatch hEq) (by decide +kernel)
  have hDeleted := hActivated.accepted (.removeLoad packageAid) trivial (by decide +kernel) (fun hEq => nomatch hEq)
    (by decide +kernel)
  exact hDeleted.accepted (.activate (packageOf paddedFile) paddedImage) ⟨_, _, _, _, _, files_verify.2⟩
    (by decide +kernel) (fun hEq => nomatch hEq) (by decide +kernel)

end Reload

end MicroCard.Card
