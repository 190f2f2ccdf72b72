import MicroCard.Card.Valid

/-! Each operation of the registry keeps it valid, and a refused operation leaves it
as it was. -/
namespace MicroCard.Card

open Bytes CrashTriple Cbor Codec

variable {registry next : Registry}

section Inversion

theorem inUse_eq_false {aid : Aid} (h : ¬registry.inUse aid = true) :
    (∀ d ∈ registry.domains.entries, d.aid ≠ aid) ∧ (∀ p ∈ registry.loads.entries, p.aid ≠ aid) ∧
      ∀ i ∈ registry.instances.entries, i.aid ≠ aid := by
  simpa [Registry.inUse, and_assoc] using h

end Inversion

section Domains

theorem addDomain_ok {aid : Aid} {incarnation : Fixed 16} {u : Unit} (h : addDomain aid incarnation registry = .ok u next) :
    ¬registry.inUse aid = true ∧ ∃ slot, registry.domains.position Option.isNone = some slot ∧
      next = { registry with domains := registry.domains.set slot (some ⟨aid, incarnation⟩) } := by
  simp only [addDomain, bind_ok, get_ok, Codec.failIf_ok, orFail_ok, set_ok] at h
  obtain ⟨_, _, ⟨rfl, rfl⟩, _, _, ⟨hFree, rfl⟩, slot, _, ⟨hSlot, rfl⟩, rfl⟩ := h
  exact ⟨hFree, slot, hSlot, rfl⟩

theorem addDomain_valid {aid : Aid} {incarnation : Fixed 16} {u : Unit} (hValid : registry.Valid)
    (h : addDomain aid incarnation registry = .ok u next) : next.Valid := by
  obtain ⟨hFree, slot, hSlot, rfl⟩ := addDomain_ok h
  obtain ⟨hDomains, hLoads, hInstances⟩ := inUse_eq_false hFree
  refine { hValid with isd := ?_, domains := ?_, load := ?_, placed := ?_, renewal := ?_ }
  · obtain ⟨d, hHead, hAid⟩ := hValid.isd
    exact ⟨d, SlotTable.head_set hSlot hHead rfl _, hAid⟩
  · exact SlotTable.pairwise_fill hSlot hValid.domains hDomains
  · intro p hp
    have hPlaced := hValid.load p hp
    obtain ⟨d, hd, hAid⟩ := hPlaced.owned
    refine ⟨hPlaced.version, ⟨d, (SlotTable.mem_fill hSlot).2 (.inr hd), hAid⟩, fun d hd hEq => ?_, hPlaced.image⟩
    rcases (SlotTable.mem_fill hSlot).1 hd with rfl | hd
    · exact hLoads p hp hEq.symm
    · exact hPlaced.fresh d hd hEq
  · intro i hi
    have hPlaced := hValid.placed i hi
    refine ⟨hPlaced.bank, hPlaced.loaded, fun d hd hEq => ?_, hPlaced.loads⟩
    rcases (SlotTable.mem_fill hSlot).1 hd with rfl | hd
    · exact hInstances i hi hEq.symm
    · exact hPlaced.domains d hd hEq
  · intro renewal hRenewal
    have hPlaced := hValid.renewal renewal hRenewal
    exact ⟨hPlaced.owner, hPlaced.fresh, hPlaced.least, hPlaced.most⟩

theorem removeDomain_ok {aid : Aid} {u : Unit} (h : removeDomain aid registry = .ok u next) :
    aid ≠ Aid.isd ∧ ∃ slot d, registry.domains.lookup (fun d => d.aid = aid) = some (slot, d) ∧
      next = { registry with
        domains := registry.domains.set slot none
        loads := registry.loads.clear fun p => p.domain = aid
        instances := registry.instances.clear fun i => i.domain = aid } := by
  simp only [removeDomain, bind_ok, get_ok, Codec.failIf_ok, orFail_ok, set_ok] at h
  obtain ⟨_, _, ⟨hIsd, rfl⟩, _, _, ⟨rfl, rfl⟩, ⟨slot, d⟩, _, ⟨hLookup, rfl⟩, rfl⟩ := h
  exact ⟨hIsd, slot, d, hLookup, rfl⟩

theorem removeDomain_valid {aid : Aid} {u : Unit} (hValid : registry.Valid) (hIdle : registry.renewal = none)
    (h : removeDomain aid registry = .ok u next) : next.Valid := by
  obtain ⟨hIsd, slot, removed, hLookup, rfl⟩ := removeDomain_ok h
  have hRemoved : removed.aid = aid := by simpa using SlotTable.select_lookup hLookup
  have hSub : ∀ d, d ∈ (registry.domains.set slot none).entries → d ∈ registry.domains.entries := by
    intro d hd
    rcases SlotTable.mem_write hLookup hd with hNone | hd
    · cases hNone
    · exact hd
  refine { hValid with
    isd := ?_, domains := ?_, loads := ?_, load := ?_, instances := ?_, placed := ?_, renewal := ?_ }
  · obtain ⟨d, hHead, hAid⟩ := hValid.isd
    refine ⟨d, SlotTable.head_set (SlotTable.lookup_position hLookup) hHead ?_ _, hAid⟩
    simpa [hAid] using hIsd.symm
  · exact SlotTable.pairwise_remove hLookup hValid.domains
  · show ((registry.loads.clear fun p => p.domain = aid).entries).Pairwise _
    rw [SlotTable.entries_clear]
    exact hValid.loads.filter _
  · intro p hp
    rw [SlotTable.entries_clear, List.mem_filter] at hp
    have hOther : p.domain ≠ aid := by simpa using hp.2
    have hPlaced := hValid.load p hp.1
    obtain ⟨d, hd, hAid⟩ := hPlaced.owned
    refine ⟨hPlaced.version, ⟨d, SlotTable.mem_kept hLookup hd ?_, hAid⟩, fun d hd => hPlaced.fresh d (hSub d hd),
      hPlaced.image⟩
    rintro rfl
    exact hOther (hAid.symm.trans hRemoved)
  · show ((registry.instances.clear fun i => i.domain = aid).entries).Pairwise _
    rw [SlotTable.entries_clear]
    exact hValid.instances.filter _
  · intro i hi
    rw [SlotTable.entries_clear, List.mem_filter] at hi
    have hOther : i.domain ≠ aid := by simpa using hi.2
    have hPlaced := hValid.placed i hi.1
    obtain ⟨p, hp, hAid, hDomain, hImage⟩ := hPlaced.loaded
    refine ⟨hPlaced.bank, ⟨p, ?_, hAid, hDomain, hImage⟩, fun d hd => hPlaced.domains d (hSub d hd), ?_⟩
    · rw [SlotTable.entries_clear, List.mem_filter]
      exact ⟨hp, by simpa [hDomain] using hOther⟩
    · intro p hp
      rw [SlotTable.entries_clear, List.mem_filter] at hp
      exact hPlaced.loads p hp.1
  · intro renewal hRenewal
    cases hIdle.symm.trans hRenewal

end Domains

section Sequences

theorem reserveSequences_ok {count : UInt32} {range : Nat × Nat} (h : reserveSequences count registry = .ok range next) :
    ∃ stop, stop ≤ maxSequence ∧ registry.sequence.toNat + count.toNat = stop ∧ count ≠ 0 ∧
      range = (registry.sequence.toNat + 1, stop) ∧ next = { registry with sequence := UInt32.ofNat stop } := by
  simp only [reserveSequences, bind_ok, get_ok, Codec.failIf_ok, orFail_ok, set_ok, Codec.pure_ok, not_or, not_lt] at h
  obtain ⟨_, _, ⟨rfl, rfl⟩, stop, _, ⟨hAdd, rfl⟩, _, _, ⟨⟨hCount, hMost⟩, rfl⟩, _, _, rfl, rfl, rfl⟩ := h
  refine ⟨stop, hMost, ?_, hCount, rfl, rfl⟩
  unfold checkedAdd32 at hAdd
  split at hAdd
  · injection hAdd
  · cases hAdd

theorem reserveSequences_valid {count : UInt32} {range : Nat × Nat} (hValid : registry.Valid)
    (h : reserveSequences count registry = .ok range next) : next.Valid := by
  obtain ⟨stop, hMost, -, -, -, rfl⟩ := reserveSequences_ok h
  have hStop : (UInt32.ofNat stop).toNat = stop := by
    rw [UInt32.toNat_ofNat']
    simp only [maxSequence] at hMost
    omega
  exact { hValid with
    sequence := hStop.symm ▸ hMost
    load := fun p hp => { hValid.load p hp with }
    placed := fun i hi => { hValid.placed i hi with }
    renewal := fun renewal hRenewal => { hValid.renewal renewal hRenewal with } }

end Sequences

section Loads

/-- A package as verification returns it: a version above zero, a package name of
AID length and an image of bounded length. -/
structure Package.Verified (package : Package) : Prop where
  version : package.manifest.version ≠ 0
  nonempty : package.image ≠ []
  bounded : package.image.length ≤ maxPackageBytes

theorem Package.verify_ok {raw domain : List Byte} {incarnation : Fixed 16}
    {sha256 : List Byte → Except Error (Fixed 32)} {scratch : Nat} {package : Package}
    (h : Package.verify raw domain incarnation sha256 scratch = .ok package) :
    package.Verified ∧ package.image = raw ∧ package.manifest.domain = domain ∧
      package.manifest.incarnation = incarnation ∧ sha256 raw = .ok package.digest := by
  simp only [Package.verify, Checks.bind_ok, Checks.failIf_ok, Checks.pure_ok, not_or, not_lt] at h
  obtain ⟨_, ⟨hNonempty, hBounded⟩, _, -, file, hFile, header, hHeader, _, -, report, -, _, -, digest, hDigest, rfl⟩ := h
  refine ⟨⟨?_, hNonempty, hBounded⟩, rfl, rfl, rfl, hDigest⟩
  have hVersions : header.packageMajor < 256 ∧ header.packageMinor < 256 := by
    have hParsed : file.header = .ok header := by
      unfold engine at hHeader
      cases hParse : file.header with
      | error e => simp [hParse, Except.mapError] at hHeader
      | ok parsed => simpa [hParse, Except.mapError] using hHeader
    simp only [Jcvm.LoadFile.header, Jcvm.Header.parse, Checks.bind_ok, Checks.pure_ok] at hParsed
    obtain ⟨info, -, _, -, _, -, _, -, rfl⟩ := hParsed
    exact ⟨UInt8.toNat_lt _, UInt8.toNat_lt _⟩
  intro hZero
  have hToNat := congrArg UInt32.toNat hZero
  rw [UInt32.toNat_ofNat'] at hToNat
  have : (0 : UInt32).toNat = 0 := rfl
  omega

/-- What activation requires of a package, and where it puts the load. -/
inductive Activates (registry : Registry) (domain aid : Aid) (package : Package) (index : Nat) : Prop where
  /-- A package the registry has not seen. -/
  | first (unused : ¬registry.inUse aid = true) (free : registry.loads.position Option.isNone = some index)
  /-- The image that is active already. -/
  | again (previous : Load) (image : Descriptor) (found : registry.loads.lookup (fun p => p.aid = aid) = some (index, previous))
      (domain : previous.domain = domain) (active : previous.image = some image)
      (version : package.manifest.version = previous.version) (digest : image.digest = package.digest)
  /-- Another image, of a version that is not older, while no instance runs. -/
  | replace (previous : Load) (found : registry.loads.lookup (fun p => p.aid = aid) = some (index, previous))
      (domain : previous.domain = domain) (version : previous.version ≤ package.manifest.version)
      (changed : package.manifest.version = previous.version → previous.image = none)
      (idle : ∀ i ∈ registry.instances.entries, i.load ≠ aid)

theorem activationSlots_ok {package : Package} {slots : Nat × Nat}
    (h : registry.activationSlots package = .ok slots) :
    ∃ domain aid, Aid.new package.manifest.domain = .ok domain ∧ Aid.new package.manifest.package = .ok aid ∧
      (∃ d ∈ registry.domains.entries, d.aid = domain ∧ d.incarnation = package.manifest.incarnation) ∧
      Activates registry domain aid package slots.2 := by
  simp only [Registry.activationSlots, Checks.bind_ok, Checks.failIf_ok, Checks.orFail_ok, not_not] at h
  obtain ⟨domain, hDomain, aid, hAid, ⟨domainSlot, entry⟩, hEntry, _, hIncarnation, hRun⟩ := h
  have hEntryAid : entry.aid = domain := by simpa using SlotTable.select_lookup hEntry
  refine ⟨domain, aid, hDomain, hAid, ⟨entry, SlotTable.mem_lookup hEntry, hEntryAid, hIncarnation⟩, ?_⟩
  split at hRun
  · rename_i index previous hFound
    simp only [Checks.bind_ok, Checks.failIf_ok, not_not, UInt32.not_lt] at hRun
    obtain ⟨_, hOwner, _, hVersion, hRun⟩ := hRun
    split at hRun
    · rename_i hSame
      simp only [Checks.bind_ok, Checks.failIf_ok, Checks.pure_ok] at hRun
      obtain ⟨_, hDigest, rfl⟩ := hRun
      obtain ⟨image, hImage⟩ := Option.isSome_iff_exists.1 hSame.2
      exact .again previous image hFound hOwner hImage hSame.1 (by simpa [hImage] using hDigest)
    · rename_i hOther
      simp only [Checks.bind_ok, Checks.failIf_ok, Checks.pure_ok] at hRun
      obtain ⟨_, hIdle, rfl⟩ := hRun
      refine .replace previous hFound hOwner hVersion (fun hEq => ?_) (by simpa using hIdle)
      simpa [hEq] using hOther
  · simp only [Checks.bind_ok, Checks.failIf_ok, Checks.orFail_ok, Checks.pure_ok] at hRun
    obtain ⟨_, hUnused, index, hFree, rfl⟩ := hRun
    exact .first hUnused hFree

theorem activate_ok {package : Package} {image : Descriptor} {u : Unit}
    (h : activate package image registry = .ok u next) :
    ∃ domain aid index, Aid.new package.manifest.domain = .ok domain ∧ Aid.new package.manifest.package = .ok aid ∧
      (∃ d ∈ registry.domains.entries, d.aid = domain ∧ d.incarnation = package.manifest.incarnation) ∧
      Activates registry domain aid package index ∧ image.digest = package.digest ∧
      image.length.toNat = package.image.length ∧ image.slot.toNat < 64 ∧
      (∀ p ∈ registry.loads.entries, p.aid ≠ aid → ∀ old ∈ p.image, old.slot ≠ image.slot) ∧
      next = { registry with
        loads := registry.loads.set index (some ⟨domain, aid, package.manifest.version, some image⟩) } := by
  simp only [activate, bind_ok, get_ok, readOnly_ok, Codec.failIf_ok, set_ok, not_or, not_not, not_le] at h
  obtain ⟨_, _, ⟨rfl, rfl⟩, slots, _, ⟨hSlots, rfl⟩, domain, _, ⟨hDomain, rfl⟩, aid, _, ⟨hAid, rfl⟩, _, _,
    ⟨⟨hDigest, hLength, hSlot⟩, rfl⟩, _, _, ⟨hApart, rfl⟩, rfl⟩ := h
  obtain ⟨domain', aid', hDomain', hAid', hOwner, hActivates⟩ := activationSlots_ok hSlots
  rw [hDomain] at hDomain'
  rw [hAid] at hAid'
  cases hDomain'
  cases hAid'
  refine ⟨domain, aid, slots.2, hDomain, hAid, hOwner, hActivates, hDigest, hLength, hSlot, ?_, rfl⟩
  intro p hp hNe old hOld hEq
  apply hApart
  rw [List.any_eq_true]
  refine ⟨p, hp, ?_⟩
  rw [Option.mem_def.1 hOld]
  simp [hNe, hEq]

/-- A load may be replaced by another of the same AID if the instances of the old
one, should there be any, still find their image in the new one. -/
theorem replaceLoad_valid (hValid : registry.Valid) (hIdle : registry.renewal = none) {aid : Aid} {index : Nat}
    {previous new : Load} (hFound : registry.loads.lookup (fun p => p.aid = aid) = some (index, previous))
    (hAid : new.aid = previous.aid) (hPlaced : new.Placed registry)
    (hApart : ∀ p ∈ registry.loads.entries, p.Apart previous → p.Apart new)
    (hServes : ∀ i ∈ registry.instances.entries, i.load = previous.aid →
      new.domain = previous.domain ∧ new.image.isSome = true) :
    Registry.Valid { registry with loads := registry.loads.set index (some new) } := by
  have hMem := SlotTable.mem_lookup hFound
  refine { hValid with loads := ?_, load := ?_, placed := ?_, renewal := ?_ }
  · exact SlotTable.pairwise_replace hFound hValid.loads hApart
  · intro p hp
    rcases SlotTable.mem_write hFound hp with hNew | hp
    · cases hNew
      exact { hPlaced with }
    · exact { hValid.load p hp with }
  · intro i hi
    have hInstance := hValid.placed i hi
    obtain ⟨p, hp, hLoad, hDomain, hImage⟩ := hInstance.loaded
    refine ⟨hInstance.bank, ?_, hInstance.domains, fun q hq => ?_⟩
    · by_cases hPrevious : p = previous
      · subst hPrevious
        obtain ⟨hNewDomain, hNewImage⟩ := hServes i hi hLoad.symm
        exact ⟨new, SlotTable.mem_written hFound, hAid.trans hLoad, hNewDomain.trans hDomain, hNewImage⟩
      · exact ⟨p, SlotTable.mem_kept hFound hp hPrevious, hLoad, hDomain, hImage⟩
    · rcases SlotTable.mem_write hFound hq with hNew | hq
      · cases hNew
        exact hAid ▸ hInstance.loads previous hMem
      · exact hInstance.loads q hq
  · intro renewal hRenewal
    cases hIdle.symm.trans hRenewal

/-- A load may be added under an AID nothing uses. -/
theorem addLoad_valid (hValid : registry.Valid) (hIdle : registry.renewal = none) {index : Nat} {new : Load}
    (hFree : registry.loads.position Option.isNone = some index) (hUnused : ¬registry.inUse new.aid = true)
    (hPlaced : new.Placed registry) (hApart : ∀ p ∈ registry.loads.entries, p.Apart new) :
    Registry.Valid { registry with loads := registry.loads.set index (some new) } := by
  obtain ⟨hDomains, hLoads, hInstances⟩ := inUse_eq_false hUnused
  refine { hValid with loads := ?_, load := ?_, placed := ?_, renewal := ?_ }
  · exact SlotTable.pairwise_fill hFree hValid.loads hApart
  · intro p hp
    rcases (SlotTable.mem_fill hFree).1 hp with rfl | hp
    · exact { hPlaced with }
    · exact { hValid.load p hp with }
  · intro i hi
    have hInstance := hValid.placed i hi
    obtain ⟨p, hp, hLoaded⟩ := hInstance.loaded
    refine ⟨hInstance.bank, ⟨p, (SlotTable.mem_fill hFree).2 (.inr hp), hLoaded⟩, hInstance.domains, fun q hq => ?_⟩
    rcases (SlotTable.mem_fill hFree).1 hq with rfl | hq
    · exact (hInstances i hi).symm
    · exact hInstance.loads q hq
  · intro renewal hRenewal
    cases hIdle.symm.trans hRenewal

theorem activate_valid {package : Package} {image : Descriptor} {u : Unit} (hPackage : package.Verified)
    (hValid : registry.Valid) (hIdle : registry.renewal = none) (h : activate package image registry = .ok u next) :
    next.Valid := by
  obtain ⟨domain, aid, index, -, -, ⟨d, hd, hDomain, -⟩, hActivates, -, hLength, hSlot, hSlots, rfl⟩ := activate_ok h
  have hBounded : image.Bounded := by
    refine ⟨hSlot, fun hZero => ?_, hLength ▸ hPackage.bounded⟩
    rw [hZero] at hLength
    exact hPackage.nonempty (List.length_eq_zero_iff.1 hLength.symm)
  have hPlaced : (∀ d ∈ registry.domains.entries, d.aid ≠ aid) →
      Load.Placed ⟨domain, aid, package.manifest.version, some image⟩ registry := by
    intro hFresh
    refine ⟨hPackage.version, ⟨d, hd, hDomain⟩, hFresh, fun image' hImage' => ?_⟩
    cases hImage'
    exact hBounded
  have hApart : ∀ p ∈ registry.loads.entries, p.aid ≠ aid →
      p.Apart ⟨domain, aid, package.manifest.version, some image⟩ := by
    intro p hp hNe
    refine ⟨hNe, ?_⟩
    unfold Registry.sharesSlot
    cases hOld : p.image with
    | none => rfl
    | some old => simpa using hSlots p hp hNe old hOld
  have hReplace : ∀ {previous : Load}, registry.loads.lookup (fun p => p.aid = aid) = some (index, previous) →
      (∀ i ∈ registry.instances.entries, i.load = previous.aid → domain = previous.domain) → Registry.Valid
        { registry with loads := registry.loads.set index (some ⟨domain, aid, package.manifest.version, some image⟩) } := by
    intro previous hFound hServes
    have hAid : previous.aid = aid := by simpa using SlotTable.select_lookup hFound
    refine replaceLoad_valid hValid hIdle hFound hAid.symm ?_ (fun p hp hOld => hApart p hp (hAid ▸ hOld.1))
      fun i hi hLoad => ⟨hServes i hi hLoad, rfl⟩
    exact hPlaced fun d hd => hAid ▸ (hValid.load previous (SlotTable.mem_lookup hFound)).fresh d hd
  cases hActivates with
  | first hUnused hFree =>
      obtain ⟨hDomains, hLoads, -⟩ := inUse_eq_false hUnused
      exact addLoad_valid hValid hIdle hFree hUnused (hPlaced hDomains) fun p hp => hApart p hp (hLoads p hp)
  | again previous active hFound hOwner => exact hReplace hFound fun _ _ _ => hOwner.symm
  | replace previous hFound hOwner => exact hReplace hFound fun _ _ _ => hOwner.symm

theorem removeLoad_ok {aid : Aid} {u : Unit} (h : removeLoad aid registry = .ok u next) :
    (∀ i ∈ registry.instances.entries, i.load ≠ aid) ∧ ∃ slot load,
      registry.loads.lookup (fun p => p.aid = aid) = some (slot, load) ∧ load.image.isSome = true ∧
      next = { registry with loads := registry.loads.set slot (some { load with image := none }) } := by
  simp only [removeLoad, bind_ok, get_ok, Codec.failIf_ok, orFail_ok, set_ok] at h
  obtain ⟨_, _, ⟨rfl, rfl⟩, _, _, ⟨hIdle, rfl⟩, ⟨slot, load⟩, _, ⟨hLookup, rfl⟩, _, _, rfl, hImage, rfl⟩ := h
  exact ⟨by simpa using hIdle, slot, load, hLookup, by simpa [Option.isSome_iff_ne_none] using hImage, rfl⟩

theorem removeLoad_valid {aid : Aid} {u : Unit} (hValid : registry.Valid) (hIdle : registry.renewal = none)
    (h : removeLoad aid registry = .ok u next) : next.Valid := by
  obtain ⟨hFree, slot, load, hFound, -, rfl⟩ := removeLoad_ok h
  have hAid : load.aid = aid := by simpa using SlotTable.select_lookup hFound
  have hPlaced := hValid.load load (SlotTable.mem_lookup hFound)
  refine replaceLoad_valid hValid hIdle hFound rfl ?_ (fun p _ hOld => ⟨hOld.1, ?_⟩) ?_
  · exact ⟨hPlaced.version, hPlaced.owned, hPlaced.fresh, fun _ hImage => nomatch hImage⟩
  · unfold Registry.sharesSlot
    cases p.image <;> rfl
  · intro i hi hLoad
    exact absurd (hLoad.trans hAid) (hFree i hi)

end Loads

section Instances

theorem register_ok {package : Package} {module aid : Aid} {identity : Fixed 16} {heapBank : UInt8} {u : Unit}
    (h : register package module aid identity heapBank registry = .ok u next) :
    ∃ load domain slot,
      (∃ p ∈ registry.loads.entries, p.aid = load ∧ p.domain = domain ∧ ∃ image ∈ p.image, image.digest = package.digest) ∧
      ¬registry.inUse aid = true ∧
      (∀ i ∈ registry.instances.entries, i.heapBank ≠ heapBank ∧ i.identity ≠ identity) ∧
      heapBank.toNat < maxInstances ∧ registry.instances.position Option.isNone = some slot ∧
      next = { registry with
        instances := registry.instances.set slot (some ⟨domain, load, module, aid, identity, heapBank⟩) } := by
  simp only [register, bind_ok, get_ok, readOnly_ok, Codec.failIf_ok, orFail_ok, set_ok, not_or, not_le] at h
  obtain ⟨_, _, ⟨rfl, rfl⟩, load, _, ⟨-, rfl⟩, domain, _, ⟨-, rfl⟩, _, _, ⟨hLoaded, rfl⟩, _, _, ⟨⟨hUnused, hOthers⟩, rfl⟩, _, _,
    ⟨hBank, rfl⟩, _, _, ⟨-, rfl⟩, _, _, ⟨-, rfl⟩, slot, _, ⟨hSlot, rfl⟩, rfl⟩ := h
  refine ⟨load, domain, slot, ?_, hUnused, by simpa using hOthers, hBank, hSlot, rfl⟩
  simp only [Bool.not_eq_true', Bool.not_eq_false, List.any_eq_true, Bool.and_eq_true, decide_eq_true_eq,
    Option.any_eq_true] at hLoaded
  obtain ⟨p, hp, ⟨hLoad, hDomain⟩, image, hImage, hDigest⟩ := hLoaded
  exact ⟨p, hp, hLoad, hDomain, image, hImage, hDigest⟩

theorem register_valid {package : Package} {module aid : Aid} {identity : Fixed 16} {heapBank : UInt8} {u : Unit}
    (hValid : registry.Valid) (hIdle : registry.renewal = none)
    (h : register package module aid identity heapBank registry = .ok u next) : next.Valid := by
  obtain ⟨load, domain, slot, ⟨p, hp, hLoad, hDomain, image, hImage, -⟩, hUnused, hOthers, hBank, hSlot, rfl⟩ :=
    register_ok h
  obtain ⟨hDomains, hLoads, hInstances⟩ := inUse_eq_false hUnused
  refine { hValid with load := ?_, instances := ?_, placed := ?_, renewal := ?_ }
  · exact fun p hp => { hValid.load p hp with }
  · exact SlotTable.pairwise_fill hSlot hValid.instances fun i hi => ⟨hInstances i hi, hOthers i hi⟩
  · intro i hi
    rcases (SlotTable.mem_fill hSlot).1 hi with rfl | hi
    · exact ⟨hBank, ⟨p, hp, hLoad, hDomain, by rw [Option.mem_def.1 hImage]; rfl⟩, hDomains, hLoads⟩
    · exact { hValid.placed i hi with }
  · intro renewal hRenewal
    cases hIdle.symm.trans hRenewal

theorem removeInstance_ok {aid : Aid} {u : Unit} (h : removeInstance aid registry = .ok u next) :
    ∃ slot i, registry.instances.lookup (fun i => i.aid = aid) = some (slot, i) ∧
      next = { registry with instances := registry.instances.set slot none } := by
  simp only [removeInstance, bind_ok, get_ok, orFail_ok, set_ok] at h
  obtain ⟨_, _, ⟨rfl, rfl⟩, ⟨slot, i⟩, _, ⟨hLookup, rfl⟩, rfl⟩ := h
  exact ⟨slot, i, hLookup, rfl⟩

theorem removeInstance_valid {aid : Aid} {u : Unit} (hValid : registry.Valid) (hIdle : registry.renewal = none)
    (h : removeInstance aid registry = .ok u next) : next.Valid := by
  obtain ⟨slot, removed, hLookup, rfl⟩ := removeInstance_ok h
  refine { hValid with load := ?_, instances := ?_, placed := ?_, renewal := ?_ }
  · exact fun p hp => { hValid.load p hp with }
  · exact SlotTable.pairwise_remove hLookup hValid.instances
  · intro i hi
    rcases SlotTable.mem_write hLookup hi with hNone | hi
    · cases hNone
    · exact { hValid.placed i hi with }
  · intro renewal hRenewal
    cases hIdle.symm.trans hRenewal

end Instances

section Refusals

end Refusals

end MicroCard.Card
