import MicroCard.Engine.Engine

/-! GET STATUS as a function of what it reads: the registry and the stored images. An
enumeration names its entries by position; on an intact card the AID of an entry leads
back to that entry, and what is answered is its record. -/
namespace MicroCard.Engine

open Bytes Cbor CrashTriple Card Transport

/-- What an enumeration reads: the registry, the bytes behind a descriptor and their hash. -/
structure Listing where
  store : RegistryStore
  images : Descriptor → Except Error (List Byte)
  sha256 : List Byte → Except Error (Fixed 32)
  scratch : Nat

namespace Listing

variable (listing : Listing)

/-- Verify a stored image against the registry before its package is read. -/
def verified (state : Registry) (load : Load) (image : Descriptor) : Except Error Package := do
  let raw ← listing.images image
  let domain ← orFail (state.domains.entries.find? fun d => d.aid = load.domain) .storage
  let package ← Package.verify raw domain.aid.bytes domain.incarnation listing.sha256 listing.scratch
  failIf (package.manifest.package ≠ load.aid.bytes ∨ package.manifest.version ≠ load.version ∨
    package.digest ≠ image.digest) .authentication
  let _ ← state.activationSlots package
  pure package

def withPackage (state : Registry) (aid : Aid) : Except Error Package := do
  let load ← orFail (state.loads.entries.find? fun p => p.aid = aid) .missing
  let image ← orFail load.image .missing
  listing.verified state load image

def statusBody (state : Registry) (kind : Byte) (aid : Aid) : Except Error (List Byte) := do
  let body ← pushTlv [] [0x4f] aid.bytes
  if state.domains.entries.any fun d => d.aid = aid then domainStatus aid body
  else
    match state.instances.entries.find? fun i => i.aid = aid with
    | some instance' => instanceStatus instance' body
    | none => do
        let package ← listing.withPackage state aid
        loadStatus kind package body

def getStatusRecord (kind : Byte) (index : Nat) (filter : List Byte) : Except Error (List Byte × Bool) := do
  let state ← listing.store.readState
  let aids ← visited state kind filter
  let aid ← orFail aids[index]? .missing
  let body ← listing.statusBody state kind aid
  let record ← template body
  pure (record, index + 1 < aids.length)

end Listing

section Entries

/-- An entry of the registry. -/
inductive Entry where
  | domain (domain : Domain)
  | instance (instance' : Instance)
  | load (load : Load)
  deriving DecidableEq

def Entry.aid : Entry → Aid
  | domain d => d.aid
  | .instance i => i.aid
  | load p => p.aid

/-- One data object: its tag, its length and its value. -/
def tlv (tag value : List Byte) : List Byte :=
  tag ++ ((if value.length < 0x80 then [UInt8.ofNat value.length] else [0x81, UInt8.ofNat value.length]) ++ value)

namespace Listing

variable (listing : Listing)

/-- The entries in the scope of an enumeration, in table order. -/
def table (kind : Byte) : List Entry :=
  let state := listing.store.state
  if kind = 0x80 then (state.domains.entries.filter fun d => d.aid = Aid.isd).map .domain
  else if kind = 0x40 then
    (state.domains.entries.filter fun d => d.aid ≠ Aid.isd).map .domain ++ state.instances.entries.map .instance
  else if kind = 0x20 ∨ kind = 0x10 then (state.loads.entries.filter fun p => p.image.isSome).map .load
  else []

/-- The entries a search AID selects. The scope of the issuer security domain holds one
entry, and a search AID is ignored there. -/
def matching (kind : Byte) (filter : List Byte) : List Entry :=
  if kind = 0x80 then listing.table kind
  else (listing.table kind).filter fun entry => filter.isPrefixOf entry.aid.bytes

/-- The package behind a load. -/
def package (load : Load) : Option Package := (listing.withPackage listing.store.state load.aid).toOption

/-- What is reported of a package: its version and, if asked for, its modules. -/
def packageFields (kind : Byte) (package : Package) : List Byte :=
  tlv [0xce] [UInt8.ofNat package.manifest.packageVersion.1, UInt8.ofNat package.manifest.packageVersion.2] ++
    if kind = 0x10 then
      ((packageApplets package.image).toOption.getD []).flatMap fun applet => tlv [0x84] applet.aid
    else []

/-- What an enumeration reports of an entry. -/
def fields (kind : Byte) : Entry → List Byte
  | .domain d =>
      tlv [0x4f] d.aid.bytes ++ (tlv [0x9f, 0x70] [0x0f] ++ (tlv [0xc5] [0x80, 0, 0] ++
        if d.aid ≠ Aid.isd then tlv [0xcc] isdAid else []))
  | .instance i =>
      tlv [0x4f] i.aid.bytes ++ (tlv [0x9f, 0x70] [7] ++ (tlv [0xc5] [0, 0, 0] ++ (tlv [0xc4] i.load.bytes ++
        tlv [0xcc] i.domain.bytes)))
  | .load p =>
      tlv [0x4f] p.aid.bytes ++ (tlv [0x9f, 0x70] [1] ++
        (((listing.package p).elim [] (packageFields kind)) ++ tlv [0xcc] p.domain.bytes))

/-- The record of an entry. -/
def record (kind : Byte) (entry : Entry) : List Byte := tlv [0xe3] (listing.fields kind entry)

end Listing

end Entries

section Intact

namespace Listing

/-- The image of a load reads back as the package it was activated with. -/
def Stored (listing : Listing) (load : Load) : Prop :=
  ∃ image raw domain package, load.image = some image ∧ listing.images image = .ok raw ∧
    listing.store.state.domains.entries.find? (fun d => d.aid = load.domain) = some domain ∧
    Package.verify raw domain.aid.bytes domain.incarnation listing.sha256 listing.scratch = .ok package ∧
    package.manifest.package = load.aid.bytes ∧ package.manifest.version = load.version ∧
    package.digest = image.digest

/-- A card whose registry is valid and may be read, with the images it names. -/
structure Intact (listing : Listing) : Prop where
  ready : listing.store.readState = .ok listing.store.state
  valid : listing.store.state.Valid
  stored : ∀ load ∈ listing.store.state.loads.entries, load.image.isSome → listing.Stored load

end Listing

end Intact

section Lookups

variable {α β : Type} [DecidableEq β] {entries : List α} {key : α → β}

/-- A search by a key that no two entries share finds the entry it was taken from. -/
theorem find_key (hNodup : (entries.map key).Nodup) {a : α} (ha : a ∈ entries) :
    entries.find? (fun b => key b = key a) = some a := by
  cases hFind : entries.find? fun b => decide (key b = key a) with
  | none => simpa using List.find?_eq_none.1 hFind a ha
  | some b =>
      have hKey : key b = key a := by simpa using List.find?_some hFind
      rw [List.inj_on_of_nodup_map hNodup (List.mem_of_find?_eq_some hFind) ha hKey]

/-- It is the only entry with that key. -/
theorem filter_key (hNodup : (entries.map key).Nodup) {a : α} (ha : a ∈ entries) :
    (entries.filter fun b => key b = key a) = [a] := by
  induction entries with
  | nil => cases ha
  | cons first rest ih =>
      rw [List.map_cons, List.nodup_cons] at hNodup
      rcases List.mem_cons.1 ha with rfl | hRest
      · have hNone : (rest.filter fun b => key b = key a) = [] :=
          List.filter_eq_nil_iff.2 fun b hb => by
            have hNe : key b ≠ key a := fun hEq => hNodup.1 (hEq ▸ List.mem_map_of_mem hb)
            simpa using hNe
        simp [hNone]
      · have hFirst : key first ≠ key a := fun hEq => hNodup.1 (hEq ▸ List.mem_map_of_mem hRest)
        simp [hFirst, ih hNodup.2 hRest]

theorem lookup_key {n : Nat} {table : SlotTable α n} (hNodup : (table.entries.map key).Nodup) {a : α}
    (ha : a ∈ table.entries) : ∃ index, table.lookup (fun b => key b = key a) = some (index, a) := by
  cases hLookup : table.lookup fun b => decide (key b = key a) with
  | none => simpa using SlotTable.lookup_eq_none hLookup ha
  | some found =>
      obtain ⟨index, b⟩ := found
      have hKey : key b = key a := by simpa using SlotTable.select_lookup hLookup
      exact ⟨index, by rw [List.inj_on_of_nodup_map hNodup (SlotTable.mem_lookup hLookup) ha hKey]⟩

end Lookups

section Valid

variable {state : Registry} (hValid : state.Valid)

include hValid

theorem domains_nodup : (state.domains.entries.map Domain.aid).Nodup := by
  rw [List.Nodup, List.pairwise_map]
  exact hValid.domains

theorem loads_nodup : (state.loads.entries.map Load.aid).Nodup := by
  rw [List.Nodup, List.pairwise_map]
  exact hValid.loads.imp fun h => h.1

theorem instances_nodup : (state.instances.entries.map Instance.aid).Nodup := by
  rw [List.Nodup, List.pairwise_map]
  exact hValid.instances.imp fun h => h.1

/-- The package of the active image may be activated again. -/
theorem activationSlots_active {load : Load} {image : Descriptor} {domain : Domain} {package : Package}
    (hLoad : load ∈ state.loads.entries) (hImage : load.image = some image) (hDomain : domain ∈ state.domains.entries)
    (hOwner : domain.aid = load.domain) (hOwned : package.manifest.domain = domain.aid.bytes)
    (hIncarnation : package.manifest.incarnation = domain.incarnation)
    (hName : package.manifest.package = load.aid.bytes) (hVersion : package.manifest.version = load.version)
    (hDigest : package.digest = image.digest) : ∃ slots, state.activationSlots package = .ok slots := by
  obtain ⟨domainSlot, hDomainSlot⟩ := lookup_key (domains_nodup hValid) hDomain
  obtain ⟨index, hIndex⟩ := lookup_key (loads_nodup hValid) hLoad
  have hDomainAid : Aid.new package.manifest.domain = .ok domain.aid := by
    rw [hOwned, Aid.new, dif_pos domain.aid.sized]
  have hLoadAid : Aid.new package.manifest.package = .ok load.aid := by
    rw [hName, Aid.new, dif_pos load.aid.sized]
  refine ⟨(domainSlot, index), ?_⟩
  simp only [Registry.activationSlots, Checks.bind_ok, Checks.failIf_ok, Checks.orFail_ok, not_not]
  refine ⟨domain.aid, hDomainAid, load.aid, hLoadAid, (domainSlot, domain), hDomainSlot, (), hIncarnation.symm, ?_⟩
  rw [hIndex]
  simp only [Checks.bind_ok, Checks.failIf_ok, not_not]
  refine ⟨(), hOwner.symm, (), fun hOlder => UInt32.lt_irrefl _ (hVersion ▸ hOlder), ?_⟩
  rw [if_pos ⟨hVersion, by rw [hImage]; rfl⟩]
  simp only [Checks.bind_ok, Checks.failIf_ok, Checks.pure_ok]
  exact ⟨(), by simp [hImage, hDigest], trivial⟩

end Valid

section Packages

/-- An AID of a load file is no longer than sixteen bytes. -/
theorem readApplet_ok {bytes rest : List Byte} {applet : Jcvm.AppletRef}
    (h : Jcvm.readApplet bytes = .ok (applet, rest)) : applet.aid.length ≤ 16 := by
  simp only [Jcvm.readApplet, Checks.bind_ok, Checks.failIf_ok, Checks.pure_ok] at h
  obtain ⟨length, -, _, hLength, aid, hAid, offset, -, hApplet⟩ := h
  injection hApplet with hApplet
  subst hApplet
  unfold Jcvm.slice at hAid
  split at hAid
  · injection hAid with hAid
    rw [← hAid, List.length_take]
    omega
  · cases hAid

theorem readApplets_ok {count : Nat} {bytes rest : List Byte} {applets : List Jcvm.AppletRef}
    (h : Jcvm.readEntries Jcvm.readApplet count bytes = .ok (applets, rest)) :
    ∀ applet ∈ applets, applet.aid.length ≤ 16 := by
  induction count generalizing bytes applets with
  | zero =>
      injection h with h
      injection h with h
      subst h
      exact fun _ h => nomatch h
  | succ count ih =>
      simp only [Jcvm.readEntries, Checks.bind_ok, Checks.pure_ok] at h
      obtain ⟨⟨first, remainder⟩, hFirst, ⟨others, last⟩, hOthers, hApplets⟩ := h
      injection hApplets with hApplets hRest
      subst hApplets hRest
      intro applet hMem
      rcases List.mem_cons.1 hMem with rfl | hMem
      · exact readApplet_ok hFirst
      · exact ih hOthers applet hMem

theorem mapError_ok {ε ε' α : Type} {x : Except ε α} {f : ε → ε'} {a : α} : x.mapError f = .ok a ↔ x = .ok a := by
  cases x <;> simp [Except.mapError]

theorem packageApplets_short {image : List Byte} {applets : List Jcvm.AppletRef}
    (h : packageApplets image = .ok applets) : ∀ applet ∈ applets, applet.aid.length ≤ 16 := by
  simp only [packageApplets, Checks.bind_ok, mapError_ok, Jcvm.LoadFile.applets, Jcvm.parseApplets,
    Checks.failIf_ok, Checks.pure_ok] at h
  obtain ⟨file, -, info, -, count, -, _, -, ⟨entries, rest⟩, hEntries, _, -, rfl⟩ := h
  exact readApplets_ok hEntries

/-- A package that verified declares its applets. -/
theorem verify_applets {raw domain : List Byte} {incarnation : Fixed 16} {sha256 : List Byte → Except Error (Fixed 32)}
    {scratch : Nat} {package : Package} (h : Package.verify raw domain incarnation sha256 scratch = .ok package) :
    ∃ applets, packageApplets raw = .ok applets := by
  simp only [Package.verify, Checks.bind_ok, engine, mapError_ok] at h
  obtain ⟨_, -, _, -, file, hFile, _, -, _, -, report, hReport, -⟩ := h
  simp only [Jcvm.verify, Checks.bind_ok] at hReport
  obtain ⟨_, -, _, -, _, -, _, -, _, -, applets, hApplets, -⟩ := hReport
  refine ⟨applets, ?_⟩
  simp only [packageApplets, Checks.bind_ok, mapError_ok]
  exact ⟨file, hFile, hApplets⟩

end Packages

section Records

theorem pushTlv_ok {value : List Byte} (h : value.length ≤ 255) (out tag : List Byte) :
    pushTlv out tag value = .ok (out ++ tlv tag value) := by
  rw [pushTlv, failIf, if_neg (by omega)]
  show Except.ok _ = _
  simp [tlv]

theorem pushTlv_aid (out tag : List Byte) (aid : Aid) : pushTlv out tag aid.bytes = .ok (out ++ tlv tag aid.bytes) :=
  pushTlv_ok (by have := aid.sized; omega) out tag

/-- The modules of a package are written one behind the other. -/
theorem foldlM_pushTlv {applets : List Jcvm.AppletRef} (hShort : ∀ applet ∈ applets, applet.aid.length ≤ 16)
    (body : List Byte) :
    applets.foldlM (fun body entry => pushTlv body [0x84] entry.aid) body =
      (.ok (body ++ applets.flatMap fun applet => tlv [0x84] applet.aid) : Except Error (List Byte)) := by
  induction applets generalizing body with
  | nil => simp [pure, Except.pure]
  | cons first rest ih =>
      have hFirst : first.aid.length ≤ 255 := (hShort first List.mem_cons_self).trans (by decide)
      rw [List.foldlM_cons, pushTlv_ok hFirst]
      show rest.foldlM _ _ = _
      rw [ih fun applet hMem => hShort applet (List.mem_cons_of_mem _ hMem), List.flatMap_cons, List.append_assoc]

namespace Listing

variable {listing : Listing}

/-- The registry leads from the AID of a load to its package. -/
theorem withPackage_ok (hIntact : listing.Intact) {load : Load} (hLoad : load ∈ listing.store.state.loads.entries)
    (hImage : load.image.isSome) :
    ∃ package applets, listing.withPackage listing.store.state load.aid = .ok package ∧
      package.manifest.domain = load.domain.bytes ∧ packageApplets package.image = .ok applets := by
  obtain ⟨image, raw, domain, package, hSome, hRaw, hDomain, hVerify, hName, hVersion, hDigest⟩ :=
    hIntact.stored load hLoad hImage
  have hOwner : domain.aid = load.domain := by simpa using List.find?_some hDomain
  obtain ⟨-, hBytes, hManifest, hIncarnation, -⟩ := Package.verify_ok hVerify
  obtain ⟨applets, hApplets⟩ := verify_applets hVerify
  obtain ⟨slots, hSlots⟩ := activationSlots_active hIntact.valid hLoad hSome (List.mem_of_find?_eq_some hDomain) hOwner
    hManifest hIncarnation hName hVersion hDigest
  refine ⟨package, applets, ?_, by rw [hManifest, hOwner], by rw [hBytes]; exact hApplets⟩
  simp only [withPackage, verified, Checks.bind_ok, Checks.orFail_ok, Checks.failIf_ok, Checks.pure_ok]
  refine ⟨load, find_key (loads_nodup hIntact.valid) hLoad, image, hSome, raw, hRaw, domain, hDomain, package, hVerify,
    (), ?_, slots, hSlots, rfl⟩
  simp [hName, hVersion, hDigest]

theorem loadStatus_ok {package : Package} {applets : List Jcvm.AppletRef} {domain : Aid} (kind : Byte) (body : List Byte)
    (hDomain : package.manifest.domain = domain.bytes) (hApplets : packageApplets package.image = .ok applets) :
    loadStatus kind package body =
      .ok (body ++ (tlv [0x9f, 0x70] [1] ++ (packageFields kind package ++ tlv [0xcc] domain.bytes))) := by
  rw [loadStatus, pushTlv_ok (by decide)]
  simp only [bind, Except.bind]
  rw [pushTlv_ok (by simp)]
  by_cases hKind : kind = 0x10
  · simp only [packageFields, hKind, if_true, hApplets, Except.mapError, Except.toOption, Option.getD_some]
    rw [foldlM_pushTlv (packageApplets_short hApplets)]
    simp only
    rw [hDomain, pushTlv_aid]
    simp
  · simp only [packageFields, hKind, if_false, pure, Except.pure, List.append_nil]
    rw [hDomain, pushTlv_aid]
    simp

theorem domainStatus_ok (domain : Domain) (body : List Byte) :
    domainStatus domain.aid body =
      .ok (body ++ (tlv [0x9f, 0x70] [0x0f] ++ (tlv [0xc5] [0x80, 0, 0] ++
        if domain.aid ≠ Aid.isd then tlv [0xcc] isdAid else []))) := by
  rw [domainStatus, pushTlv_ok (by decide)]
  simp only [bind, Except.bind]
  rw [pushTlv_ok (by decide)]
  by_cases hIsd : domain.aid = Aid.isd
  · simp [hIsd, pure, Except.pure]
  · simp only [ne_eq, hIsd, not_false_eq_true, if_true]
    rw [pushTlv_ok (by decide)]
    simp

theorem instanceStatus_ok (instance' : Instance) (body : List Byte) :
    instanceStatus instance' body =
      .ok (body ++ (tlv [0x9f, 0x70] [7] ++ (tlv [0xc5] [0, 0, 0] ++ (tlv [0xc4] instance'.load.bytes ++
        tlv [0xcc] instance'.domain.bytes)))) := by
  rw [instanceStatus, pushTlv_ok (by decide)]
  simp only [bind, Except.bind]
  rw [pushTlv_ok (by decide)]
  simp [pushTlv_aid]

/-- An entry in a scope is an entry of its table. -/
def InRegistry (listing : Listing) : Entry → Prop
  | .domain d => d ∈ listing.store.state.domains.entries
  | .instance i => i ∈ listing.store.state.instances.entries
  | .load p => p ∈ listing.store.state.loads.entries ∧ p.image.isSome

theorem mem_table {kind : Byte} {entry : Entry} (h : entry ∈ listing.table kind) : listing.InRegistry entry := by
  unfold table at h
  simp only at h
  split at h
  · obtain ⟨d, hMem, rfl⟩ := List.mem_map.1 h
    exact List.mem_of_mem_filter hMem
  · split at h
    · rcases List.mem_append.1 h with h | h
      · obtain ⟨d, hMem, rfl⟩ := List.mem_map.1 h
        exact List.mem_of_mem_filter hMem
      · obtain ⟨i, hMem, rfl⟩ := List.mem_map.1 h
        exact hMem
    · split at h
      · obtain ⟨p, hMem, rfl⟩ := List.mem_map.1 h
        exact List.mem_filter.1 hMem
      · cases h

/-- What is answered for the AID of an entry are the fields of that entry. -/
theorem statusBody_ok (hIntact : listing.Intact) (kind : Byte) {entry : Entry} (hEntry : listing.InRegistry entry) :
    listing.statusBody listing.store.state kind entry.aid = .ok (listing.fields kind entry) := by
  have hValid := hIntact.valid
  rw [statusBody, pushTlv_aid]
  simp only [bind, Except.bind, List.nil_append]
  cases entry with
  | domain d =>
      have hAny : (listing.store.state.domains.entries.any fun e => e.aid = (Entry.domain d).aid) = true :=
        List.any_eq_true.2 ⟨d, hEntry, by simp [Entry.aid]⟩
      rw [if_pos hAny]
      exact domainStatus_ok d _
  | «instance» i =>
      have hAny : (listing.store.state.domains.entries.any fun e => e.aid = (Entry.instance i).aid) = false :=
        List.any_eq_false.2 fun d hd hEq => (hValid.placed i hEntry).domains d hd (of_decide_eq_true hEq)
      have hFind : listing.store.state.instances.entries.find? (fun j => j.aid = (Entry.instance i).aid) = some i :=
        find_key (instances_nodup hValid) hEntry
      rw [hAny, hFind]
      exact instanceStatus_ok i _
  | load p =>
      have hAny : (listing.store.state.domains.entries.any fun e => e.aid = (Entry.load p).aid) = false :=
        List.any_eq_false.2 fun d hd hEq => (hValid.load p hEntry.1).fresh d hd (of_decide_eq_true hEq)
      have hFind : listing.store.state.instances.entries.find? (fun i => i.aid = (Entry.load p).aid) = none :=
        List.find?_eq_none.2 fun i hi hEq => (hValid.placed i hi).loads p hEntry.1 (of_decide_eq_true hEq).symm
      obtain ⟨package, applets, hPackage, hDomain, hApplets⟩ := withPackage_ok hIntact hEntry.1 hEntry.2
      have hFields : listing.fields kind (.load p) = tlv [0x4f] p.aid.bytes ++ (tlv [0x9f, 0x70] [1] ++
          (packageFields kind package ++ tlv [0xcc] p.domain.bytes)) := by
        simp only [fields, Listing.package, hPackage, Except.toOption, Option.elim_some]
      rw [hAny, hFind, hFields]
      show (listing.withPackage listing.store.state p.aid >>= fun package => loadStatus kind package _) = _
      rw [hPackage]
      exact loadStatus_ok kind _ hDomain hApplets

/-- The AIDs an enumeration visits are those of the entries that match. -/
theorem visited_ok (hIntact : listing.Intact) {kind : Byte} (hKind : kind ∈ [0x80, 0x40, 0x20, 0x10])
    (filter : List Byte) :
    visited listing.store.state kind filter = .ok ((listing.matching kind filter).map Entry.aid) := by
  have hDomains := domains_nodup hIntact.valid
  obtain ⟨d, hHead, hIsd⟩ := hIntact.valid.isd
  have hMem : d ∈ listing.store.state.domains.entries := SlotTable.mem_entries.2 (List.mem_of_mem_head? hHead)
  by_cases hFirst : kind = 0x80
  · have hOnly : (listing.store.state.domains.entries.filter fun e => e.aid = Aid.isd) = [d] := by
      rw [← hIsd]
      exact filter_key hDomains hMem
    simp [visited, matching, table, hFirst, hOnly, Entry.aid, hIsd]
  · by_cases hSecond : kind = 0x40
    · simp [visited, matching, table, hSecond, List.filter_map, Function.comp_def, Entry.aid]
    · have hThird : kind = 0x20 ∨ kind = 0x10 := by simpa [hFirst, hSecond] using hKind
      simp only [visited, matching, table, if_neg hFirst, if_neg hSecond, if_pos hThird, List.filter_map,
        List.map_map, Function.comp_def, Entry.aid]

theorem template_ok (body : List Byte) :
    template body = if (tlv [0xe3] body).length ≤ 220 then .ok (tlv [0xe3] body) else .error .quota := by
  have hLength : (tlv [0xe3] body).length = 1 + (if body.length < 0x80 then 1 else 2) + body.length := by
    unfold tlv
    split <;> simp <;> omega
  rw [template, hLength]
  by_cases hFits : 1 + (if body.length < 0x80 then 1 else 2) + body.length ≤ 220
  · rw [if_pos hFits, failIf, if_neg (by omega)]
    have hShort : body.length ≤ 255 := by omega
    exact pushTlv_ok hShort [] [0xe3]
  · rw [if_neg hFits, failIf, if_pos (by omega)]
    rfl

/-- The record at a position of an enumeration, if it fits one response. -/
theorem getStatusRecord_entry (hIntact : listing.Intact) {kind : Byte} (hKind : kind ∈ [0x80, 0x40, 0x20, 0x10])
    {filter : List Byte} {index : Nat} {entry : Entry} (hAt : (listing.matching kind filter)[index]? = some entry) :
    listing.getStatusRecord kind index filter =
      if (listing.record kind entry).length ≤ 220 then
        .ok (listing.record kind entry, index + 1 < (listing.matching kind filter).length)
      else .error .quota := by
  have hMem : entry ∈ listing.matching kind filter := List.mem_of_getElem? hAt
  have hTable : entry ∈ listing.table kind := by
    unfold matching at hMem
    split at hMem
    · exact hMem
    · exact List.mem_of_mem_filter hMem
  have hAid : ((listing.matching kind filter).map Entry.aid)[index]? = some entry.aid := by
    rw [List.getElem?_map, hAt]
    rfl
  rw [getStatusRecord, hIntact.ready]
  simp only [bind, Except.bind]
  rw [visited_ok hIntact hKind]
  simp only [hAid, orFail, pure, Except.pure]
  rw [statusBody_ok hIntact kind (mem_table hTable)]
  simp only [template_ok, List.length_map]
  rw [← record]
  by_cases hFits : (listing.record kind entry).length ≤ 220
  · simp only [if_pos hFits]
  · simp only [if_neg hFits]

/-- Behind the last entry there is none. -/
theorem getStatusRecord_end (hIntact : listing.Intact) {kind : Byte} (hKind : kind ∈ [0x80, 0x40, 0x20, 0x10])
    {filter : List Byte} {index : Nat} (hEnd : (listing.matching kind filter).length ≤ index) :
    listing.getStatusRecord kind index filter = .error .missing := by
  have hAid : ((listing.matching kind filter).map Entry.aid)[index]? = none := by
    rw [List.getElem?_eq_none_iff, List.length_map]
    exact hEnd
  rw [getStatusRecord, hIntact.ready]
  simp only [bind, Except.bind]
  rw [visited_ok hIntact hKind]
  simp only [hAid]
  rfl

theorem tlv_length {tag value : List Byte} (h : value.length < 0x80) :
    (tlv tag value).length = tag.length + 1 + value.length := by
  simp [tlv, h]
  omega

/-- Only a list of modules can outgrow a response. -/
theorem record_fits {kind : Byte} (hKind : kind ≠ 0x10) (entry : Entry) :
    (listing.record kind entry).length ≤ 220 := by
  have hAid : ∀ (tag : List Byte) (aid : Aid), (tlv tag aid.bytes).length ≤ tag.length + 17 := by
    intro tag aid
    have := aid.sized
    rw [tlv_length (by omega)]
    omega
  have hFields : (listing.fields kind entry).length ≤ 100 := by
    cases entry with
    | domain d =>
        have := hAid [0x4f] d.aid
        have hOwner : (if d.aid ≠ Aid.isd then tlv [0xcc] isdAid else []).length ≤ 10 := by
          split <;> decide
        have hStatus : (tlv [0x9f, 0x70] [0x0f]).length = 4 ∧ (tlv [0xc5] [0x80, 0, 0]).length = 5 := by decide
        simp only [fields, List.length_append, hStatus.1, hStatus.2]
        simp only [List.length_cons, List.length_nil] at this
        omega
    | «instance» i =>
        have hFirst := hAid [0x4f] i.aid
        have hSecond := hAid [0xc4] i.load
        have hThird := hAid [0xcc] i.domain
        have hStatus : (tlv [0x9f, 0x70] [7]).length = 4 ∧ (tlv [0xc5] [0, 0, 0]).length = 5 := by decide
        simp only [fields, List.length_append, hStatus.1, hStatus.2]
        simp only [List.length_cons, List.length_nil] at hFirst hSecond hThird
        omega
    | load p =>
        have hFirst := hAid [0x4f] p.aid
        have hSecond := hAid [0xcc] p.domain
        have hStatus : (tlv [0x9f, 0x70] [1]).length = 4 := by decide
        have hPackage : ((listing.package p).elim [] (packageFields kind)).length ≤ 4 := by
          cases listing.package p with
          | none => simp
          | some package => simp [packageFields, hKind, tlv]
        simp only [fields, List.length_append, hStatus]
        simp only [List.length_cons, List.length_nil] at hFirst hSecond
        omega
  rw [record, tlv_length (by omega)]
  simp only [List.length_cons, List.length_nil]
  omega

end Listing

end Records

section Engine

variable {listing : Listing}

/-- A device that answers with the package behind the load. -/
theorem withPackage_engine {running : Running} {aid : Aid} {package : Package}
    (hPackage : listing.withPackage listing.store.state aid = .ok package)
    (hFault : (running.card.devices (.image .listing) 0).fault = none)
    (hAnswer : (running.card.devices (.image .listing) 0).package = package) :
    ∃ after, Engine.withPackage .listing listing.store.state aid running = .ok package after := by
  simp only [Listing.withPackage, Listing.verified, Checks.bind_ok, Checks.orFail_ok, Checks.failIf_ok,
    Checks.pure_ok] at hPackage
  obtain ⟨load, hLoad, image, hImage, raw, -, domain, hDomain, found, hVerify, _, hNamed, slots, hSlots, rfl⟩ := hPackage
  obtain ⟨-, -, hManifest, hIncarnation, -⟩ := Package.verify_ok hVerify
  have hBound : boundTo domain found = found := by
    rw [boundTo, ← hManifest, ← hIncarnation]
  have hAid : load.aid = aid := by simpa using List.find?_some hLoad
  simp only [Engine.withPackage, hLoad, hImage, hDomain, orFail, bind, EStateM.bind, pure, EStateM.pure, device, draw,
    hFault, hAnswer, hBound, checkBinding, if_neg hNamed, CrashTriple.readOnly, hSlots]
  exact ⟨_, rfl⟩

/-- The engine answers as the listing of its registry does, on a device that answers with
the package of the load an enumeration stands at. -/
theorem getStatusRecord_engine {running : Running} {kind : Byte} {index : Nat} {filter : List Byte}
    {answer : List Byte × Bool} (hStore : running.card.registry = listing.store)
    (hRecord : listing.getStatusRecord kind index filter = .ok answer)
    (hFault : (running.card.devices (.image .listing) 0).fault = none)
    (hAnswer : ∀ aids aid package, visited listing.store.state kind filter = .ok aids → aids[index]? = some aid →
      listing.withPackage listing.store.state aid = .ok package →
        (running.card.devices (.image .listing) 0).package = package) :
    ∃ after, Engine.getStatusRecord kind index filter running = .ok answer after := by
  simp only [Listing.getStatusRecord, Checks.bind_ok, Checks.orFail_ok, Checks.pure_ok] at hRecord
  obtain ⟨state, hState, aids, hAids, aid, hAid, body, hBody, bytes, hTemplate, rfl⟩ := hRecord
  have hSame : state = listing.store.state := by
    simp only [RegistryStore.readState, Checks.bind_ok, Checks.failIf_ok, Checks.pure_ok] at hState
    exact hState.choose_spec.2.choose_spec.2.symm
  subst hSame
  have hEngine : ∃ after, Engine.statusBody listing.store.state kind aid running = .ok body after := by
    simp only [Listing.statusBody, Checks.bind_ok] at hBody
    obtain ⟨first, hFirst, hBody⟩ := hBody
    simp only [Engine.statusBody, bind, EStateM.bind, CrashTriple.readOnly, hFirst]
    split at hBody
    · rename_i hDomain
      rw [if_pos hDomain, hBody]
      exact ⟨_, rfl⟩
    · rename_i hDomain
      rw [if_neg hDomain]
      split at hBody
      · rename_i found hFound
        rw [hFound]
        simp only [CrashTriple.readOnly, hBody]
        exact ⟨_, rfl⟩
      · rename_i hFound
        obtain ⟨package, hPackage, hStatus⟩ := Checks.bind_ok.1 hBody
        obtain ⟨after, hAfter⟩ := withPackage_engine hPackage hFault (hAnswer aids aid package hAids hAid hPackage)
        rw [hFound]
        simp only [EStateM.bind, hAfter, CrashTriple.readOnly, hStatus]
        exact ⟨_, rfl⟩
  obtain ⟨after, hEngine⟩ := hEngine
  simp only [Engine.getStatusRecord, readState, bind, EStateM.bind, get, getThe, MonadStateOf.get, EStateM.get, hStore,
    CrashTriple.readOnly, hState, hAids, orFail, hAid, pure, EStateM.pure, hEngine, hTemplate]
  exact ⟨_, rfl⟩

end Engine

end MicroCard.Engine
