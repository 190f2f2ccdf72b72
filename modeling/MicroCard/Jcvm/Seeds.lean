import MicroCard.Jcvm.Layouts
import MicroCard.Jcvm.Package
import MicroCard.Jcvm.Verify

/-! When saved state is taken over. It is checked twice, once before a card is renewed,
against a layout in as little memory as possible, and once when the instance is restored
into a slab of its own. -/
namespace MicroCard.Jcvm

open Bytes CrashTriple Checks Slices

/-- The objects of a saved heap from an offset on. -/
def SavedTiling (heap : List Byte) (start : Nat) (objects : List (Nat × Info)) : Prop :=
  Tiling (fun i => heap.getD i 0) heap.length heap.length start heap.length objects

/-- The payload of an object of a saved heap. -/
def savedPayload (heap : List Byte) (o : Nat × Info) : List Byte := Slices.slice heap (o.1 + headerBytes) o.2.payload

section Visiting

variable {heap : List Byte} {visit : Nat → Info → List Byte → Except Error Unit} {at' fuel : Nat}
  {objects : List (Nat × Info)}

/-- A visit succeeds when the objects fill the heap and each is accepted. -/
theorem visitSavedFrom_ok (hFuel : heap.length < at' + fuel) : visitSavedFrom heap visit fuel at' = .ok () ↔
    ∃ objects, SavedTiling heap at' objects ∧ ∀ o ∈ objects, visit o.1 o.2 (savedPayload heap o) = .ok () := by
  induction fuel generalizing at' with
  | zero =>
      apply iff_of_false
      · intro hRun
        cases hRun
      · rintro ⟨objects, hTiling, -⟩
        have hLe := hTiling.le
        omega
  | succ fuel ih =>
      unfold visitSavedFrom
      by_cases hLess : at' < heap.length
      · rw [if_pos hLess]
        simp only [bind_ok]
        apply Iff.intro
        · rintro ⟨info, hRead, _, hVisit, hRest⟩
          have hStop := info.stop_ge at'
          have hHeader : 0 < headerBytes := by decide
          obtain ⟨objects, hTiling, hEach⟩ := (ih (by omega)).1 hRest
          refine ⟨(at', info) :: objects, .cons hRead hTiling, fun o ho => ?_⟩
          rcases List.mem_cons.1 ho with rfl | hLater
          · exact hVisit
          · exact hEach o hLater
        · rintro ⟨objects, hTiling, hEach⟩
          cases hTiling with
          | nil => omega
          | @cons _ _ info rest hRead hTail =>
              have hStop := info.stop_ge at'
              have hHeader : 0 < headerBytes := by decide
              refine ⟨info, hRead, (), hEach _ List.mem_cons_self, (ih (by omega)).2 ⟨rest, hTail, fun o ho => ?_⟩⟩
              exact hEach o (List.mem_cons_of_mem _ ho)
      · rw [if_neg hLess, failIf_ok, not_not]
        apply Iff.intro
        · rintro rfl
          exact ⟨[], .nil _, fun o ho => (nomatch ho)⟩
        · rintro ⟨objects, hTiling, -⟩
          have hLe := hTiling.le
          omega

theorem savedStarts_eq (hTiling : SavedTiling heap at' objects) (hFuel : heap.length < at' + fuel) :
    savedStarts heap fuel at' = objects.map Prod.fst := by
  induction objects generalizing at' fuel with
  | nil =>
      have hEnd := hTiling.nil_eq
      cases fuel with
      | zero => rfl
      | succ fuel =>
          unfold savedStarts
          rw [if_neg (by omega)]
          rfl
  | cons o objects ih =>
      obtain ⟨hHere, hRead, hTail⟩ := hTiling.uncons
      have hStop := o.2.stop_ge at'
      have hHeader : 0 < headerBytes := by decide
      have hLe := hTail.le
      cases fuel with
      | zero => omega
      | succ fuel =>
          have hInfo : savedInfo heap at' = .ok o.2 := hRead
          unfold savedStarts
          rw [if_pos (by omega), hInfo]
          show at' :: savedStarts heap fuel (o.2.stop at') = _
          rw [ih hTail (by omega), List.map_cons, hHere]

end Visiting

namespace AppletInstance

variable {desLegacy : Bool} {card : AppletInstance} {file : LoadFile} {saved : PersistentState} {sizes : Sizes}

/-- Saved state that an instance may take over: the runtime objects are in place, objects
fill the heap, each belongs to the applet and may stand as it is, and the references lead
to objects that may be kept. -/
structure Sound (desLegacy : Bool) (card : AppletInstance) (file : LoadFile) (saved : PersistentState) (linked : Linked)
    (objects : List (Nat × Info)) : Prop where
  statics : saved.statics.length = card.statics.length
  header : 2 ≤ saved.heap.length ∧ saved.heap.length ≤ 65535 ∧ saved.heap.length % 2 = 0
  version : Heap.validVersion (saved.heap.getD 0 0) = true
  lifecycle : Heap.validLifecycle (saved.heap.getD 1 0) = true
  runtime : card.runtimeBytes ≤ saved.heap.length ∧
    Slices.slice saved.heap 2 (card.runtimeBytes - 2) = range card.heap 2 (card.runtimeBytes - 2)
  tiling : SavedTiling saved.heap 2 objects
  owned : ∀ o ∈ objects, o.2.owner = card.context
  transient : ∀ o ∈ objects, o.2.clearEvent ≠ 0 → ∀ byte ∈ savedPayload saved.heap o, byte = 0
  links : Linked.new file = .ok linked
  imports : linked.importsResolve = .ok ()
  contents : ∀ o ∈ objects, card.validateContents desLegacy saved linked (objects.map Prod.fst) o.1 o.2
    (savedPayload saved.heap o) = .ok ()
  root : ∃ o ∈ objects, o.1 = saved.instance' ∧ checkApplet linked o.2 = .ok ()
  references : ∃ statics, file.staticFields = .ok statics ∧ statics.referenceCount * 2 ≤ saved.statics.length ∧
    ∀ reference ∈ payloadWords (saved.statics.take (statics.referenceCount * 2)),
      card.storableReference saved (objects.map Prod.fst) reference = .ok ()

theorem validReference_ok {starts : List Nat} {reference : Nat} :
    validReference starts reference = .ok () ↔ reference = 0 ∨ reference ∈ starts := by
  rw [validReference, failIf_ok]
  tauto

theorem validateObject_ok {reference : Nat} {info : Info} {payload : List Byte} :
    card.validateObject reference info payload = .ok () ↔
      info.owner = card.context ∧ (info.clearEvent ≠ 0 → ∀ byte ∈ payload, byte = 0) := by
  simp only [validateObject, bind_ok, failIf_ok, not_not, not_and, List.all_eq_true, decide_eq_true_eq]
  exact ⟨fun h => h.elim fun _ hRest => hRest, fun h => ⟨(), h⟩⟩

/-- The check accepts exactly the sound states. -/
theorem validateSaved_ok : card.validateSaved desLegacy file saved = .ok () ↔
    ∃ linked objects, Sound desLegacy card file saved linked objects := by
  simp only [validateSaved, bind_ok, failIf_ok, not_or, not_not, not_lt]
  apply Iff.intro
  · rintro ⟨_, ⟨hStatics, hHeader, hAddressable, hEven⟩, _, hVersion, _, ⟨hLifecycle, hRuntime, hObjects⟩, _, hOwned, _,
      hInstance, _, hSome, linked, hLinked, _, hImports, _, hContents, root, hRoot, _, hApplet, statics, hFields, words,
      hWords, hReferences⟩
    simp only [visitSavedObjects, bind_ok] at hOwned hContents
    obtain ⟨_, -, hOwned⟩ := hOwned
    obtain ⟨_, -, hContents⟩ := hContents
    obtain ⟨objects, hTiling, hOwned⟩ := (visitSavedFrom_ok (by omega)).1 hOwned
    obtain ⟨others, hOthers, hContents⟩ := (visitSavedFrom_ok (by omega)).1 hContents
    obtain rfl := hTiling.functional hOthers
    have hStarts : savedStarts saved.heap (saved.heap.length + 1) 2 = objects.map Prod.fst :=
      savedStarts_eq hTiling (by omega)
    rw [hStarts] at hInstance hContents hReferences
    obtain ⟨o, ho, hPlace⟩ := List.mem_map.1 ((validReference_ok.1 hInstance).resolve_left hSome)
    have hInfo : savedInfo saved.heap o.1 = .ok o.2 := (Tiling.mem hTiling ho).1
    have hSame : Except.ok o.2 = Except.ok root := hInfo.symm.trans (hPlace ▸ hRoot)
    injection hSame with hSame
    rw [← hSame] at hApplet
    simp only [staticWords, bind_ok, failIf_ok, pure_ok, not_lt] at hWords
    obtain ⟨_, hLong, rfl⟩ := hWords
    exact ⟨linked, objects,
      { statics := hStatics
        header := ⟨hHeader, hAddressable, hEven⟩
        version := Bool.eq_true_of_not_eq_false hVersion
        lifecycle := Bool.eq_true_of_not_eq_false hLifecycle
        runtime := ⟨hRuntime, hObjects⟩
        tiling := hTiling
        owned := fun p hp => (validateObject_ok.1 (hOwned p hp)).1
        transient := fun p hp => (validateObject_ok.1 (hOwned p hp)).2
        links := hLinked
        imports := hImports
        contents := hContents
        root := ⟨o, ho, hPlace, hApplet⟩
        references := ⟨statics, hFields, hLong, forM_ok.1 hReferences⟩ }⟩
  · rintro ⟨linked, objects, hSound⟩
    obtain ⟨hHeader, hAddressable, hEven⟩ := hSound.header
    obtain ⟨o, ho, hPlace, hApplet⟩ := hSound.root
    obtain ⟨statics, hFields, hLong, hReferences⟩ := hSound.references
    have hStarts : savedStarts saved.heap (saved.heap.length + 1) 2 = objects.map Prod.fst :=
      savedStarts_eq hSound.tiling (by omega)
    have hRead := Tiling.mem hSound.tiling ho
    have hVisits : ∀ visit, (∀ p ∈ objects, visit p.1 p.2 (savedPayload saved.heap p) = .ok ()) →
        visitSavedObjects saved.heap visit = .ok () := by
      intro visit hEach
      simp only [visitSavedObjects, bind_ok, failIf_ok]
      exact ⟨(), by omega, (visitSavedFrom_ok (by omega)).2 ⟨objects, hSound.tiling, hEach⟩⟩
    rw [hStarts]
    refine ⟨(), ⟨hSound.statics, hHeader, hAddressable, hEven⟩, (), ?_, (), ⟨?_, hSound.runtime⟩, (), ?_, (), ?_, (), ?_,
      linked, hSound.links, (), hSound.imports, (), ?_, o.2, ?_, (), hApplet, statics, hFields, _, ?_,
      forM_ok.2 hReferences⟩
    · rw [hSound.version]
      exact Bool.true_eq_false_eq_False
    · rw [hSound.lifecycle]
      exact Bool.true_eq_false_eq_False
    · exact hVisits _ fun p hp => validateObject_ok.2 ⟨hSound.owned p hp, hSound.transient p hp⟩
    · exact validReference_ok.2 (.inr (List.mem_map.2 ⟨o, ho, hPlace⟩))
    · rw [← hPlace]
      omega
    · exact hVisits _ hSound.contents
    · rw [← hPlace]
      exact hRead.1
    · simp only [staticWords, bind_ok, failIf_ok, pure_ok, not_lt]
      exact ⟨(), hLong, trivial⟩

/-- Restoring takes a sound state that fits the slab. -/
theorem restoreWithoutFrames_ok : (∃ card, restoreWithoutFrames desLegacy file saved sizes = .ok card) ↔
    saved.heap.length ≤ sizes.heapBytes ∧ ∃ card, new file sizes = .ok card ∧
      ∃ linked objects, Sound desLegacy card file saved linked objects := by
  simp only [restoreWithoutFrames, bind_ok, failIf_ok, pure_ok, not_lt]
  apply Iff.intro
  · rintro ⟨_, _, hFits, card, hNew, _, hSaved, -⟩
    obtain ⟨statics, hStatics, hUsed, hOther⟩ := new_resized hNew
    refine ⟨hFits, card.resized sizes, (hOther sizes rfl).1 ((hOther { sizes with frameWords := 0 } rfl).2 _ hNew), ?_⟩
    rw [← validateSaved_ok]
    exact hSaved
  · rintro ⟨hFits, card, hNew, hSound⟩
    rw [← validateSaved_ok] at hSound
    obtain ⟨statics, hStatics, hUsed, hOther⟩ := new_resized hNew
    exact ⟨_, (), hFits, _, (hOther { sizes with frameWords := 0 } rfl).1 ((hOther sizes rfl).2 _ hNew), (), hSound, rfl⟩

/-- Validating accepts a sound state that holds the whole initial layout as well. -/
theorem validatePersistent_ok : validatePersistent desLegacy file saved sizes = .ok () ↔
    saved.heap.length ≤ sizes.heapBytes ∧ ∃ card, new file sizes = .ok card ∧ card.heapUsed ≤ saved.heap.length ∧
      ∃ linked objects, Sound desLegacy card file saved linked objects := by
  simp only [validatePersistent, bind_ok, failIf_ok, not_lt]
  apply Iff.intro
  · rintro ⟨_, hFits, statics, hStatics, card, hNew, hSaved⟩
    obtain ⟨_, hSame, hUsed, hOther⟩ := new_resized hNew
    obtain rfl : statics = _ := Except.ok.inj (hStatics.symm.trans hSame)
    have hShort := (hOther _ rfl).2 _ hNew
    simp only at hShort hUsed
    refine ⟨hFits, card.resized sizes, (hOther sizes rfl).1 (by omega), ?_, ?_⟩
    · show card.heapUsed ≤ saved.heap.length
      omega
    · rw [← validateSaved_ok]
      exact hSaved
  · rintro ⟨hFits, card, hNew, hShort, hSound⟩
    rw [← validateSaved_ok] at hSound
    obtain ⟨statics, hStatics, hUsed, hOther⟩ := new_resized hNew
    have hLess := (hOther sizes rfl).2 _ hNew
    let least : Sizes := { sizes with
      heapBytes := min (initialBytes statics sizes.bufferBytes.toNat) saved.heap.length, frameWords := 0 }
    have hLeast : card.heapUsed ≤ min least.heapBytes 65535 := by
      show card.heapUsed ≤ min (min _ _) 65535
      omega
    exact ⟨(), hFits, statics, hStatics, _, (hOther least rfl).1 hLeast, hSound⟩

/-- A sound state that fits the slab, but is shorter than the runtime objects and the static
arrays that a new instance starts with. -/
def Shrunk (desLegacy : Bool) (file : LoadFile) (saved : PersistentState) (sizes : Sizes) : Prop :=
  saved.heap.length ≤ sizes.heapBytes ∧
    (∃ statics, file.staticFields = .ok statics ∧
      saved.heap.length < initialBytes statics sizes.bufferBytes.toNat) ∧
      ∃ card linked objects, new file sizes = .ok card ∧ Sound desLegacy card file saved linked objects

theorem new_used {card : AppletInstance} {statics : StaticField} (hNew : new file sizes = .ok card)
    (hStatics : file.staticFields = .ok statics) : card.heapUsed = initialBytes statics sizes.bufferBytes.toNat := by
  obtain ⟨_, hSame, hUsed, -⟩ := new_resized hNew
  rw [Except.ok.inj (hStatics.symm.trans hSame), hUsed]

/-- The two checks agree, except on sound states that are shorter than the initial layout. -/
theorem validators_agree_iff (desLegacy : Bool) (file : LoadFile) (saved : PersistentState) (sizes : Sizes) :
    (validatePersistent desLegacy file saved sizes = .ok () ↔
      ∃ card, restoreWithoutFrames desLegacy file saved sizes = .ok card) ↔ ¬Shrunk desLegacy file saved sizes := by
  rw [validatePersistent_ok, restoreWithoutFrames_ok]
  apply Iff.intro
  · rintro hAgree ⟨hFits, ⟨statics, hStatics, hShort⟩, card, linked, objects, hNew, hSound⟩
    obtain ⟨-, other, hOther, hLong, -⟩ := hAgree.2 ⟨hFits, card, hNew, linked, objects, hSound⟩
    have hUsed := new_used hOther hStatics
    omega
  · intro hNot
    apply Iff.intro
    · rintro ⟨hFits, card, hNew, -, hSound⟩
      exact ⟨hFits, card, hNew, hSound⟩
    · rintro ⟨hFits, card, hNew, linked, objects, hSound⟩
      refine ⟨hFits, card, hNew, ?_, linked, objects, hSound⟩
      by_contra hShort
      obtain ⟨statics, hStatics, hUsed, -⟩ := new_resized hNew
      exact hNot ⟨hFits, ⟨statics, hStatics, by omega⟩, card, linked, objects, hNew, hSound⟩

/-- A package whose applet starts with a static array of sixteen bytes. -/
def seedPackage : Package where
  classes := [{ superClass := 0x8003, publicMethods := List.replicate 7 0xffff ++ [1] }]
  imports := [([0xa0, 0, 0, 0, 0x62, 1, 1], 1, 6)]
  staticBytes := 2
  staticReferences := 1

def seedStatics : List Byte := [0, 2, 0, 1, 0, 1, 3, 0, 16] ++ List.replicate 16 0 ++ [0, 0, 0, 0]

def seedParts : List (Tag × List Byte) :=
  seedPackage.parts.map fun part => if part.1 = .staticField then (part.1, seedStatics) else part

def seedDirectory : List Byte :=
  (([seedPackage.header.length, 31] ++ seedParts.map (List.length ∘ Prod.snd) ++ [0, 0]).flatMap toBE16) ++
    [0, 2, 0, 1, 0, 16, 1, 1, 0]

def seedBlock : List Byte :=
  Package.component .header seedPackage.header ++ Package.component .directory seedDirectory ++
    seedParts.flatMap fun part => Package.component part.1 part.2

/-- The components of the block, without the relocation table. -/
def seedFile : LoadFile where
  components := [⟨.header, seedPackage.header⟩, ⟨.directory, seedDirectory⟩] ++
    (seedParts.filter fun part => part.1 ≠ .refLocation).map fun part => ⟨part.1, part.2⟩

/-- What is saved once the applet dropped the array and the runtime collected it: the
objects of the runtime and the instance. -/
def seedSaved : PersistentState where
  heap := [3, 7, 0, 0, 0, 0, 0x13, 1] ++ ([apduWord] ++ runtimeExceptionClasses.filterMap classWord).flatMap
    (fun word => Heap.wordBytes word ++ [0, 1, 0, 1, 0, 0]) ++ [0, 0, 0, 0, 0, 1]
  statics := [0, 0]
  instance' := 136

/-- The state that is left restores, but does not validate. -/
theorem validators_disagree :
    LoadFile.parse seedBlock = .ok seedFile ∧ (∃ report, verify seedFile 1024 = .ok report) ∧
      validatePersistent false seedFile seedSaved ⟨512, 16, 0, 1000⟩ = .error .quota ∧
        ∃ card, restoreWithoutFrames false seedFile seedSaved ⟨512, 16, 0, 1000⟩ = .ok card := by
  have hVerified : verify seedFile 1024 = .ok ⟨1, 2, 3, 2⟩ := by decide +kernel
  have hRestored : (restoreWithoutFrames false seedFile seedSaved ⟨512, 16, 0, 1000⟩).isOk = true := by decide +kernel
  refine ⟨by decide +kernel, ⟨_, hVerified⟩, by decide +kernel, ?_⟩
  cases hRun : restoreWithoutFrames false seedFile seedSaved ⟨512, 16, 0, 1000⟩ with
  | ok card => exact ⟨card, rfl⟩
  | error e =>
      rw [hRun] at hRestored
      cases hRestored

end AppletInstance

end MicroCard.Jcvm
