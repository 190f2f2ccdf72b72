import MicroCard.Jcvm.Heap
import MicroCard.Library.Checks

/-! How objects fill the heap. Every byte the slab has handed out belongs to one object,
and what an object is depends on its own header alone. -/
namespace MicroCard.Jcvm

open Bytes CrashTriple Checks

section Reading

variable {bytes other : Nat → Byte} {size used limit reference : Nat} {info : Info}

/-- What a header that could be read promises. -/
structure Readable (size used reference : Nat) (info : Info) : Prop where
  used_le : used ≤ size
  positive : reference ≠ 0
  even : reference % 2 = 0
  event : info.clearEvent ≤ clearOnDeselect
  object : info.kind = .object → info.clearEvent = 0
  primitive : info.kind ≠ .object → info.kind ≠ .reference → info.cls = 0
  fits : reference + headerBytes + info.payload ≤ used

theorem Info.read_readable (h : Info.read bytes size used reference = .ok info) : Readable size used reference info := by
  unfold Info.read at h
  simp only [bind_ok, failIf_ok, orFail_ok, pure_ok] at h
  obtain ⟨-, hUsed, -, hNull, -, hPlace, kind, -, -, hFormat, -, hFits, rfl⟩ := h
  simp only [not_or, not_and, not_not] at hFormat
  exact
    { used_le := by omega
      positive := hNull
      even := by omega
      event := Nat.le_of_not_lt hFormat.1
      object := hFormat.2.1
      primitive := hFormat.2.2
      fits := by omega }

/-- A header is six bytes, and nothing else is read. -/
theorem Info.read_congr (h : ∀ i, reference ≤ i → i < reference + headerBytes → other i = bytes i) :
    Info.read other size used reference = Info.read bytes size used reference := by
  have hAt : ∀ k, k < 6 → other (reference + k) = bytes (reference + k) := fun k hk =>
    h _ (by omega) (by unfold headerBytes; omega)
  have hFirst : other reference = bytes reference := hAt 0 (by omega)
  unfold Info.read
  rw [hFirst, hAt 1 (by omega), hAt 2 (by omega), hAt 3 (by omega), hAt 4 (by omega), hAt 5 (by omega)]

/-- An object stays readable under any limit that leaves it whole. -/
theorem Info.read_limit (h : Info.read bytes size used reference = .ok info)
    (hFits : reference + headerBytes + info.payload ≤ limit) (hLimit : limit ≤ size) :
    Info.read bytes size limit reference = .ok info := by
  unfold Info.read at h ⊢
  simp only [bind_ok, failIf_ok, orFail_ok, pure_ok] at h ⊢
  obtain ⟨_, hUsed, _, hNull, _, hPlace, kind, hKind, _, hFormat, _, _, rfl⟩ := h
  exact ⟨(), by omega, (), hNull, (), by omega, kind, hKind, (), hFormat, (), by omega, rfl⟩

/-- The length of the slab matters only where it ends the heap. -/
theorem Info.read_resize {larger : Nat} (h : Info.read bytes size used reference = .ok info) (hSize : used ≤ larger) :
    Info.read bytes larger used reference = .ok info := by
  unfold Info.read at h ⊢
  simp only [bind_ok, failIf_ok, orFail_ok, pure_ok] at h ⊢
  obtain ⟨_, _, hRest⟩ := h
  exact ⟨(), by omega, hRest⟩

/-- The header an allocation writes reads back. -/
theorem Info.read_header (hHeader : range bytes reference headerBytes = info.header) (hRead : Readable size used reference info)
    (hClass : info.cls < 65536) (hLength : info.length < 65536) (hOwner : info.owner < 256) :
    Info.read bytes size used reference = .ok info := by
  obtain ⟨cls, length, kind, owner, event⟩ := info
  simp only [Info.header, headerBytes, range_eq_iff, List.length_cons, List.length_nil] at hHeader
  obtain ⟨-, hBytes⟩ := hHeader
  have hEvent := hRead.event
  simp only [clearOnDeselect] at hEvent hClass hLength hOwner
  have h0 := hBytes 0 (by omega)
  have h1 := hBytes 1 (by omega)
  have h2 := hBytes 2 (by omega)
  have h3 := hBytes 3 (by omega)
  have h4 := hBytes 4 (by omega)
  have h5 := hBytes 5 (by omega)
  simp only [List.getElem_cons_zero, List.getElem_cons_succ, Nat.add_zero] at h0 h1 h2 h3 h4 h5
  have hKind : kind.number ≤ 6 ∧ Kind.ofNumber kind.number = some kind := by cases kind <;> simp [Kind.number, Kind.ofNumber]
  have hTag : (bytes (reference + 4)).toNat = kind.number + event * 16 := by
    rw [h4, UInt8.toNat_ofNat']
    omega
  unfold Info.read
  simp only [bind_ok, failIf_ok, orFail_ok, pure_ok]
  refine ⟨(), by have := hRead.used_le; omega, (), hRead.positive, (), ?_, kind, ?_, (), ?_, (), ?_, ?_⟩
  · have := hRead.even
    have := hRead.fits
    omega
  · rw [hTag, show (kind.number + event * 16) % 16 = kind.number by omega, hKind.2]
  · have hObject := hRead.object
    have hPrimitive := hRead.primitive
    simp only [hTag, h0, h1, be16, UInt8.toNat_ofNat', not_or, not_and, not_not, clearOnDeselect] at hObject hPrimitive ⊢
    refine ⟨by omega, fun hk => by have := hObject hk; omega, fun hk hr => by have := hPrimitive hk hr; omega⟩
  · have hFits := hRead.fits
    simp only [Info.payload, h2, h3, be16, UInt8.toNat_ofNat'] at hFits ⊢
    rw [show length / 256 % 2 ^ 8 * 256 + length % 2 ^ 8 = length by omega]
    omega
  · simp only [hTag, h0, h1, h2, h3, h5, be16, UInt8.toNat_ofNat', Info.mk.injEq, true_and]
    omega

theorem Info.stop_ge (info : Info) (at' : Nat) : at' + headerBytes + info.payload ≤ info.stop at' := by
  unfold Info.stop
  omega

theorem Info.stop_even (info : Info) (at' : Nat) : info.stop at' % 2 = 0 := by
  unfold Info.stop
  omega

end Reading

/-- Objects that lie end to end from one offset to another. -/
inductive Tiling (bytes : Nat → Byte) (size used : Nat) : Nat → Nat → List (Nat × Info) → Prop where
  | nil (at' : Nat) : Tiling bytes size used at' at' []
  | cons {at' stop : Nat} {info : Info} {rest : List (Nat × Info)} (read : Info.read bytes size used at' = .ok info)
      (tail : Tiling bytes size used (info.stop at') stop rest) : Tiling bytes size used at' stop ((at', info) :: rest)

namespace Tiling

variable {bytes other : Nat → Byte} {size used limit start middle stop : Nat} {objects more : List (Nat × Info)}

theorem le (h : Tiling bytes size used start stop objects) : start ≤ stop := by
  induction h with
  | nil => exact Nat.le_refl _
  | @cons at' stop info rest read tail ih =>
      have := info.stop_ge at'
      omega

theorem nil_eq (h : Tiling bytes size used start stop []) : start = stop := by
  cases h
  rfl

theorem uncons {o : Nat × Info} (h : Tiling bytes size used start stop (o :: objects)) :
    o.1 = start ∧ Info.read bytes size used start = .ok o.2 ∧ Tiling bytes size used (o.2.stop start) stop objects := by
  cases h with
  | cons read tail => exact ⟨rfl, read, tail⟩

/-- What is known of each object. -/
theorem mem (h : Tiling bytes size used start stop objects) {o : Nat × Info} (ho : o ∈ objects) :
    Info.read bytes size used o.1 = .ok o.2 ∧ start ≤ o.1 ∧ o.2.stop o.1 ≤ stop := by
  induction h with
  | nil => cases ho
  | @cons at' stop info rest read tail ih =>
      rcases List.mem_cons.1 ho with hHere | hLater
      · rw [hHere]
        exact ⟨read, Nat.le_refl _, tail.le⟩
      · obtain ⟨hRead, hLow, hHigh⟩ := ih hLater
        have := info.stop_ge at'
        exact ⟨hRead, by omega, hHigh⟩

/-- Different objects do not meet. -/
theorem apart (h : Tiling bytes size used start stop objects) {o p : Nat × Info} (ho : o ∈ objects) (hp : p ∈ objects)
    (hLess : o.1 < p.1) : o.2.stop o.1 ≤ p.1 := by
  induction h with
  | nil => cases ho
  | @cons at' stop info rest read tail ih =>
      rcases List.mem_cons.1 ho with hFirst | hLater
      · rcases List.mem_cons.1 hp with hSame | hAfter
        · rw [hFirst, hSame] at hLess
          omega
        · rw [hFirst]
          exact (tail.mem hAfter).2.1
      · rcases List.mem_cons.1 hp with hBefore | hAfter
        · have hLow := (tail.mem hLater).2.1
          have := info.stop_ge at'
          rw [hBefore] at hLess
          simp only at hLess
          omega
        · exact ih hLater hAfter

/-- An offset starts at most one object. -/
theorem unique (h : Tiling bytes size used start stop objects) {o p : Nat × Info} (ho : o ∈ objects) (hp : p ∈ objects)
    (hSame : o.1 = p.1) : o = p := by
  have hRead := (h.mem ho).1
  rw [hSame, (h.mem hp).1] at hRead
  injection hRead with hInfo
  exact Prod.ext hSame hInfo.symm

/-- The objects between two offsets are determined by the bytes. -/
theorem functional (h : Tiling bytes size used start stop objects) (h' : Tiling bytes size used start stop more) :
    objects = more := by
  induction h generalizing more with
  | nil at' =>
      cases h' with
      | nil => rfl
      | @cons _ _ info rest read tail =>
          have := info.stop_ge at'
          have := tail.le
          have : 0 < headerBytes := by decide
          omega
  | @cons at' stop info rest read tail ih =>
      cases h' with
      | nil =>
          have := info.stop_ge at'
          have := tail.le
          have : 0 < headerBytes := by decide
          omega
      | cons read' tail' =>
          rw [read] at read'
          injection read' with hInfo
          subst hInfo
          rw [ih tail']

theorem append (h : Tiling bytes size used start middle objects) (hMore : Tiling bytes size used middle stop more) :
    Tiling bytes size used start stop (objects ++ more) := by
  induction h with
  | nil => exact hMore
  | cons read tail ih => exact .cons read (ih hMore)

/-- A tiling depends on the headers of its objects alone. -/
theorem congr (h : Tiling bytes size used start stop objects)
    (hHeaders : ∀ o ∈ objects, ∀ i, o.1 ≤ i → i < o.1 + headerBytes → other i = bytes i) :
    Tiling other size used start stop objects := by
  induction h with
  | nil at' => exact .nil at'
  | @cons at' stop info rest read tail ih =>
      refine .cons ?_ (ih fun o ho => hHeaders o (List.mem_cons_of_mem _ ho))
      rw [Info.read_congr (hHeaders _ List.mem_cons_self), read]

/-- The objects of a heap stay what they are when the heap grows or is cut behind them. -/
theorem relimit (h : Tiling bytes size used start stop objects) (hStop : stop ≤ limit) (hLimit : limit ≤ size) :
    Tiling bytes size limit start stop objects := by
  induction h with
  | nil at' => exact .nil at'
  | @cons at' stop info rest read tail ih =>
      refine .cons (Info.read_limit read ?_ hLimit) (ih hStop)
      have := info.stop_ge at'
      have := tail.le
      omega

theorem resize (h : Tiling bytes size used start stop objects) (hSize : used ≤ limit) :
    Tiling bytes limit used start stop objects := by
  induction h with
  | nil at' => exact .nil at'
  | cons read tail ih => exact .cons (Info.read_resize read hSize) ih

/-- What is left of the heap starts with an object. -/
theorem next (h : Tiling bytes size used start stop objects) (hLess : start < stop) :
    ∃ info rest, Info.read bytes size used start = .ok info ∧ Tiling bytes size used (info.stop start) stop rest := by
  cases h with
  | nil => omega
  | cons read tail => exact ⟨_, _, read, tail⟩

/-- Where a list of objects ends that begins at an offset. -/
def finish (start : Nat) (objects : List (Nat × Info)) : Nat := objects.foldl (fun _ o => o.2.stop o.1) start

theorem stop_eq (h : Tiling bytes size used start stop objects) : stop = finish start objects := by
  induction h with
  | nil at' => rfl
  | cons read tail ih => exact ih

/-- The first objects of a tiling are tiled by themselves. -/
theorem split (h : Tiling bytes size used start stop (objects ++ more)) :
    Tiling bytes size used start (finish start objects) objects := by
  induction objects generalizing start with
  | nil => exact .nil start
  | cons first rest ih =>
      cases h with
      | cons read tail => exact .cons read (ih tail)

end Tiling

/-- A byte of an object's payload. -/
def InPayload (o : Nat × Info) (i : Nat) : Prop := o.1 + headerBytes ≤ i ∧ i < o.1 + headerBytes + o.2.payload

instance (o : Nat × Info) (i : Nat) : Decidable (InPayload o i) := by
  unfold InPayload
  infer_instance

/-- A byte that is not in the payload of a transient array. -/
def Persistent (objects : List (Nat × Info)) (i : Nat) : Prop :=
  ∀ o ∈ objects, o.2.clearEvent ≠ 0 → ¬InPayload o i

instance (objects : List (Nat × Info)) (i : Nat) : Decidable (Persistent objects i) := by
  unfold Persistent
  infer_instance

/-- A span inside the payload of one object. -/
def Spans (objects : List (Nat × Info)) (at' length : Nat) (info : Info) : Prop :=
  ∃ o ∈ objects, o.2 = info ∧ o.1 + headerBytes ≤ at' ∧ at' + length ≤ o.1 + headerBytes + info.payload

namespace Heap

/-- The objects of a heap. -/
def Tiles (heap : Heap) (objects : List (Nat × Info)) : Prop :=
  Tiling heap.bytes heap.size heap.next 2 heap.next objects

variable {heap : Heap} {objects : List (Nat × Info)} {reference at' index offset length : Nat} {info : Info}

theorem Tiles.info_mem (h : heap.Tiles objects) {o : Nat × Info} (ho : o ∈ objects) : heap.info o.1 = .ok o.2 :=
  (Tiling.mem h ho).1

/-- The payload of one object holds no header. -/
theorem Tiles.header_outside (h : heap.Tiles objects) {o p : Nat × Info} (ho : o ∈ objects) (hp : p ∈ objects) {i : Nat}
    (hIn : InPayload o i) : ¬(p.1 ≤ i ∧ i < p.1 + headerBytes) := by
  intro hHeader
  obtain ⟨hLow, hHigh⟩ := hIn
  have hFirst := o.2.stop_ge o.1
  have hSecond := p.2.stop_ge p.1
  rcases Nat.lt_trichotomy o.1 p.1 with hBefore | hSame | hAfter
  · have hApart := Tiling.apart h ho hp hBefore
    omega
  · omega
  · have hApart := Tiling.apart h hp ho hAfter
    omega

/-- Payloads of different objects do not meet. -/
theorem Tiles.payload_unique (h : heap.Tiles objects) {o p : Nat × Info} (ho : o ∈ objects) (hp : p ∈ objects) {i : Nat}
    (hFirst : InPayload o i) (hSecond : InPayload p i) : o = p := by
  obtain ⟨hLow, hHigh⟩ := hFirst
  obtain ⟨hLow', hHigh'⟩ := hSecond
  have hStop := o.2.stop_ge o.1
  have hStop' := p.2.stop_ge p.1
  rcases Nat.lt_trichotomy o.1 p.1 with hBefore | hSame | hAfter
  · have hApart := Tiling.apart h ho hp hBefore
    omega
  · exact Tiling.unique h ho hp hSame
  · have hApart := Tiling.apart h hp ho hAfter
    omega

/-- An element lies in the payload that the header announces. -/
theorem slot_ok {wantArray : Bool} (hSlot : heap.slot reference index wantArray = .ok (at', info)) :
    heap.info reference = .ok info ∧ at' = reference + headerBytes + index * info.kind.elementSize ∧ index < info.length ∧
      info.isArray = wantArray ∧ at' + info.kind.elementSize ≤ reference + headerBytes + info.payload := by
  unfold Heap.slot at hSlot
  simp only [bind_ok, failIf_ok, pure_ok, Prod.mk.injEq] at hSlot
  obtain ⟨_, hInfo, -, hKind, -, hIndex, hAt, rfl⟩ := hSlot
  rename_i found
  have hEnd : (index + 1) * found.kind.elementSize ≤ found.payload := Nat.mul_le_mul_right _ (by omega)
  rw [Nat.add_mul, Nat.one_mul] at hEnd
  exact ⟨hInfo, hAt.symm, by omega, by simpa using hKind, by omega⟩

theorem byteRange_ok (hRange : heap.byteRange reference offset length = .ok (at', info)) :
    heap.info reference = .ok info ∧ at' = reference + headerBytes + offset ∧ offset + length ≤ info.length ∧
      info.kind.elementSize = 1 ∧ at' + length ≤ reference + headerBytes + info.payload := by
  unfold Heap.byteRange at hRange
  simp only [bind_ok, failIf_ok, pure_ok, Prod.mk.injEq, not_or, not_not] at hRange
  obtain ⟨_, hInfo, -, ⟨hSize, -⟩, -, hFits, hAt, rfl⟩ := hRange
  rename_i found
  have hPayload : found.payload = found.length := by rw [Info.payload, hSize, Nat.mul_one]
  exact ⟨hInfo, hAt.symm, by omega, hSize, by omega⟩

/-- An element of a genuine object lies in its payload. -/
theorem Tiles.slot_spans (h : heap.Tiles objects) {o : Nat × Info} (ho : o ∈ objects) {wantArray : Bool}
    (hSlot : heap.slot o.1 index wantArray = .ok (at', info)) :
    o.2 = info ∧ at' = o.1 + headerBytes + index * info.kind.elementSize ∧ index < info.length ∧
      info.isArray = wantArray ∧ Spans objects at' info.kind.elementSize info := by
  obtain ⟨hInfo, hAt, hIndex, hKind, hEnd⟩ := slot_ok hSlot
  rw [h.info_mem ho] at hInfo
  injection hInfo with hInfo
  exact ⟨hInfo, hAt, hIndex, hKind, o, ho, hInfo, by omega, hEnd⟩

theorem Tiles.byteRange_spans (h : heap.Tiles objects) {o : Nat × Info} (ho : o ∈ objects)
    (hRange : heap.byteRange o.1 offset length = .ok (at', info)) :
    o.2 = info ∧ at' = o.1 + headerBytes + offset ∧ offset + length ≤ info.length ∧ info.kind.elementSize = 1 ∧
      Spans objects at' length info := by
  obtain ⟨hInfo, hAt, hFits, hSize, hEnd⟩ := byteRange_ok hRange
  rw [h.info_mem ho] at hInfo
  injection hInfo with hInfo
  exact ⟨hInfo, hAt, hFits, hSize, o, ho, hInfo, by omega, hEnd⟩

section Visiting

variable {visit : Nat → Info → List Byte → Except Error (List Byte)}

/-- What a visitor did to the payloads of some objects, and that it did nothing else. -/
structure Visited (visit : Nat → Info → List Byte → Except Error (List Byte)) (objects : List (Nat × Info))
    (bytes bytes' : Nat → Byte) : Prop where
  payload : ∀ o ∈ objects, visit o.1 o.2 (range bytes (o.1 + headerBytes) o.2.payload) =
    .ok (range bytes' (o.1 + headerBytes) o.2.payload)
  outside : ∀ i, (∀ o ∈ objects, ¬InPayload o i) → bytes' i = bytes i

/-- A visitor that always succeeds visits every object once. -/
theorem visitFrom_spec (hVisit : ∀ reference info payload, ∃ payload', visit reference info payload = .ok payload' ∧
    payload'.length = payload.length) {heap : Heap} {fuel at' : Nat} {objects : List (Nat × Info)}
    (hTiling : Tiling heap.bytes heap.size heap.next at' heap.next objects) (hFuel : heap.next < at' + fuel) :
    ∃ bytes, visitFrom visit fuel at' heap = .ok () { heap with bytes := bytes } ∧ Visited visit objects heap.bytes bytes := by
  induction objects generalizing heap fuel at' with
  | nil =>
      cases hTiling
      cases fuel with
      | zero => omega
      | succ fuel =>
          refine ⟨heap.bytes, ?_, fun o ho => (nomatch ho), fun _ _ => rfl⟩
          simp [visitFrom, Bind.bind, EStateM.bind, get, getThe, MonadStateOf.get, EStateM.get, failIf, pure, EStateM.pure]
  | cons first rest ih =>
      cases hTiling with
      | @cons _ _ info _ read tail =>
      cases fuel with
      | zero =>
          have hLe := tail.le
          have := info.stop_ge at'
          have : 0 < headerBytes := by decide
          omega
      | succ fuel =>
          have hLe := tail.le
          have hStop := info.stop_ge at'
          have hHeader : 0 < headerBytes := by decide
          obtain ⟨payload, hOk, hLength⟩ := hVisit at' info (range heap.bytes (at' + headerBytes) info.payload)
          rw [length_range] at hLength
          let visited : Heap := { heap with bytes := overwrite heap.bytes (at' + headerBytes) payload }
          have hTail : Tiling visited.bytes visited.size visited.next (info.stop at') visited.next rest := by
            refine tail.congr fun o ho i hLow hHigh => ?_
            have hStart := (tail.mem ho).2.1
            exact overwrite_outside (by omega)
          obtain ⟨bytes, hRun, hSeen⟩ := ih hTail (show heap.next < info.stop at' + fuel by omega)
          have hFirst : ∀ i, i < info.stop at' → bytes i = overwrite heap.bytes (at' + headerBytes) payload i := by
            intro i hi
            refine hSeen.outside i fun o ho hIn => ?_
            have hStart := (tail.mem ho).2.1
            have := hIn.1
            omega
          refine ⟨bytes, ?_, fun o ho => ?_, fun i hOutside => ?_⟩
          · have hInfo : heap.info at' = .ok info := read
            simp only [visitFrom, Bind.bind, EStateM.bind, get, getThe, MonadStateOf.get, EStateM.get,
              if_pos (show at' < heap.next by omega), readOnly, hInfo, hOk, set, MonadStateOf.set, EStateM.set]
            exact hRun
          · rcases List.mem_cons.1 ho with hHere | hLater
            · rw [hHere]
              simp only
              rw [hOk]
              congr 1
              have hRange : range bytes (at' + headerBytes) info.payload =
                  range (overwrite heap.bytes (at' + headerBytes) payload) (at' + headerBytes) info.payload :=
                range_congr fun i hi => hFirst _ (by omega)
              rw [hRange, ← hLength, range_overwrite]
            · have hStart := (tail.mem hLater).2.1
              rw [← hSeen.payload o hLater]
              congr 1
              exact (range_overwrite_apart (by omega)).symm
          · have hNot := hOutside _ List.mem_cons_self
            rw [hSeen.outside i fun o ho => hOutside o (List.mem_cons_of_mem _ ho)]
            apply overwrite_outside
            simp only [InPayload] at hNot
            omega

end Visiting

end Heap

end MicroCard.Jcvm
