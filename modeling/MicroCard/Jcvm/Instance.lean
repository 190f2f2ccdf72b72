import MicroCard.Jcvm.Linked
import MicroCard.Jcvm.Persistence
import MicroCard.Jcvm.SavedNatives

/-! One installed applet and everything it owns. A new instance lays out the objects the
runtime hands it and the arrays its static fields start with; saved state is checked
against such an instance before it is taken over. -/
namespace MicroCard.Jcvm

open Bytes CrashTriple Slices

/-- How much of the card one applet is given. -/
structure Sizes where
  heapBytes : Nat
  frameWords : Nat
  /-- Bytes of APDU buffer, which bounds a command and its response. -/
  bufferBytes : UInt16
  /-- Instructions one command may run. -/
  budget : Nat
  deriving DecidableEq, Repr

/-- An instance at rest. The heap is its bytes and their number. -/
structure AppletInstance where
  heap : Nat → Byte
  heapLength : Nat
  heapUsed : Nat
  /-- Where the runtime's own objects end. -/
  runtimeBytes : Nat
  statics : List Byte
  words : List Nat
  tags : List Byte
  apdu : Nat
  buffer : Nat
  instance' : Option Nat
  selected : Bool
  reselecting : Bool
  transactionAborted : Bool
  pendingWrites : PendingWrites
  lastAutoCollectionUsed : Nat
  context : Nat
  sizes : Sizes

section Laying

/-- Every applet in a package shares one context. -/
def appletContext : Nat := 1

/-- The exceptions that have a static method to throw the card's own instance. -/
def throwItClasses : List ClassId :=
  [.cardException, .cardRuntimeException, .isoException, .pinException, .apduException, .systemException,
    .transactionException, .userException, .cryptoException]

/-- Every exception the runtime throws of its own accord. -/
def runtimeExceptionClasses : List ClassId :=
  [.arithmeticException, .arrayIndexOutOfBoundsException, .classCastException, .negativeArraySizeException,
    .nullPointerException, .securityException] ++
    (packages.flatMap ApiPackage.classes).filterMap fun entry =>
      if isExceptionClass entry = true ∧ entry.id ∈ throwItClasses then some entry.id else none

/-- Look for a runtime exception of a class. Those have only the reason word. -/
def findException (native context : Nat) : Nat → Nat → HeapM (Option Nat)
  | 0, _ => throw .format
  | fuel + 1, at' => do
      let heap ← get
      if at' < heap.next then
        let info ← readOnly (heap.info at')
        if info.cls = native ∧ info.owner = context ∧ info.length = 1 then return some at'
        findException native context fuel (info.stop at')
      else return none

/-- Obtain a runtime exception. Repeated errors must not leak persistent heap. -/
def newException (id : ClassId) (context : Nat) : HeapM Nat := do
  let native ← orFail (classWord id) .missing
  match ← findException native context ((← get).next + 1) 2 with
  | some reference => return reference
  | none => Heap.newObject native 1 context

def reserveRuntimeExceptions (context : Nat) : HeapM Unit :=
  runtimeExceptionClasses.forM fun id => do
    let _ ← newException id context

/-- The kind of array a static field starts out holding. Only some packages have ints. -/
def initKind (file : LoadFile) (array : ArrayInit) : Except Error Kind :=
  if array.elementType = 2 then .ok .boolean
  else if array.elementType = 3 then .ok .byte
  else if array.elementType = 4 then .ok .short
  else if array.elementType = 5 then do
    let header ← file.header
    if header.int then pure .int else throw .unsupported
  else .error .unsupported

/-- `chunks_exact`. -/
def chunks (size : Nat) : Nat → List Byte → List (List Byte)
  | 0, _ => []
  | count + 1, bytes => bytes.take size :: chunks size count (bytes.drop size)

/-- The value of an element, sign-extended to a short or as an int. -/
def elementValue (bytes : List Byte) : Except Error Nat :=
  match bytes with
  | [byte] => .ok (if byte.toNat < 128 then byte.toNat else 65280 + byte.toNat)
  | [a, b] => .ok (be16 a b)
  | [a, b, c, d] => .ok (be16 a b * 65536 + be16 c d)
  | _ => .error .format

def fillElement (kind : Kind) (reference : Nat) (element : List Byte × Nat) : HeapM Unit := do
  let value ← readOnly (elementValue element.1)
  if kind = .int then Heap.arrayPutInt reference element.2 value else Heap.arrayPut reference element.2 value

/-- Lay out one static array. -/
def newStaticArray (file : LoadFile) (context : Nat) (array : ArrayInit) : HeapM Nat := do
  let kind ← readOnly (initKind file array)
  let reference ← Heap.newArray kind array.length context
  ((chunks array.elementSize array.length array.values).zipIdx).forM (fillElement kind reference)
  return reference

def newStaticArrays (file : LoadFile) (context : Nat) : List ArrayInit → HeapM (List Nat)
  | [] => return []
  | array :: arrays => do
      let reference ← newStaticArray file context array
      let references ← newStaticArrays file context arrays
      return reference :: references

/-- What the objects of a new instance are. -/
structure Layout where
  buffer : Nat
  apdu : Nat
  runtimeBytes : Nat
  arrays : List Nat
  deriving DecidableEq, Repr

/-- Build the objects the runtime hands an applet, then the static arrays. -/
def layOut (file : LoadFile) (statics : StaticField) (bufferBytes : Nat) : HeapM Layout := do
  Heap.initializeLifecycle
  let buffer ← Heap.newTransientArray .byte bufferBytes appletContext clearOnReset
  let apduClass ← orFail (classWord .apdu) .missing
  let apdu ← Heap.newObject apduClass 1 appletContext
  reserveRuntimeExceptions appletContext
  let runtimeBytes := (← get).next
  let arrays ← newStaticArrays file appletContext statics.arrayInits
  return ⟨buffer, apdu, runtimeBytes, arrays⟩

/-- The static field image: references, fields that start at zero, and the others. -/
def staticImage (statics : StaticField) (arrays : List Nat) : List Byte :=
  arrays.flatMap Heap.wordBytes ++
    List.replicate (statics.imageSize - arrays.length * 2 - statics.nonDefaultValues.length) 0 ++
    statics.nonDefaultValues

end Laying

namespace AppletInstance

/-- The instance that owns a heap that was laid out. -/
def ofLayout (statics : StaticField) (layout : Layout) (heap : Heap) (sizes : Sizes) : AppletInstance where
  heap := heap.bytes
  heapLength := heap.size
  heapUsed := heap.next
  runtimeBytes := layout.runtimeBytes
  statics := staticImage statics layout.arrays
  words := List.replicate sizes.frameWords 0
  tags := List.replicate ((sizes.frameWords + 7) / 8) 0
  apdu := layout.apdu
  buffer := layout.buffer
  instance' := none
  selected := false
  reselecting := false
  transactionAborted := false
  pendingWrites := .empty
  lastAutoCollectionUsed := 0
  context := appletContext
  sizes := sizes

/-- Lay out the memory one applet gets. -/
def new (file : LoadFile) (sizes : Sizes) : Except Error AppletInstance := do
  let statics ← file.staticFields
  let heap ← Heap.new (fun _ => 0) sizes.heapBytes
  match layOut file statics sizes.bufferBytes.toNat heap with
  | .error e _ => throw e
  | .ok layout heap => pure (ofLayout statics layout heap sizes)

end AppletInstance

section Validating

/-- The token under which every applet overrides `process`. -/
def processToken : Nat := 7

/-- An applet extends the card's own applet class, through classes of its package. -/
def appletChain (linked : Linked) : Nat → ClassRef → Except Error Unit
  | 0, _ => .error .format
  | fuel + 1, .internal offset => do
      let info ← linked.classes.at offset
      appletChain linked fuel info.superClass
  | _ + 1, .external package cls => do
      let entry ← linked.apiClass package cls
      failIf (entry.id ≠ .applet) .type
  | _ + 1, .none => .error .type

def checkApplet (linked : Linked) (root : Info) : Except Error Unit := do
  failIf (root.kind ≠ .object ∨ isNativeClass root.cls = true) .type
  let _ ← linked.lookup root.cls processToken
  appletChain linked Linked.chainSteps (.internal root.cls)

/-- Visit the objects of a saved heap from an offset on. -/
def visitSavedFrom (heap : List Byte) (visit : Nat → Info → List Byte → Except Error Unit) : Nat → Nat →
    Except Error Unit
  | 0, _ => .error .format
  | fuel + 1, at' =>
      if at' < heap.length then do
        let info ← savedInfo heap at'
        visit at' info (Slices.slice heap (at' + headerBytes) info.payload)
        visitSavedFrom heap visit fuel (info.stop at')
      else failIf (at' ≠ heap.length) .format

def visitSavedObjects (heap : List Byte) (visit : Nat → Info → List Byte → Except Error Unit) : Except Error Unit := do
  failIf (heap.length < 2 ∨ 65535 < heap.length ∨ heap.length % 2 ≠ 0) .bounds
  visitSavedFrom heap visit (heap.length + 1) 2

/-- Where the objects of a saved heap start. -/
def savedStarts (heap : List Byte) : Nat → Nat → List Nat
  | 0, _ => []
  | fuel + 1, at' =>
      if at' < heap.length then
        match savedInfo heap at' with
        | .ok info => at' :: savedStarts heap fuel (info.stop at')
        | .error _ => []
      else []

/-- The two-byte words of a payload. -/
def payloadWords (payload : List Byte) : List Nat := tableEntries payload

namespace AppletInstance

variable (desLegacy : Bool) (card : AppletInstance) (file : LoadFile) (saved : PersistentState)

def validReference (starts : List Nat) (reference : Nat) : Except Error Unit :=
  failIf (reference ≠ 0 ∧ reference ∉ starts) .bounds

/-- A reference that a field or an array may hold. -/
def storableReference (starts : List Nat) (reference : Nat) : Except Error Unit := do
  validReference starts reference
  failIf (reference ≠ 0 ∧ (reference = card.buffer ∨
    isTemporaryNative (wordOr saved.heap reference) (wordOr saved.heap (reference + 2)) = true)) .firewall

/-- What every object must satisfy: its owner, and no contents where they are transient. -/
def validateObject (_reference : Nat) (info : Info) (payload : List Byte) : Except Error Unit := do
  failIf (info.owner ≠ card.context) .firewall
  failIf (info.clearEvent ≠ 0 ∧ ¬payload.all (· = 0) = true) .format

/-- The class that the elements of a reference array must be of. -/
def componentTarget (linked : Linked) (cls : Nat) : Except Error (Option ClassRef) :=
  if cls = anyReferenceClass then .ok none
  else
    match ClassRef.decode cls with
    | .internal offset => do
        let _ ← linked.classes.at offset
        pure (some (.internal offset))
    | .external package token => do
        let _ ← linked.apiClass package token
        pure (some (.external package token))
    | .none => .error .format

/-- An element of a reference array. -/
def validateElement (linked : Linked) (starts : List Nat) (component : Option ClassRef) (reference : Nat) :
    Except Error Unit := do
  card.storableReference saved starts reference
  match component with
  | none => pure ()
  | some target =>
      if reference ≠ 0 then
        let value ← savedInfo saved.heap reference
        let compatible ←
          if value.isArray then linked.classReferenceIsObject target else linked.classMatchesTarget value.cls target
        failIf (compatible = false) .type

/-- What the contents of an object must satisfy. -/
def validateContents (linked : Linked) (starts : List Nat) (_reference : Nat) (info : Info) (payload : List Byte) :
    Except Error Unit :=
  match info.kind with
  | .reference => do
      let component ← componentTarget linked info.cls
      (payloadWords payload).forM (card.validateElement saved linked starts component)
  | .boolean => failIf ((payload.any fun value => 1 < value) = true) .format
  | .object =>
      if isNativeClass info.cls then validateSavedNative desLegacy info payload saved.heap (validReference starts)
      else do
        let words ← linked.instanceWords info.cls
        failIf (words ≠ info.length) .format
        linked.visitInstanceReferenceOffsets info.cls payload.length fun at' =>
          card.storableReference saved starts (wordOr payload at')
  | _ => .ok ()

/-- The references at the front of the static field image. -/
def staticWords (statics : List Byte) (count : Nat) : Except Error (List Nat) := do
  failIf (statics.length < count * 2) .bounds
  pure (payloadWords (statics.take (count * 2)))

/-- Check saved state against the objects of a new instance. -/
def validateSaved : Except Error Unit := do
  failIf (saved.statics.length ≠ card.statics.length ∨ saved.heap.length < 2 ∨ 65535 < saved.heap.length ∨
    saved.heap.length % 2 ≠ 0) .bounds
  failIf (Heap.validVersion (saved.heap.getD 0 0) = false) .incompatibleState
  -- runtime objects have deterministic handles and a zeroed APDU buffer
  failIf (Heap.validLifecycle (saved.heap.getD 1 0) = false ∨ saved.heap.length < card.runtimeBytes ∨
    Slices.slice saved.heap 2 (card.runtimeBytes - 2) ≠ range card.heap 2 (card.runtimeBytes - 2)) .format
  visitSavedObjects saved.heap card.validateObject
  let starts := savedStarts saved.heap (saved.heap.length + 1) 2
  validReference starts saved.instance'
  failIf (saved.instance' = 0) .missing
  let linked ← Linked.new file
  linked.importsResolve
  visitSavedObjects saved.heap (card.validateContents desLegacy saved linked starts)
  let root ← savedInfo saved.heap saved.instance'
  checkApplet linked root
  let statics ← file.staticFields
  let references ← staticWords saved.statics statics.referenceCount
  references.forM (card.storableReference saved starts)

/-- What the runtime objects and the static arrays of a new instance take. -/
def initialBytes (statics : StaticField) (bufferBytes : Nat) : Nat :=
  2 + (headerBytes + bufferBytes + 1) / 2 * 2 + (1 + runtimeExceptionClasses.length) * (headerBytes + 2) +
    (statics.arrayInits.map fun array => (headerBytes + array.values.length + 1) / 2 * 2).sum

/-- Validate borrowed state with only the load file's initial runtime layout. -/
def validatePersistent (sizes : Sizes) : Except Error Unit := do
  failIf (sizes.heapBytes < saved.heap.length) .bounds
  let statics ← file.staticFields
  let initial := initialBytes statics sizes.bufferBytes.toNat
  let card ← new file { sizes with heapBytes := min initial saved.heap.length, frameWords := 0 }
  card.validateSaved desLegacy file saved

/-- Restore state while leaving execution suspended. -/
def restoreWithoutFrames (sizes : Sizes) : Except Error AppletInstance := do
  failIf (sizes.heapBytes < saved.heap.length) .bounds
  let card ← new file { sizes with frameWords := 0 }
  let card := { card with sizes := sizes }
  card.validateSaved desLegacy file saved
  pure { card with
    heap := overwrite card.heap 0 saved.heap
    heapUsed := saved.heap.length
    statics := saved.statics
    instance' := some saved.instance' }

end AppletInstance

end Validating

end MicroCard.Jcvm
