import MicroCard.Jcvm.LoadFile

/-! The Method component: one handler table for the whole package, then every method
laid end to end. A method carries no length of its own. -/
namespace MicroCard.Jcvm

open Bytes CrashTriple

/-- One entry of the package-wide exception handler table. -/
structure Handler where
  startOffset : Nat
  activeLength : Nat
  handlerOffset : Nat
  catchTypeIndex : Nat
  stop : Bool
  deriving DecidableEq, Repr

def Handler.covers (handler : Handler) (offset : Nat) : Bool :=
  handler.startOffset ≤ offset ∧ offset < handler.startOffset + handler.activeLength

structure MethodHeader where
  flags : Nat
  maxStack : Nat
  nargs : Nat
  maxLocals : Nat
  length : Nat
  deriving DecidableEq, Repr

def MethodHeader.abstractMethod (header : MethodHeader) : Bool := header.flags / 4 % 2 = 1

/-- Words a frame needs for this method's locals. -/
def MethodHeader.frameWords (header : MethodHeader) : Nat := header.nargs + header.maxLocals

/-- Read the header at an offset into the Method component. -/
def MethodHeader.parse (component : List Byte) (at' : Nat) : Except Error MethodHeader := do
  let first ← byteAt component at'
  let flags := first.toNat / 16
  failIf (flags % 4 ≠ 0) .format
  if flags / 8 % 2 = 1 then
    let bytes ← slice component at' (at' + 4)
    failIf ((bytes.getD 0 0).toNat % 16 ≠ 0) .format
    pure ⟨flags, (bytes.getD 1 0).toNat, (bytes.getD 2 0).toNat, (bytes.getD 3 0).toNat, 4⟩
  else
    let bytes ← slice component at' (at' + 2)
    pure ⟨flags, (bytes.getD 0 0).toNat % 16, (bytes.getD 1 0).toNat / 16, (bytes.getD 1 0).toNat % 16, 2⟩

structure Method where
  info : List Byte
  handlerCount : Nat
  deriving DecidableEq, Repr

def Method.handler (info : List Byte) (index : Nat) : Handler :=
  let at' := 1 + index * 8
  let bitfield := wordOr info (at' + 2)
  { startOffset := wordOr info at'
    stop := 0x8000 ≤ bitfield
    activeLength := bitfield % 0x8000
    handlerOffset := wordOr info (at' + 4)
    catchTypeIndex := wordOr info (at' + 6) }

def Method.handlers (methods : Method) : List Handler :=
  (List.range methods.handlerCount).map (Method.handler methods.info)

def Method.parse (info : List Byte) : Except Error Method := do
  let handlerCount := (← byteAt info 0).toNat
  failIf (info.length < 1 + handlerCount * 8) .bounds
  let methods : Method := ⟨info, handlerCount⟩
  failIf (methods.handlers.any fun handler =>
    info.length < handler.startOffset + handler.activeLength ∨ info.length ≤ handler.handlerOffset) .bounds
  pure methods

/-- Where the method area starts. -/
def Method.methodsStart (methods : Method) : Nat := 1 + methods.handlerCount * 8

/-- The header and the bytecode of the method starting at `at'` and ending at `stop`. -/
def Method.method (methods : Method) (at' stop : Nat) : Except Error (MethodHeader × List Byte) := do
  failIf (at' < methods.methodsStart ∨ methods.info.length < stop ∨ stop ≤ at') .bounds
  let header ← MethodHeader.parse methods.info at'
  let code ← slice methods.info (at' + header.length) stop
  failIf (header.abstractMethod ∧ code ≠ []) .format
  pure (header, code)

def LoadFile.methods (file : LoadFile) : Except Error Method := do
  Method.parse (← file.required .method)

end MicroCard.Jcvm
