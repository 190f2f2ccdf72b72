import MicroCard.Jcvm.Boundaries
import MicroCard.Jcvm.Package
import MicroCard.Jcvm.Verify

/-! Control flow of an accepted package. The verifier decodes whatever control can
reach, but it checks only what a linear walk over the boundaries visits. The two agree
unless some target points into the operand bytes of a visited instruction. -/
namespace MicroCard.Jcvm

open Bytes CrashTriple Checks

section Streams

variable (code : List Byte) (entries : List Nat)

/-- Everything control can reach in a method is well formed, was checked, and does not
overlap anything else control can reach. -/
structure SoundFlow (limits : Limits) (constantCount frameWords : Nat) (checked : List Nat) : Prop where
  decodes : ∀ x, Reach code entries x → ∃ length, instructionLength code x = .ok length ∧ x + length ≤ code.length ∧
    ∀ item ∈ targets code x length, ∃ t : Nat, item = .ok (t : Int) ∧ t < code.length
  implemented : ∀ x, Reach code entries x → limits.allows (code.getD x 0) = .ok ()
  constants : ∀ x, Reach code entries x → ∃ index, constantPoolIndex code x = .ok index ∧
    ∀ place, place ∈ index → place.2 < constantCount
  locals : ∀ x, Reach code entries x → ∀ place, place ∈ localAccess code x → place.1 + place.2 ≤ frameWords
  apart : ∀ x y length, Reach code entries x → Reach code entries y → x < y →
    instructionLength code x = .ok length → x + length ≤ y
  targets_apart : ∀ x y t length, Reach code entries x → Target code x t → Reach code entries y →
    instructionLength code y = .ok length → ¬(y < t ∧ t < y + length)
  entries_apart : ∀ e ∈ entries, ∀ y length, Reach code entries y → instructionLength code y = .ok length →
    ¬(y < e ∧ e < y + length)
  checked : ∀ x, Reach code entries x → x ∈ checked

/-- The instructions that the verifier's walk checks. -/
def checkedInstructions (limits : Limits) (scratch : Nat) : List Nat :=
  match Boundaries.reachable code limits scratch entries with
  | .ok map => visits code map code.length 0
  | .error _ => []

end Streams

section Method

variable {code : List Byte} {entries : List Nat} {limits : Limits} {scratch constantCount frameWords : Nat}
  {map : Boundaries}

end Method

section File

/-- A method with a body, as the verifier cuts it out of its load file. -/
structure MethodBody where
  method : MethodHeader
  code : List Byte
  entries : List Nat
  limits : Limits
  constantCount : Nat
  deriving DecidableEq, Repr

def methodBody (methods : Method) (limits : Limits) (constantCount : Nat) (region : Nat × Nat) :
    Except Error MethodBody := do
  let (method, code) ← methods.method region.1 region.2
  pure ⟨method, code, methodEntries methods (region.1 + method.length) region.2, limits, constantCount⟩

/-- Every method of a package that has a body. -/
def methodBodies (file : LoadFile) : Except Error (List MethodBody) := do
  let header ← file.header
  let constants ← file.constants
  let methods ← file.methods
  let offsets ← methodOffsets file
  let bodies ← (methodRegions offsets methods.info.length).mapM
    (methodBody methods ⟨header.int, false⟩ constants.length)
  pure (bodies.filter fun body => !body.method.abstractMethod)

/-- The flow of one method of a package is sound. -/
def MethodBody.Sound (body : MethodBody) (scratch : Nat) : Prop :=
  SoundFlow body.code body.entries body.limits body.constantCount body.method.frameWords
    (checkedInstructions body.code body.entries body.limits scratch)

variable {file : LoadFile} {scratch : Nat} {report : Report}

/-- Reading a built package once serves everything that is said about it. -/
theorem Package.accepted (package : Package) (scratch : Nat) (report : Report) (bodies : List MethodBody)
    (hVerify : (LoadFile.parse package.build >>= fun file => verify file scratch) = .ok report)
    (hBodies : (LoadFile.parse package.build >>= methodBodies) = .ok bodies) :
    ∃ file, LoadFile.parse package.build = .ok file ∧ verify file scratch = .ok report ∧
      methodBodies file = .ok bodies := by
  rw [bind_ok] at hVerify hBodies
  obtain ⟨file, hFile, hVerify⟩ := hVerify
  obtain ⟨other, hOther, hBodies⟩ := hBodies
  rw [hFile] at hOther
  injection hOther with hOther
  rw [← hOther] at hBodies
  exact ⟨file, hFile, hVerify, hBodies⟩

end File

end MicroCard.Jcvm
