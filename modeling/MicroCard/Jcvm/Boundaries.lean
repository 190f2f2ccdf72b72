import MicroCard.Jcvm.Code
import MicroCard.Library.Checks
import Mathlib.Data.Finset.Card
import Mathlib.Tactic.Linarith

/-! The search for reachable instructions. The worklist marks exactly the offsets
control can reach; the linear walk of the later checks visits some of them. -/
namespace MicroCard.Jcvm

open Bytes CrashTriple Checks

section Decoding

variable {code : List Byte} {x length : Nat}

theorem byteAt_ok {b : Byte} : byteAt code x = .ok b ↔ code[x]? = some b := by
  unfold byteAt
  cases code[x]? with
  | none => simp
  | some b => simp

theorem bounded_ok {target : Int} {bound t : Nat} (h : bounded target bound = .ok t) : target = t ∧ t < bound := by
  unfold bounded at h
  split at h
  · cases h
  · injection h with h
    omega

end Decoding

section Reaching

variable (code : List Byte) (entries : List Nat)

/-- The instruction at `x` can transfer control to `t`. -/
def Target (x t : Nat) : Prop :=
  ∃ length, instructionLength code x = .ok length ∧ Except.ok (t : Int) ∈ targets code x length

/-- Where control can come by fall-through, branches and switches. -/
inductive Reach : Nat → Prop where
  | entry {e : Nat} (mem : e ∈ entries) : Reach e
  | fallThrough {x length : Nat} (reach : Reach x) (decoded : instructionLength code x = .ok length)
      (falls : fallsThrough (code.getD x 0) = true) : Reach (x + length)
  | jump {x t : Nat} (reach : Reach x) (target : Target code x t) : Reach t

end Reaching

namespace Boundaries

section Enqueue

variable {code : List Byte} {limits : Limits} {map map' : Boundaries} {x t : Nat}

/-- A map that has only grown. -/
structure Grows (map map' : Boundaries) : Prop where
  length : map'.length = map.length
  marked : ∀ x, map.marked x = true → map'.marked x = true
  pending : ∀ x, map.pending x = true → map'.pending x = true

theorem Grows.refl (map : Boundaries) : Grows map map := ⟨rfl, fun _ h => h, fun _ h => h⟩

theorem Grows.trans {last : Boundaries} (h : Grows map map') (h' : Grows map' last) : Grows map last :=
  ⟨h'.length.trans h.length, fun x hx => h'.marked x (h.marked x hx), fun x hx => h'.pending x (h.pending x hx)⟩

end Enqueue

section Follow

variable {code : List Byte} {limits : Limits} {map map' : Boundaries} {x : Nat}

/-- The instruction at `x` was decoded and everything it leads to is known. -/
structure Decoded (code : List Byte) (limits : Limits) (map : Boundaries) (x length : Nat) : Prop where
  decoded : instructionLength code x = .ok length
  allowed : limits.allows (code.getD x 0) = .ok ()
  queued : ∀ item ∈ targets code x length, ∃ t : Nat, item = .ok (t : Int) ∧ t < code.length ∧
    (map.marked t = true ∨ map.pending t = true)
  next : fallsThrough (code.getD x 0) = true → map.marked (x + length) = true

section Reached

variable {entries : List Nat}

end Reached

end Follow

section Sweep

variable {code : List Byte} {limits : Limits} {map map' : Boundaries} {entries : List Nat}

/-- Every marked instruction was decoded, and no offset lies outside the method. -/
structure Settled (code : List Byte) (limits : Limits) (map : Boundaries) : Prop where
  length : map.length = code.length
  inside : ∀ x, map.pending x = true → x < code.length
  decoded : ∀ x, map.marked x = true → x < code.length ∧ ∃ length, Decoded code limits map x length

/-- Instructions not decoded yet. -/
def unmarked (map : Boundaries) : Finset Nat := (Finset.range map.length).filter fun x => map.marked x = false

def waiting (map : Boundaries) : Finset Nat := (Finset.range map.length).filter fun x => map.pending x = true

/-- What is left to do. Decoding an instruction may queue as many offsets as the
method has bytes. -/
def work (map : Boundaries) : Nat := map.unmarked.card * (map.length + 1) + map.waiting.card

end Sweep

end Boundaries

section Walk

/-- The boundaries the linear walk visits. -/
def visits (code : List Byte) (map : Boundaries) : Nat → Nat → List Nat
  | 0, _ => []
  | fuel + 1, at' =>
      if code.length ≤ at' then []
      else if !map.isBoundary at' then visits code map fuel (at' + 1)
      else
        match instructionLength code at' with
        | .error _ => [at']
        | .ok length => at' :: visits code map fuel (at' + length)

variable {code : List Byte} {map : Boundaries} {check : Nat → Except Error Unit}

end Walk

end MicroCard.Jcvm
