import MicroCard.Card.Cbor

/-! The services of the board that the runtime calls: entropy, cryptography and pins. -/
namespace MicroCard.Mc04

open Bytes Cbor

/-- What the board answers during one call. Draws of entropy are numbered. -/
structure Platform where
  random : Nat → (length : Nat) → Except Error (Fixed length)
  gpio : Int32 → Int32 → Except Error Unit
  sha256 : List Byte → Except Error (Fixed 32)
  hmacSha256 : Fixed 32 → List Byte → Except Error (Fixed 32)
  aesCmac : List Byte → List Byte → Except Error (Fixed 16)
  /-- The flag tells encryption from decryption. -/
  aesCbc : Bool → List Byte → List Byte → List Byte → Except Error (List Byte)
  aesCcm : Bool → List Byte → List Byte → List Byte → List Byte → Except Error (List Byte)
  p256PublicKey : Fixed 32 → Except Error (Fixed 65)
  p256EcdsaSign : Fixed 32 → List Byte → Except Error (Fixed 64)
  p256Ecdh : Fixed 32 → List Byte → Except Error (Fixed 32)
  p256EcdsaVerify : List Byte → List Byte → List Byte → Except Error Bool

/-- The group order, most significant byte first. -/
def p256Order : List Byte := [
  0xff, 0xff, 0xff, 0xff, 0x00, 0x00, 0x00, 0x00, 0xff, 0xff, 0xff, 0xff, 0xff, 0xff, 0xff, 0xff,
  0xbc, 0xe6, 0xfa, 0xad, 0xa7, 0x17, 0x9e, 0x84, 0xf3, 0xb9, 0xca, 0xc2, 0xfc, 0x63, 0x25, 0x51]

/-- The borrow of subtracting the order across every byte. -/
def borrow (key order : List Byte) : Nat :=
  (key.zip order).foldr (fun pair borrow => if pair.1.toNat < pair.2.toNat + borrow then 1 else 0) 0

/-- A final borrow means the scalar is smaller than the order. -/
def p256PrivateKeyValid (key : Fixed 32) : Bool := key.1 ≠ List.replicate 32 0 && borrow key.1 p256Order = 1

/-- Bounded rejection sampling, with the given number of tries left. -/
def p256GeneratePrivate (random : Nat → Except Error (Fixed 32)) : Nat → Except Error (Fixed 32)
  | 0 => .error .native
  | tries + 1 => do
      let key ← random (8 - (tries + 1))
      if p256PrivateKeyValid key then pure key else p256GeneratePrivate random tries

theorem p256GeneratePrivate_valid {random : Nat → Except Error (Fixed 32)} {key : Fixed 32} :
    ∀ tries, p256GeneratePrivate random tries = .ok key → p256PrivateKeyValid key = true := by
  intro tries
  induction tries with
  | zero => intro h; cases h
  | succ tries ih =>
      intro h
      simp only [p256GeneratePrivate] at h
      cases hKey : random (8 - (tries + 1)) with
      | error e => rw [hKey] at h; cases h
      | ok candidate =>
          rw [hKey] at h
          change (if p256PrivateKeyValid candidate then pure candidate else p256GeneratePrivate random tries) = _ at h
          split at h
          · rename_i hValid
            cases h
            exact hValid
          · exact ih h

end MicroCard.Mc04
