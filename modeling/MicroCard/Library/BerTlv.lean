import MicroCard.Library.Bytes
import Mathlib.Tactic.SplitIfs

/-! Objects of a tag, a definite minimal length and a value. A tag is the number its one to
three identifier octets form, most significant first; a length takes one to three octets.
The distinguished rules add one form for each universal tag and for its value. -/
namespace BerTlv

open Bytes

section Octets

theorem and_mod_low {b : Byte} {width : Nat} (h : width ≤ 8) :
    (b &&& UInt8.ofNat (2 ^ width - 1)).toNat = b.toNat % 2 ^ width := by
  have hMask : 2 ^ width - 1 < 256 := by
    have := Nat.pow_le_pow_right (n := 2) (by decide) h
    omega
  rw [UInt8.toNat_and, UInt8.toNat_ofNat', Nat.mod_eq_of_lt hMask, Nat.and_two_pow_sub_one_eq_mod]

end Octets

section Tags

/-- The identifier octets of a tag. -/
def tagBytes (tag : Nat) : List Byte :=
  if tag < 256 then [UInt8.ofNat tag]
  else if tag < 65536 then [UInt8.ofNat (tag / 256), UInt8.ofNat tag]
  else [UInt8.ofNat (tag / 65536), UInt8.ofNat (tag / 256), UInt8.ofNat tag]

/-- A short tag number is below 31. A longer identifier starts with 31 there, uses its octets
fully and marks every octet but the last. -/
def ValidTag (tag : Nat) : Prop :=
  (0 < tag ∧ tag < 256 ∧ tag % 32 ≠ 31) ∨
    (256 ≤ tag ∧ tag < 65536 ∧ tag / 256 % 32 = 31 ∧ 31 ≤ tag % 256 ∧ tag % 256 < 128) ∨
    (65536 ≤ tag ∧ tag < 16777216 ∧ tag / 65536 % 32 = 31 ∧ 128 < tag / 256 % 256 ∧ tag % 256 < 128)

instance (tag : Nat) : Decidable (ValidTag tag) := by unfold ValidTag; infer_instance

/-- The tag in front of some octets, and the octets behind it. -/
def splitTag : List Byte → Option (Nat × List Byte)
  | first :: rest =>
      if first.toNat = 0 then none
      else if first.toNat % 32 ≠ 31 then some (first.toNat, rest)
      else match rest with
        | next :: rest =>
            if next.toNat % 128 = 0 then none
            else if next.toNat < 128 then
              if next.toNat < 31 then none else some (first.toNat * 256 + next.toNat, rest)
            else match rest with
              | last :: rest =>
                  if last.toNat < 128 then some ((first.toNat * 256 + next.toNat) * 256 + last.toNat, rest) else none
              | [] => none
        | [] => none
  | [] => none

theorem splitTag_one {first : Byte} (hNonzero : first.toNat ≠ 0) (hShort : first.toNat % 32 ≠ 31) (rest : List Byte) :
    splitTag (first :: rest) = some (first.toNat, rest) := by
  simp [splitTag, hNonzero, hShort]

theorem splitTag_two {first next : Byte} (hFirst : first.toNat % 32 = 31) (hLow : 31 ≤ next.toNat)
    (hHigh : next.toNat < 128) (rest : List Byte) :
    splitTag (first :: next :: rest) = some (first.toNat * 256 + next.toNat, rest) := by
  have hNonzero : first.toNat ≠ 0 := by omega
  have hUsed : next.toNat % 128 ≠ 0 := by omega
  simp [splitTag, hNonzero, hFirst, hUsed, hHigh, hLow]

theorem splitTag_three {first next last : Byte} (hFirst : first.toNat % 32 = 31) (hNext : 128 < next.toNat)
    (hLast : last.toNat < 128) (rest : List Byte) :
    splitTag (first :: next :: last :: rest) = some ((first.toNat * 256 + next.toNat) * 256 + last.toNat, rest) := by
  have hNonzero : first.toNat ≠ 0 := by omega
  have hByte := next.toNat_lt
  have hUsed : next.toNat % 128 ≠ 0 := by omega
  simp [splitTag, hNonzero, hFirst, hUsed, hNext.le, hLast]

theorem splitTag_tagBytes {tag : Nat} (h : ValidTag tag) (rest : List Byte) :
    splitTag (tagBytes tag ++ rest) = some (tag, rest) := by
  unfold tagBytes
  rcases h with ⟨hPositive, hOne, hShort⟩ | ⟨hOne, hTwo, hFirst, hLow, hHigh⟩ | ⟨hTwo, hThree, hFirst, hNext, hLast⟩
  · have hTag : (UInt8.ofNat tag).toNat = tag := by
      rw [UInt8.toNat_ofNat', Nat.mod_eq_of_lt hOne]
    rw [if_pos hOne, List.cons_append, splitTag_one (by omega) (by omega), hTag]
    rfl
  · have hTag : (UInt8.ofNat (tag / 256)).toNat = tag / 256 := by
      rw [UInt8.toNat_ofNat', Nat.mod_eq_of_lt (by omega)]
    have hLast : (UInt8.ofNat tag).toNat = tag % 256 := UInt8.toNat_ofNat'
    rw [if_neg (by omega), if_pos hTwo, List.cons_append, List.cons_append,
      splitTag_two (by omega) (by omega) (by omega), hTag, hLast, Nat.div_add_mod']
    rfl
  · have hTag : (UInt8.ofNat (tag / 65536)).toNat = tag / 65536 := by
      rw [UInt8.toNat_ofNat', Nat.mod_eq_of_lt (by omega)]
    have hMiddle : (UInt8.ofNat (tag / 256)).toNat = tag / 256 % 256 := UInt8.toNat_ofNat'
    have hEnd : (UInt8.ofNat tag).toNat = tag % 256 := UInt8.toNat_ofNat'
    have hWhole : (tag / 65536 * 256 + tag / 256 % 256) * 256 + tag % 256 = tag := by omega
    rw [if_neg (by omega), if_neg (by omega), List.cons_append, List.cons_append, List.cons_append,
      splitTag_three (by omega) (by omega) (by omega), hTag, hMiddle, hEnd, hWhole]
    rfl

theorem tagBytes_one (b : Byte) : tagBytes b.toNat = [b] := by
  rw [tagBytes, if_pos b.toNat_lt, UInt8.ofNat_toNat]

theorem tagBytes_two {first : Byte} (next : Byte) (hFirst : 0 < first.toNat) :
    tagBytes (first.toNat * 256 + next.toNat) = [first, next] := by
  have hHigh := first.toNat_lt
  have hLow := next.toNat_lt
  have hBytes : UInt8.ofNat ((first.toNat * 256 + next.toNat) / 256) = first ∧
      UInt8.ofNat (first.toNat * 256 + next.toNat) = next := by
    constructor
    · apply UInt8.toNat_inj.1
      rw [UInt8.toNat_ofNat']
      omega
    · apply UInt8.toNat_inj.1
      rw [UInt8.toNat_ofNat']
      omega
  rw [tagBytes, if_neg (by omega), if_pos (by omega), hBytes.1, hBytes.2]

theorem tagBytes_three {first : Byte} (next last : Byte) (hFirst : 0 < first.toNat) :
    tagBytes ((first.toNat * 256 + next.toNat) * 256 + last.toNat) = [first, next, last] := by
  have hHigh := first.toNat_lt
  have hMiddle := next.toNat_lt
  have hLow := last.toNat_lt
  have hBytes : UInt8.ofNat (((first.toNat * 256 + next.toNat) * 256 + last.toNat) / 65536) = first ∧
      UInt8.ofNat (((first.toNat * 256 + next.toNat) * 256 + last.toNat) / 256) = next ∧
      UInt8.ofNat ((first.toNat * 256 + next.toNat) * 256 + last.toNat) = last := by
    refine ⟨UInt8.toNat_inj.1 ?_, UInt8.toNat_inj.1 ?_, UInt8.toNat_inj.1 ?_⟩
    · rw [UInt8.toNat_ofNat']
      omega
    · rw [UInt8.toNat_ofNat']
      omega
    · rw [UInt8.toNat_ofNat']
      omega
  rw [tagBytes, if_neg (by omega), if_neg (by omega), hBytes.1, hBytes.2.1, hBytes.2.2]

/-- What was split off was the identifier of a valid tag. -/
theorem splitTag_sound {octets rest : List Byte} {tag : Nat} (h : splitTag octets = some (tag, rest)) :
    ValidTag tag ∧ octets = tagBytes tag ++ rest := by
  cases octets with
  | nil => cases h
  | cons first octets =>
      have hFirst := first.toNat_lt
      simp only [splitTag] at h
      split_ifs at h with hZero hLong
      · obtain ⟨rfl, rfl⟩ := Prod.mk.inj (Option.some.inj h)
        rw [tagBytes_one]
        exact ⟨.inl ⟨by omega, by omega, hLong⟩, rfl⟩
      · cases octets with
        | nil => cases h
        | cons next octets =>
            have hNext := next.toNat_lt
            dsimp only at h
            split_ifs at h with hUnused hTwo hMinimal
            · obtain ⟨rfl, rfl⟩ := Prod.mk.inj (Option.some.inj h)
              rw [tagBytes_two next (by omega)]
              exact ⟨.inr (.inl ⟨by omega, by omega, by omega, by omega, by omega⟩), rfl⟩
            · cases octets with
              | nil => cases h
              | cons last octets =>
                  dsimp only at h
                  split_ifs at h with hLast
                  obtain ⟨rfl, rfl⟩ := Prod.mk.inj (Option.some.inj h)
                  rw [tagBytes_three next last (by omega)]
                  exact ⟨.inr (.inr ⟨by omega, by omega, by omega, by omega, by omega⟩), rfl⟩

theorem length_tagBytes (tag : Nat) : (tagBytes tag).length = if tag < 256 then 1 else if tag < 65536 then 2 else 3 := by
  unfold tagBytes
  split_ifs <;> rfl

end Tags

section Lengths

/-- The octets of a length below 65536, as few as it needs. -/
def lengthBytes (n : Nat) : List Byte :=
  if n < 128 then [UInt8.ofNat n]
  else if n < 256 then [0x81, UInt8.ofNat n]
  else [0x82, UInt8.ofNat (n / 256), UInt8.ofNat n]

/-- The minimal length in front of some octets, and the octets behind it. -/
def splitLength : List Byte → Option (Nat × List Byte)
  | first :: rest =>
      if first.toNat < 128 then some (first.toNat, rest)
      else if first = 0x81 then
        match rest with
        | n :: rest => if 128 ≤ n.toNat then some (n.toNat, rest) else none
        | [] => none
      else if first = 0x82 then
        match rest with
        | high :: low :: rest =>
            if 256 ≤ high.toNat * 256 + low.toNat then some (high.toNat * 256 + low.toNat, rest) else none
        | _ => none
      else none
  | [] => none

theorem splitLength_lengthBytes {n : Nat} (h : n < 65536) (rest : List Byte) :
    splitLength (lengthBytes n ++ rest) = some (n, rest) := by
  unfold lengthBytes
  split_ifs with hShort hOne
  · have hByte : (UInt8.ofNat n).toNat = n := by
      rw [UInt8.toNat_ofNat', Nat.mod_eq_of_lt (by omega)]
    simp only [List.cons_append, List.nil_append, splitLength, hByte]
    rw [if_pos hShort]
  · have hByte : (UInt8.ofNat n).toNat = n := by
      rw [UInt8.toNat_ofNat', Nat.mod_eq_of_lt hOne]
    simp only [List.cons_append, List.nil_append, splitLength, hByte]
    rw [if_neg (by decide), if_pos trivial, if_pos (by omega)]
  · have hHigh : (UInt8.ofNat (n / 256)).toNat = n / 256 := by
      rw [UInt8.toNat_ofNat', Nat.mod_eq_of_lt (by omega)]
    have hLow : (UInt8.ofNat n).toNat = n % 256 := UInt8.toNat_ofNat'
    simp only [List.cons_append, List.nil_append, splitLength, hHigh, hLow, Nat.div_add_mod']
    rw [if_neg (by decide), if_neg (by decide), if_pos trivial, if_pos (by omega)]

/-- What was split off were the octets of the length. -/
theorem splitLength_sound {octets rest : List Byte} {n : Nat} (h : splitLength octets = some (n, rest)) :
    n < 65536 ∧ octets = lengthBytes n ++ rest := by
  cases octets with
  | nil => cases h
  | cons first octets =>
      simp only [splitLength] at h
      split_ifs at h with hShort hOne hTwo
      · obtain ⟨rfl, rfl⟩ := Prod.mk.inj (Option.some.inj h)
        rw [lengthBytes, if_pos hShort, UInt8.ofNat_toNat]
        exact ⟨by omega, rfl⟩
      · cases octets with
        | nil => cases h
        | cons b octets =>
            have hByte := b.toNat_lt
            dsimp only at h
            split_ifs at h with hMinimal
            obtain ⟨rfl, rfl⟩ := Prod.mk.inj (Option.some.inj h)
            rw [lengthBytes, if_neg (by omega), if_pos hByte, UInt8.ofNat_toNat, hOne]
            exact ⟨by omega, rfl⟩
      · match octets, h with
        | high :: low :: octets, h =>
            have hHigh := high.toNat_lt
            have hLow := low.toNat_lt
            dsimp only at h
            split_ifs at h with hMinimal
            obtain ⟨rfl, rfl⟩ := Prod.mk.inj (Option.some.inj h)
            have hFirst : UInt8.ofNat ((high.toNat * 256 + low.toNat) / 256) = high := by
              apply UInt8.toNat_inj.1
              rw [UInt8.toNat_ofNat']
              omega
            have hSecond : UInt8.ofNat (high.toNat * 256 + low.toNat) = low := by
              apply UInt8.toNat_inj.1
              rw [UInt8.toNat_ofNat']
              omega
            rw [lengthBytes, if_neg (by omega), if_neg (by omega), hFirst, hSecond, hTwo]
            exact ⟨by omega, rfl⟩

theorem length_lengthBytes (n : Nat) : (lengthBytes n).length = if n < 128 then 1 else if n < 256 then 2 else 3 := by
  unfold lengthBytes
  split_ifs <;> rfl

end Lengths

section Objects

structure Object where
  tag : Nat
  value : List Byte
  deriving DecidableEq

namespace Object

def headerBytes (o : Object) : List Byte := tagBytes o.tag ++ lengthBytes o.value.length

def bytes (o : Object) : List Byte := o.headerBytes ++ o.value

/-- What an object needs to have an encoding. -/
structure Valid (o : Object) : Prop where
  tag : ValidTag o.tag
  short : o.value.length < 65536

theorem length_headerBytes_pos (o : Object) : 2 ≤ o.headerBytes.length := by
  rw [headerBytes, List.length_append, length_tagBytes, length_lengthBytes]
  split_ifs <;> omega

end Object

/-- The object in front of some octets, and the octets behind it. -/
def split (octets : List Byte) : Option (Object × List Byte) := do
  let (tag, octets) ← splitTag octets
  let (n, octets) ← splitLength octets
  if n ≤ octets.length then some (⟨tag, octets.take n⟩, octets.drop n) else none

/-- An object is split off exactly where the octets start with a valid one. -/
theorem split_iff {octets rest : List Byte} {o : Object} :
    split octets = some (o, rest) ↔ o.Valid ∧ octets = o.bytes ++ rest := by
  constructor
  · intro h
    obtain ⟨⟨tag, afterTag⟩, hTag, h⟩ := Option.bind_eq_some_iff.1 h
    obtain ⟨⟨n, afterLength⟩, hLength, h⟩ := Option.bind_eq_some_iff.1 h
    dsimp only at h hLength
    split_ifs at h with hFits
    obtain ⟨rfl, rfl⟩ := Prod.mk.inj (Option.some.inj h)
    obtain ⟨hValid, rfl⟩ := splitTag_sound hTag
    obtain ⟨hShort, rfl⟩ := splitLength_sound hLength
    have hSize : (afterLength.take n).length = n := List.length_take_of_le hFits
    refine ⟨⟨hValid, by rw [hSize]; exact hShort⟩, ?_⟩
    rw [Object.bytes, Object.headerBytes, hSize, List.append_assoc, List.append_assoc, List.take_append_drop]
  · rintro ⟨⟨hTag, hShort⟩, rfl⟩
    obtain ⟨tag, value⟩ := o
    simp only [Object.bytes, Object.headerBytes, List.append_assoc, split, splitTag_tagBytes hTag,
      splitLength_lengthBytes hShort, Option.bind_eq_bind, Option.bind_some]
    rw [if_pos (by simp), List.take_left, List.drop_left]

end Objects

section Distinguished

/-- The universal tags of one octet have one form each: the simple types are primitive,
sequences and sets are constructed, and the number zero is not used. -/
def canonicalForm (tag : Nat) : Bool :=
  64 ≤ tag ∨ tag % 32 ≠ 0 ∧ (tag % 32 ≤ 6 → tag < 32) ∧ (tag % 32 = 16 ∨ tag % 32 = 17 → 32 ≤ tag)

def canonicalInteger : List Byte → Bool
  | [] => false
  | [_] => true
  | first :: second :: _ => ¬(first = 0 ∧ second.toNat < 128 ∨ first = 255 ∧ 128 ≤ second.toNat)

/-- The first octet counts the unused bits of the last one, and these are zero. -/
def canonicalBits : List Byte → Bool
  | [] => false
  | unused :: rest =>
      unused.toNat ≤ 7 ∧ (unused.toNat = 0 ∨ ∃ last ∈ rest.getLast?, last.toNat % 2 ^ unused.toNat = 0)

/-- Groups of octets, each marked but for its last one, and none padded in front. The flag says
that a group starts here. -/
def canonicalGroups : Bool → List Byte → Bool
  | start, [] => start
  | start, b :: rest => ¬(start ∧ b = 128) ∧ canonicalGroups (b.toNat < 128) rest

def canonicalValue (tag : Nat) (value : List Byte) : Bool :=
  match tag with
  | 1 => value = [0] ∨ value = [255]
  | 2 => canonicalInteger value
  | 3 => canonicalBits value
  | 5 => value = []
  | 6 => value ≠ [] ∧ canonicalGroups true value
  | _ => true

namespace Object

/-- The distinguished encoding of the object itself; what a constructed value holds is not
looked at. -/
def Canonical (o : Object) : Prop := canonicalForm o.tag = true ∧ canonicalValue o.tag o.value = true

instance (o : Object) : Decidable o.Canonical := by unfold Canonical; infer_instance

end Object

end Distinguished

section Forests

theorem split_bytes {o : Object} (h : o.Valid) (rest : List Byte) : split (o.bytes ++ rest) = some (o, rest) :=
  split_iff.2 ⟨h, rfl⟩

/-- The first identifier octet of a tag. -/
def firstOctet (tag : Nat) : Nat := if tag < 256 then tag else if tag < 65536 then tag / 256 else tag / 65536

namespace Object

def Constructed (o : Object) : Prop := firstOctet o.tag / 32 % 2 = 1

/-- Whether there is something inside to look at. -/
def Opens (o : Object) : Prop := o.Constructed ∧ o.value ≠ []

instance (o : Object) : Decidable o.Opens := by unfold Opens Constructed; infer_instance

end Object

/-- Octets that are distinguished objects one behind the other, and so on inside the
constructed ones, with so many levels of nesting. -/
inductive Forest : Nat → List Byte → Prop where
  | nil (levels : Nat) : Forest levels []
  | pass {levels : Nat} {o : Object} {rest : List Byte} (hValid : o.Valid) (hCanonical : o.Canonical)
      (hClosed : ¬o.Opens) (hRest : Forest levels rest) : Forest levels (o.bytes ++ rest)
  | enter {levels : Nat} {o : Object} {rest : List Byte} (hValid : o.Valid) (hCanonical : o.Canonical)
      (hOpens : o.Opens) (hInside : Forest levels o.value) (hRest : Forest (levels + 1) rest) :
      Forest (levels + 1) (o.bytes ++ rest)

/-- A forest starts with an object when it is not empty. -/
theorem Forest.first {levels : Nat} {octets : List Byte} (h : Forest levels octets) (hSome : octets ≠ []) :
    ∃ o rest, split octets = some (o, rest) := by
  cases h with
  | nil => exact absurd rfl hSome
  | pass hValid => exact ⟨_, _, split_bytes hValid _⟩
  | enter hValid => exact ⟨_, _, split_bytes hValid _⟩

/-- What makes octets a forest, from the object in front. -/
theorem forest_iff {levels : Nat} {octets rest : List Byte} {o : Object} (h : split octets = some (o, rest)) :
    Forest levels octets ↔ o.Canonical ∧ Forest levels rest ∧ (o.Opens → ∃ inner, levels = inner + 1 ∧ Forest inner o.value) := by
  have hValid := (split_iff.1 h).1
  constructor
  · intro hForest
    cases hForest with
    | nil => cases h
    | pass hValid' hCanonical hClosed hRest =>
        rw [split_bytes hValid'] at h
        obtain ⟨rfl, rfl⟩ := Prod.mk.inj (Option.some.inj h)
        exact ⟨hCanonical, hRest, fun hOpens => absurd hOpens hClosed⟩
    | enter hValid' hCanonical hOpens hInside hRest =>
        rw [split_bytes hValid'] at h
        obtain ⟨rfl, rfl⟩ := Prod.mk.inj (Option.some.inj h)
        exact ⟨hCanonical, hRest, fun _ => ⟨_, rfl, hInside⟩⟩
  · intro ⟨hCanonical, hRest, hInside⟩
    rw [(split_iff.1 h).2]
    by_cases hOpens : o.Opens
    · obtain ⟨inner, rfl, hForest⟩ := hInside hOpens
      exact .enter hValid hCanonical hOpens hForest hRest
    · exact .pass hValid hCanonical hOpens hRest

/-- More levels do no harm. -/
theorem Forest.deepen {levels more : Nat} {octets : List Byte} (h : Forest levels octets) (hMore : levels ≤ more) :
    Forest more octets := by
  induction h generalizing more with
  | nil => exact .nil more
  | pass hValid hCanonical hClosed _ ih => exact .pass hValid hCanonical hClosed (ih hMore)
  | enter hValid hCanonical hOpens _ _ ihInside ihRest =>
      obtain ⟨more, rfl⟩ : ∃ m, more = m + 1 := ⟨more - 1, by omega⟩
      exact .enter hValid hCanonical hOpens (ihInside (by omega)) (ihRest hMore)

/-- Objects that need no level of their own. -/
theorem Forest.flat {objects : List Object} (h : ∀ o ∈ objects, o.Valid ∧ o.Canonical ∧ ¬o.Opens) (levels : Nat) :
    Forest levels (objects.flatMap Object.bytes) := by
  induction objects with
  | nil => exact .nil levels
  | cons o rest ih =>
      obtain ⟨hValid, hCanonical, hClosed⟩ := h o List.mem_cons_self
      exact .pass hValid hCanonical hClosed (ih fun o ho => h o (List.mem_cons_of_mem _ ho))

/-- Every object of a forest of objects is distinguished. -/
theorem Forest.all_canonical {levels : Nat} {objects : List Object} (hValid : ∀ o ∈ objects, o.Valid)
    (h : Forest levels (objects.flatMap Object.bytes)) : ∀ o ∈ objects, o.Canonical := by
  induction objects with
  | nil => exact fun o ho => nomatch ho
  | cons o rest ih =>
      have hFirst := (forest_iff (split_bytes (hValid o List.mem_cons_self) (rest.flatMap Object.bytes))).1 h
      intro o' ho'
      rcases List.mem_cons.1 ho' with rfl | hLater
      · exact hFirst.1
      · exact ih (fun o ho => hValid o (List.mem_cons_of_mem _ ho)) hFirst.2.1 o' hLater

end Forests

end BerTlv
