import MicroCard.Library.KeyedList
import MicroCard.Mc04.Names
import Mathlib.Data.String.Basic

/-! Sorted records in a snapshot. Each key is checked against the one before it, so a
map has one written form. A reader may pass a total from value to value. -/
namespace MicroCard.Mc04

open Bytes CrashTriple Cbor Codec

section Numbers

/-- `number::<u16>`. -/
def u16 : Decoder UInt16 := do
  let value ← number (2 ^ 16)
  pure (UInt16.ofNat value)

/-- `number::<i32>`: a number that is not negative. -/
def i32 : Decoder Int32 := do
  let value ← number (2 ^ 31)
  pure (Int32.ofNat value)

/-- `i32::try_from` of a number of either sign. -/
def signed : Decoder Int32 := do
  let value ← integer
  failIf (¬(-2 ^ 31 ≤ value.toInt ∧ value.toInt < 2 ^ 31)) .format
  pure (Int32.ofInt value.toInt)

/-- The cast of an `i32` to a `u64`. -/
def asU64 (value : Int32) : Nat := (value.toInt % 2 ^ 64).toNat

def signedBytes (value : Int32) : List Byte := integerBytes value.toInt64

def identifier : Decoder String := do
  let value ← text 64
  failIf (validIdentifier value = false) .format
  pure value

theorem u16_ok {value : UInt16} {input rest : List Byte} :
    u16 input = .ok value rest ↔ input = unsignedBytes value.toNat ++ rest := by
  simp only [u16, bind_ok, pure_ok, number_ok (2 ^ 16) (by decide)]
  constructor
  · rintro ⟨n, _, ⟨hLt, rfl⟩, rfl, rfl⟩
    rw [UInt16.toNat_ofNat', Nat.mod_eq_of_lt hLt]
  · rintro rfl
    exact ⟨value.toNat, rest, ⟨value.toNat_lt, rfl⟩, UInt16.ofNat_toNat, rfl⟩

theorem toInt_ofNat {n : Nat} (h : n < 2 ^ 31) : (Int32.ofNat n).toInt = n := by
  rw [← Int32.ofInt_eq_ofNat, Int32.toInt_ofInt_of_le (by omega) (by omega)]

theorem asU64_of_nonneg {value : Int32} (h : 0 ≤ value.toInt) : asU64 value = value.toInt.toNat := by
  have hHigh := value.toInt_lt
  rw [asU64, Int.emod_eq_of_lt h (by omega)]

theorem i32_ok {value : Int32} {input rest : List Byte} :
    i32 input = .ok value rest ↔ 0 ≤ value.toInt ∧ input = unsignedBytes (asU64 value) ++ rest := by
  simp only [i32, bind_ok, pure_ok, number_ok (2 ^ 31) (by decide)]
  constructor
  · rintro ⟨n, _, ⟨hLt, rfl⟩, rfl, rfl⟩
    have hValue := toInt_ofNat hLt
    have hNonneg : 0 ≤ (Int32.ofNat n).toInt := by omega
    rw [asU64_of_nonneg hNonneg, hValue]
    exact ⟨by omega, rfl⟩
  · rintro ⟨hNonneg, rfl⟩
    have hHigh := value.toInt_lt
    refine ⟨value.toInt.toNat, rest, ⟨by omega, by rw [asU64_of_nonneg hNonneg]⟩, ?_, rfl⟩
    apply Int32.toInt.inj
    rw [toInt_ofNat (by omega)]
    omega

theorem signed_ok {value : Int32} {input rest : List Byte} :
    signed input = .ok value rest ↔ input = signedBytes value ++ rest := by
  simp only [signed, signedBytes, bind_ok, integer_ok, failIf_ok, pure_ok, not_not]
  constructor
  · rintro ⟨wide, _, rfl, _, _, ⟨⟨hLow, hHigh⟩, rfl⟩, rfl, rfl⟩
    have hWide : (Int32.ofInt wide.toInt).toInt64 = wide := by
      apply Int64.toInt.inj
      rw [Int32.toInt_toInt64, Int32.toInt_ofInt_of_le (by omega) (by omega)]
    rw [hWide]
  · rintro rfl
    have hLow := value.le_toInt
    have hHigh := value.toInt_lt
    refine ⟨value.toInt64, rest, rfl, (), rest, ⟨?_, rfl⟩, ?_, rfl⟩
    · rw [Int32.toInt_toInt64]
      omega
    · rw [Int32.toInt_toInt64, Int32.ofInt_toInt]

theorem identifier_ok {value : String} {input rest : List Byte} :
    identifier input = .ok value rest ↔ validIdentifier value = true ∧ input = textBytes value ++ rest := by
  simp only [identifier, bind_ok, text_ok 64 (by decide), failIf_ok, pure_ok, Bool.not_eq_false]
  constructor
  · rintro ⟨_, _, ⟨-, rfl⟩, _, _, ⟨hValid, rfl⟩, rfl, rfl⟩
    exact ⟨hValid, rfl⟩
  · rintro ⟨hValid, rfl⟩
    have hLength : (utf8 value).length ≤ 64 := by
      simp only [validIdentifier, Bool.and_eq_true, decide_eq_true_eq] at hValid
      exact hValid.1.1.2
    exact ⟨value, rest, ⟨hLength, rfl⟩, (), rest, ⟨hValid, rfl⟩, rfl, rfl⟩

end Numbers

section Records

variable {α σ ν κ : Type} [LinearOrder κ] (order : α → κ)

/-- Records in ascending order of what orders their keys. -/
abbrev Entries (order : α → κ) (ν : Type) := KeyedList fun e : α × ν => order e.1

/-- Read one record behind the others. -/
def readEntry (fields : Nat) (readKey : Decoder α) (readValue : α → σ → Decoder (ν × σ))
    (entries : Entries order ν) (total : σ) : Decoder (Entries order ν × σ) := do
  record fields
  let key ← readKey
  if h : entries.Below (order key) then do
    let read ← readValue key total
    pure (entries.snoc (key, read.1) h, read.2)
  else throw .format

def readEntries (fields : Nat) (readKey : Decoder α) (readValue : α → σ → Decoder (ν × σ)) :
    Nat → Entries order ν → σ → Decoder (Entries order ν × σ)
  | 0, entries, total => pure (entries, total)
  | count + 1, entries, total => do
      let read ← readEntry order fields readKey readValue entries total
      readEntries fields readKey readValue count read.1 read.2

/-- A map of at most `maximum` records. -/
def readMap (maximum fields : Nat) (readKey : Decoder α) (readValue : α → σ → Decoder (ν × σ)) (total : σ) :
    Decoder (Entries order ν × σ) := do
  let count ← array maximum
  readEntries order fields readKey readValue count KeyedList.empty total

/-- The same without a total. -/
def readPlainMap (maximum fields : Nat) (readKey : Decoder α) (readValue : α → Decoder ν) : Decoder (Entries order ν) := do
  let read ← readMap order maximum fields readKey (fun key (_ : Unit) => do
    let value ← readValue key
    pure (value, ())) ()
  pure read.1

def entryBytes (fields : Nat) (writeKey : α → List Byte) (writeValue : ν → List Byte) (entry : α × ν) : List Byte :=
  arrayBytes fields ++ writeKey entry.1 ++ writeValue entry.2

def mapBytes (fields : Nat) (writeKey : α → List Byte) (writeValue : ν → List Byte) (entries : Entries order ν) :
    List Byte :=
  arrayBytes entries.length ++ entries.entries.flatMap (entryBytes fields writeKey writeValue)

/-- The totals passed from record to record. -/
def Totals (Step : α → σ → ν → σ → Prop) : List (α × ν) → σ → σ → Prop
  | [], total, total' => total' = total
  | entry :: rest, total, total' => ∃ middle, Step entry.1 total entry.2 middle ∧ Totals Step rest middle total'

/-- A reader of values that takes exactly what it writes, and passes on the total. -/
def ExactWith (readValue : α → σ → Decoder (ν × σ)) (writeValue : ν → List Byte) (Step : α → σ → ν → σ → Prop) : Prop :=
  ∀ key total input value total' rest, readValue key total input = .ok (value, total') rest ↔
    Step key total value total' ∧ input = writeValue value ++ rest

variable {order} {fields : Nat} {readKey : Decoder α} {readValue : α → σ → Decoder (ν × σ)}
  {writeKey : α → List Byte} {writeValue : ν → List Byte} {Key : α → Prop} {Step : α → σ → ν → σ → Prop}

theorem readEntry_ok (hFields : fields < 2 ^ 64) (hKey : Exact readKey writeKey Key)
    (hValue : ExactWith readValue writeValue Step) {entries entries' : Entries order ν} {total total' : σ}
    {input rest : List Byte} :
    readEntry order fields readKey readValue entries total input = .ok (entries', total') rest ↔
      ∃ entry, Key entry.1 ∧ Step entry.1 total entry.2 total' ∧ entries'.entries = entries.entries ++ [entry] ∧
        input = entryBytes fields writeKey writeValue entry ++ rest := by
  simp only [readEntry, bind_ok, record_ok fields hFields, hKey _ _ _, entryBytes, List.append_assoc]
  constructor
  · rintro ⟨_, _, rfl, key, _, ⟨hAdmitted, rfl⟩, hRun⟩
    split at hRun
    · simp only [bind_ok, pure_ok, Prod.mk.injEq] at hRun
      obtain ⟨⟨value, middle⟩, _, hRead, ⟨rfl, rfl⟩, rfl⟩ := hRun
      obtain ⟨hStep, rfl⟩ := (hValue _ _ _ _ _ _).1 hRead
      exact ⟨(key, value), hAdmitted, hStep, rfl, rfl⟩
    · exact (throw_ok.1 hRun).elim
  · rintro ⟨⟨key, value⟩, hAdmitted, hStep, hEntries, rfl⟩
    refine ⟨(), _, rfl, key, _, ⟨hAdmitted, rfl⟩, ?_⟩
    have hSorted := entries'.sorted
    rw [hEntries, List.pairwise_append] at hSorted
    have hBelow : entries.Below (order key) := by
      intro last hLast
      exact hSorted.2.2 last (List.mem_of_getLast? hLast) (key, value) (List.mem_singleton.2 rfl)
    rw [dif_pos hBelow]
    simp only [bind_ok, pure_ok, Prod.mk.injEq]
    refine ⟨(value, total'), rest, (hValue _ _ _ _ _ _).2 ⟨hStep, rfl⟩, ⟨?_, rfl⟩, rfl⟩
    exact KeyedList.ext hEntries.symm

theorem readEntries_ok (hFields : fields < 2 ^ 64) (hKey : Exact readKey writeKey Key)
    (hValue : ExactWith readValue writeValue Step) {entries' : Entries order ν} {total' : σ} {rest : List Byte} (count : Nat) :
    ∀ {entries : Entries order ν} {total : σ} {input : List Byte},
      readEntries order fields readKey readValue count entries total input = .ok (entries', total') rest ↔
        ∃ items : List (α × ν), items.length = count ∧ (∀ e ∈ items, Key e.1) ∧ Totals Step items total total' ∧
          entries'.entries = entries.entries ++ items ∧
          input = items.flatMap (entryBytes fields writeKey writeValue) ++ rest := by
  induction count with
  | zero =>
      intro entries total input
      simp only [readEntries, pure_ok, Prod.mk.injEq, List.length_eq_zero_iff]
      constructor
      · rintro ⟨⟨rfl, rfl⟩, rfl⟩
        exact ⟨[], rfl, by simp, rfl, by simp, by simp⟩
      · rintro ⟨_, rfl, -, hTotal, hEntries, rfl⟩
        exact ⟨⟨KeyedList.ext (by rw [hEntries, List.append_nil]), hTotal.symm⟩, by simp⟩
  | succ count ih =>
      intro entries total input
      simp only [readEntries, bind_ok]
      constructor
      · rintro ⟨⟨entries₁, total₁⟩, _, hEntry, hRest⟩
        obtain ⟨entry, hAdmitted, hStep, hEntries, rfl⟩ := (readEntry_ok hFields hKey hValue).1 hEntry
        obtain ⟨items, rfl, hItems, hTotals, hEntries', rfl⟩ := ih.1 hRest
        refine ⟨entry :: items, rfl, ?_, ⟨total₁, hStep, hTotals⟩, ?_, ?_⟩
        · intro e he
          rcases List.mem_cons.1 he with rfl | he
          · exact hAdmitted
          · exact hItems e he
        · rw [hEntries', hEntries, List.append_assoc, List.singleton_append]
        · rw [List.flatMap_cons, List.append_assoc]
      · rintro ⟨items, hLength, hItems, hTotals, hEntries, rfl⟩
        cases items with
        | nil => cases hLength
        | cons entry items =>
            obtain ⟨middle, hStep, hTotals⟩ := hTotals
            have hSorted := entries'.sorted
            rw [hEntries, ← List.singleton_append, ← List.append_assoc, List.pairwise_append] at hSorted
            refine ⟨(⟨entries.entries ++ [entry], hSorted.1⟩, middle),
              items.flatMap (entryBytes fields writeKey writeValue) ++ rest, ?_, ?_⟩
            · refine (readEntry_ok hFields hKey hValue).2 ⟨entry, hItems entry List.mem_cons_self, hStep, rfl, ?_⟩
              rw [List.flatMap_cons, List.append_assoc]
            · refine ih.2 ⟨items, Nat.succ.inj hLength, fun e he => hItems e (List.mem_cons_of_mem _ he), hTotals, ?_, rfl⟩
              rw [hEntries, List.append_assoc, List.singleton_append]

/-- A map is read exactly as it is written. -/
theorem readMap_ok {maximum : Nat} (hMaximum : maximum < 2 ^ 64) (hFields : fields < 2 ^ 64)
    (hKey : Exact readKey writeKey Key) (hValue : ExactWith readValue writeValue Step) {entries : Entries order ν}
    {total total' : σ} {input rest : List Byte} :
    readMap order maximum fields readKey readValue total input = .ok (entries, total') rest ↔
      entries.length ≤ maximum ∧ (∀ e ∈ entries.entries, Key e.1) ∧ Totals Step entries.entries total total' ∧
        input = mapBytes order fields writeKey writeValue entries ++ rest := by
  simp only [readMap, bind_ok, array_ok maximum hMaximum, readEntries_ok hFields hKey hValue, mapBytes, KeyedList.length,
    List.append_assoc]
  constructor
  · rintro ⟨count, _, ⟨hCount, rfl⟩, items, rfl, hItems, hTotals, hEntries, rfl⟩
    have hEntries : entries.entries = items := hEntries
    rw [hEntries]
    exact ⟨hCount, hItems, hTotals, rfl⟩
  · rintro ⟨hCount, hItems, hTotals, rfl⟩
    exact ⟨_, _, ⟨hCount, rfl⟩, entries.entries, rfl, hItems, hTotals, rfl, rfl⟩

/-- Without a total each value is read on its own. -/
theorem readPlainMap_ok {maximum : Nat} (hMaximum : maximum < 2 ^ 64) (hFields : fields < 2 ^ 64)
    (hKey : Exact readKey writeKey Key) {read : α → Decoder ν} {Value : α → ν → Prop}
    (hValue : ∀ key, Exact (read key) writeValue (Value key)) {entries : Entries order ν} {input rest : List Byte} :
    readPlainMap order maximum fields readKey read input = .ok entries rest ↔
      entries.length ≤ maximum ∧ (∀ e ∈ entries.entries, Key e.1 ∧ Value e.1 e.2) ∧
        input = mapBytes order fields writeKey writeValue entries ++ rest := by
  have hWith : ExactWith (fun key (_ : Unit) => do
      let value ← read key
      pure (value, ())) writeValue fun key _ value _ => Value key value := by
    intro key total input value total' rest
    simp only [bind_ok, pure_ok, hValue key _ _ _, Prod.mk.injEq, and_true]
    constructor
    · rintro ⟨_, _, ⟨hAdmitted, rfl⟩, rfl, rfl⟩
      exact ⟨hAdmitted, rfl⟩
    · rintro ⟨hAdmitted, rfl⟩
      exact ⟨_, _, ⟨hAdmitted, rfl⟩, rfl, rfl⟩
  have hTotals : ∀ items : List (α × ν), Totals (fun key (_ : Unit) value _ => Value key value) items () () ↔
      ∀ e ∈ items, Value e.1 e.2 := by
    intro items
    induction items with
    | nil => simp [Totals]
    | cons entry items ih =>
        rw [List.forall_mem_cons, ← ih]
        exact ⟨fun ⟨_, hStep, hRest⟩ => ⟨hStep, hRest⟩, fun ⟨hStep, hRest⟩ => ⟨(), hStep, hRest⟩⟩
  simp only [readPlainMap, bind_ok, pure_ok]
  constructor
  · rintro ⟨⟨entries', _⟩, _, hRun, rfl, rfl⟩
    obtain ⟨hLength, hKeys, hValues, rfl⟩ := (readMap_ok hMaximum hFields hKey hWith).1 hRun
    exact ⟨hLength, fun e he => ⟨hKeys e he, (hTotals _).1 hValues e he⟩, rfl⟩
  · rintro ⟨hLength, hItems, rfl⟩
    refine ⟨(entries, ()), rest, (readMap_ok hMaximum hFields hKey hWith).2 ⟨hLength, fun e he => (hItems e he).1, ?_, rfl⟩,
      rfl, rfl⟩
    exact (hTotals _).2 fun e he => (hItems e he).2

/-- Totals that add up what the values weigh, and never pass a limit. -/
theorem totals_sum {limit : Nat} (Value : α → ν → Prop) (weigh : ν → Nat) {total total' : Nat} {items : List (α × ν)}
    (h : total ≤ limit) :
    Totals (fun key total value total' => Value key value ∧ total' = total + weigh value ∧ total' ≤ limit) items total total' ↔
      (∀ e ∈ items, Value e.1 e.2) ∧ total' = total + (items.map fun e => weigh e.2).sum ∧ total' ≤ limit := by
  induction items generalizing total with
  | nil =>
      simp only [Totals, List.not_mem_nil, false_implies, implies_true, List.map_nil, List.sum_nil, Nat.add_zero, true_and]
      constructor
      · rintro rfl
        exact ⟨rfl, h⟩
      · exact fun hTotal => hTotal.1
  | cons entry items ih =>
      simp only [Totals, List.forall_mem_cons, List.map_cons, List.sum_cons]
      constructor
      · rintro ⟨middle, ⟨hValue, rfl, hMiddle⟩, hRest⟩
        obtain ⟨hValues, rfl, hLimit⟩ := (ih hMiddle).1 hRest
        exact ⟨⟨hValue, hValues⟩, by omega, hLimit⟩
      · rintro ⟨⟨hValue, hValues⟩, rfl, hLimit⟩
        refine ⟨total + weigh entry.2, ⟨hValue, rfl, by omega⟩, (ih (by omega)).2 ⟨hValues, by omega, hLimit⟩⟩

end Records

section Writing

/-- Write the records of a map. -/
def writeMap {α ν κ : Type} [LinearOrder κ] {order : α → κ} (write : α × ν → EncoderM Unit) (entries : Entries order ν) :
    EncoderM Unit := do
  Encoder.array entries.length
  entries.entries.forM write

theorem writeMap_appends {α ν κ : Type} [LinearOrder κ] {order : α → κ} {write : α × ν → EncoderM Unit} {fields : Nat}
    {writeKey : α → List Byte} {writeValue : ν → List Byte} {entries : Entries order ν}
    (h : ∀ e ∈ entries.entries, Appends (write e) (entryBytes fields writeKey writeValue e)) :
    Appends (writeMap write entries) (mapBytes order fields writeKey writeValue entries) :=
  Appends.bind (Appends.array _) (Appends.forM _ h)

end Writing

end MicroCard.Mc04
