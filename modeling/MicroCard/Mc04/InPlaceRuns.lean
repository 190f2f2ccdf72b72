import MicroCard.Mc04.InPlaceSpec

/-! Runs of the calls on the two stores, each with providers, entropy and allocations of
its own that may fail. -/
namespace MicroCard.Mc04.InPlace

open Bytes CrashTriple Cbor Codec

section Floors

/-- A retry floor that the store does not admit. -/
def Refused (store : CredentialStore) (owner : Fixed 16) (floor : Int32 × (UInt8 × UInt8)) : Prop :=
  ∃ found, store.entries.find floor.1.toInt = some found ∧
    (found.2.owner ≠ owner ∨ found.2.pinMaxRetries < floor.2.1 ∨ found.2.pukMaxRetries < floor.2.2)

/-- A retry floor below a counter. -/
def Lowers (store : CredentialStore) (floor : Int32 × (UInt8 × UInt8)) : Prop :=
  ∃ found, store.entries.find floor.1.toInt = some found ∧ (floor.2.1 < found.2.pinRetries ∨ floor.2.2 < found.2.pukRetries)

/-- The first floor that is refused stands behind one that lowers a counter. -/
def TornFloors (store : CredentialStore) (owner : Fixed 16) (floors : List (Int32 × (UInt8 × UInt8))) : Prop :=
  ∃ front floor back, floors = front ++ floor :: back ∧ (∀ first ∈ front, ¬Refused store owner first) ∧
    Refused store owner floor ∧ ∃ first ∈ front, Lowers store first

/-- The store with one floor applied. -/
def floored (store : CredentialStore) (floor : Int32 × (UInt8 × UInt8)) : CredentialStore :=
  match store.entries.find floor.1.toInt with
  | none => store
  | some found => store.put floor.1 (CredentialStore.CredentialEntry.lower found.2 floor.2)

def retryTotal (store : CredentialStore) : Nat :=
  store.entries.weight fun e => e.2.pinRetries.toNat + e.2.pukRetries.toNat

variable {store : CredentialStore} {owner : Fixed 16} {floor other : Int32 × (UInt8 × UInt8)}

theorem applyFloor_refused {changed : Bool} (h : Refused store owner floor) :
    applyFloor owner changed floor store = .error .storage store := by
  obtain ⟨found, hFound, hRefused⟩ := h
  rw [applyFloor, get_bind]
  simp only [hFound]
  exact failIf_bind_fail hRefused

theorem applyFloor_ok {changed : Bool} (h : ¬Refused store owner floor) :
    ∃ result, applyFloor owner changed floor store = .ok result (floored store floor) := by
  rw [applyFloor, get_bind, floored]
  cases hFound : store.entries.find floor.1.toInt with
  | none => exact ⟨changed, rfl⟩
  | some found =>
      simp only []
      rw [failIf_bind_pass fun hRefused => h ⟨found, hFound, hRefused⟩]
      exact ⟨_, rfl⟩

/-- A floor changes the counters of its own entry only. -/
theorem find_floored (k : Int) : (floored store floor).entries.find k =
    (store.entries.find k).map fun found =>
      if floor.1.toInt = k then (floor.1, CredentialStore.CredentialEntry.lower found.2 floor.2) else found := by
  rw [floored]
  cases hFound : store.entries.find floor.1.toInt with
  | none =>
      by_cases hKey : floor.1.toInt = k
      · subst hKey
        rw [hFound]
        rfl
      · simp only [if_neg hKey, Option.map_id']
  | some found =>
      simp only [CredentialStore.put, KeyedList.find_insert]
      by_cases hKey : floor.1.toInt = k
      · subst hKey
        rw [if_pos rfl, hFound]
        simp
      · simp only [if_neg hKey, Option.map_id']

theorem refused_floored : Refused (floored store floor) owner other ↔ Refused store owner other := by
  simp only [Refused, find_floored]
  cases store.entries.find other.1.toInt with
  | none => simp
  | some found =>
      by_cases hKey : floor.1.toInt = other.1.toInt
      · simp [hKey, CredentialStore.CredentialEntry.lower]
      · simp [hKey]

theorem lower_le (a b : UInt8) : (min a b).toNat ≤ a.toNat := by
  have hMin : min a b = if a ≤ b then a else b := rfl
  rw [hMin]
  split
  · exact Nat.le_refl _
  · rename_i hAbove
    rw [UInt8.le_iff_toNat_le] at hAbove
    omega

theorem lower_lt {a b : UInt8} (h : b < a) : (min a b).toNat < a.toNat := by
  have hMin : min a b = if a ≤ b then a else b := rfl
  rw [UInt8.lt_iff_toNat_lt] at h
  rw [hMin, if_neg (by rw [UInt8.le_iff_toNat_le]; omega)]
  exact h

theorem lower_eq {a b : UInt8} (h : ¬b < a) : min a b = a := by
  have hMin : min a b = if a ≤ b then a else b := rfl
  rw [UInt8.lt_iff_toNat_lt] at h
  rw [hMin, if_pos (by rw [UInt8.le_iff_toNat_le]; omega)]

/-- A floor that lowers nothing changes nothing. -/
theorem floored_eq (h : ¬Lowers store floor) : floored store floor = store := by
  rw [floored]
  cases hFound : store.entries.find floor.1.toInt with
  | none => rfl
  | some found =>
      obtain ⟨hMem, hKey⟩ := KeyedList.find_eq_some.1 hFound
      have hSlot : found.1 = floor.1 := Int32.toInt.inj hKey
      have hPin : ¬floor.2.1 < found.2.pinRetries := fun hLess => h ⟨found, hFound, Or.inl hLess⟩
      have hPuk : ¬floor.2.2 < found.2.pukRetries := fun hLess => h ⟨found, hFound, Or.inr hLess⟩
      have hSame : (floor.1, CredentialStore.CredentialEntry.lower found.2 floor.2) = found := by
        rw [CredentialStore.CredentialEntry.lower, lower_eq hPin, lower_eq hPuk, ← hSlot]
      simp only [CredentialStore.put]
      rw [hSame]
      have hInsert : store.entries.insert found = store.entries := by
        apply KeyedList.ext_mem
        intro e
        rw [KeyedList.mem_insert]
        constructor
        · intro hEither
          cases hEither with
          | inl hHere =>
              rw [hHere]
              exact hMem
          | inr hOther => exact hOther.1
        · intro hThere
          by_cases hEqual : e = found
          · exact Or.inl hEqual
          · exact Or.inr ⟨hThere, fun hSlots => hEqual (KeyedList.unique hThere hMem hSlots)⟩
      rw [hInsert]

theorem total_floored (store : CredentialStore) (floor : Int32 × (UInt8 × UInt8)) :
    retryTotal (floored store floor) ≤ retryTotal store ∧ (Lowers store floor → retryTotal (floored store floor) < retryTotal store) := by
  rw [floored]
  cases hFound : store.entries.find floor.1.toInt with
  | none =>
      refine ⟨Nat.le_refl _, fun h => ?_⟩
      obtain ⟨found, hSome, -⟩ := h
      rw [hFound] at hSome
      cases hSome
  | some found =>
      have hWeight := store.entries.weightOf_le (fun e => e.2.pinRetries.toNat + e.2.pukRetries.toNat) floor.1.toInt
      rw [KeyedList.weightOf, hFound] at hWeight
      have hPin := lower_le found.2.pinRetries floor.2.1
      have hPuk := lower_le found.2.pukRetries floor.2.2
      simp only [retryTotal, CredentialStore.put, KeyedList.weight_insert, KeyedList.weightOf, hFound, Option.elim_some,
        CredentialStore.CredentialEntry.lower] at hWeight ⊢
      refine ⟨by omega, fun h => ?_⟩
      obtain ⟨same, hSome, hLess⟩ := h
      rw [hFound] at hSome
      injection hSome with hSome
      subst hSome
      cases hLess with
      | inl hLess =>
          have hLower := lower_lt hLess
          omega
      | inr hLess =>
          have hLower := lower_lt hLess
          omega

/-- Behind a floor that is not refused the others are torn among themselves, or it lowers a
counter and one of them is refused. -/
theorem torn_cons {floors : List (Int32 × (UInt8 × UInt8))} (hAdmitted : ¬Refused store owner floor) :
    TornFloors store owner (floor :: floors) ↔
      TornFloors store owner floors ∨ Lowers store floor ∧ ∃ refused ∈ floors, Refused store owner refused := by
  constructor
  · intro h
    obtain ⟨front, refused, back, hSplit, hFront, hRefused, first, hFirst, hLowers⟩ := h
    cases front with
    | nil => cases hFirst
    | cons head front =>
        injection hSplit with hHead hTail
        subst hHead hTail
        cases hFirst with
        | head => exact Or.inr ⟨hLowers, refused, List.mem_append_right _ List.mem_cons_self, hRefused⟩
        | tail _ hFirst =>
            exact Or.inl ⟨front, refused, back, rfl, fun g hg => hFront g (List.mem_cons_of_mem _ hg), hRefused, first, hFirst, hLowers⟩
  · intro h
    cases h with
    | inl hTorn =>
        obtain ⟨front, refused, back, rfl, hFront, hRefused, first, hFirst, hLowers⟩ := hTorn
        refine ⟨floor :: front, refused, back, rfl, fun g hg => ?_, hRefused, first, List.mem_cons_of_mem _ hFirst, hLowers⟩
        cases hg with
        | head => exact hAdmitted
        | tail _ hg => exact hFront g hg
    | inr hBoth =>
        classical
        obtain ⟨hLowers, refused, hMem, hRefused⟩ := hBoth
        have hSome : (floors.find? fun g => Refused store owner g).isSome = true :=
          List.find?_isSome.2 ⟨refused, hMem, decide_eq_true hRefused⟩
        obtain ⟨first, hFind⟩ := Option.isSome_iff_exists.1 hSome
        obtain ⟨hFirst, front, back, rfl, hFront⟩ := List.find?_eq_some_iff_append.1 hFind
        refine ⟨floor :: front, first, back, rfl, fun g hg => ?_, of_decide_eq_true hFirst, floor, List.mem_cons_self, hLowers⟩
        cases hg with
        | head => exact hAdmitted
        | tail _ hg => simpa using hFront g hg

theorem fold_cons {floors : List (Int32 × (UInt8 × UInt8))} (changed : Bool) (hAdmitted : ¬Refused store owner floor) :
    ∃ result, (floor :: floors).foldlM (applyFloor owner) changed store = floors.foldlM (applyFloor owner) result (floored store floor) := by
  obtain ⟨result, hResult⟩ := @applyFloor_ok store owner floor changed hAdmitted
  refine ⟨result, ?_⟩
  rw [List.foldlM_cons]
  simp only [bind, EStateM.bind, hResult]

theorem fold_cons_refused {floors : List (Int32 × (UInt8 × UInt8))} (changed : Bool) (hRefused : Refused store owner floor) :
    (floor :: floors).foldlM (applyFloor owner) changed store = .error .storage store := by
  rw [List.foldlM_cons]
  simp only [bind, EStateM.bind, applyFloor_refused hRefused]

/-- The counters only fall, and the floors fail when one of them is refused. -/
theorem fold_spec (owner : Fixed 16) (floors : List (Int32 × (UInt8 × UInt8))) (changed : Bool) (store : CredentialStore) :
    retryTotal (final (floors.foldlM (applyFloor owner) changed store)) ≤ retryTotal store ∧
      ((∃ e after, floors.foldlM (applyFloor owner) changed store = .error e after) ↔
        ∃ refused ∈ floors, Refused store owner refused) := by
  induction floors generalizing changed store with
  | nil =>
      refine ⟨Nat.le_refl _, iff_of_false ?_ ?_⟩
      · intro h
        obtain ⟨e, after, h⟩ := h
        cases h
      · intro h
        obtain ⟨refused, hMem, -⟩ := h
        cases hMem
  | cons floor floors ih =>
      by_cases hRefused : Refused store owner floor
      · rw [fold_cons_refused changed hRefused]
        exact ⟨Nat.le_refl _, iff_of_true ⟨.storage, store, rfl⟩ ⟨floor, List.mem_cons_self, hRefused⟩⟩
      · obtain ⟨result, hResult⟩ := @fold_cons store owner floor floors changed hRefused
        rw [hResult]
        obtain ⟨hTotal, hError⟩ := ih result (floored store floor)
        refine ⟨hTotal.trans (total_floored store floor).1, hError.trans ?_⟩
        simp only [refused_floored, List.mem_cons, exists_eq_or_imp, hRefused, false_or]

/-- A failure leaves counters behind exactly when the floors are torn. -/
theorem applyRetryFloor_torn (owner : Fixed 16) (floors : List (Int32 × (UInt8 × UInt8))) (store : CredentialStore) :
    (∃ e after, applyRetryFloor owner floors store = .error e after ∧ after ≠ store) ↔ TornFloors store owner floors := by
  rw [applyRetryFloor]
  generalize false = changed
  induction floors generalizing changed with
  | nil =>
      refine iff_of_false ?_ ?_
      · intro h
        obtain ⟨e, after, h, -⟩ := h
        cases h
      · intro h
        obtain ⟨front, refused, back, h, -⟩ := h
        cases front <;> cases h
  | cons floor floors ih =>
      by_cases hRefused : Refused store owner floor
      · rw [fold_cons_refused changed hRefused]
        refine iff_of_false ?_ ?_
        · intro h
          obtain ⟨e, after, hSame, hOther⟩ := h
          injection hSame with _ hSame
          exact hOther hSame.symm
        · intro h
          obtain ⟨front, refused, back, hSplit, hFront, -, first, hFirst, -⟩ := h
          cases front with
          | nil => cases hFirst
          | cons head front =>
              injection hSplit with hHead _
              exact hFront head List.mem_cons_self (hHead ▸ hRefused)
      · obtain ⟨result, hResult⟩ := @fold_cons store owner floor floors changed hRefused
        rw [hResult, torn_cons hRefused]
        by_cases hLowers : Lowers store floor
        · obtain ⟨hTotal, hError⟩ := fold_spec owner floors result (floored store floor)
          have hLess := (total_floored store floor).2 hLowers
          simp only [refused_floored] at hError
          constructor
          · intro h
            obtain ⟨e, after, hRun, -⟩ := h
            exact Or.inr ⟨hLowers, hError.1 ⟨e, after, hRun⟩⟩
          · intro h
            have hLater : ∃ refused ∈ floors, Refused store owner refused := by
              cases h with
              | inl hTorn =>
                  obtain ⟨front, refused, back, rfl, -, hLater, -⟩ := hTorn
                  exact ⟨refused, List.mem_append_right _ List.mem_cons_self, hLater⟩
              | inr hBoth => exact hBoth.2
            obtain ⟨e, after, hRun⟩ := hError.2 hLater
            refine ⟨e, after, hRun, fun hSame => ?_⟩
            rw [hRun, final, hSame] at hTotal
            omega
        · rw [floored_eq hLowers, ih result]
          exact (or_iff_left fun hBoth => hLowers hBoth.1).symm

end Floors

section Validity

variable {store : CredentialStore} {owner caller : Fixed 16} {slot : Int32}

theorem floored_valid (h : store.Valid owner) (floor : Int32 × (UInt8 × UInt8)) : (floored store floor).Valid owner := by
  rw [floored]
  cases hFound : store.entries.find floor.1.toInt with
  | none => exact h
  | some found =>
      obtain ⟨hMem, hKey⟩ := KeyedList.find_eq_some.1 hFound
      have hSlot : found.1 = floor.1 := Int32.toInt.inj hKey
      apply h.put (KeyedList.contains_iff.2 ⟨found, hMem, hKey⟩)
      obtain ⟨hRange, hSame, hOwner, hPin, hPuk, hLe, hLe'⟩ := CredentialStore.sound_iff.1 (hSlot ▸ h.sound found hMem)
      exact CredentialStore.sound_iff.2 ⟨hRange, hSame, hOwner, hPin, hPuk, CredentialStore.lowered_le _ hLe,
        CredentialStore.lowered_le _ hLe'⟩

theorem applyRetryFloor_valid (h : store.Valid owner) (caller : Fixed 16) (floors : List (Int32 × (UInt8 × UInt8))) :
    (final (applyRetryFloor caller floors store)).Valid owner := by
  rw [applyRetryFloor]
  generalize false = changed
  induction floors generalizing changed store with
  | nil => exact h
  | cons floor floors ih =>
      by_cases hRefused : Refused store caller floor
      · rw [fold_cons_refused changed hRefused]
        exact h
      · obtain ⟨result, hResult⟩ := @fold_cons store caller floor floors changed hRefused
        rw [hResult]
        exact ih (floored_valid h floor) result

/-- Only its owner gets at an entry of a valid store. -/
theorem caller_eq (h : store.Valid owner) {entry : CredentialEntry} (hEntry : store.entry caller slot = .ok entry) : caller = owner := by
  obtain ⟨key, -, hMem, hOwner⟩ := CredentialStore.entry_ok hEntry
  exact hOwner.symm.trans (CredentialStore.sound_iff.1 (h.sound _ hMem)).2.2.1

theorem atEnd_valid {α : Type} {call : CredentialStore → Except Error (α × CredentialStore)} (h : store.Valid owner)
    (hCall : ∀ a next, call store = .ok (a, next) → next.Valid owner) : (final (atEnd call store)).Valid owner := by
  cases hRun : atEnd call store with
  | ok a next => exact hCall a next (atEnd_ok.1 hRun)
  | error e next =>
      rw [atEnd_error hRun]
      exact h

theorem verifyPin_valid (h : store.Valid owner) (platform : Platform) (candidate : List Byte) :
    (final (verifyPin platform caller slot candidate store)).Valid owner := by
  rw [verifyPin_eq]
  apply atEnd_valid h
  intro result next hRun
  have hEntry := hRun
  simp only [CredentialStore.verifyPin, Checks.bind_ok] at hEntry
  obtain ⟨-, -, entry, hEntry, -⟩ := hEntry
  have hCaller := caller_eq h hEntry
  subst hCaller
  exact CredentialStore.verifyPin_valid h hRun

theorem changePin_valid (h : store.Valid owner) (platform : Platform) (newPin : List Byte) :
    (final (changePin platform caller slot newPin store)).Valid owner := by
  rw [changePin_eq]
  apply atEnd_valid h
  intro result next hRun
  have hEntry := hRun
  simp only [CredentialStore.changePin, Checks.bind_ok] at hEntry
  obtain ⟨-, -, -, -, -, -, entry, hEntry, -⟩ := hEntry
  have hCaller := caller_eq h hEntry
  subst hCaller
  exact CredentialStore.changePin_valid h hRun

theorem unblock_valid (h : store.Valid owner) (platform : Platform) (puk newPin : List Byte) :
    (final (unblock platform caller slot puk newPin store)).Valid owner := by
  rw [unblock_eq]
  apply atEnd_valid h
  intro result next hRun
  have hEntry := hRun
  simp only [CredentialStore.unblock, Checks.bind_ok] at hEntry
  obtain ⟨-, -, -, -, entry, hEntry, -⟩ := hEntry
  have hCaller := caller_eq h hEntry
  subst hCaller
  exact CredentialStore.unblock_valid h hRun

theorem create_valid (h : store.Valid owner) (grants : Grants) (platform : Platform) (pin puk : List Byte) (retries : Int32 × Int32) :
    (final (create grants platform owner slot pin puk retries store)).Valid owner := by
  cases hGranted : grants.entry with
  | false =>
      obtain ⟨e, hError⟩ := create_refused platform owner slot hGranted pin puk retries store
      rw [hError]
      exact h
  | true =>
      rw [create_eq platform owner slot hGranted]
      apply atEnd_valid h
      intro result next hRun
      obtain ⟨created, hCreated, hPair⟩ := Checks.map_ok.1 hRun
      injection hPair with _ hNext
      subst hNext
      exact CredentialStore.create_valid h hCreated

end Validity

section Keys

variable {store : KeyStore} {grants : Grants} {owner : Fixed 16} {slot algorithm : Int32} {entry : KeyEntry}
  {random : Nat → (length : Nat) → Except Error (Fixed length)}

theorem find_inserted (store : KeyStore) (slot : Int32) (entry : KeyEntry) :
    (inserted store slot entry).entries.find slot.toInt = some (slot, entry) := by
  rw [inserted, KeyedList.find_insert, if_pos rfl]

/-- The key that is inserted is that of the call without failing allocations. -/
theorem Inserts.generates (h : Inserts store grants slot algorithm random entry) (owner : Fixed 16) :
    store.generate owner slot algorithm random = .ok (owner.1 ++ entry.nonce.1, inserted store slot entry) := by
  simp only [KeyStore.generate, Checks.bind_ok, Checks.failIf_ok, Checks.orFail_ok, Checks.pure_ok]
  refine ⟨(), by rw [h.inRange]; exact Bool.noConfusion, (), by rw [h.free]; exact Bool.noConfusion, (), Nat.not_le.2 h.room, entry.algorithm, h.kind,
    entry.nonce, h.nonce, entry.key, h.key, (), h.fresh, owner.1 ++ entry.nonce.1, ?_, rfl⟩
  have hFound := find_inserted store slot entry
  rw [inserted] at hFound
  rw [KeyStore.open', hFound]
  rfl

theorem open'_final (grants : Grants) (owner : Fixed 16) (slot : Int32) (store : KeyStore) :
    final (open' grants owner slot store) = store := by
  rw [open'_eq]
  split
  · rfl
  · split <;> rfl

theorem generate_valid (h : store.Valid) (grants : Grants) (owner : Fixed 16) (slot algorithm : Int32)
    (random : Nat → (length : Nat) → Except Error (Fixed length)) :
    (final (generate grants owner slot algorithm random store)).Valid := by
  cases @generate_cases owner slot store grants algorithm random with
  | inl hFails =>
      obtain ⟨e, hError⟩ := hFails.1
      rw [hError]
      exact h
  | inr hInserts =>
      obtain ⟨entry, hInserts, hRun⟩ := hInserts
      rw [hRun, open'_final]
      exact (KeyStore.generate_valid h (hInserts.generates owner)).1

theorem delete_valid (h : store.Valid) (slot : Int32) : (final (delete slot store)).Valid := by
  rw [delete_eq]
  cases hRun : atEnd (fun store : KeyStore => (store.delete slot).map fun next => ((), next)) store with
  | ok a next =>
      rw [atEnd_ok] at hRun
      obtain ⟨deleted, hDeleted, hPair⟩ := Checks.map_ok.1 hRun
      injection hPair with _ hNext
      subst hNext
      exact (KeyStore.delete_valid h hDeleted).1
  | error e next =>
      rw [atEnd_error hRun]
      exact h

/-- The key is inserted, and then there is no room for its token. -/
def LosesToken (store : KeyStore) (grants : Grants) (slot algorithm : Int32)
    (random : Nat → (length : Nat) → Except Error (Fixed length)) : Prop :=
  grants.buffer = false ∧ ∃ entry, Inserts store grants slot algorithm random entry

/-- A failed generation leaves a key behind exactly when it loses the token. -/
theorem generate_loses (grants : Grants) (owner : Fixed 16) (slot algorithm : Int32)
    (random : Nat → (length : Nat) → Except Error (Fixed length)) (store : KeyStore) :
    (∃ e after, generate grants owner slot algorithm random store = .error e after ∧ after ≠ store) ↔
      LosesToken store grants slot algorithm random := by
  cases @generate_cases owner slot store grants algorithm random with
  | inl hFails =>
      obtain ⟨⟨e, hError⟩, hNone⟩ := hFails
      refine iff_of_false ?_ fun h => ?_
      · intro h
        obtain ⟨other, after, hRun, hOther⟩ := h
        rw [hError] at hRun
        injection hRun with _ hSame
        exact hOther hSame.symm
      · obtain ⟨-, entry, hInserts⟩ := h
        exact hNone entry hInserts
  | inr hInserts =>
      obtain ⟨entry, hInserts, hRun⟩ := hInserts
      have hNew : inserted store slot entry ≠ store := by
        intro hSame
        have hFound := find_inserted store slot entry
        rw [hSame] at hFound
        have hFree := hInserts.free
        rw [KeyedList.contains, hFound] at hFree
        cases hFree
      rw [hRun, open'_eq, find_inserted]
      simp only []
      cases hBuffer : grants.buffer with
      | false => exact iff_of_true ⟨.quota, _, rfl, hNew⟩ ⟨hBuffer, entry, hInserts⟩
      | true =>
          refine iff_of_false ?_ fun h => ?_
          · intro h
            obtain ⟨e, after, hOk, -⟩ := h
            cases hOk
          · rw [LosesToken, hBuffer] at h
            cases h.1

end Keys

section Runs

/-- A call on a key store. The uses of a key take the store by shared reference. -/
inductive KeyCall where
  | generate (grants : Grants) (owner : Fixed 16) (slot algorithm : Int32)
      (random : Nat → (length : Nat) → Except Error (Fixed length))
  | open' (grants : Grants) (owner : Fixed 16) (slot : Int32)
  | delete (slot : Int32)
  | use (service : KeyStore → Except Error (List Byte))

def KeyCall.run : KeyCall → KeyM (List Byte)
  | .generate grants owner slot algorithm random => InPlace.generate grants owner slot algorithm random
  | .open' grants owner slot => InPlace.open' grants owner slot
  | .delete slot => do
      InPlace.delete slot
      pure []
  | .use service => do
      let store ← get
      readOnly (service store)

/-- The call fails with a store that is not the one it was given. -/
def KeyCall.Tears (store : KeyStore) : KeyCall → Prop
  | .generate grants _ slot algorithm random => LosesToken store grants slot algorithm random
  | _ => False

/-- A call on the credential store of a domain. Only the owner of the domain creates
credentials, and any caller may try the other calls. -/
inductive CredentialCall where
  | create (grants : Grants) (platform : Platform) (slot : Int32) (pin puk : List Byte) (retries : Int32 × Int32)
  | verifyPin (platform : Platform) (caller : Fixed 16) (slot : Int32) (candidate : List Byte)
  | changePin (platform : Platform) (caller : Fixed 16) (slot : Int32) (newPin : List Byte)
  | unblock (platform : Platform) (caller : Fixed 16) (slot : Int32) (puk newPin : List Byte)
  | retries (caller : Fixed 16) (slot : Int32)
  | applyRetryFloor (caller : Fixed 16) (floors : List (Int32 × (UInt8 × UInt8)))

def CredentialCall.run (owner : Fixed 16) : CredentialCall → CredentialM Unit
  | .create grants platform slot pin puk limits => InPlace.create grants platform owner slot pin puk limits
  | .verifyPin platform caller slot candidate => do let _ ← InPlace.verifyPin platform caller slot candidate
  | .changePin platform caller slot newPin => do let _ ← InPlace.changePin platform caller slot newPin
  | .unblock platform caller slot puk newPin => do let _ ← InPlace.unblock platform caller slot puk newPin
  | .retries caller slot => do
      let store ← get
      let _ ← readOnly (store.retries caller slot)
  | .applyRetryFloor caller floors => do let _ ← InPlace.applyRetryFloor caller floors

def CredentialCall.Tears (store : CredentialStore) : CredentialCall → Prop
  | .applyRetryFloor caller floors => TornFloors store caller floors
  | _ => False

/-- The key store behind some calls, whether they failed or not. -/
def runKeys (store : KeyStore) (calls : List KeyCall) : KeyStore :=
  calls.foldl (fun store call => final (call.run store)) store

def runCredentials (owner : Fixed 16) (store : CredentialStore) (calls : List CredentialCall) : CredentialStore :=
  calls.foldl (fun store call => final (call.run owner store)) store

variable {σ α β : Type}

theorem final_discard (program : EStateM Error σ α) (value : β) (state : σ) :
    final ((program >>= fun _ => pure value) state) = final (program state) := by
  simp only [bind, EStateM.bind]
  cases program state with
  | ok a after => rfl
  | error e after => rfl

theorem discard_error {program : EStateM Error σ α} {value : β} {state after : σ} {e : Error} :
    (program >>= fun _ => pure value) state = .error e after ↔ program state = .error e after := by
  simp only [bind, EStateM.bind]
  cases program state with
  | ok a last => exact iff_of_false nofun nofun
  | error other last => simp only [EStateM.Result.error.injEq]

/-- A call that changes nothing but when it succeeds. -/
theorem not_torn {program : EStateM Error σ α} {state : σ} (h : ∀ e after, program state = .error e after → after = state) :
    (∃ e after, program state = .error e after ∧ after ≠ state) ↔ False := by
  refine iff_of_false ?_ not_false
  intro hTorn
  obtain ⟨e, after, hRun, hOther⟩ := hTorn
  exact hOther (h e after hRun)

theorem readOnly_error {result : Except Error α} {state after : σ} {e : Error} (h : readOnly result state = .error e after) :
    after = state := by
  cases result with
  | ok a => cases h
  | error e =>
      injection h with _ hSame
      exact hSame.symm

theorem KeyCall.run_valid {store : KeyStore} (h : store.Valid) (call : KeyCall) : (final (call.run store)).Valid := by
  cases call with
  | generate grants owner slot algorithm random => exact generate_valid h grants owner slot algorithm random
  | open' grants owner slot =>
      rw [KeyCall.run, open'_final]
      exact h
  | delete slot =>
      rw [KeyCall.run, final_discard]
      exact delete_valid h slot
  | use service =>
      rw [KeyCall.run, get_bind]
      cases service store with
      | ok bytes => exact h
      | error e => exact h

theorem KeyCall.tears_iff (store : KeyStore) (call : KeyCall) :
    (∃ e after, call.run store = .error e after ∧ after ≠ store) ↔ call.Tears store := by
  cases call with
  | generate grants owner slot algorithm random => exact generate_loses grants owner slot algorithm random store
  | open' grants owner slot =>
      refine not_torn fun e after hRun => ?_
      have hFinal := open'_final grants owner slot store
      rw [KeyCall.run] at hRun
      rw [hRun] at hFinal
      exact hFinal
  | delete slot =>
      refine not_torn fun e after hRun => ?_
      rw [KeyCall.run, discard_error, delete_eq] at hRun
      exact atEnd_error hRun
  | use service => exact not_torn fun e after hRun => readOnly_error hRun

theorem CredentialCall.run_valid {owner : Fixed 16} {store : CredentialStore} (h : store.Valid owner) (call : CredentialCall) :
    (final (call.run owner store)).Valid owner := by
  cases call with
  | create grants platform slot pin puk limits => exact create_valid h grants platform pin puk limits
  | verifyPin platform caller slot candidate =>
      rw [CredentialCall.run, final_discard]
      exact verifyPin_valid h platform candidate
  | changePin platform caller slot newPin =>
      rw [CredentialCall.run, final_discard]
      exact changePin_valid h platform newPin
  | unblock platform caller slot puk newPin =>
      rw [CredentialCall.run, final_discard]
      exact unblock_valid h platform puk newPin
  | retries caller slot =>
      rw [CredentialCall.run, get_bind, final_discard]
      cases store.retries caller slot with
      | ok pair => exact h
      | error e => exact h
  | applyRetryFloor caller floors =>
      rw [CredentialCall.run, final_discard]
      exact applyRetryFloor_valid h caller floors

theorem CredentialCall.tears_iff (owner : Fixed 16) (store : CredentialStore) (call : CredentialCall) :
    (∃ e after, call.run owner store = .error e after ∧ after ≠ store) ↔ call.Tears store := by
  cases call with
  | create grants platform slot pin puk limits =>
      refine not_torn fun e after hRun => ?_
      rw [CredentialCall.run] at hRun
      cases hGranted : grants.entry with
      | false =>
          obtain ⟨other, hError⟩ := create_refused platform owner slot hGranted pin puk limits store
          rw [hError] at hRun
          injection hRun with _ hSame
          exact hSame.symm
      | true =>
          rw [create_eq platform owner slot hGranted] at hRun
          exact atEnd_error hRun
  | verifyPin platform caller slot candidate =>
      refine not_torn fun e after hRun => ?_
      rw [CredentialCall.run, discard_error, verifyPin_eq] at hRun
      exact atEnd_error hRun
  | changePin platform caller slot newPin =>
      refine not_torn fun e after hRun => ?_
      rw [CredentialCall.run, discard_error, changePin_eq] at hRun
      exact atEnd_error hRun
  | unblock platform caller slot puk newPin =>
      refine not_torn fun e after hRun => ?_
      rw [CredentialCall.run, discard_error, unblock_eq] at hRun
      exact atEnd_error hRun
  | retries caller slot =>
      refine not_torn fun e after hRun => ?_
      rw [CredentialCall.run, get_bind, discard_error] at hRun
      exact readOnly_error hRun
  | applyRetryFloor caller floors =>
      simp only [CredentialCall.run, discard_error]
      exact applyRetryFloor_torn caller floors store

theorem runKeys_valid {store : KeyStore} (h : store.Valid) (calls : List KeyCall) : (runKeys store calls).Valid := by
  induction calls generalizing store with
  | nil => exact h
  | cons call calls ih => exact ih (call.run_valid h)

theorem runCredentials_valid {owner : Fixed 16} {store : CredentialStore} (h : store.Valid owner) (calls : List CredentialCall) :
    (runCredentials owner store calls).Valid owner := by
  induction calls generalizing store with
  | nil => exact h
  | cons call calls ih => exact ih (call.run_valid h)

/-- What a run leaves: a valid store in order that is read as it is written, and of which
a failing call changes nothing unless it tears it. -/
structure KeysKept (store : KeyStore) : Prop where
  valid : store.validate = .ok ()
  sorted : store.entries.entries.Pairwise fun a b => a.1.toInt < b.1.toInt
  written : Appends store.encodeState store.stateBytes
  read : ∀ rest, KeyStore.decodeState (store.stateBytes ++ rest) = .ok store rest
  unchanged : ∀ call : KeyCall, (∀ e after, call.run store = .error e after → after = store) ↔ ¬call.Tears store

structure CredentialsKept (owner : Fixed 16) (store : CredentialStore) : Prop where
  valid : store.validate owner = .ok ()
  sorted : store.entries.entries.Pairwise fun a b => a.1.toInt < b.1.toInt
  written : Appends store.encodeState store.stateBytes
  read : ∀ rest, CredentialStore.decodeState owner (store.stateBytes ++ rest) = .ok store rest
  unchanged : ∀ call : CredentialCall, (∀ e after, call.run owner store = .error e after → after = store) ↔ ¬call.Tears store

theorem keysKept_of_valid {store : KeyStore} (h : store.Valid) : KeysKept store where
  valid := KeyStore.validate_ok.2 h
  sorted := store.entries.sorted
  written := KeyStore.encodeState_appends store
  read rest := (KeyStore.decodeState_exact _ _ _).2 ⟨h, rfl⟩
  unchanged call := by
    rw [← KeyCall.tears_iff]
    simp only [not_exists, not_and, not_not]

theorem credentialsKept_of_valid {owner : Fixed 16} {store : CredentialStore} (h : store.Valid owner) : CredentialsKept owner store where
  valid := CredentialStore.validate_ok.2 h
  sorted := store.entries.sorted
  written := CredentialStore.encodeState_appends h
  read rest := (CredentialStore.decodeState_exact owner _ _ _).2 ⟨h, rfl⟩
  unchanged call := by
    rw [← CredentialCall.tears_iff owner]
    simp only [not_exists, not_and, not_not]

/-- Whatever fails in a run, both stores keep their invariants, and a call that fails keeps
its store unless it loses the token of a key that it inserted or applies torn retry floors.
What is read is written again as it was. -/
theorem stores_keep_invariants {owner : Fixed 16} {keys : KeyStore} {credentials : CredentialStore}
    (hKeys : keys.validate = .ok ()) (hCredentials : credentials.validate owner = .ok ()) (keyCalls : List KeyCall)
    (credentialCalls : List CredentialCall) :
    KeysKept (runKeys keys keyCalls) ∧ CredentialsKept owner (runCredentials owner credentials credentialCalls) ∧
    (∀ input store rest, KeyStore.decodeState input = .ok store rest →
      input = store.stateBytes ++ rest ∧ Appends store.encodeState store.stateBytes) ∧
    ∀ input store rest, CredentialStore.decodeState owner input = .ok store rest →
      input = store.stateBytes ++ rest ∧ Appends store.encodeState store.stateBytes := by
  refine ⟨keysKept_of_valid (runKeys_valid (KeyStore.validate_ok.1 hKeys) keyCalls),
    credentialsKept_of_valid (runCredentials_valid (CredentialStore.validate_ok.1 hCredentials) credentialCalls),
    fun input store rest hRead => ?_, fun input store rest hRead => ?_⟩
  · exact ⟨((KeyStore.decodeState_exact _ _ _).1 hRead).2, KeyStore.encodeState_appends store⟩
  · obtain ⟨hValid, hInput⟩ := (CredentialStore.decodeState_exact owner _ _ _).1 hRead
    exact ⟨hInput, CredentialStore.encodeState_appends hValid⟩

def blank (length : Nat) : Fixed length := ⟨List.replicate length 7, List.length_replicate⟩

/-- A board whose entropy and digests are all the same. -/
def blankPlatform : Platform where
  random _ length := .ok (blank length)
  gpio _ _ := .ok ()
  sha256 _ := .ok (blank 32)
  hmacSha256 _ _ := .ok (blank 32)
  aesCmac _ _ := .ok (blank 16)
  aesCbc _ _ _ data := .ok data
  aesCcm _ _ _ _ data := .ok data
  p256PublicKey _ := .ok (blank 65)
  p256EcdsaSign _ _ := .ok (blank 64)
  p256Ecdh _ _ := .ok (blank 32)
  p256EcdsaVerify _ _ _ := .ok true

/-- A generation whose token finds no room. -/
def tokenLost : KeyCall := .generate ⟨true, false⟩ (blank 16) 0 1 fun _ length => .ok (blank length)

def twoCredentials : List CredentialCall :=
  [.create ⟨true, true⟩ blankPlatform 0 [1, 2, 3, 4] [1, 2, 3, 4, 5, 6] (3, 3),
    .create ⟨true, true⟩ blankPlatform 1 [1, 2, 3, 4] [1, 2, 3, 4, 5, 6] (3, 3)]

/-- The first floor lowers the counters of its slot and the second is above the maximum. -/
def tornFloors : CredentialCall := .applyRetryFloor (blank 16) [(0, (1, 1)), (1, (4, 4))]

/-- From the empty stores, with a failing call among the others. -/
theorem stores_keep_invariants_empty :
    KeysKept (runKeys KeyStore.empty [tokenLost]) ∧
      CredentialsKept (blank 16) (runCredentials (blank 16) CredentialStore.empty twoCredentials) := by
  have hKept := @stores_keep_invariants (blank 16) KeyStore.empty CredentialStore.empty rfl rfl [tokenLost] twoCredentials
  exact ⟨hKept.1, hKept.2.1⟩

/-- A call on either store can fail and change it. -/
theorem failures_change_stores :
    (¬∀ (calls : List KeyCall) (call : KeyCall) e after, call.run (runKeys KeyStore.empty calls) = .error e after →
      after = runKeys KeyStore.empty calls) ∧
    ¬∀ (calls : List CredentialCall) (call : CredentialCall) e after,
      call.run (blank 16) (runCredentials (blank 16) CredentialStore.empty calls) = .error e after →
        after = runCredentials (blank 16) CredentialStore.empty calls := by
  constructor
  · intro hAll
    have hSame := hAll [] tokenLost .quota _ rfl
    have hLength := congrArg KeyStore.length hSame
    cases hLength
  · intro hAll
    have hSame := hAll twoCredentials tornFloors .storage _ rfl
    have hTotal := congrArg retryTotal hSame
    cases hTotal

end Runs

end MicroCard.Mc04.InPlace
