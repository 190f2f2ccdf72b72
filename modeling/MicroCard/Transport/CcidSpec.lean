import MicroCard.Library.Checks
import MicroCard.Transport.Ccid

/-! What each call of the controller can do. -/
namespace MicroCard.Ccid

open Bytes CrashTriple Transport Checks

/-- The command status of a response is success. -/
def succeeded (bytes : List Byte) : Prop := bytes.getD 7 0 &&& 0xc0 = 0

instance (bytes : List Byte) : Decidable (succeeded bytes) := inferInstanceAs (Decidable (_ = _))

/-- A response with its sequence and status. -/
structure Carries (bytes : List Byte) (sequence : Byte) (command : CommandStatus) : Prop where
  sequence : bytes[6]? = some sequence
  status : ∃ icc, bytes.getD 7 0 = status icc command

theorem Carries.succeeded {bytes : List Byte} {sequence : Byte} (h : Carries bytes sequence .success) : succeeded bytes := by
  obtain ⟨icc, hStatus⟩ := h.status
  rw [Ccid.succeeded, hStatus]
  cases icc <;> rfl

theorem Carries.not_succeeded {bytes : List Byte} {sequence : Byte} (h : Carries bytes sequence .failed) : ¬Ccid.succeeded bytes := by
  obtain ⟨icc, hStatus⟩ := h.status
  rw [Ccid.succeeded, hStatus]
  cases icc <;> decide

variable {capacity : Nat} {slot sequence error : Byte} {icc : IccStatus} {command : CommandStatus} {data bytes : List Byte}

theorem writeDataBlock_carries (h : writeDataBlock capacity slot sequence icc command error data = .ok bytes) :
    Carries bytes sequence command := by
  rw [writeDataBlock] at h
  split at h
  · cases h
  · injection h with h
    subst h
    exact ⟨rfl, icc, rfl⟩

theorem writeSlotStatus_carries (h : writeSlotStatus capacity slot sequence icc command error = .ok bytes) :
    Carries bytes sequence command := by
  rw [writeSlotStatus] at h
  split at h
  · cases h
  · injection h with h
    subst h
    exact ⟨rfl, icc, rfl⟩

theorem writeFailure_carries {controller : Controller} {response : ResponseKind}
    (h : controller.writeFailure sequence response error = .ok bytes) : Carries bytes sequence .failed := by
  cases response with
  | dataBlock => exact writeDataBlock_carries h
  | slotStatus => exact writeSlotStatus_carries h

theorem parseHeader_sequence {input : List Byte} {header : Header} (h : parseHeader input = .ok header) :
    input[6]? = some header.sequence := by
  unfold parseHeader at h
  split at h
  · injection h with h
    subst h
    rfl
  · cases h

theorem commandOf_sequence {header : Header} {command : Command} (h : commandOf header data = .ok command) :
    command.sequence = header.sequence := by
  rw [commandOf] at h
  split_ifs at h <;> cases h <;> rfl

/-- A command has the sequence of its message. -/
theorem decode_sequence {input : List Byte} {command : Command} (h : decode input = .ok command) :
    input[6]? = some command.sequence := by
  rw [decode, bind_ok] at h
  obtain ⟨header, hHeader, h⟩ := h
  simp only [bind_ok, failIf_ok] at h
  obtain ⟨-, -, -, -, -, -, hCommand⟩ := h
  rw [parseHeader_sequence hHeader, commandOf_sequence hCommand]

theorem rejectBulk_response {controller : Controller} {input : List Byte} {reason : Error} {action : ControllerAction}
    (h : controller.rejectBulk input reason = .ok action) :
    ∃ bytes sequence, action = .response bytes ∧ input[6]? = some sequence ∧ Carries bytes sequence .failed := by
  rw [Controller.rejectBulk, bind_ok] at h
  obtain ⟨header, hHeader, h⟩ := h
  obtain ⟨bytes, hBytes, h⟩ := map_ok.1 h
  refine ⟨bytes, header.sequence, h.symm, parseHeader_sequence hHeader, ?_⟩
  split at hBytes
  · exact writeDataBlock_carries hBytes
  · exact writeSlotStatus_carries hBytes

/-- What a bulk message does. An abort is answered with success by the other half only. -/
inductive Handled (controller : Controller) (message : List Byte) : Except Error ControllerAction → Controller → Prop where
  | refused (error : Error) : Handled controller message (.error error) controller
  | answered {bytes : List Byte} {sequence : Byte} (powered : Bool) (hSequence : message[6]? = some sequence)
      (hBytes : bytes[6]? = some sequence) (hAbort : ∀ other, decode message = .ok (.abort other) → ¬succeeded bytes) :
      Handled controller message (.ok (.response bytes)) ⟨{ controller.slot with powered := powered }⟩
  | dispatched {sequence : Byte} {apdu : List Byte} (hSequence : message[6]? = some sequence)
      (hMessage : decode message = .ok (.transferBlock sequence apdu)) (hControl : controller.slot.controlAbort = none)
      (hIdle : controller.slot.inFlight = none) :
      Handled controller message (.ok (.dispatch sequence apdu)) ⟨{ controller.slot with inFlight := some sequence }⟩
  | half {sequence : Byte} (hSequence : message[6]? = some sequence) (hMessage : decode message = .ok (.abort sequence))
      (hControl : controller.slot.controlAbort = none)
      (hBulk : controller.slot.bulkAbort = some sequence ∨ controller.slot.bulkAbort = none ∧ controller.slot.inFlight ≠ none) :
      Handled controller message (.ok (.awaitAbortPair sequence)) ⟨{ controller.slot with bulkAbort := some sequence }⟩
  | finished {bytes : List Byte} {sequence : Byte} (hSequence : message[6]? = some sequence)
      (hMessage : decode message = .ok (.abort sequence)) (hControl : controller.slot.controlAbort = some sequence)
      (hBytes : bytes[6]? = some sequence) (hSuccess : succeeded bytes) :
      Handled controller message (.ok (.response bytes)) ⟨⟨controller.slot.powered, none, none, none⟩⟩

theorem Handled.of_carries (controller : Controller) {message : List Byte} {status : CommandStatus} {written : Except Error (List Byte)}
    (hSequence : message[6]? = some sequence) (hWritten : ∀ bytes, written = .ok bytes → Carries bytes sequence status)
    (hAbort : ∀ other, decode message = .ok (.abort other) → status = .failed) (powered : Bool)
    (hTotal : ∃ bytes, written = .ok bytes) :
    Handled controller message (written.map .response) ⟨{ controller.slot with powered := powered }⟩ := by
  obtain ⟨bytes, hBytes⟩ := hTotal
  have hCarries := hWritten bytes hBytes
  rw [hBytes]
  exact .answered powered hSequence hCarries.sequence fun other hOther => (hAbort other hOther ▸ hCarries).not_succeeded

theorem writeFailure_total (controller : Controller) (response : ResponseKind) :
    ∃ bytes, controller.writeFailure sequence response error = .ok bytes := by
  cases response with
  | dataBlock => exact ⟨_, rfl⟩
  | slotStatus => exact ⟨_, rfl⟩

/-- A message of another command is no abort. -/
theorem not_abort {message : List Byte} {read : Command} {status : CommandStatus} (hDecode : decode message = .ok read)
    (hRead : ∀ sequence, read ≠ .abort sequence) (other : Byte) (h : decode message = .ok (.abort other)) : status = .failed := by
  rw [hDecode] at h
  injection h with h
  exact absurd h (hRead other)

theorem handleBulk_handled (controller : Controller) (message : List Byte) :
    Handled controller message (controller.handleBulk message).1 (controller.handleBulk message).2 := by
  rw [Controller.handleBulk]
  cases hDecode : decode message with
  | error reason =>
      simp only []
      cases hReject : controller.rejectBulk message reason with
      | error error => exact .refused error
      | ok action =>
          obtain ⟨bytes, sequence, rfl, hSequence, hCarries⟩ := rejectBulk_response hReject
          refine .answered controller.slot.powered hSequence hCarries.sequence fun other hOther => ?_
          rw [hDecode] at hOther
          cases hOther
  | ok command =>
      have hSequence := decode_sequence hDecode
      obtain ⟨powered, inFlight, controlAbort, bulkAbort⟩ := controller
      -- The failures of the slot leave it as it was.
      have hFailed (response : ResponseKind) (error : Byte) :
          Handled ⟨powered, inFlight, controlAbort, bulkAbort⟩ message
            (Controller.perform ⟨powered, inFlight, controlAbort, bulkAbort⟩ (.failed command.sequence response error))
            ⟨powered, inFlight, controlAbort, bulkAbort⟩ :=
        Handled.of_carries _ hSequence (fun _ => writeFailure_carries) (fun _ _ => rfl) powered (writeFailure_total _ response)
      simp only [SlotState.accept]
      cases controlAbort with
      | some abortSequence =>
          simp only []
          split
          · rename_i hMatch
            cases command with
            | abort sequence =>
                have hSame : sequence = abortSequence := hMatch.2
                subst hSame
                have hCarries := @writeSlotStatus_carries maxResponseMessageBytes 0 sequence 0 _ .success _
                  (rfl : writeSlotStatus maxResponseMessageBytes 0 sequence
                    (SlotState.iccStatus ⟨powered, none, none, none⟩) .success 0 = .ok _)
                exact .finished hSequence hDecode rfl hCarries.sequence hCarries.succeeded
            | _ => cases hMatch.1
          · exact hFailed _ _
      | none =>
          simp only []
          cases command with
          | abort sequence =>
              simp only [Command.isAbort, if_true]
              cases bulkAbort with
              | some abortSequence =>
                  simp only []
                  split
                  · rename_i hSame
                    have hSame : sequence = abortSequence := hSame
                    subst hSame
                    exact .half hSequence hDecode rfl (Or.inl rfl)
                  · exact hFailed _ _
              | none =>
                  simp only []
                  split
                  · exact hFailed _ _
                  · rename_i hFlight
                    exact .half hSequence hDecode rfl (Or.inr ⟨rfl, hFlight⟩)
          | powerOn sequence =>
              simp only [Command.isAbort, Bool.false_eq_true, if_false]
              split
              · exact hFailed _ _
              · rw [Controller.perform]
                refine Handled.of_carries ⟨⟨powered, inFlight, none, bulkAbort⟩⟩ hSequence (fun _ => writeDataBlock_carries) (not_abort hDecode nofun) true ?_
                exact ⟨_, rfl⟩
          | powerOff sequence =>
              simp only [Command.isAbort, Bool.false_eq_true, if_false]
              split
              · exact hFailed _ _
              · rw [Controller.perform]
                refine Handled.of_carries ⟨⟨powered, inFlight, none, bulkAbort⟩⟩ hSequence (fun _ => writeSlotStatus_carries) (not_abort hDecode nofun) false ?_
                exact ⟨_, rfl⟩
          | getSlotStatus sequence =>
              simp only [Command.isAbort, Bool.false_eq_true, if_false]
              split
              · exact hFailed _ _
              · rw [Controller.perform]
                refine Handled.of_carries ⟨⟨powered, inFlight, none, bulkAbort⟩⟩ hSequence (fun _ => writeSlotStatus_carries) (not_abort hDecode nofun) powered ?_
                exact ⟨_, rfl⟩
          | transferBlock sequence apdu =>
              simp only [Command.isAbort, Bool.false_eq_true, if_false]
              split
              · exact hFailed _ _
              · rename_i hFlight
                split
                · exact .dispatched hSequence hDecode rfl (by simpa using hFlight)
                · exact hFailed _ _

/-- The slot would complete an APDU of this sequence. -/
def Takes (controller : Controller) (sequence : Byte) : Prop :=
  controller.slot.inFlight = some sequence ∧ controller.slot.controlAbort = none ∧ controller.slot.bulkAbort = none

instance (controller : Controller) (sequence : Byte) : Decidable (Takes controller sequence) :=
  inferInstanceAs (Decidable (_ ∧ _ ∧ _))

/-- What a completion does. -/
inductive Finished (controller : Controller) (sequence : Byte) : Except Error (List Byte) → Controller → Prop where
  | refused (error : Error) : Finished controller sequence (.error error) controller
  | answered {bytes : List Byte} (hTakes : Takes controller sequence) (hBytes : bytes[6]? = some sequence) :
      Finished controller sequence (.ok bytes) ⟨{ controller.slot with inFlight := none }⟩

theorem slot_complete (controller : Controller) (sequence : Byte) :
    controller.slot.complete sequence =
      if Takes controller sequence then (.ok (), { controller.slot with inFlight := none }) else (.error .missing, controller.slot) := by
  have hRefused : (controller.slot.inFlight ≠ some sequence ∨ controller.slot.controlAbort.isSome = true ∨
      controller.slot.bulkAbort.isSome = true) ↔ ¬Takes controller sequence := by
    rw [Takes, Option.isSome_iff_ne_none, Option.isSome_iff_ne_none]
    tauto
  rw [SlotState.complete]
  simp only [hRefused, ite_not]

theorem writeDataBlock_total (hData : data.length ≤ maxShortResponseBytes) :
    ∃ bytes, writeDataBlock maxResponseMessageBytes slot sequence icc command error data = .ok bytes := by
  rw [writeDataBlock, maxResponseMessageBytes, if_neg (by omega)]
  exact ⟨_, rfl⟩

theorem complete_finished (controller : Controller) (sequence : Byte) (response : List Byte) :
    Finished controller sequence (controller.complete sequence response).1 (controller.complete sequence response).2 := by
  rw [Controller.complete, slot_complete]
  split
  · exact .refused .bounds
  · rename_i hLength
    by_cases hTakes : Takes controller sequence
    · rw [if_pos hTakes]
      simp only []
      obtain ⟨bytes, hBytes⟩ := @writeDataBlock_total 0 sequence 0 (SlotState.iccStatus { controller.slot with inFlight := none })
        .success response (Nat.not_lt.1 hLength)
      rw [hBytes]
      exact .answered hTakes (writeDataBlock_carries hBytes).sequence
    · rw [if_neg hTakes]
      exact .refused .missing

theorem fail_finished (controller : Controller) (sequence error : Byte) :
    Finished controller sequence (controller.fail sequence error).1 (controller.fail sequence error).2 := by
  rw [Controller.fail, slot_complete]
  by_cases hTakes : Takes controller sequence
  · rw [if_pos hTakes]
    simp only []
    obtain ⟨bytes, hBytes⟩ := @writeFailure_total sequence error ⟨{ controller.slot with inFlight := none }⟩ .dataBlock
    rw [hBytes]
    exact .answered hTakes (writeFailure_carries hBytes).sequence
  · rw [if_neg hTakes]
    exact .refused .missing

/-- A completion is answered exactly when the slot takes it and its response is short. -/
theorem complete_refused_iff (controller : Controller) (sequence : Byte) (response : List Byte) :
    (∃ error, (controller.complete sequence response).1 = .error error) ↔
      response.length ≤ maxShortResponseBytes → ¬Takes controller sequence := by
  rw [Controller.complete, slot_complete]
  by_cases hLength : maxShortResponseBytes < response.length
  · rw [if_pos hLength]
    exact iff_of_true ⟨_, rfl⟩ fun hShort => absurd hLength (Nat.not_lt.2 hShort)
  · have hShort := Nat.not_lt.1 hLength
    rw [if_neg hLength]
    by_cases hTakes : Takes controller sequence
    · rw [if_pos hTakes]
      obtain ⟨bytes, hBytes⟩ := @writeDataBlock_total 0 sequence 0 (SlotState.iccStatus { controller.slot with inFlight := none })
        .success response hShort
      simp only [hBytes]
      refine iff_of_false ?_ fun h => h hShort hTakes
      intro h
      obtain ⟨error, h⟩ := h
      cases h
    · rw [if_neg hTakes]
      exact iff_of_true ⟨_, rfl⟩ fun _ => hTakes

theorem fail_refused_iff (controller : Controller) (sequence error : Byte) :
    (∃ reason, (controller.fail sequence error).1 = .error reason) ↔ ¬Takes controller sequence := by
  rw [Controller.fail, slot_complete]
  by_cases hTakes : Takes controller sequence
  · rw [if_pos hTakes]
    obtain ⟨bytes, hBytes⟩ := @writeFailure_total sequence error ⟨{ controller.slot with inFlight := none }⟩ .dataBlock
    simp only [hBytes]
    refine iff_of_false ?_ fun h => h hTakes
    intro h
    obtain ⟨reason, h⟩ := h
    cases h
  · rw [if_neg hTakes]
    exact iff_of_true ⟨_, rfl⟩ hTakes

/-- What the control-pipe half of an abort does. -/
inductive Aborting (controller : Controller) (index sequence : Byte) : Except Error (Option (List Byte)) → Controller → Prop where
  | refused (error : Error) : Aborting controller index sequence (.error error) controller
  | half (hIndex : index = maxSlotIndex) (hFlight : controller.slot.inFlight ≠ none) :
      Aborting controller index sequence (.ok none) ⟨{ controller.slot with controlAbort := some sequence }⟩
  | finished {bytes : List Byte} (hBulk : controller.slot.bulkAbort = some sequence) (hBytes : bytes[6]? = some sequence) :
      Aborting controller index sequence (.ok (some bytes)) ⟨⟨controller.slot.powered, none, none, none⟩⟩

theorem controlAbort_aborting (controller : Controller) (index sequence : Byte) :
    Aborting controller index sequence (controller.controlAbort index sequence).1 (controller.controlAbort index sequence).2 := by
  rw [Controller.controlAbort, SlotState.abortByControl]
  by_cases hIndex : index = maxSlotIndex
  · rw [if_neg (not_not.2 hIndex)]
    by_cases hBulk : controller.slot.bulkAbort = some sequence
    · rw [if_pos hBulk]
      exact .finished hBulk rfl
    · rw [if_neg hBulk]
      by_cases hFlight : controller.slot.inFlight = none
      · rw [if_pos hFlight]
        exact .refused .missing
      · rw [if_neg hFlight]
        exact .half hIndex hFlight
  · rw [if_pos hIndex]
    exact .refused .missing

end MicroCard.Ccid
