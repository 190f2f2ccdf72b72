import MicroCard.Transport.CcidSpec
import Mathlib.Data.List.Nodup

/-! Runs of the reader. Both USB pipes and the executing card call the controller in any
order. Beside the controller the reader records which command each response answers,
what became of each dispatched APDU and which halves of an abort have arrived. -/
namespace MicroCard.Ccid

open Bytes Transport

/-- What became of a dispatched APDU. -/
inductive Fate where
  | running
  | answered
  | aborted
  | disconnected
  deriving DecidableEq

inductive Event where
  | bulk (message : List Byte)
  | controlAbort (index sequence : Byte)
  | disconnect
  | complete (command : Nat) (response : List Byte)
  | fail (command : Nat) (error : Byte)

/-- A response and the command it answers. -/
structure Answer where
  command : Nat
  bytes : List Byte
  deriving DecidableEq

/-- Commands are numbered in the order of their messages. `waiting` are the bulk halves
without a response, and the halves are those that arrived since the last dispatch. -/
structure Reader where
  controller : Controller
  messages : List (List Byte)
  fate : Nat → Option Fate
  waiting : List Nat
  controlHalves : List Byte
  bulkHalves : List Byte
  answers : List Answer

/-- The sequence number of an abort. -/
def abortOf (message : List Byte) : Option Byte :=
  match decode message with
  | .ok (.abort sequence) => some sequence
  | _ => none

namespace Reader

def new : Reader := ⟨.new, [], fun _ => none, [], [], [], []⟩

def sequenceOf (reader : Reader) (command : Nat) : Option Byte := reader.messages[command]?.bind (·[6]?)

/-- The APDU in flight ends, and with it the aborts that are under way. -/
def stop (reader : Reader) (fate : Fate) : Reader :=
  { reader with
    fate := fun command => if reader.fate command = some .running then some fate else reader.fate command
    waiting := []
    controlHalves := []
    bulkHalves := [] }

def finish (reader : Reader) (command : Nat) (result : Except Error (List Byte) × Controller) : Option Answer × Reader :=
  match result.1 with
  | .error _ => (none, { reader with controller := result.2 })
  | .ok bytes =>
      (some ⟨command, bytes⟩,
        { reader with controller := result.2, fate := Function.update reader.fate command (some .answered) })

/-- What an event does, and the response it yields. -/
def advance (reader : Reader) : Event → Option Answer × Reader
  | .bulk message =>
      let command := reader.messages.length
      let handled := reader.controller.handleBulk message
      let received := { reader with
        controller := handled.2
        messages := reader.messages ++ [message]
        bulkHalves := (abortOf message).toList ++ reader.bulkHalves }
      match handled.1 with
      | .error _ => (none, received)
      | .ok (.response bytes) =>
          (some ⟨command, bytes⟩, if (abortOf message).isSome ∧ succeeded bytes then received.stop .aborted else received)
      | .ok (.dispatch _ _) =>
          (none, { received with
            fate := Function.update received.fate command (some .running)
            controlHalves := []
            bulkHalves := [] })
      | .ok (.awaitAbortPair _) => (none, { received with waiting := received.waiting ++ [command] })
  | .controlAbort index sequence =>
      let handled := reader.controller.controlAbort index sequence
      let received := { reader with
        controller := handled.2
        controlHalves := if index = maxSlotIndex then sequence :: reader.controlHalves else reader.controlHalves }
      match handled.1 with
      | .ok (some bytes) =>
          -- The response goes to the bulk half that waits with this sequence.
          let command := (reader.waiting.find? fun command => reader.sequenceOf command = some sequence).getD reader.messages.length
          (some ⟨command, bytes⟩, received.stop .aborted)
      | _ => (none, received)
  | .disconnect => (none, { reader with controller := reader.controller.disconnect }.stop .disconnected)
  | .complete command response =>
      reader.finish command (reader.controller.complete ((reader.sequenceOf command).getD 0) response)
  | .fail command error => reader.finish command (reader.controller.fail ((reader.sequenceOf command).getD 0) error)

def step (reader : Reader) (event : Event) : Reader :=
  let advanced := reader.advance event
  { advanced.2 with answers := advanced.2.answers ++ advanced.1.toList }

/-- An APDU is completed only once, and only after it was dispatched. -/
def Allows (reader : Reader) : Event → Prop
  | .complete command _ | .fail command _ => ∃ fate, reader.fate command = some fate ∧ fate ≠ .answered
  | _ => True

/-- The event completes an APDU that was aborted or disconnected. -/
def Late (reader : Reader) : Event → Prop
  | .complete command _ | .fail command _ => reader.fate command = some .aborted ∨ reader.fate command = some .disconnected
  | _ => False

/-- No APDU that was aborted or disconnected is completed while one with its sequence
number is in flight and no half of an abort is pending. -/
def InTime (reader : Reader) : Event → Prop
  | .complete command response =>
      reader.fate command ≠ some .running → response.length ≤ maxShortResponseBytes →
        ¬Takes reader.controller ((reader.sequenceOf command).getD 0)
  | .fail command _ => reader.fate command ≠ some .running → ¬Takes reader.controller ((reader.sequenceOf command).getD 0)
  | _ => True

/-- The readers of the runs whose steps all meet a condition. -/
inductive Reached (P : Reader → Event → Prop) : Reader → Prop where
  | new : Reached P .new
  | step {reader : Reader} {event : Event} (hReached : Reached P reader) (hAllows : reader.Allows event) (hStep : P reader event) :
      Reached P (reader.step event)

def answered (reader : Reader) : List Nat := reader.answers.map Answer.command

/-- What the slot says of the APDU in flight. -/
def Flight (reader : Reader) : Prop :=
  match reader.controller.slot.inFlight with
  | none => ∀ command, reader.fate command ≠ some .running
  | some sequence => ∃ command, reader.fate command = some .running ∧ reader.sequenceOf command = some sequence ∧
      ∀ other, reader.fate other = some .running → other = command

/-- The invariant of the runs. -/
structure Inv (reader : Reader) : Prop where
  known : ∀ command, reader.fate command ≠ none → command < reader.messages.length
  flight : reader.Flight
  idle : reader.controller.slot.inFlight = none →
    reader.controller.slot.controlAbort = none ∧ reader.controller.slot.bulkAbort = none
  control : ∀ sequence, reader.controller.slot.controlAbort = some sequence → sequence ∈ reader.controlHalves
  bulk : ∀ sequence, reader.controller.slot.bulkAbort = some sequence →
    sequence ∈ reader.bulkHalves ∧ ∃ command, command ∈ reader.waiting
  waiting : ∀ command ∈ reader.waiting, command < reader.messages.length ∧ command ∉ reader.answered ∧
    reader.fate command = none ∧ ∃ sequence, reader.controller.slot.bulkAbort = some sequence ∧ reader.sequenceOf command = some sequence
  unanswered : ∀ command, reader.fate command = some .running → command ∉ reader.answered
  own : ∀ answer ∈ reader.answers, answer.command < reader.messages.length ∧
    ∃ sequence, reader.sequenceOf answer.command = some sequence ∧ answer.bytes[6]? = some sequence
  once : reader.answered.Nodup

variable {reader : Reader} {command : Nat} {sequence : Byte} {bytes : List Byte} {fate : Fate}

theorem Inv.new : Inv Reader.new where
  known _ h := absurd rfl h
  flight _ h := nomatch h
  idle _ := ⟨rfl, rfl⟩
  control _ h := nomatch h
  bulk _ h := nomatch h
  waiting _ h := nomatch h
  unanswered _ h := nomatch h
  own _ h := nomatch h
  once := List.nodup_nil

theorem sequenceOf_append {message : List Byte} (h : command < reader.messages.length) :
    (reader.messages ++ [message])[command]?.bind (·[6]?) = reader.sequenceOf command := by
  rw [sequenceOf, List.getElem?_append_left h]

/-- A message arrives. -/
theorem Inv.receive (h : Inv reader) (message : List Byte) (halves : List Byte) :
    Inv { reader with messages := reader.messages ++ [message], bulkHalves := halves ++ reader.bulkHalves } where
  known command hFate := by
    rw [List.length_append]
    exact Nat.lt_add_right _ (h.known command hFate)
  flight := by
    have hFlight := h.flight
    rw [Flight] at hFlight ⊢
    split
    · rename_i hNone
      rw [hNone] at hFlight
      exact hFlight
    · rename_i sequence hSome
      rw [hSome] at hFlight
      obtain ⟨command, hRunning, hSequence, hSingle⟩ := hFlight
      refine ⟨command, hRunning, ?_, hSingle⟩
      exact (sequenceOf_append (h.known command (by rw [hRunning]; exact nofun))).trans hSequence
  idle := h.idle
  control := h.control
  bulk sequence hBulk := ⟨List.mem_append_right _ (h.bulk sequence hBulk).1, (h.bulk sequence hBulk).2⟩
  waiting command hWaiting := by
    obtain ⟨hKnown, hAnswered, hFate, sequence, hBulk, hSequence⟩ := h.waiting command hWaiting
    refine ⟨?_, hAnswered, hFate, sequence, hBulk, (sequenceOf_append hKnown).trans hSequence⟩
    rw [List.length_append]
    exact Nat.lt_add_right _ hKnown
  unanswered := h.unanswered
  own answer hAnswer := by
    obtain ⟨hKnown, sequence, hSequence, hBytes⟩ := h.own answer hAnswer
    refine ⟨?_, sequence, (sequenceOf_append hKnown).trans hSequence, hBytes⟩
    rw [List.length_append]
    exact Nat.lt_add_right _ hKnown
  once := h.once

theorem answered_append (answer : Answer) :
    Reader.answered { reader with answers := reader.answers ++ [answer] } = reader.answered ++ [answer.command] := by
  rw [answered, answered, List.map_append, List.map_singleton]

/-- A command that was not answered yet and that nothing else answers gets its response. -/
theorem Inv.answer (h : Inv reader) (hKnown : command < reader.messages.length) (hSequence : reader.sequenceOf command = some sequence)
    (hBytes : bytes[6]? = some sequence) (hNew : command ∉ reader.answered) (hRunning : reader.fate command ≠ some .running)
    (hWaiting : command ∉ reader.waiting) : Inv { reader with answers := reader.answers ++ [⟨command, bytes⟩] } where
  known := h.known
  flight := h.flight
  idle := h.idle
  control := h.control
  bulk := h.bulk
  waiting other hOther := by
    obtain ⟨hLength, hAnswered, hRest⟩ := h.waiting other hOther
    refine ⟨hLength, ?_, hRest⟩
    rw [answered_append, List.mem_append, List.mem_singleton, not_or]
    refine ⟨hAnswered, fun hSame => ?_⟩
    subst hSame
    exact hWaiting hOther
  unanswered other hOther := by
    rw [answered_append, List.mem_append, List.mem_singleton, not_or]
    refine ⟨h.unanswered other hOther, fun hSame => ?_⟩
    subst hSame
    exact hRunning hOther
  own answer hAnswer := by
    rw [List.mem_append, List.mem_singleton] at hAnswer
    cases hAnswer with
    | inl hOld => exact h.own answer hOld
    | inr hHere =>
        rw [hHere]
        exact ⟨hKnown, sequence, hSequence, hBytes⟩
  once := by
    rw [answered_append, ← List.concat_eq_append]
    exact List.Nodup.concat hNew h.once

theorem stop_fate (reader : Reader) (fate : Fate) (command : Nat) :
    (reader.stop fate).fate command = if reader.fate command = some .running then some fate else reader.fate command := rfl

/-- Nothing is under way once the APDU in flight ended. -/
theorem Inv.stop (h : Inv reader) (powered : Bool) (hFate : fate ≠ .running) :
    Inv ({ reader with controller := ⟨⟨powered, none, none, none⟩⟩ }.stop fate) where
  known command hStopped := by
    apply h.known command
    intro hNone
    rw [stop_fate, hNone] at hStopped
    exact hStopped rfl
  flight command := by
    rw [stop_fate]
    split
    · exact fun hRunning => hFate (Option.some.inj hRunning)
    · assumption
  idle _ := ⟨rfl, rfl⟩
  control _ hControl := nomatch hControl
  bulk _ hBulk := nomatch hBulk
  waiting _ hWaiting := nomatch hWaiting
  unanswered command hRunning := by
    rw [stop_fate] at hRunning
    split at hRunning
    · exact absurd (Option.some.inj hRunning) hFate
    · exact absurd hRunning ‹_›
  own := h.own
  once := h.once

theorem Inv.power (h : Inv reader) (powered : Bool) :
    Inv { reader with controller := ⟨{ reader.controller.slot with powered := powered }⟩ } :=
  ⟨h.known, h.flight, h.idle, h.control, h.bulk, h.waiting, h.unanswered, h.own, h.once⟩

/-- While nothing is in flight no half of an abort waits. -/
theorem Inv.waiting_nil (h : Inv reader) (hBulk : reader.controller.slot.bulkAbort = none) : reader.waiting = [] := by
  apply List.eq_nil_iff_forall_not_mem.2
  intro command hWaiting
  obtain ⟨-, -, -, sequence, hSome, -⟩ := h.waiting command hWaiting
  rw [hBulk] at hSome
  cases hSome

/-- The number of the next command stands nowhere yet. -/
theorem Inv.fresh (h : Inv reader) : reader.fate reader.messages.length = none ∧ reader.messages.length ∉ reader.answered ∧
    reader.messages.length ∉ reader.waiting := by
  refine ⟨?_, ?_, ?_⟩
  · by_contra hFate
    exact Nat.lt_irrefl _ (h.known _ hFate)
  · intro hAnswered
    obtain ⟨answer, hAnswer, hSame⟩ := List.mem_map.1 hAnswered
    have hKnown := (h.own answer hAnswer).1
    omega
  · intro hWaiting
    exact Nat.lt_irrefl _ (h.waiting _ hWaiting).1

theorem Inv.dispatch (h : Inv reader) (hKnown : command < reader.messages.length)
    (hNew : command ∉ reader.answered) (hSequence : reader.sequenceOf command = some sequence)
    (hControl : reader.controller.slot.controlAbort = none) (hIdle : reader.controller.slot.inFlight = none) :
    Inv { reader with
      controller := ⟨{ reader.controller.slot with inFlight := some sequence }⟩
      fate := Function.update reader.fate command (some .running)
      controlHalves := []
      bulkHalves := [] } where
  known other hOther := by
    by_cases hSame : other = command
    · rw [hSame]
      exact hKnown
    · dsimp only at hOther
      rw [Function.update_of_ne hSame] at hOther
      exact h.known other hOther
  flight := by
    refine ⟨command, Function.update_self .., hSequence, fun other hOther => ?_⟩
    by_contra hSame
    dsimp only at hOther
    rw [Function.update_of_ne hSame] at hOther
    have hFlight := h.flight
    rw [Flight, hIdle] at hFlight
    exact hFlight other hOther
  idle hNone := nomatch hNone
  control other hOther := by
    dsimp only at hOther
    rw [hControl] at hOther
    cases hOther
  bulk other hOther := by
    dsimp only at hOther
    rw [(h.idle hIdle).2] at hOther
    cases hOther
  waiting other hOther := by
    dsimp only at hOther
    rw [h.waiting_nil (h.idle hIdle).2] at hOther
    cases hOther
  unanswered other hOther := by
    by_cases hSame : other = command
    · rw [hSame]
      exact hNew
    · dsimp only at hOther
      rw [Function.update_of_ne hSame] at hOther
      exact h.unanswered other hOther
  own := h.own
  once := h.once

/-- The bulk half of an abort waits for the other half. -/
theorem Inv.half (h : Inv reader) (hKnown : command < reader.messages.length) (hFate : reader.fate command = none)
    (hNew : command ∉ reader.answered) (hSequence : reader.sequenceOf command = some sequence)
    (hHalf : sequence ∈ reader.bulkHalves)
    (hBulk : reader.controller.slot.bulkAbort = some sequence ∨
      reader.controller.slot.bulkAbort = none ∧ reader.controller.slot.inFlight ≠ none) :
    Inv { reader with
      controller := ⟨{ reader.controller.slot with bulkAbort := some sequence }⟩
      waiting := reader.waiting ++ [command] } where
  known := h.known
  flight := h.flight
  idle hIdle := by
    have hNone := h.idle hIdle
    cases hBulk with
    | inl hSome =>
        rw [hNone.2] at hSome
        cases hSome
    | inr hFirst => exact absurd hIdle hFirst.2
  control := h.control
  bulk other hOther := by
    injection hOther with hOther
    subst hOther
    exact ⟨hHalf, command, List.mem_append_right _ (List.mem_singleton_self command)⟩
  waiting other hOther := by
    rw [List.mem_append, List.mem_singleton] at hOther
    cases hOther with
    | inl hOld =>
        obtain ⟨hLength, hAnswered, hNone, old, hOldBulk, hOldSequence⟩ := h.waiting other hOld
        refine ⟨hLength, hAnswered, hNone, sequence, rfl, ?_⟩
        cases hBulk with
        | inl hSome =>
            rw [hSome] at hOldBulk
            injection hOldBulk with hSame
            rw [hSame]
            exact hOldSequence
        | inr hFirst =>
            rw [hFirst.1] at hOldBulk
            cases hOldBulk
    | inr hHere =>
        rw [hHere]
        exact ⟨hKnown, hNew, hFate, sequence, rfl, hSequence⟩
  unanswered := h.unanswered
  own := h.own
  once := h.once

/-- The APDU in flight is completed. -/
theorem Inv.complete (h : Inv reader) (hRunning : reader.fate command = some .running)
    (hTakes : Takes reader.controller ((reader.sequenceOf command).getD 0))
    (hBytes : bytes[6]? = some ((reader.sequenceOf command).getD 0)) :
    Inv { reader with
      controller := ⟨{ reader.controller.slot with inFlight := none }⟩
      fate := Function.update reader.fate command (some .answered)
      answers := reader.answers ++ [⟨command, bytes⟩] } := by
  have hKnown := h.known command (by rw [hRunning]; exact nofun)
  have hFlight := h.flight
  rw [Flight, hTakes.1] at hFlight
  obtain ⟨current, -, hSequence, hSingle⟩ := hFlight
  have hCurrent := hSingle command hRunning
  subst hCurrent
  have hIdle : Inv { reader with
      controller := ⟨{ reader.controller.slot with inFlight := none }⟩
      fate := Function.update reader.fate command (some .answered) } := {
    known := fun other hOther => by
      by_cases hSame : other = command
      · rw [hSame]
        exact hKnown
      · dsimp only at hOther
        rw [Function.update_of_ne hSame] at hOther
        exact h.known other hOther
    flight := fun other hOther => by
      by_cases hSame : other = command
      · rw [hSame] at hOther
        dsimp only at hOther
        rw [Function.update_self] at hOther
        cases hOther
      · dsimp only at hOther
        rw [Function.update_of_ne hSame] at hOther
        exact hSame (hSingle other hOther)
    idle := fun _ => hTakes.2
    control := h.control
    bulk := h.bulk
    waiting := fun other hOther => by
      dsimp only at hOther
      rw [h.waiting_nil hTakes.2.2] at hOther
      cases hOther
    unanswered := fun other hOther => by
      by_cases hSame : other = command
      · rw [hSame] at hOther
        dsimp only at hOther
        rw [Function.update_self] at hOther
        cases hOther
      · dsimp only at hOther
        rw [Function.update_of_ne hSame] at hOther
        exact h.unanswered other hOther
    own := h.own
    once := h.once }
  refine hIdle.answer hKnown hSequence ?_ (h.unanswered command hRunning) ?_ ?_
  · rw [hBytes, hSequence]
  · dsimp only
    rw [Function.update_self]
    exact nofun
  · dsimp only
    rw [h.waiting_nil hTakes.2.2]
    exact nofun

theorem abortOf_eq {message : List Byte} : abortOf message = some sequence ↔ decode message = .ok (.abort sequence) := by
  rw [abortOf]
  split
  · rename_i other hDecode
    rw [hDecode]
    simp
  · rename_i hNone
    exact ⟨nofun, fun hDecode => absurd hDecode (hNone sequence)⟩

theorem Inv.step_bulk (h : Inv reader) (message : List Byte) : Inv (reader.step (.bulk message)) := by
  have hReceived := h.receive message (abortOf message).toList
  obtain ⟨hFate, hNew, hWaiting⟩ := h.fresh
  have hKnown : reader.messages.length < (reader.messages ++ [message]).length := by
    rw [List.length_append, List.length_singleton]
    exact Nat.lt_succ_self _
  have hSequence : (reader.messages ++ [message])[reader.messages.length]?.bind (·[6]?) = message[6]? := by
    rw [List.getElem?_concat_length]
    rfl
  have hHandled := handleBulk_handled reader.controller message
  rw [step, advance]
  dsimp only
  generalize reader.controller.handleBulk message = handled at hHandled
  obtain ⟨result, controller⟩ := handled
  cases hHandled with
  | refused error =>
      dsimp only [Option.toList_none]
      rw [List.append_nil]
      exact hReceived
  | @answered bytes sequence powered hMessage hBytes hAbort =>
      have hOther : ¬((abortOf message).isSome = true ∧ succeeded bytes) := by
        intro hBoth
        obtain ⟨other, hSome⟩ := Option.isSome_iff_exists.1 hBoth.1
        exact hAbort other (abortOf_eq.1 hSome) hBoth.2
      dsimp only
      rw [if_neg hOther]
      exact (hReceived.power powered).answer hKnown (hSequence.trans hMessage) hBytes hNew (by rw [hFate]; exact nofun) hWaiting
  | @dispatched sequence apdu hMessage hDecode hControl hIdle =>
      dsimp only [Option.toList_none]
      rw [List.append_nil]
      exact hReceived.dispatch hKnown hNew (hSequence.trans hMessage) hControl hIdle
  | @half sequence hMessage hDecode hControl hBulk =>
      dsimp only [Option.toList_none]
      rw [List.append_nil]
      have hHalf : sequence ∈ (abortOf message).toList ++ reader.bulkHalves := by
        rw [abortOf_eq.2 hDecode]
        exact List.mem_cons_self
      exact hReceived.half hKnown hFate hNew (hSequence.trans hMessage) hHalf hBulk
  | @finished bytes sequence hMessage hDecode hControl hBytes hSuccess =>
      dsimp only
      rw [if_pos ⟨by rw [abortOf_eq.2 hDecode]; rfl, hSuccess⟩]
      refine (hReceived.stop reader.controller.slot.powered (nofun : Fate.aborted ≠ .running)).answer hKnown
        (hSequence.trans hMessage) hBytes hNew ?_ nofun
      rw [stop_fate]
      dsimp only
      rw [hFate]
      exact nofun

/-- The control half of an abort arrives. -/
theorem Inv.hear (h : Inv reader) (halves : List Byte) (hHalves : ∀ other ∈ reader.controlHalves, other ∈ halves) :
    Inv { reader with controlHalves := halves } :=
  ⟨h.known, h.flight, h.idle, fun other hOther => hHalves other (h.control other hOther), h.bulk, h.waiting, h.unanswered, h.own, h.once⟩

/-- The bulk half that waits is found. -/
theorem Inv.find_waiting (h : Inv reader) (hBulk : reader.controller.slot.bulkAbort = some sequence) :
    ∃ command, reader.waiting.find? (fun command => reader.sequenceOf command = some sequence) = some command ∧
      command ∈ reader.waiting ∧ reader.sequenceOf command = some sequence := by
  obtain ⟨-, first, hFirst⟩ := h.bulk sequence hBulk
  obtain ⟨-, -, -, other, hOther, hSequence⟩ := h.waiting first hFirst
  rw [hBulk] at hOther
  injection hOther with hSame
  subst hSame
  cases hFind : reader.waiting.find? fun command => reader.sequenceOf command = some sequence with
  | none => exact absurd (decide_eq_true hSequence) (List.find?_eq_none.1 hFind first hFirst)
  | some command =>
      have hFound := List.find?_some hFind
      exact ⟨command, rfl, List.mem_of_find?_eq_some hFind, of_decide_eq_true hFound⟩

theorem Inv.step_controlAbort (h : Inv reader) (index sequence : Byte) : Inv (reader.step (.controlAbort index sequence)) := by
  have hHeard := h.hear (if index = maxSlotIndex then sequence :: reader.controlHalves else reader.controlHalves)
    (fun other hOther => by
      split
      · exact List.mem_cons_of_mem _ hOther
      · exact hOther)
  have hAborting := controlAbort_aborting reader.controller index sequence
  rw [step, advance]
  dsimp only
  generalize reader.controller.controlAbort index sequence = handled at hAborting
  obtain ⟨result, controller⟩ := handled
  cases hAborting with
  | refused error =>
      dsimp only [Option.toList_none]
      rw [List.append_nil]
      exact hHeard
  | half hIndex hFlight =>
      dsimp only [Option.toList_none]
      rw [List.append_nil]
      refine ⟨hHeard.known, hHeard.flight, fun hIdle => absurd hIdle hFlight, fun other hOther => ?_, hHeard.bulk, hHeard.waiting,
        hHeard.unanswered, hHeard.own, hHeard.once⟩
      injection hOther with hOther
      subst hOther
      rw [if_pos hIndex]
      exact List.mem_cons_self
  | @finished bytes hBulk hBytes =>
      obtain ⟨command, hFind, hWaiting, hSequence⟩ := h.find_waiting hBulk
      obtain ⟨hKnown, hNew, hFate, -⟩ := h.waiting command hWaiting
      dsimp only
      rw [hFind, Option.getD_some]
      refine (hHeard.stop reader.controller.slot.powered (nofun : Fate.aborted ≠ .running)).answer hKnown hSequence hBytes hNew
        ?_ nofun
      rw [stop_fate]
      dsimp only
      rw [hFate]
      exact nofun

theorem Inv.step_disconnect (h : Inv reader) : Inv (reader.step .disconnect) := by
  rw [step, advance]
  dsimp only [Option.toList_none]
  rw [List.append_nil]
  exact h.stop false nofun

/-- A completion that comes too late is refused, and any other one ends the APDU in flight. -/
theorem Inv.finish (h : Inv reader) {result : Except Error (List Byte) × Controller}
    (hFinished : Finished reader.controller ((reader.sequenceOf command).getD 0) result.1 result.2)
    (hLate : reader.fate command ≠ some .running → ∃ error, result.1 = .error error) :
    Inv { (reader.finish command result).2 with
      answers := (reader.finish command result).2.answers ++ (reader.finish command result).1.toList } := by
  obtain ⟨written, controller⟩ := result
  rw [Reader.finish]
  cases hFinished with
  | refused error =>
      dsimp only [Option.toList_none]
      rw [List.append_nil]
      exact h
  | answered hTakes hBytes =>
      have hRunning : reader.fate command = some .running := by
        by_contra hOther
        obtain ⟨error, hError⟩ := hLate hOther
        cases hError
      exact h.complete hRunning hTakes hBytes

theorem Inv.step (h : Inv reader) {event : Event} (hInTime : reader.InTime event) : Inv (reader.step event) := by
  cases event with
  | bulk message => exact h.step_bulk message
  | controlAbort index sequence => exact h.step_controlAbort index sequence
  | disconnect => exact h.step_disconnect
  | complete command response =>
      exact h.finish (complete_finished ..) fun hOther => (complete_refused_iff ..).2 (hInTime hOther)
  | fail command error =>
      exact h.finish (fail_finished ..) fun hOther => (fail_refused_iff ..).2 (hInTime hOther)

theorem Reached.inv (h : Reached InTime reader) : Inv reader := by
  induction h with
  | new => exact Inv.new
  | step _ _ hStep ih => exact ih.step hStep

/-- Only the bulk half behind a control half of its sequence is answered with success. -/
theorem Inv.bulk_pair (h : Inv reader) {message : List Byte} {answer : Answer} (hAbort : decode message = .ok (.abort sequence))
    (hAnswer : (reader.advance (.bulk message)).1 = some answer) (hSuccess : succeeded answer.bytes) :
    sequence ∈ reader.controlHalves := by
  have hHandled := handleBulk_handled reader.controller message
  rw [advance] at hAnswer
  dsimp only at hAnswer
  generalize reader.controller.handleBulk message = handled at hHandled hAnswer
  obtain ⟨result, controller⟩ := handled
  cases hHandled with
  | refused error => cases hAnswer
  | answered powered hMessage hBytes hOther =>
      injection hAnswer with hAnswer
      subst hAnswer
      exact absurd hSuccess (hOther sequence hAbort)
  | dispatched => cases hAnswer
  | half => cases hAnswer
  | finished hMessage hDecode hControl =>
      rw [hAbort] at hDecode
      injection hDecode with hDecode
      injection hDecode with hSame
      rw [hSame]
      exact h.control _ hControl

theorem Inv.control_pair (h : Inv reader) {index : Byte} {answer : Answer}
    (hAnswer : (reader.advance (.controlAbort index sequence)).1 = some answer) : sequence ∈ reader.bulkHalves := by
  have hAborting := controlAbort_aborting reader.controller index sequence
  rw [advance] at hAnswer
  dsimp only at hAnswer
  generalize reader.controller.controlAbort index sequence = handled at hAborting hAnswer
  obtain ⟨result, controller⟩ := handled
  cases hAborting with
  | refused error => cases hAnswer
  | half => cases hAnswer
  | finished hBulk => exact (h.bulk sequence hBulk).1

theorem finish_none (reader : Reader) (command : Nat) (result : Except Error (List Byte) × Controller) :
    (reader.finish command result).1 = none ↔ ∃ error, result.1 = .error error := by
  rw [finish]
  cases result.1 with
  | error error => exact iff_of_true rfl ⟨error, rfl⟩
  | ok bytes => exact iff_of_false nofun nofun

/-- A late completion yields no response exactly when it comes in time for the slot to
tell it apart. -/
theorem late_silent (reader : Reader) {event : Event} (hLate : reader.Late event) :
    (reader.advance event).1 = none ↔ reader.InTime event := by
  have hOther {command : Nat} (h : reader.fate command = some .aborted ∨ reader.fate command = some .disconnected) :
      reader.fate command ≠ some .running := by
    intro hRunning
    rw [hRunning] at h
    cases h with
    | inl h => cases h
    | inr h => cases h
  cases event with
  | complete command response =>
      refine (finish_none ..).trans ((complete_refused_iff ..).trans ?_)
      exact ⟨fun h _ => h, fun h => h (hOther hLate)⟩
  | fail command error =>
      refine (finish_none ..).trans ((fail_refused_iff ..).trans ?_)
      exact ⟨fun h _ => h, fun h => h (hOther hLate)⟩
  | _ => cases hLate

/-- As long as no late completion meets an APDU of its own sequence number in flight, at
most one APDU is in flight, no command gets two responses, every response carries the
sequence number of its command and an abort succeeds with its second half only. Then a
completion that comes too late yields no response, and otherwise it does. -/
theorem responses_belong {reader : Reader} (hReached : Reached InTime reader) :
    (∀ first second, reader.fate first = some .running → reader.fate second = some .running → first = second) ∧
    reader.answered.Nodup ∧
    (∀ answer ∈ reader.answers, ∃ sequence, reader.sequenceOf answer.command = some sequence ∧
      answer.bytes[6]? = some sequence) ∧
    (∀ message sequence answer, decode message = .ok (.abort sequence) →
      (reader.advance (.bulk message)).1 = some answer → succeeded answer.bytes → sequence ∈ reader.controlHalves) ∧
    (∀ index sequence answer, (reader.advance (.controlAbort index sequence)).1 = some answer →
      sequence ∈ reader.bulkHalves) ∧
    ∀ event, reader.Late event → ((reader.advance event).1 = none ↔ reader.InTime event) := by
  have hInv := hReached.inv
  refine ⟨?_, hInv.once, fun answer hAnswer => (hInv.own answer hAnswer).2, fun _ _ _ => hInv.bulk_pair,
    fun _ _ _ => hInv.control_pair, fun _ => reader.late_silent⟩
  intro first second hFirst hSecond
  have hFlight := hInv.flight
  rw [Flight] at hFlight
  split at hFlight
  · exact absurd hFirst (hFlight first)
  · obtain ⟨current, -, -, hSingle⟩ := hFlight
    rw [hSingle first hFirst, hSingle second hSecond]

/-- The card is powered, an APDU of sequence 2 is dispatched and then aborted by the pair of
sequence 9. -/
def abortedReader : Reader :=
  (((new.step (.bulk [0x62, 0, 0, 0, 0, 0, 1, 0, 0, 0])).step (.bulk [0x6f, 0, 0, 0, 0, 0, 2, 0, 0, 0])).step
    (.bulk [0x72, 0, 0, 0, 0, 0, 9, 0, 0, 0])).step (.controlAbort 0 9)

theorem abortedReader_reached (P : Reader → Event → Prop) (hOpen : ∀ reader message, P reader (.bulk message))
    (hAbort : ∀ reader index sequence, P reader (.controlAbort index sequence)) : Reached P abortedReader :=
  .step (.step (.step (.step .new trivial (hOpen ..)) trivial (hOpen ..)) trivial (hOpen ..)) trivial (hAbort ..)

/-- Its completion yields no response. -/
theorem responses_belong_aborted : (abortedReader.advance (.complete 1 [0x90, 0x00])).1 = none :=
  ((responses_belong (abortedReader_reached InTime (fun _ _ => trivial) fun _ _ _ => trivial)).2.2.2.2.2
    (.complete 1 [0x90, 0x00]) (Or.inl rfl)).2 fun _ _ hTakes => nomatch hTakes.1

/-- Once the host has used sequence 2 again, the late completion answers the new command. -/
theorem late_completion_answers :
    ¬∀ reader, Reached (fun _ _ => True) reader → ∀ event, reader.Allows event → reader.Late event →
      (reader.advance event).1 = none := by
  intro hAll
  have hReached := abortedReader_reached (fun _ _ => True) (fun _ _ => trivial) fun _ _ _ => trivial
  have hReused := @Reached.step (fun _ _ => True) _ (.bulk [0x6f, 0, 0, 0, 0, 0, 2, 0, 0, 0]) hReached trivial trivial
  have hSilent := hAll _ hReused (.complete 1 [0x90, 0x00]) ⟨.aborted, rfl, nofun⟩ (Or.inl rfl)
  cases hSilent

end Reader

end MicroCard.Ccid
