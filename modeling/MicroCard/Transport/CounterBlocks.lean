import MicroCard.Transport.Protocol

/-! Counter discipline of a secure channel. Within one session no counter block is
encrypted twice, although commands and responses share the counter, and after a
failure nothing of that session is accepted. -/
namespace MicroCard.Transport

open Bytes Cbor CrashTriple

variable {κ α : Type}

namespace Event

def starts : Event κ → Bool
  | initiated => true
  | _ => false

def block? : Event κ → Option (Fixed 16)
  | block b => some b
  | _ => none

/-- The session accepted a message. -/
def accepts : Event κ → Bool
  | authenticated _ => true
  | verified _ _ _ => true
  | _ => false

/-- Nothing of the session happened. -/
def Neutral (event : Event κ) : Prop :=
  event.starts = false ∧ event.block? = none ∧ event.accepts = false ∧ event ≠ failed

end Event

/-- What was recorded since the last session started. -/
def segment (trace : List (Event κ)) : List (Event κ) := (trace.reverse.takeWhile fun event => !event.starts).reverse

/-- The counter blocks of a part of a run. -/
def blocks (trace : List (Event κ)) : List (Fixed 16) := trace.filterMap Event.block?

/-- What a session may do: no block twice, and nothing accepted after a failure. -/
structure Disciplined (during : List (Event κ)) : Prop where
  distinct : (blocks during).Nodup
  final : ∀ before after, during = before ++ .failed :: after → ∀ event ∈ after, event.accepts = false

/-- All sessions of a run were disciplined, at each point of the run. -/
def Sound (trace : List (Event κ)) : Prop := ∀ front, front <+: trace → Disciplined (segment front)

section Segments

variable {trace during : List (Event κ)} {event : Event κ}

theorem segment_append (h : event.starts = false) : segment (trace ++ [event]) = segment trace ++ [event] := by
  simp [segment, h]

theorem segment_initiated : segment (trace ++ [.initiated]) = [] := by
  simp [segment, Event.starts]

/-- A part of a run in which no session starts belongs to one session. -/
theorem suffix_segment {before : List (Event κ)} (h : ∀ event ∈ during, event.starts = false) :
    during <:+ segment (before ++ during) := by
  have hAll : ∀ event ∈ during.reverse, (!event.starts) = true := by
    intro event hEvent
    rw [h event (List.mem_reverse.1 hEvent)]
    rfl
  refine ⟨segment before, ?_⟩
  simp only [segment, List.reverse_append]
  rw [List.takeWhile_append_of_pos hAll, List.reverse_append, List.reverse_reverse]

theorem blocks_append : blocks (during ++ [event]) = blocks during ++ event.block?.toList := by
  simp only [blocks, List.filterMap_append]
  cases h : event.block? with
  | none => simp [h]
  | some b => simp [h]

theorem Disciplined.nil : Disciplined ([] : List (Event κ)) := by
  constructor
  · exact List.nodup_nil
  · intro before after h
    cases before with
    | nil => cases h
    | cons first rest => cases h

theorem Disciplined.suffix {whole : List (Event κ)} (h : Disciplined whole) (hSuffix : during <:+ whole) :
    Disciplined during := by
  obtain ⟨front, rfl⟩ := hSuffix
  constructor
  · have hDistinct := h.distinct
    rw [blocks, List.filterMap_append] at hDistinct
    exact (List.nodup_append.1 hDistinct).2.1
  · intro before after hSplit
    exact h.final (front ++ before) after (by rw [hSplit, List.append_assoc])

/-- One more event: a block that is new, or an acceptance with no failure before it. -/
theorem Disciplined.append (h : Disciplined during) (hBlock : ∀ b, event.block? = some b → b ∉ blocks during)
    (hAccepts : event.accepts = true → .failed ∉ during) : Disciplined (during ++ [event]) := by
  constructor
  · rw [blocks_append]
    cases hEvent : event.block? with
    | none => simpa using h.distinct
    | some b =>
        simp only [Option.toList_some]
        exact List.nodup_append.2 ⟨h.distinct, by simp, fun x hx y hy hEq =>
          hBlock b hEvent (List.mem_singleton.1 hy ▸ hEq ▸ hx)⟩
  · intro before after hSplit
    rcases List.eq_nil_or_concat after with rfl | ⟨front, last, rfl⟩
    · exact fun event hEvent => nomatch hEvent
    · rw [List.concat_eq_append, ← List.cons_append, ← List.append_assoc] at hSplit
      obtain ⟨hDuring, hLast⟩ := List.append_inj' hSplit rfl
      injection hLast with hLast
      subst hLast
      intro e hMem
      rw [List.concat_eq_append, List.mem_append, List.mem_singleton] at hMem
      rcases hMem with hFront | rfl
      · exact h.final before front hDuring e hFront
      · cases hAccept : e.accepts with
        | false => rfl
        | true =>
            have hFailed : Event.failed ∈ during := by
              rw [hDuring]
              simp
            exact absurd hFailed (hAccepts hAccept)

theorem Sound.segment (h : Sound trace) : Disciplined (segment trace) := h trace (List.prefix_refl trace)

theorem Sound.append (h : Sound trace) (hEvent : Disciplined (Transport.segment (trace ++ [event]))) :
    Sound (trace ++ [event]) := by
  intro front hFront
  rcases List.prefix_concat_iff.1 hFront with rfl | hFront
  · exact hEvent
  · exact h front hFront

/-- An event that neither uses a block nor accepts a message. -/
theorem Sound.quiet (h : Sound trace) (hStarts : event.starts = false) (hBlock : event.block? = none)
    (hAccepts : event.accepts = false) : Sound (trace ++ [event]) := by
  apply h.append
  rw [segment_append hStarts]
  apply h.segment.append
  · intro b hb
    rw [hBlock] at hb
    cases hb
  · intro hAccept
    rw [hAccepts] at hAccept
    cases hAccept

end Segments

section Blocks

theorem toBE_injective {m n : Nat} (hm : m < 2 ^ 32) (hn : n < 2 ^ 32) (h : toBE 4 m = toBE 4 n) : m = n := by
  have hEq := congrArg fromBE h
  rwa [fromBE_toBE (by simpa using hm), fromBE_toBE (by simpa using hn)] at hEq

theorem commandBlock_injective {m n : Nat} (hm : m < 2 ^ 32) (hn : n < 2 ^ 32) (h : commandBlock m = commandBlock n) :
    m = n := by
  have hBytes : List.replicate 12 0 ++ toBE 4 m = List.replicate 12 0 ++ toBE 4 n := congrArg Subtype.val h
  exact toBE_injective hm hn (List.append_cancel_left hBytes)

theorem responseBlock_injective {m n : Nat} (hm : m < 2 ^ 32) (hn : n < 2 ^ 32)
    (h : responseBlock m = responseBlock n) : m = n := by
  have hBytes : 0x80 :: List.replicate 11 0 ++ toBE 4 m = 0x80 :: List.replicate 11 0 ++ toBE 4 n :=
    congrArg Subtype.val h
  exact toBE_injective hm hn (List.append_cancel_left hBytes)

/-- The most significant bit separates the two directions. -/
theorem commandBlock_ne_responseBlock (m n : Nat) : commandBlock m ≠ responseBlock n := by
  intro h
  have hHead : (commandBlock m).1.head? = (responseBlock n).1.head? := by rw [h]
  simp [commandBlock, responseBlock, List.replicate_succ] at hHead

end Blocks

section Counters

variable {counter : Nat} {trace : List (Event κ)} {event : Event κ}

/-- The session is intact and its blocks carry counters it has passed. -/
structure Clear (counter : Nat) (trace : List (Event κ)) : Prop where
  sound : Sound trace
  intact : .failed ∉ segment trace
  counted : ∀ b ∈ blocks (segment trace), ∃ n ≤ counter, b = commandBlock n ∨ b = responseBlock n
  bounded : counter < 2 ^ 32

/-- The command with this counter was not answered yet. -/
structure Unanswered (counter : Nat) (trace : List (Event κ)) : Prop extends Clear counter trace where
  unused : responseBlock counter ∉ blocks (segment trace)

/-- The command with this counter was not even decrypted. -/
structure Unopened (counter : Nat) (trace : List (Event κ)) : Prop extends Unanswered counter trace where
  unread : commandBlock counter ∉ blocks (segment trace)

/-- A new counter value comes with two unused blocks. -/
theorem Clear.advance (h : Clear counter trace) (hNext : counter + 1 < 2 ^ 32) : Unopened (counter + 1) trace := by
  have hOld : ∀ b ∈ blocks (segment trace), b ≠ commandBlock (counter + 1) ∧ b ≠ responseBlock (counter + 1) := by
    intro b hb
    obtain ⟨n, hn, rfl | rfl⟩ := h.counted b hb
    · exact ⟨fun hEq => absurd (commandBlock_injective (by omega) hNext hEq) (by omega),
        commandBlock_ne_responseBlock _ _⟩
    · exact ⟨fun hEq => commandBlock_ne_responseBlock _ _ hEq.symm,
        fun hEq => absurd (responseBlock_injective (by omega) hNext hEq) (by omega)⟩
  have hClear : Clear (counter + 1) trace :=
    ⟨h.sound, h.intact, fun b hb => (h.counted b hb).imp fun n hn => ⟨Nat.le_succ_of_le hn.1, hn.2⟩, hNext⟩
  exact ⟨⟨hClear, fun hb => (hOld _ hb).2 rfl⟩, fun hb => (hOld _ hb).1 rfl⟩

theorem Clear.neutral (h : Clear counter trace) (hEvent : event.Neutral) : Clear counter (trace ++ [event]) := by
  obtain ⟨hStarts, hBlock, hAccepts, hFailed⟩ := hEvent
  constructor
  · exact h.sound.quiet hStarts hBlock hAccepts
  · rw [segment_append hStarts, List.mem_append, List.mem_singleton]
    rintro (hIn | rfl)
    · exact h.intact hIn
    · exact hFailed rfl
  · rw [segment_append hStarts, blocks_append, hBlock, Option.toList_none, List.append_nil]
    exact h.counted
  · exact h.bounded

theorem Unanswered.neutral (h : Unanswered counter trace) (hEvent : event.Neutral) :
    Unanswered counter (trace ++ [event]) := by
  refine ⟨h.toClear.neutral hEvent, ?_⟩
  rw [segment_append hEvent.1, blocks_append, hEvent.2.1, Option.toList_none, List.append_nil]
  exact h.unused

/-- An intact session accepts a message. -/
theorem Clear.accept (h : Clear counter trace) (hStarts : event.starts = false) (hBlock : event.block? = none)
    (hFailed : event ≠ .failed) : Clear counter (trace ++ [event]) := by
  constructor
  · apply h.sound.append
    rw [segment_append hStarts]
    apply h.sound.segment.append
    · intro b hb
      rw [hBlock] at hb
      cases hb
    · exact fun _ => h.intact
  · rw [segment_append hStarts, List.mem_append, List.mem_singleton]
    rintro (hIn | rfl)
    · exact h.intact hIn
    · exact hFailed rfl
  · rw [segment_append hStarts, blocks_append, hBlock, Option.toList_none, List.append_nil]
    exact h.counted
  · exact h.bounded

theorem Unanswered.verify (h : Unanswered counter trace) (session : Session) (wire : Command) (verified : Verified) :
    Unanswered counter (trace ++ [.verified session wire verified]) := by
  refine ⟨h.toClear.accept rfl rfl (by simp), ?_⟩
  rw [segment_append rfl, blocks_append]
  simpa [Event.block?] using h.unused

/-- Using a new block of the current counter. -/
theorem Clear.use (h : Clear counter trace) {b : Fixed 16} (hNew : b ∉ blocks (segment trace))
    (hCurrent : b = commandBlock counter ∨ b = responseBlock counter) : Clear counter (trace ++ [.block b]) := by
  constructor
  · apply h.sound.append
    rw [segment_append rfl]
    apply h.sound.segment.append
    · intro b' hb'
      injection hb' with hb'
      rw [← hb']
      exact hNew
    · intro hAccept
      cases hAccept
  · rw [segment_append rfl, List.mem_append, List.mem_singleton]
    rintro (hIn | hEq)
    · exact h.intact hIn
    · cases hEq
  · rw [segment_append rfl, blocks_append]
    intro b' hb'
    rcases List.mem_append.1 hb' with hOld | hThis
    · exact h.counted b' hOld
    · rw [List.mem_singleton.1 (show b' ∈ [b] from hThis)]
      exact ⟨counter, Nat.le_refl _, hCurrent⟩
  · exact h.bounded

theorem Unopened.decrypt (h : Unopened counter trace) : Unanswered counter (trace ++ [.block (commandBlock counter)]) := by
  refine ⟨h.toClear.use h.unread (.inl rfl), ?_⟩
  rw [segment_append rfl, blocks_append]
  intro hMem
  rcases List.mem_append.1 hMem with hOld | hThis
  · exact h.unused hOld
  · exact commandBlock_ne_responseBlock _ _ (List.mem_singleton.1 (show _ ∈ [commandBlock counter] from hThis)).symm

theorem Unanswered.encrypt (h : Unanswered counter trace) : Clear counter (trace ++ [.block (responseBlock counter)]) :=
  h.toClear.use h.unused (.inr rfl)

end Counters

section Calls

variable {R R' : Nat → List (Event κ) → Prop} (scp03 : Scp03) (provider : Provider κ)

/-- A condition on the counter of a session and the trace. -/
def At (R : Nat → List (Event κ) → Prop) (channel : Channel κ) : Prop := R channel.session.counter channel.trace

theorem onCard_frame (action : EStateM Error κ α) : Invariant (At R) (onCard action) := by
  intro channel h
  unfold onCard
  cases action channel.card with
  | ok a card => exact h
  | error e card => exact h

theorem allocate_frame (length : Nat) : Invariant (At R) (allocate provider length) :=
  Invariant.get fun _ => Invariant.readOnly _

theorem checkMac_frame (command : Command) : Invariant (At R) (checkMac scp03 provider command) := by
  apply Invariant.bind (Invariant.failIf _ _)
  intro _
  apply Invariant.get
  intro channel
  apply Invariant.bind (onCard_frame _)
  intro mac
  apply Invariant.bind (Invariant.failIf _ _)
  intro _
  exact fun _ h => h

theorem responseMac_frame (body : List Byte) (sw : Nat) : Invariant (At R) (responseMac scp03 provider body sw) := by
  apply Invariant.get
  intro channel
  split
  · apply Invariant.bind (onCard_frame _)
    intro mac
    exact Invariant.ret _
  · exact Invariant.ret _

/-- Calls end in a trace that is sound, whatever becomes of the session. -/
def Ends : Error → Channel κ → Prop := fun _ channel => Sound channel.trace

/-- A failure is recorded; the trace stays sound. -/
theorem orZeroize_spec {P : Channel κ → Prop} {Q : α → Channel κ → Prop} {body : ChannelM κ α}
    (h : Triple P body Q Ends) : Triple P (orZeroize body) Q Ends := by
  intro channel hChannel
  have hRun := h channel hChannel
  unfold orZeroize
  cases hBody : body channel with
  | ok a after =>
      rw [hBody] at hRun
      exact hRun
  | error e after =>
      rw [hBody] at hRun
      exact Sound.quiet hRun rfl rfl rfl

theorem authenticate_clear (command : Command) :
    Triple (At Clear) (authenticate scp03 provider command) (fun _ => At Clear) Ends := by
  apply orZeroize_spec
  apply Triple.get
  intro before hBefore
  apply Triple.failIf_bind fun _ _ hEq => hEq ▸ hBefore.sound
  intro _
  apply Triple.bind (Q := fun _ => At Clear)
  · apply Triple.at _ hBefore
    exact (checkMac_frame scp03 provider command).conseq (fun _ h => h) (fun _ _ h => h) fun _ _ h => h.sound
  intro payload
  apply Triple.failIf_bind fun _ _ h => h.sound
  intro _
  apply Triple.failIf_bind fun _ _ h => h.sound
  intro _
  apply Triple.bind (Q := fun _ => At Clear)
  · exact Triple.update fun _ h => h
  intro _
  exact Triple.update fun _ h => h.accept rfl rfl (by simp)

theorem encryptBlock_spec (provider : Provider κ) (before : Nat → List (Event κ) → Prop) {after : Nat → List (Event κ) → Prop}
    {block : Fixed 16}
    (hUse : ∀ channel, At before channel → after channel.session.counter (channel.trace ++ [.block block]))
    (hSound : ∀ n t, after n t → Sound t) :
    Triple (At before) (encryptBlock provider block) (fun _ => At after) Ends := by
  apply Triple.bind (Q := fun _ => At after)
  · exact Triple.update fun channel h => hUse channel h
  intro _
  apply Triple.get
  intro channel hChannel
  exact (onCard_frame _).conseq (fun _ h => h ▸ hChannel) (fun _ _ h => h) fun _ _ h => hSound _ _ h

theorem decryptData_spec (data : List Byte) :
    Triple (At Unopened) (decryptData provider data) (fun _ => At Unanswered) Ends := by
  have hStep : ∀ {β : Type} {program : ChannelM κ β}, Invariant (At Unanswered) program →
      Triple (At Unanswered) program (fun _ => At Unanswered) Ends :=
    fun h => h.conseq (fun _ h => h) (fun _ _ h => h) fun _ _ h => h.sound
  apply Triple.get
  intro before hBefore
  have hBlock : Triple (fun s => s = before) (encryptBlock provider (commandBlock before.session.counter))
      (fun _ => At Unanswered) Ends := by
    have hStart : At (fun n t => n = before.session.counter ∧ Unopened n t) before := ⟨rfl, hBefore⟩
    apply Triple.at _ hStart
    apply encryptBlock_spec
    · intro channel h
      rw [← h.1]
      exact h.2.decrypt
    · exact fun _ _ h => h.sound
  apply Triple.bind hBlock
  intro iv
  apply Triple.bind (hStep (allocate_frame provider _))
  intro _
  apply Triple.bind (hStep (onCard_frame _))
  intro written
  apply Triple.failIf_bind fun _ _ h => h.sound
  intro _
  exact Triple.ret fun _ h => h

theorem openData_spec (data : List Byte) :
    Triple (At Unopened) (openData provider data) (fun _ => At Unanswered) Ends := by
  apply Triple.get
  intro before hBefore
  split
  · exact (decryptData_spec provider data).at hBefore
  · exact Triple.ret fun _ h => h ▸ hBefore.toUnanswered

/-- Unwrapping a command leaves its response block unused. -/
theorem unwrap_clear (command : Command) :
    Triple (At Clear) (unwrap scp03 provider command) (fun _ => At Unanswered) Ends := by
  apply orZeroize_spec
  apply Triple.get
  intro before hBefore
  apply Triple.failIf_bind fun _ _ hEq => hEq ▸ hBefore.sound
  intro _
  apply Triple.bind (Q := fun _ => At Clear)
  · apply Triple.at _ hBefore
    exact (checkMac_frame scp03 provider command).conseq (fun _ h => h) (fun _ _ h => h) fun _ _ h => h.sound
  intro payload
  apply Triple.get
  intro channel hChannel
  apply Triple.orFail_bind fun _ _ hEq => hEq ▸ hChannel.sound
  intro counter hCounter
  have hNext : channel.session.counter + 1 < 2 ^ 32 ∧ counter = channel.session.counter + 1 := by
    unfold checkedAdd32 at hCounter
    split at hCounter
    · rename_i hSmall
      exact ⟨hSmall, by simpa using hCounter.symm⟩
    · cases hCounter
  apply Triple.bind (Q := fun _ => At Unopened)
  · apply Triple.update
    intro channel' hEq
    subst hEq
    show Unopened counter channel'.trace
    rw [hNext.2]
    exact hChannel.advance hNext.1
  intro _
  apply Triple.bind (openData_spec provider _)
  intro data
  apply Triple.bind (Q := fun _ => At Unanswered)
  · exact Triple.update fun _ h => h.verify _ _ _
  intro _
  exact Triple.ret fun _ h => h

theorem encryptData_spec (data : List Byte) :
    Triple (At Unanswered) (encryptData provider data) (fun _ => At Clear) Ends := by
  apply Triple.get
  intro before hBefore
  have hBlock : Triple (fun s => s = before) (encryptBlock provider (responseBlock before.session.counter))
      (fun _ => At Clear) Ends := by
    have hStart : At (fun n t => n = before.session.counter ∧ Unanswered n t) before := ⟨rfl, hBefore⟩
    apply Triple.at _ hStart
    apply encryptBlock_spec
    · intro channel h
      rw [← h.1]
      exact h.2.encrypt
    · exact fun _ _ h => h.sound
  apply Triple.bind hBlock
  intro iv
  apply Triple.bind ((allocate_frame provider _).conseq (fun _ h => h) (fun _ _ h => h) fun _ _ h => h.sound)
  intro _
  apply Triple.bind ((onCard_frame _).conseq (fun _ h => h) (fun _ _ h => h) fun _ _ h => h.sound)
  intro written
  exact Triple.ret fun _ h => h

/-- A response uses the block of the command it answers, once. -/
theorem response_clear (data : List Byte) (sw : Nat) :
    Triple (At Unanswered) (response scp03 provider data sw) (fun _ => At Clear) Ends := by
  apply orZeroize_spec
  apply Triple.get
  intro before hBefore
  apply Triple.failIf_bind fun _ _ hEq => hEq ▸ hBefore.sound
  intro _
  have hBody : Triple (At Unanswered) (responseBody scp03 provider data sw) (fun _ => At Clear) Ends := by
    apply Triple.get
    intro channel hChannel
    apply Triple.failIf_bind fun _ _ hEq => hEq ▸ hChannel.sound
    intro _
    split
    · exact (encryptData_spec provider data).at hChannel
    · exact Triple.ret fun _ h => h ▸ hChannel.toClear
  apply Triple.bind (hBody.at hBefore)
  intro body
  apply Triple.bind ((allocate_frame provider _).conseq (fun _ h => h) (fun _ _ h => h) fun _ _ h => h.sound)
  intro _
  apply Triple.bind ((responseMac_frame scp03 provider body sw).conseq (fun _ h => h) (fun _ _ h => h) fun _ _ h => h.sound)
  intro mac
  exact Triple.ret fun _ h => h

end Calls

section Runs

variable (scp03 : Scp03) (engine : CardEngine κ)

/-- A stored session is intact; the rest of the trace is sound. -/
def CountersKept (session : Option Session) (trace : List (Event κ)) : Prop :=
  Sound trace ∧ ∀ s, session = some s → Clear s.counter trace

theorem CountersKept.neutral {session : Option Session} {trace : List (Event κ)} {event : Event κ}
    (h : CountersKept session trace) (hEvent : event.Neutral) : CountersKept session (trace ++ [event]) := by
  constructor
  · exact h.1.quiet hEvent.1 hEvent.2.1 hEvent.2.2.1
  · exact fun s hs => (h.2 s hs).neutral hEvent

theorem CountersKept.initiated {session : Option Session} {trace : List (Event κ)} (h : CountersKept session trace)
    {fresh : Session} (hCounter : fresh.counter = 0) : CountersKept (some fresh) (trace ++ [.initiated]) := by
  have hSound : Sound (trace ++ [.initiated]) := by
    apply h.1.append
    rw [segment_initiated]
    exact Disciplined.nil
  refine ⟨hSound, fun s hs => ?_⟩
  cases hs
  constructor
  · exact hSound
  · rw [segment_initiated]
    exact List.not_mem_nil
  · rw [segment_initiated]
    exact fun b hb => nomatch hb
  · rw [hCounter]
    exact Nat.two_pow_pos 32

/-- The counters depend on the session and the trace only, so every call of the
engine keeps them. -/
def counterProtocol : Protocol scp03 engine where
  Idle := fun _ s _ t => CountersKept s t
  Answering := fun _ _ s _ t => Sound t ∧ ∀ session, s = some session → Unanswered session.counter t
  Answered := fun _ _ s _ t => CountersKept s t
  Left := fun _ t => Sound t
  idle_left := fun h => h.1
  answering_left := fun h => h.1
  answered_idle := fun h => h
  idle_dropped := fun h => ⟨h.1, fun _ hs => nomatch hs⟩
  answering_dropped := fun h => ⟨h.1, fun _ hs => nomatch hs⟩
  left_reset := fun h => ⟨h, fun _ hs => nomatch hs⟩
  received := fun raw h => h.neutral ⟨rfl, rfl, rfl, by simp⟩
  initiated := fun fresh h hCounter _ => h.initiated hCounter
  authenticated := fun _ command => (authenticate_clear scp03 engine.provider command).conseq
    (fun channel h => h.2 channel.session rfl)
    (fun _ channel h => ⟨h.sound, fun s hs => by cases hs; exact h⟩) fun _ _ h => h
  unwrapped := fun _ command => (unwrap_clear scp03 engine.provider command).conseq
    (fun channel h => h.2 channel.session rfl)
    (fun _ channel h => ⟨h.sound, fun s hs => by cases hs; exact h⟩) fun _ _ h => h
  answered := fun _ _ data sw => (response_clear scp03 engine.provider data sw).conseq
    (fun channel h => h.2 channel.session rfl)
    (fun _ channel h => ⟨h.sound, fun s hs => by cases hs; exact h⟩) fun _ _ h => h
  managed := fun _ _ h => ⟨h.1.quiet rfl rfl rfl, fun s hs => (h.2 s hs).neutral ⟨rfl, rfl, rfl, by simp⟩⟩
  status := fun h _ => ⟨h.1.quiet rfl rfl rfl, fun s hs => (h.2 s hs).neutral ⟨rfl, rfl, rfl, by simp⟩⟩
  bootloader := fun h _ => h.neutral ⟨rfl, rfl, rfl, by simp⟩
  touches_idle := fun _ h => h
  abortStaging_idle := fun h => h
  abortStaging_answering := fun h => h
  taken_idle := fun h => h
  taken_answering := fun h => h
  taken_left := fun h => h
  selectIsd := fun _ h => h.1
  plain := fun _ _ _ h => ⟨h.1, fun _ => h⟩
  restarted := fun _ h => ⟨h.1, fun _ _ => h⟩
  sequence := fun h => h
  listed := fun _ _ _ h => h
  selectVerified := fun _ h => h
  processVerified := fun _ h => ⟨h.1, fun _ _ => h⟩
  maintained := fun _ h => ⟨h.1, fun _ _ _ => h⟩

/-- A session that was destroyed: all its secrets are gone and it is inactive. -/
def Session.Destroyed (session : Session) : Prop := session = session.zeroize

theorem orZeroize_destroys {body : ChannelM κ α} {channel left : Channel κ} {e : Error}
    (h : orZeroize body channel = .error e left) : left.session.Destroyed := by
  unfold orZeroize at h
  split at h
  · cases h
  · cases h
    simp [Session.Destroyed, Session.zeroize]

/-- Counter discipline. In every run of the endpoint, between two starts of a session
no counter block is encrypted twice and nothing is accepted after a failure. A
failed call of the session destroys it, and an endpoint whose session failed has
no session. -/
theorem counter_discipline {card : κ} {keys : Keys} {endpoint : Endpoint κ}
    (h : endpoint.Reachable scp03 engine card keys) :
    (∀ before during after, endpoint.trace = before ++ during ++ after →
      (∀ event ∈ during, event.starts = false) → (blocks during).Nodup ∧
      ∀ front back, during = front ++ .failed :: back → ∀ event ∈ back, event.accepts = false) ∧
    (.failed ∈ segment endpoint.trace → endpoint.session = none) ∧
    ∀ (channel left : Channel κ) command data sw e, authenticate scp03 engine.provider command channel = .error e left ∨
      unwrap scp03 engine.provider command channel = .error e left ∨
      response scp03 engine.provider data sw channel = .error e left → left.session.Destroyed := by
  have hStart : (counterProtocol scp03 engine).Idle false none card [] := by
    refine ⟨fun front hFront => ?_, fun _ hs => nomatch hs⟩
    rw [List.prefix_nil.1 hFront]
    exact Disciplined.nil
  obtain ⟨hSound, hClear⟩ := (counterProtocol scp03 engine).reachable_between hStart h
  refine ⟨fun before during after hTrace hDuring => ?_, fun hFailed => ?_, ?_⟩
  · have hFront : before ++ during <+: endpoint.trace := ⟨after, hTrace.symm⟩
    have hDisciplined := (hSound _ hFront).suffix (suffix_segment hDuring)
    exact ⟨hDisciplined.distinct, hDisciplined.final⟩
  · cases hSession : endpoint.session with
    | none => rfl
    | some session => exact absurd hFailed (hClear session hSession).intact
  · intro channel left command data sw e hError
    rcases hError with hError | hError | hError
    · exact orZeroize_destroys hError
    · exact orZeroize_destroys hError
    · exact orZeroize_destroys hError

end Runs

section Recording

/-- Sixteen bytes, written as one number. -/
def word (value : Nat) : Fixed 16 := ⟨toBE 16 value, by simp⟩

/-- AES-CMAC and AES on the inputs of one recorded session. -/
def recordedCmacs : List (Fixed 16 × List (List Byte) × Fixed 16) :=
  let host := toBE 8 0x0001020304050607
  let card := toBE 8 0x5a5a5a5a5a5a5a5a
  let root := word 0x404142434445464748494a4b4c4d4e4f
  let mac := word 0xd57841fb2988b3ea4802857cfebd5dd0
  [(root, [toBE 16 0x400008001, host, card], word 0x8499fc59dec3ae0fde205a2d5adf40e8),
    (root, [toBE 16 0x600008001, host, card], mac),
    (root, [toBE 16 0x700008001, host, card], word 0x250794c0b3abaddb59a58f1c060a0043),
    (mac, [toBE 16 0x000004001, host, card], word 0x9ab21d155ffbdd8ac4f3cfa97298f2e9),
    (mac, [toBE 16 0x100004001, host, card], word 0xeb7643b557acb0241c61e9100d8d945e),
    (mac, [toBE 16 0, toBE 5 0x8482330010, toBE 8 0xeb7643b557acb024], word 0x0cb4873bcaa367abb2ad64c5e9dbda58),
    (mac, [toBE 16 0x0cb4873bcaa367abb2ad64c5e9dbda58, toBE 5 0x84f2800218,
      toBE 16 0x9743de82ae3d3f42fe9df46ed3f99758], word 0x94615c6976a27fc5322af834959ba20b),
    (word 0x250794c0b3abaddb59a58f1c060a0043, [toBE 16 0x94615c6976a27fc5322af834959ba20b,
      toBE 32 0x7523d674a0310f9dab1cf5b54e39ebd0bf72c53aac80df9e24b2ff5768db1acd, [0x90, 0x00]],
      word 0x9e8cb7ef1fc69bfc93fef26a1f70cae4)]

def recordedProvider : Provider κ where
  reserve := fun _ _ => .ok ()
  aesCmacParts := fun key parts => do
    let (_, _, mac) ← orFail (recordedCmacs.find? fun entry => entry.1 = key ∧ entry.2.1 = parts) .native
    pure mac
  aes128EncryptBlock := fun _ block =>
    if block = commandBlock 1 then pure (word 0xec0173672b4950ff7e05dafa240cb0bb)
    else if block = responseBlock 1 then pure (word 0xfe1de3c7a16ad57b7560e6cbf070a60a)
    else throw .native
  aesCbcDecrypt := fun _ _ _ => pure (2, [0x4f, 0x00] ++ List.replicate 14 0)
  aesCbcEncrypt := fun _ _ _ => pure (32, toBE 32 0x7523d674a0310f9dab1cf5b54e39ebd0bf72c53aac80df9e24b2ff5768db1acd)

/-- An engine with one status record and nothing else. -/
def statusEngine : CardEngine Unit where
  directApdus := true
  provider := recordedProvider
  isApplicationCommand := fun _ _ => false
  selectPlain := fun _ _ _ => ⟨.error .missing, (), 0⟩
  processPlain := fun _ _ _ => ⟨.error .missing, (), 0⟩
  takeSecurityReset := fun _ => (false, ())
  random := fun count => pure (List.replicate count 0x5a)
  nextSecureChannelSequence := throw .storage
  abortStaging := id
  abortTransaction := id
  maintenance := fun _ _ => ⟨.ok (), (), 0⟩
  restartSecureChannel := fun _ _ => ⟨.ok (), (), 0⟩
  globalplatformLoadActive := fun _ => false
  getStatusRecord := fun _ _ _ => pure (toBE 16 0xe30d4f08a0000001510000009f70010f, false)
  selectIsd := fun _ _ => ⟨.ok (), (), 0⟩
  selectVerified := fun _ _ _ => ⟨.error .missing, (), 0⟩
  manageGlobalplatform := fun _ _ _ => ⟨.error .unsupported, (), 0⟩
  manage := fun _ _ _ => ⟨.error .unsupported, (), 0⟩
  processVerified := fun _ _ _ => ⟨.error .missing, (), 0⟩

def fullScp03 : Scp03 := ⟨false, false, true, true⟩

/-- A session opened, authenticated at the highest level and asked for status. -/
def recordedRun : Endpoint Unit :=
  let send := fun (raw : List Byte) (endpoint : Endpoint Unit) =>
    (endpoint.exchange fullScp03 statusEngine raw fun _ => false).2
  send (toBE 29 0x84f28002189743de82ae3d3f42fe9df46ed3f9975894615c6976a27fc5)
    (send (toBE 21 0x8482330010eb7643b557acb0240cb4873bcaa367ab)
      (send (toBE 13 0x80500000080001020304050607)
        (Endpoint.new () ⟨word 0x404142434445464748494a4b4c4d4e4f, word 0x404142434445464748494a4b4c4d4e4f⟩)))

/-- The command and its answer use the two blocks of the first counter value. -/
theorem counter_discipline_recorded :
    blocks recordedRun.trace = [commandBlock 1, responseBlock 1] ∧ recordedRun.session.isSome = true ∧
      (blocks (recordedRun.trace.drop 2)).Nodup := by
  have hReachable : recordedRun.Reachable fullScp03 statusEngine ()
      ⟨word 0x404142434445464748494a4b4c4d4e4f, word 0x404142434445464748494a4b4c4d4e4f⟩ :=
    .exchange (.exchange (.exchange .new _ _) _ _) _ _
  have hDuring : ∀ event ∈ recordedRun.trace.drop 2, event.starts = false := by
    intro event hEvent
    have hAll : (recordedRun.trace.drop 2).all (fun event => !event.starts) = true := by decide +kernel
    simpa using List.all_eq_true.1 hAll event hEvent
  have hSplit : recordedRun.trace = recordedRun.trace.take 2 ++ recordedRun.trace.drop 2 ++ [] := by simp
  exact ⟨by decide +kernel, by decide +kernel,
    ((counter_discipline fullScp03 statusEngine hReachable).1 _ _ _ hSplit hDuring).1⟩

end Recording

end MicroCard.Transport
