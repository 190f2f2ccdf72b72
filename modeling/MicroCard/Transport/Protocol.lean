import MicroCard.Transport.Endpoint

/-! One case analysis of the dispatcher for every property of its runs. A protocol
names what holds between exchanges, while a verified command is being processed and
after it was answered; its obligations are about single calls of the session or the
engine and single recorded events. -/
namespace MicroCard.Transport

open Bytes Cbor CrashTriple

variable {κ α β : Type}

/-- A condition on whether a cancellation was observed, the session, the card and the
trace. -/
abbrev Point (κ : Type) := Bool → Option Session → κ → List (Event κ) → Prop

/-- The condition at a point of an exchange. -/
def On (P : Point κ) (exchange : Exchange κ) : Prop :=
  P exchange.cancelled exchange.endpoint.session exchange.endpoint.card exchange.endpoint.trace

/-- The condition at a point of a call of the session. -/
def Through (P : Point κ) (cancelled : Bool) (channel : Channel κ) : Prop :=
  P cancelled (some channel.session) channel.card channel.trace

/-- A poll of this call answered yes. -/
def Reply.observed (reply : Reply κ α) (cancel : Nat → Bool) : Bool := (List.range reply.polls).any cancel

/-- Whether a plain call ends in an answer. -/
def Answerable : Except Error α → Prop
  | .ok _ => True
  | .error .missing => True
  | .error _ => False

/-- The final state of an engine call without polls. -/
def cardAfter : EStateM.Result Error κ α → κ
  | .ok _ card => card
  | .error _ card => card

/-- The platform was used: a primitive or the entropy source ran. -/
inductive Touches (engine : CardEngine κ) (card : κ) : κ → Prop where
  | cmac (key : Fixed 16) (parts : List (List Byte)) :
      Touches engine card (cardAfter (engine.provider.aesCmacParts key parts card))
  | block (key block : Fixed 16) : Touches engine card (cardAfter (engine.provider.aes128EncryptBlock key block card))
  | decrypt (key iv : Fixed 16) (data : List Byte) :
      Touches engine card (cardAfter (engine.provider.aesCbcDecrypt key iv data card))
  | encrypt (key iv : Fixed 16) (data : List Byte) :
      Touches engine card (cardAfter (engine.provider.aesCbcEncrypt key iv data card))
  | random (count : Nat) : Touches engine card (cardAfter (engine.random count card))

/-- A property of runs, as conditions at the points of an exchange. `Left` is what
an exchange that fails leaves to the reset. -/
structure Protocol (scp03 : Scp03) (engine : CardEngine κ) where
  Idle : Point κ
  Answering : Verified → Point κ
  Answered : Verified → Point κ
  Left : κ → List (Event κ) → Prop
  idle_left : ∀ {c s k t}, Idle c s k t → Left k t
  answering_left : ∀ {v c s k t}, Answering v c s k t → Left k t
  answered_idle : ∀ {v c s k t}, Answered v c s k t → Idle c s k t
  idle_dropped : ∀ {c s k t}, Idle c s k t → Idle c none k t
  answering_dropped : ∀ {v c s k t}, Answering v c s k t → Idle c none k t
  left_reset : ∀ {c k t}, Left k t → Idle c none (engine.abortTransaction (engine.abortStaging k)) t
  received : ∀ {s k t} raw, Idle false s k t → Idle false s k (t ++ [.received raw])
  initiated : ∀ {c s k t} fresh, Idle c s k t → fresh.counter = 0 → fresh.active = false →
    Idle c (some fresh) k (t ++ [.initiated])
  authenticated : ∀ c command, Triple (Through Idle c) (authenticate scp03 engine.provider command)
    (fun _ => Through Idle c) fun _ channel => Left channel.card channel.trace
  unwrapped : ∀ c command, Triple (Through Idle c) (unwrap scp03 engine.provider command)
    (fun v => Through (Answering v) c) fun _ channel => Left channel.card channel.trace
  answered : ∀ c v data sw, Triple (Through (Answering v) c) (response scp03 engine.provider data sw)
    (fun _ => Through (Answered v) c) fun _ channel => Left channel.card channel.trace
  managed : ∀ {v c s k t} gp cancel, Answering v c s k t →
    let reply := engine.management gp v cancel k
    Answering v (c || reply.observed cancel) s reply.card (t ++ [.managed gp v k reply.card])
  status : ∀ {v c s k t}, Answering v c s k t → v.mayManage = true → Answering v c s k (t ++ [.status v])
  bootloader : ∀ {v c s k t}, Answered v c s k t → v.mayManage = true → Idle c s k (t ++ [.bootloader v])
  touches_idle : ∀ {c s k k' t}, Touches engine k k' → Idle c s k t → Idle c s k' t
  abortStaging_idle : ∀ {c s k t}, Idle c s k t → Idle c s (engine.abortStaging k) t
  abortStaging_answering : ∀ {v c s k t}, Answering v c s k t → Answering v c s (engine.abortStaging k) t
  taken_idle : ∀ {c s k t}, Idle c s k t → Idle c s (engine.takeSecurityReset k).2 t
  taken_answering : ∀ {v c s k t}, Answering v c s k t → Answering v c s (engine.takeSecurityReset k).2 t
  taken_left : ∀ {k t}, Left k t → Left (engine.takeSecurityReset k).2 t
  selectIsd : ∀ {c s k t} cancel, Idle c s k t → Left (engine.selectIsd cancel k).card t
  plain : ∀ {c s k t} command raw cancel, Idle c s k t →
    let reply := engine.plain command raw cancel k
    Left reply.card t ∧ (Answerable reply.result → Idle (c || reply.observed cancel) s reply.card t)
  restarted : ∀ {c k t} cancel, Idle c none k t →
    let reply := engine.restartSecureChannel cancel k
    Left reply.card t ∧ (∀ u, reply.result = .ok u → Idle (c || reply.observed cancel) none reply.card t)
  sequence : ∀ {c s k t}, Idle c s k t → Idle c s (cardAfter (engine.nextSecureChannelSequence k)) t
  listed : ∀ {v c s k t} kind index filter, Answering v c s k t →
    Answering v c s (cardAfter (engine.getStatusRecord kind index filter k)) t
  selectVerified : ∀ {v c s k t} cancel, Answering v c s k t →
    let reply := engine.selectVerified v cancel k
    Answering v (c || reply.observed cancel) s reply.card t
  processVerified : ∀ {v c s k t} cancel, Answering v c s k t →
    let reply := engine.processVerified v cancel k
    Left reply.card t ∧ (∀ r, reply.result = .ok r → Answering v (c || reply.observed cancel) s reply.card t)
  maintained : ∀ {s k t} cancel, Idle false s k t →
    let reply := engine.maintenance cancel k
    Left reply.card t ∧ (∀ u, reply.result = .ok u → (engine.takeSecurityReset reply.card).1 = false →
      Idle false s (engine.takeSecurityReset reply.card).2 t)

section Frames

variable {P : Point κ}

/-- A call whose effect on the card keeps the condition. -/
theorem call_frame {action : EStateM Error κ α} (h : ∀ c s t, Invariant (fun k => P c s k t) action) :
    Invariant (On P) (call action) := by
  intro exchange hOn
  have hRun := h _ _ _ exchange.endpoint.card hOn
  unfold call
  cases hAction : action exchange.endpoint.card with
  | ok a card =>
      rw [hAction] at hRun
      exact hRun
  | error e card =>
      rw [hAction] at hRun
      exact hRun

theorem setCursor_frame (cursor : Option StatusCursor) : Invariant (On P) (setCursor cursor) := fun _ h => h

theorem makeRoom_frame (engine : CardEngine κ) (length : Nat) : Invariant (On P) (makeRoom engine length) :=
  Invariant.get fun _ => Invariant.readOnly _

theorem fixedResponse_frame (engine : CardEngine κ) (bytes : List Byte) :
    Invariant (On P) (fixedResponse engine bytes) :=
  Invariant.bind (makeRoom_frame engine _) fun _ => Invariant.ret _

theorem modifyCard_frame {update : κ → κ} (h : ∀ c s k t, P c s k t → P c s (update k) t) :
    Invariant (On P) (modifyCard update) := fun _ hOn => h _ _ _ _ hOn

theorem takeSecurityReset_frame {engine : CardEngine κ}
    (h : ∀ c s k t, P c s k t → P c s (engine.takeSecurityReset k).2 t) :
    Invariant (On P) (takeSecurityReset engine) :=
  Invariant.get fun _ => Invariant.bind (modifyCard_frame h) fun _ => Invariant.ret _

/-- What a call of the session needs of the session it runs on. -/
theorem onSession_spec {action : ChannelM κ α} {Q : α → Point κ} {C : κ → List (Event κ) → Prop}
    (h : ∀ c, Triple (Through P c) action (fun a => Through (Q a) c) fun _ channel => C channel.card channel.trace)
    (hNone : ∀ c k t, P c none k t → C k t) :
    Triple (On P) (onSession action) (fun a => On (Q a)) fun _ exchange => C exchange.endpoint.card exchange.endpoint.trace := by
  intro exchange hOn
  unfold onSession
  cases hSession : exchange.endpoint.session with
  | none =>
      rw [On, hSession] at hOn
      exact hNone _ _ _ hOn
  | some session =>
      rw [On, hSession] at hOn
      have hRun := h exchange.cancelled ⟨session, exchange.endpoint.card, exchange.endpoint.trace⟩ hOn
      simp only
      split at hRun
      · rename_i a channel hOk
        rw [hOk]
        exact hRun
      · rename_i e channel hError
        rw [hError]
        exact hRun

/-- What a polled call does to the condition, by its result. -/
theorem poll_spec {action : Polled κ α} {Q : α → Point κ} {C : Error → Point κ}
    (hOk : ∀ c s k t cancel a, P c s k t → (action cancel k).result = .ok a →
      Q a (c || (action cancel k).observed cancel) s (action cancel k).card t)
    (hError : ∀ c s k t cancel e, P c s k t → (action cancel k).result = .error e →
      C e (c || (action cancel k).observed cancel) s (action cancel k).card t) :
    Triple (On P) (poll action) (fun a => On (Q a)) fun e => On (C e) := by
  intro exchange hOn
  unfold poll
  cases hResult : (action exchange.cancel exchange.endpoint.card).result with
  | ok a => exact hOk _ _ _ _ _ a hOn hResult
  | error e => exact hError _ _ _ _ _ e hOn hResult

/-- A captured call hands its result on, whatever it is. -/
theorem captured_spec {action : Polled κ α} {Q : Except Error α → Point κ} {C : Error → Exchange κ → Prop}
    (h : ∀ c s k t cancel, P c s k t →
      Q (action cancel k).result (c || (action cancel k).observed cancel) s (action cancel k).card t) :
    Triple (On P) (capture (poll action)) (fun result => On (Q result)) C := by
  intro exchange hOn
  have hAfter := h _ _ _ _ exchange.cancel hOn
  unfold capture poll
  cases hResult : (action exchange.cancel exchange.endpoint.card).result with
  | ok a =>
      rw [hResult] at hAfter
      exact hAfter
  | error e =>
      rw [hResult] at hAfter
      exact hAfter

end Frames

namespace Protocol

variable {scp03 : Scp03} {engine : CardEngine κ} (protocol : Protocol scp03 engine)

/-- A failed exchange leaves what the reset starts from. -/
def Fails : Error → Exchange κ → Prop := fun _ exchange =>
  protocol.Left exchange.endpoint.card exchange.endpoint.trace

/-- An exchange that keeps the protocol between exchanges, or fails. -/
def Keeps (P : Point κ) (program : ExchangeM κ α) : Prop :=
  Triple (On P) program (fun _ => On protocol.Idle) protocol.Fails

/-- The condition where only a failure may follow. -/
def Lost : Point κ := fun _ _ k t => protocol.Left k t

variable {protocol}

theorem idle_fails {exchange : Exchange κ} {e : Error} (h : On protocol.Idle exchange) : protocol.Fails e exchange :=
  protocol.idle_left h

theorem answering_fails {verified : Verified} {exchange : Exchange κ} {e : Error}
    (h : On (protocol.Answering verified) exchange) : protocol.Fails e exchange :=
  protocol.answering_left h

/-- A step that keeps the condition between exchanges. -/
theorem idle_step {program : ExchangeM κ α} (h : Invariant (On protocol.Idle) program) :
    Triple (On protocol.Idle) program (fun _ => On protocol.Idle) protocol.Fails :=
  h.conseq (fun _ h => h) (fun _ _ h => h) fun _ _ h => protocol.idle_left h

theorem answering_step {verified : Verified} {program : ExchangeM κ α}
    (h : Invariant (On (protocol.Answering verified)) program) :
    Triple (On (protocol.Answering verified)) program (fun _ => On (protocol.Answering verified)) protocol.Fails :=
  h.conseq (fun _ h => h) (fun _ _ h => h) fun _ _ h => protocol.answering_left h

theorem answer_spec (verified : Verified) (data : List Byte) (sw : Nat) :
    Triple (On (protocol.Answering verified)) (answer scp03 engine data sw)
      (fun _ => On (protocol.Answered verified)) protocol.Fails :=
  onSession_spec (fun c => protocol.answered c verified data sw) fun _ _ _ h => protocol.answering_left h

theorem answer_keeps (verified : Verified) (data : List Byte) (sw : Nat) :
    protocol.Keeps (protocol.Answering verified) (answer scp03 engine data sw) :=
  (answer_spec verified data sw).conseq (fun _ h => h) (fun _ _ h => protocol.answered_idle h) fun _ _ h => h

theorem clearSession_answering (verified : Verified) :
    protocol.Keeps (protocol.Answering verified) clearSession :=
  Triple.update fun _ h => protocol.answering_dropped h

theorem handleIsdSelect_keeps : protocol.Keeps protocol.Idle (handleIsdSelect scp03 engine) := by
  have hSelect : Triple (On protocol.Idle) (capture (poll engine.selectIsd)) (fun _ => On protocol.Lost) protocol.Fails :=
    captured_spec fun _ _ _ _ cancel h => protocol.selectIsd cancel h
  apply Triple.bind hSelect
  intro result
  apply Triple.bind (Q := fun _ => On protocol.Idle)
  · exact Triple.update fun _ h => protocol.left_reset h
  intro _
  apply Triple.bind (idle_step (Invariant.readOnly result))
  intro _
  apply Triple.bind (idle_step (makeRoom_frame engine 62))
  intro _
  exact Triple.ret fun _ h => h

/-- After a plain call: ready for the answer if there is one. -/
def PlainDone (protocol : Protocol scp03 engine) (result : Except Error (List Byte)) : Point κ := fun c s k t =>
  protocol.Left k t ∧ (Answerable result → protocol.Idle c s k t)

theorem plainCall_spec (command : Command) (raw : List Byte) :
    Triple (On protocol.Idle) (capture (poll (engine.plain command raw))) (fun result => On (protocol.PlainDone result))
      protocol.Fails :=
  captured_spec fun _ _ _ _ cancel h => protocol.plain command raw cancel h

theorem plainAnswer_keeps (result : Except Error (List Byte)) :
    protocol.Keeps (protocol.PlainDone result) (plainAnswer engine result) := by
  unfold plainAnswer
  split
  · exact Triple.ret fun _ h => h.2 trivial
  · exact (idle_step (fixedResponse_frame engine _)).conseq (fun _ h => h.2 trivial) (fun _ _ h => h) fun _ _ h => h
  · exact Triple.raise fun _ h => h.1

theorem handlePlain_keeps (command : Command) (raw : List Byte) :
    protocol.Keeps protocol.Idle (handlePlain engine command raw) := by
  apply Triple.bind (idle_step (modifyCard_frame fun _ _ _ _ h => protocol.abortStaging_idle h))
  intro _
  apply Triple.bind (idle_step (setCursor_frame none))
  intro _
  apply Triple.bind (plainCall_spec command raw)
  intro result
  have hDone : Invariant (On (protocol.PlainDone result)) (takeSecurityReset engine) :=
    takeSecurityReset_frame fun _ _ _ _ h => ⟨protocol.taken_left h.1, fun hFine => protocol.taken_idle (h.2 hFine)⟩
  apply Triple.bind (hDone.conseq (fun _ h => h) (fun _ _ h => h) fun _ _ h => h.1)
  intro requested
  apply Triple.bind (Q := fun _ => On (protocol.PlainDone result))
  · apply Triple.onlyIf
    · exact fun _ => Triple.update fun _ h => ⟨h.1, fun hFine => protocol.idle_dropped (h.2 hFine)⟩
    · exact fun _ _ h => h
  intro _
  exact plainAnswer_keeps result

theorem handleGetData_keeps (command : Command) : protocol.Keeps protocol.Idle (handleGetData scp03 engine command) := by
  unfold handleGetData
  split
  · apply Triple.bind (idle_step (makeRoom_frame engine _))
    intro _
    exact Triple.ret fun _ h => h
  · exact idle_step (fixedResponse_frame engine _)

/-- A primitive of the platform keeps what does not depend on it. -/
theorem touches_invariant {Q : κ → Prop} (hTouches : ∀ k k', Touches engine k k' → Q k → Q k')
    {action : EStateM Error κ α} (h : ∀ k, Touches engine k (cardAfter (action k))) : Invariant Q action := by
  intro card hCard
  have hAfter := hTouches _ _ (h card) hCard
  cases hAction : action card with
  | ok a left =>
      rw [hAction] at hAfter
      exact hAfter
  | error e left =>
      rw [hAction] at hAfter
      exact hAfter

/-- A session starts inactive and with its counter at zero. -/
theorem initiate_fresh (scp03 : Scp03) (engine : CardEngine κ) {Q : κ → Prop}
    (hTouches : ∀ k k', Touches engine k k' → Q k → Q k') (keys : Keys) (host challenge : List Byte) :
    Triple Q (Session.initiate scp03 engine.provider keys host challenge)
      (fun started k => (started.1.counter = 0 ∧ started.1.active = false) ∧ Q k) fun _ => Q := by
  have hDerive : ∀ key constant bits, Invariant Q (derive engine.provider key constant bits host challenge) :=
    fun key constant bits => touches_invariant hTouches fun k => .cmac _ _
  apply Triple.bind (hDerive _ _ _)
  intro enc
  apply Triple.bind (hDerive _ _ _)
  intro mac
  apply Triple.bind (hDerive _ _ _)
  intro rmac
  apply Triple.bind (hDerive _ _ _)
  intro cardCryptogram
  apply Triple.bind (hDerive _ _ _)
  intro hostCryptogram
  exact Triple.ret fun _ h => ⟨⟨rfl, rfl⟩, h⟩

/-- A started session, not yet stored. -/
def Started (protocol : Protocol scp03 engine) (session : Session) : Point κ := fun c s k t =>
  (session.counter = 0 ∧ session.active = false) ∧ protocol.Idle c s k t

theorem initiate_spec (keys : Keys) (host challenge : List Byte) :
    Triple (On protocol.Idle) (call (Session.initiate scp03 engine.provider keys host challenge))
      (fun started => On (protocol.Started started.1)) protocol.Fails := by
  intro exchange hOn
  have hRun := initiate_fresh scp03 engine (Q := fun k => protocol.Idle exchange.cancelled exchange.endpoint.session k
    exchange.endpoint.trace) (fun _ _ hTouches h => protocol.touches_idle hTouches h) keys host challenge _ hOn
  unfold call
  split at hRun
  · rename_i started card hOk
    rw [hOk]
    exact hRun
  · rename_i e card hError
    rw [hError]
    exact protocol.idle_left hRun

theorem openSession_keeps (host challenge sequence : List Byte) :
    protocol.Keeps protocol.Idle (openSession scp03 engine host challenge sequence) := by
  apply Triple.get
  intro before hBefore
  apply Triple.bind ((initiate_spec before.endpoint.keys host challenge).at hBefore)
  intro started
  apply Triple.bind (Q := fun _ exchange => exchange.endpoint.session = some started.1 ∧
    ∃ session, protocol.Started started.1 exchange.cancelled session exchange.endpoint.card exchange.endpoint.trace)
  · exact Triple.update fun _ h => ⟨rfl, _, h⟩
  intro _
  apply Triple.bind (Q := fun _ => On protocol.Idle)
  · apply Triple.update
    intro exchange h
    obtain ⟨hSession, session, ⟨hCounter, hInactive⟩, hIdle⟩ := h
    show protocol.Idle exchange.cancelled exchange.endpoint.session _ _
    rw [hSession]
    exact protocol.initiated started.1 hIdle hCounter hInactive
  intro _
  apply Triple.bind (idle_step (makeRoom_frame engine _))
  intro _
  exact Triple.ret fun _ h => h

theorem sequence_frame (protocol : Protocol scp03 engine) : Invariant (On protocol.Idle) (call engine.nextSecureChannelSequence) := by
  apply call_frame
  intro c s t card hCard
  have hAfter := protocol.sequence hCard
  cases hAction : engine.nextSecureChannelSequence card with
  | ok a left =>
      rw [hAction] at hAfter
      exact hAfter
  | error e left =>
      rw [hAction] at hAfter
      exact hAfter

theorem deriveChallenge_frame (sequence : Nat) : Invariant (On protocol.Idle) (deriveChallenge scp03 engine sequence) := by
  apply Invariant.get
  intro before
  apply Invariant.bind
  · apply call_frame
    intro c s t
    apply Invariant.bind
    · exact touches_invariant (fun _ _ hTouches h => protocol.touches_idle hTouches h) fun k => .cmac _ _
    · intro material
      exact Invariant.ret _
  · intro challenge
    exact Invariant.ret _

theorem random_frame (count : Nat) : Invariant (On protocol.Idle) (call (engine.random count)) :=
  call_frame fun _ _ _ => touches_invariant (fun _ _ hTouches h => protocol.touches_idle hTouches h) fun _ => .random count

theorem issueChallenge_keeps (host : List Byte) : protocol.Keeps protocol.Idle (issueChallenge scp03 engine host) := by
  unfold issueChallenge
  split
  · apply Triple.bind (Triple.capture (sequence_frame protocol))
    intro issued
    cases issued with
    | error e => exact idle_step (fixedResponse_frame engine _)
    | ok sequence =>
        apply Triple.bind (idle_step (deriveChallenge_frame sequence))
        intro derived
        exact openSession_keeps host derived.1 derived.2
  · apply Triple.bind (idle_step (random_frame _))
    intro challenge
    exact openSession_keeps host challenge []

/-- The condition once the session was dropped. -/
def Dropped (protocol : Protocol scp03 engine) : Point κ := fun c s k t => s = none ∧ protocol.Idle c s k t

theorem restart_spec : Triple (On protocol.Dropped) (poll engine.restartSecureChannel) (fun _ => On protocol.Idle)
    protocol.Fails := by
  have hPoll : Triple (On protocol.Dropped) (poll engine.restartSecureChannel) (fun _ => On protocol.Idle)
      fun _ => On protocol.Lost := by
    apply poll_spec
    · intro c s k t cancel u h hResult
      obtain ⟨rfl, hIdle⟩ := h
      exact (protocol.restarted cancel hIdle).2 u hResult
    · intro c s k t cancel e h _
      obtain ⟨rfl, hIdle⟩ := h
      exact (protocol.restarted cancel hIdle).1
  exact hPoll

theorem handleInitializeUpdate_keeps (command : Command) :
    protocol.Keeps protocol.Idle (handleInitializeUpdate scp03 engine command) := by
  apply Triple.bind (Q := fun _ => On protocol.Dropped)
  · exact Triple.update fun _ h => ⟨rfl, protocol.idle_dropped h⟩
  intro _
  apply Triple.bind (Q := fun _ => On protocol.Dropped)
  · exact (setCursor_frame none).conseq (fun _ h => h) (fun _ _ h => h) fun _ _ h => protocol.idle_left h.2
  intro _
  apply Triple.bind restart_spec
  intro _
  apply Triple.failIf_bind fun _ _ h => idle_fails h
  intro _
  split
  · exact idle_step (fixedResponse_frame engine _)
  · exact issueChallenge_keeps command.data

/-- A management call is recorded with what it did. -/
theorem management_spec (verified : Verified) (globalplatform : Bool) :
    Triple (On (protocol.Answering verified)) (management engine globalplatform verified)
      (fun _ => On (protocol.Answering verified)) protocol.Fails := by
  intro exchange hOn
  have hAfter := protocol.managed globalplatform exchange.cancel hOn
  unfold management
  cases hResult : (engine.management globalplatform verified exchange.cancel exchange.endpoint.card).result with
  | ok a =>
      simp only [bind, EStateM.bind, get, getThe, MonadStateOf.get, EStateM.get, capture, poll, hResult]
      exact hAfter
  | error e =>
      simp only [bind, EStateM.bind, get, getThe, MonadStateOf.get, EStateM.get, capture, poll, hResult]
      exact hAfter

theorem takeSecurityReset_answering (verified : Verified) :
    Triple (On (protocol.Answering verified)) (takeSecurityReset engine) (fun _ => On (protocol.Answering verified))
      protocol.Fails :=
  answering_step (takeSecurityReset_frame fun _ _ _ _ h => protocol.taken_answering h)

theorem handleGlobalplatform_keeps (verified : Verified) :
    protocol.Keeps (protocol.Answering verified) (handleGlobalplatform scp03 engine verified) := by
  apply Triple.bind (answering_step (setCursor_frame none))
  intro _
  apply Triple.bind (management_spec verified true)
  intro result
  apply Triple.bind (takeSecurityReset_answering verified)
  intro requested
  split
  · apply Triple.bind (clearSession_answering verified)
    intro _
    apply Triple.bind (idle_step (makeRoom_frame engine 2))
    intro _
    exact Triple.ret fun _ h => h
  · exact answer_keeps verified _ _

theorem handleVerifiedGetData_keeps (verified : Verified) :
    protocol.Keeps (protocol.Answering verified) (handleVerifiedGetData scp03 engine verified.command) := by
  apply Triple.bind (answering_step (setCursor_frame none))
  intro _
  split
  · apply Triple.bind (answering_step (makeRoom_frame engine _))
    intro _
    exact answer_keeps verified _ _
  · exact answer_keeps verified _ _

theorem acceptBootloader_keeps (verified : Verified) (hManages : verified.mayManage = true) :
    protocol.Keeps (protocol.Answering verified) (acceptBootloader scp03 engine verified) := by
  apply Triple.bind (answer_spec verified _ _)
  intro response
  apply Triple.bind (Q := fun _ => On (protocol.Answered verified))
  · exact Triple.update fun _ h => h
  intro _
  apply Triple.bind (Q := fun _ => On protocol.Idle)
  · exact Triple.update fun _ h => protocol.bootloader h hManages
  intro _
  exact Triple.ret fun _ h => h

theorem handleBootloader_keeps (verified : Verified) :
    protocol.Keeps (protocol.Answering verified) (handleBootloader scp03 engine verified) := by
  unfold handleBootloader
  split
  · exact answer_keeps verified _ _
  · rename_i hManages
    split
    · exact answer_keeps verified _ _
    · exact acceptBootloader_keeps verified (by simpa using hManages)

theorem getStatusRecord_frame (verified : Verified) (kind : Byte) (index : Nat) (filter : List Byte) :
    Invariant (On (protocol.Answering verified)) (call (engine.getStatusRecord kind index filter)) := by
  apply call_frame
  intro c s t card hCard
  have hAfter := protocol.listed kind index filter hCard
  cases hAction : engine.getStatusRecord kind index filter card with
  | ok a left =>
      rw [hAction] at hAfter
      exact hAfter
  | error e left =>
      rw [hAction] at hAfter
      exact hAfter

theorem statusRecord_keeps (verified : Verified) (hManages : verified.mayManage = true) (cursor : StatusCursor) :
    protocol.Keeps (protocol.Answering verified) (statusRecord scp03 engine verified cursor) := by
  apply Triple.bind (Q := fun _ => On (protocol.Answering verified))
  · exact Triple.update fun _ h => protocol.status h hManages
  intro _
  apply Triple.bind (Triple.capture (getStatusRecord_frame verified _ _ _))
  intro result
  split
  · apply Triple.bind (answering_step (setCursor_frame _))
    intro _
    exact answer_keeps verified _ _
  · apply Triple.bind (answering_step (setCursor_frame _))
    intro _
    exact answer_keeps verified _ _
  · apply Triple.bind (answering_step (setCursor_frame _))
    intro _
    exact answer_keeps verified _ _

theorem continueStatus_keeps (verified : Verified) (hManages : verified.mayManage = true) :
    protocol.Keeps (protocol.Answering verified) (continueStatus scp03 engine verified) := by
  apply Triple.get
  intro before hBefore
  apply Triple.bind (Q := fun _ => On (protocol.Answering verified))
  · have hCursor : Invariant (On (protocol.Answering verified))
        (onlyIf (verified.command.p2 ≠ 0x02) (setCursor none)) := Invariant.onlyIf (setCursor_frame none)
    exact (answering_step hCursor).at hBefore
  intro _
  split
  · exact statusRecord_keeps verified hManages _
  · apply Triple.bind (answering_step (setCursor_frame _))
    intro _
    exact answer_keeps verified _ _

theorem handleStatus_keeps (verified : Verified) :
    protocol.Keeps (protocol.Answering verified) (handleStatus scp03 engine verified) := by
  unfold handleStatus
  split
  · exact answer_keeps verified _ _
  · rename_i hManages
    split
    · apply Triple.bind (answering_step (setCursor_frame _))
      intro _
      exact answer_keeps verified _ _
    · exact continueStatus_keeps verified (by simpa using hManages)

theorem applicationAnswer_keeps (verified : Verified) (response : List Byte) :
    protocol.Keeps (protocol.Answering verified) (applicationAnswer scp03 engine response) := by
  apply Triple.bind (takeSecurityReset_answering verified)
  intro requested
  split
  · apply Triple.bind (clearSession_answering verified)
    intro _
    apply Triple.bind (idle_step (setCursor_frame none))
    intro _
    exact Triple.ret fun _ h => h
  · apply Triple.failIf_bind fun _ _ h => answering_fails h
    intro _
    exact answer_keeps verified _ _

theorem handleApplication_keeps (verified : Verified) :
    protocol.Keeps (protocol.Answering verified) (handleApplication scp03 engine verified) := by
  unfold handleApplication
  split
  · have hSelect : Triple (On (protocol.Answering verified)) (capture (poll (engine.selectVerified verified)))
        (fun _ => On (protocol.Answering verified)) protocol.Fails :=
      captured_spec fun _ _ _ _ cancel h => protocol.selectVerified cancel h
    apply Triple.bind hSelect
    intro result
    split
    · exact applicationAnswer_keeps verified _
    · exact answer_keeps verified _ _
  · have hProcess : Triple (On (protocol.Answering verified)) (poll (engine.processVerified verified))
        (fun _ => On (protocol.Answering verified)) fun _ => On protocol.Lost :=
      poll_spec (fun _ _ _ _ cancel response h hOk => (protocol.processVerified cancel h).2 response hOk)
        fun _ _ _ _ cancel _ h _ => (protocol.processVerified cancel h).1
    apply Triple.bind (C := protocol.Fails) hProcess
    intro response
    exact applicationAnswer_keeps verified response

theorem handleManagement_keeps (verified : Verified) :
    protocol.Keeps (protocol.Answering verified) (handleManagement scp03 engine verified) := by
  apply Triple.bind (management_spec verified false)
  intro result
  split
  · exact answer_keeps verified _ _
  · exact answer_keeps verified _ _

theorem dispatch_keeps (verified : Verified) :
    protocol.Keeps (protocol.Answering verified) (dispatch scp03 engine verified) := by
  apply Triple.get
  intro before hBefore
  split
  · exact Triple.at (handleGlobalplatform_keeps verified) hBefore
  · split
    · exact Triple.at (handleVerifiedGetData_keeps verified) hBefore
    · split
      · exact Triple.at (handleBootloader_keeps verified) hBefore
      · split
        · exact Triple.at (handleStatus_keeps verified) hBefore
        · apply Triple.bind (Q := fun _ => On (protocol.Answering verified))
          · exact (answering_step (setCursor_frame none)).at hBefore
          intro _
          split
          · exact handleApplication_keeps verified
          · exact handleManagement_keeps verified

theorem handleExternalAuthenticate_keeps (command : Command) :
    protocol.Keeps protocol.Idle (handleExternalAuthenticate scp03 engine command) := by
  apply Triple.bind (onSession_spec (fun c => protocol.authenticated c command) fun _ _ _ h => protocol.idle_left h)
  intro _
  apply Triple.bind (idle_step (setCursor_frame none))
  intro _
  exact idle_step (fixedResponse_frame engine _)

theorem interruptLoad_frame (verified : Verified) (command : Command) :
    Invariant (On (protocol.Answering verified)) (interruptLoad engine command) :=
  Invariant.get fun _ => Invariant.onlyIf (modifyCard_frame fun _ _ _ _ h => protocol.abortStaging_answering h)

theorem handleSecured_keeps (command : Command) :
    protocol.Keeps protocol.Idle (handleSecured scp03 engine command) := by
  apply Triple.get
  intro before hBefore
  have hLeft : ∀ e s, s = before → protocol.Fails e s := fun _ _ hEq => hEq ▸ idle_fails hBefore
  apply Triple.failIf_bind fun _ => hLeft _
  intro _
  split
  · exact Triple.at (handleExternalAuthenticate_keeps command) hBefore
  · apply Triple.failIf_bind fun _ => hLeft _
    intro _
    have hCall := onSession_spec (fun c => protocol.unwrapped c command) fun _ _ _ h => protocol.idle_left h
    apply Triple.bind (Triple.at hCall hBefore)
    intro verified
    apply Triple.bind (answering_step (interruptLoad_frame verified _))
    intro _
    exact dispatch_keeps verified

theorem handleCommand_keeps (command : Command) (raw : List Byte) :
    protocol.Keeps protocol.Idle (handleCommand scp03 engine command raw) := by
  apply Triple.get
  intro before hBefore
  split
  · exact Triple.at handleIsdSelect_keeps hBefore
  · split
    · exact Triple.at (handlePlain_keeps command raw) hBefore
    · split
      · exact (idle_step (fixedResponse_frame engine _)).at hBefore
      · split
        · exact Triple.at (handleGetData_keeps command) hBefore
        · split
          · exact Triple.at (handleInitializeUpdate_keeps command) hBefore
          · exact Triple.at (handleSecured_keeps command) hBefore

/-- Whatever is received, the dispatcher keeps the protocol or fails. -/
theorem handle_keeps (protocol : Protocol scp03 engine) {endpoint : Endpoint κ}
    (h : protocol.Idle false endpoint.session endpoint.card endpoint.trace) (cancel : Nat → Bool) (raw : List Byte) :
    match handle scp03 engine raw ⟨endpoint, cancel, false⟩ with
    | .ok _ exchange => On protocol.Idle exchange
    | .error e exchange => protocol.Fails e exchange := by
  have hReceived : On protocol.Idle ⟨{ endpoint with trace := endpoint.trace ++ [.received raw] }, cancel, false⟩ :=
    protocol.received raw h
  have hRun := (Triple.bind (idle_step (Invariant.readOnly (Command.parse raw)))
    fun command => handleCommand_keeps command raw) _ hReceived
  have hHandle : handle scp03 engine raw ⟨endpoint, cancel, false⟩ =
    (readOnly (Command.parse raw) >>= fun command => handleCommand scp03 engine command raw)
      ⟨{ endpoint with trace := endpoint.trace ++ [.received raw] }, cancel, false⟩ := rfl
  rw [hHandle]
  split at hRun
  · rename_i hOk
    rw [hOk]
    exact hRun
  · rename_i hError
    rw [hError]
    exact hRun

/-- What holds of an endpoint between exchanges. -/
def Between (protocol : Protocol scp03 engine) (endpoint : Endpoint κ) : Prop :=
  protocol.Idle false endpoint.session endpoint.card endpoint.trace

theorem reset_between {endpoint : Endpoint κ} (h : protocol.Left endpoint.card endpoint.trace) :
    protocol.Between (endpoint.reset engine) :=
  protocol.left_reset h

theorem fixedResponse_endpoint (bytes : List Byte) (endpoint : Endpoint κ) :
    (endpoint.fixedResponseOrEmpty engine bytes).2 = endpoint := by
  unfold Endpoint.fixedResponseOrEmpty
  split
  · rfl
  · rfl

theorem exchange_between {endpoint : Endpoint κ} (h : protocol.Between endpoint) (raw : List Byte)
    (cancel : Nat → Bool) : protocol.Between (endpoint.exchange scp03 engine raw cancel).2 := by
  have hRun := handle_keeps protocol h cancel raw
  unfold Endpoint.exchange Endpoint.conclude
  cases hHandle : handle scp03 engine raw ⟨endpoint, cancel, false⟩ with
  | ok response exchange =>
      rw [hHandle] at hRun
      simp only
      split
      · rw [fixedResponse_endpoint]
        exact reset_between (protocol.idle_left hRun)
      · rename_i hUncancelled
        have hFalse : exchange.cancelled = false := by simpa using hUncancelled
        simp only [On, hFalse] at hRun
        exact hRun
  | error e exchange =>
      rw [hHandle] at hRun
      simp only
      split
      · rw [fixedResponse_endpoint]
        exact reset_between hRun
      · rw [fixedResponse_endpoint]
        exact reset_between hRun

theorem maintenance_between {endpoint : Endpoint κ} (h : protocol.Between endpoint) (cancel : Nat → Bool) :
    protocol.Between (endpoint.maintenance engine cancel) := by
  obtain ⟨hLeft, hDone⟩ := protocol.maintained cancel h
  unfold Endpoint.maintenance
  simp only
  split
  · exact reset_between hLeft
  · rename_i u hOk
    split
    · exact reset_between (protocol.taken_left hLeft)
    · rename_i hQuiet
      exact hDone u hOk (by simpa using hQuiet)

/-- The protocol holds between the exchanges of every run. -/
theorem reachable_between (protocol : Protocol scp03 engine) {card : κ} (hStart : protocol.Idle false none card [])
    {keys : Keys} {endpoint : Endpoint κ} (h : endpoint.Reachable scp03 engine card keys) :
    protocol.Between endpoint := by
  induction h with
  | new => exact hStart
  | exchange _ raw cancel ih => exact exchange_between ih raw cancel
  | maintenance _ cancel ih => exact maintenance_between ih cancel
  | takeBootloaderRequest _ ih => exact ih
  | reset _ ih => exact reset_between (protocol.idle_left ih)

end Protocol

end MicroCard.Transport
