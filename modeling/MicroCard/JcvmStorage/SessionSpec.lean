import MicroCard.JcvmStorage.Session
import MicroCard.JcvmStorage.HeapLimit
import MicroCard.Jcvm.Seeds
import MicroCard.Journal.Admission
import Mathlib.Data.List.Induction

/-! The workspace of a session. A snapshot of a heap within the limit fits wherever the
maximum does, so a checkpoint wants for space only when the workspace was lost. Every call
returns it but three: the epoch record is made of it, the renewed store comes without one,
and a compaction that the journal refuses drops it. -/
namespace MicroCard.JcvmStorage

open Bytes CrashTriple Codec Slices
open Jcvm (LoadFile PersistentView Sizes)
open Journal (MemoryFlash JournalM)

section Stores

variable {C : Type} {limit maximum : Nat}

/-- The two bounds of a store, which nothing changes. -/
def Shaped (limit maximum : Nat) (store : Store) : Prop := store.heapLimit = limit ∧ store.maximum = maximum

/-- A store that has its workspace. -/
def Stocked (limit maximum : Nat) (store : Store) : Prop :=
  Shaped limit maximum store ∧ maximum ≤ store.workspace.capacity

/-- An operation of the journal keeps what is not about the journal. -/
theorem onJournal_keeps {α : Type} {P : Store → Prop} (operation : JournalM α)
    (hKeeps : ∀ store journal, P store → P { store with journal }) : Invariant P (Store.onJournal operation) := by
  intro store hStore
  rw [Store.onJournal]
  cases operation store.journal with
  | ok a journal => exact hKeeps store journal hStore
  | error e journal => exact hKeeps store journal hStore

theorem encoding_stocked (view : PersistentView) (image : Cbor.Fixed 32) (installation : Cbor.Fixed 16) (size : Nat) :
    Invariant (Stocked limit maximum) (Store.onWorkspace (encodeSnapshotInto view image installation size)) := by
  intro store hStore
  have hCapacity := @encodeSnapshotInto_capacity view image installation size store.workspace
  rw [Store.onWorkspace]
  cases hRun : encodeSnapshotInto view image installation size store.workspace with
  | ok u workspace =>
      rw [hRun] at hCapacity
      exact ⟨hStore.1, hStore.2.trans_eq hCapacity.symm⟩
  | error e workspace =>
      rw [hRun] at hCapacity
      exact ⟨hStore.1, hStore.2.trans_eq hCapacity.symm⟩

theorem preparedCapacity_le (data : Buffer) : data.capacity ≤ preparedCapacity data := by
  rw [preparedCapacity]
  split <;> omega

/-- The journal gives a buffer back that is no smaller. -/
theorem commitReusing_stocked (data : Buffer) (reason : CheckpointReason) (provider : Provider)
    (hCapacity : maximum ≤ data.capacity) :
    Triple (Shaped limit maximum) (Store.onJournal (commitReusing data reason provider))
      (fun record store => Shaped limit maximum store ∧ maximum ≤ record.capacity) fun _ => Shaped limit maximum := by
  intro store hStore
  rw [Store.onJournal]
  cases hRun : commitReusing data reason provider store.journal with
  | error e journal => exact hStore
  | ok record journal =>
      rw [commitReusing, bind_ok] at hRun
      obtain ⟨bytes, between, -, hRecord⟩ := hRun
      obtain ⟨hSame, -⟩ := pure_ok.1 hRecord
      refine ⟨hStore, ?_⟩
      rw [← hSame]
      exact hCapacity.trans (preparedCapacity_le data)

/-- A snapshot that is committed returns the workspace. -/
theorem commitSnapshot_stocked (view : PersistentView) (reason : CheckpointReason) (provider : Provider) :
    Triple (Stocked limit maximum) (Store.commitSnapshot view reason provider) (fun _ => Stocked limit maximum)
      fun _ => Shaped limit maximum := by
  apply Triple.get
  intro store hStore
  apply Triple.bind (Q := fun _ => Stocked limit maximum)
  · exact (Triple.at (encoding_stocked view _ _ _) hStore).conseq (fun _ h => h) (fun _ _ h => h) fun _ _ h => h.1
  · intro _
    apply Triple.bind (Q := fun buffer store => Shaped limit maximum store ∧ maximum ≤ buffer.capacity)
    · exact fun store hStore => hStore
    · intro buffer
      apply Triple.bind (Q := fun record store => Shaped limit maximum store ∧ maximum ≤ record.capacity)
      · apply Triple.of_state
        intro store hShaped
        exact Triple.at (commitReusing_stocked buffer reason provider hShaped.2) hShaped.1
      · exact fun record => Triple.update fun store hStore => hStore

theorem appendChange_stocked (view : PersistentView) (reason : CheckpointReason) (provider : Provider)
    (before : Option Nat) : Invariant (Stocked limit maximum) (Store.appendChange view reason provider before) := by
  cases before with
  | none => exact Invariant.ret false
  | some beforeLength =>
      apply Invariant.bind
      · exact Invariant.get fun store => Invariant.readOnly _
      · intro capacity
        by_cases hNone : capacity = 0
        · rw [if_pos hNone]
          exact Invariant.ret false
        · rw [if_neg hNone]
          apply Invariant.get
          intro store
          split
          · exact Invariant.bind (onJournal_keeps _ fun _ _ h => h) fun _ => Invariant.ret true
          · exact Invariant.ret false
          · exact fun store hStore => hStore

/-- A checkpoint that is taken leaves the workspace. -/
theorem commitView_stocked (view : PersistentView) (reason : CheckpointReason) (provider : Provider) :
    Triple (Stocked limit maximum) (Store.commitView view reason provider) (fun _ => Stocked limit maximum)
      fun _ => Shaped limit maximum := by
  have hStocked : ∀ {α : Type} {program : StoreM α}, Invariant (Stocked limit maximum) program →
      Triple (Stocked limit maximum) program (fun _ => Stocked limit maximum) fun _ => Shaped limit maximum :=
    fun h => h.conseq (fun _ h => h) (fun _ _ h => h) fun _ _ h => h.1
  apply Triple.bind (hStocked (Invariant.readOnly _))
  intro header
  apply Triple.get
  intro store hStore
  apply Triple.bind (Triple.at (hStocked (Invariant.readOnly _)) hStore)
  intro same
  apply Triple.onlyIf
  · intro _
    apply Triple.bind (hStocked (Invariant.readOnly _))
    intro required
    apply Triple.bind (hStocked (Invariant.failIf _ _))
    intro _
    apply Triple.bind (hStocked (appendChange_stocked view reason provider store.heapLength))
    intro appended
    apply Triple.bind (Q := fun _ => Stocked limit maximum)
    · exact Triple.onlyIf (fun _ => commitSnapshot_stocked view reason provider) fun _ _ h => h
    · exact fun _ => Triple.update fun store hStore => hStore
  · exact fun _ store hStore => hStore

theorem checkpoint_stocked (provider : Provider) (request : CheckpointRequest) :
    Triple (Stocked limit maximum) (checkpoint provider request) (fun _ => Stocked limit maximum)
      fun _ => Shaped limit maximum := by
  cases request with
  | capacity count =>
      apply Triple.get
      intro store hStore
      exact Triple.readOnly (fun _ _ s hs => hs ▸ hStore) fun _ _ s hs => hs ▸ hStore.1
  | commit view reason => exact commitView_stocked view reason provider

theorem reserveSnapshotWorkspace_capacity {output reserved : Buffer}
    (hRun : reserveSnapshotWorkspace output maximum = .ok reserved) : maximum ≤ reserved.capacity := by
  rw [reserveSnapshotWorkspace] at hRun
  split at hRun
  · rename_i hLarge
    rw [Except.ok.injEq] at hRun
    rwa [← hRun]
  · obtain ⟨capacity, hCapacity, hSame⟩ := Checks.bind_ok.1 hRun
    have hSum := Checks.orFail_ok.1 hCapacity
    rw [checkedAdd64] at hSum
    split at hSum
    · injection hSum with hSum
      rw [← Checks.pure_ok.1 hSame, ← hSum]
      exact Nat.le_add_right _ _
    · cases hSum

/-- Recovery makes the workspace anew. -/
theorem recover_stocked (engine : Engine C) (image : List Byte) (sizes : Sizes) (provider : Provider) :
    Triple (Shaped limit maximum) (Store.recover engine image sizes provider) (fun _ => Stocked limit maximum)
      fun _ => Shaped limit maximum := by
  have hShaped : ∀ {α : Type} (result : Except Error α), Invariant (Shaped limit maximum) (readOnly result : StoreM α) :=
    fun result => Invariant.readOnly result
  apply Triple.bind (hShaped _)
  intro digest
  apply Triple.get
  intro store hStore
  apply Triple.failIf_bind (fun _ s hs => hs ▸ hStore)
  intro _
  apply Triple.bind ((hShaped _).at hStore)
  intro file
  apply Triple.bind (Q := fun _ => Shaped limit maximum)
  · exact Triple.update fun _ h => h
  · intro _
    apply Triple.bind (onJournal_keeps _ fun _ _ h => h)
    intro snapshot
    refine Triple.readOnly_bind (fun workspace hWorkspace => ?_) fun _ _ _ h => h
    apply Triple.bind (hShaped _)
    intro card
    apply Triple.bind (Q := fun _ => Stocked limit maximum)
    · apply Triple.update
      intro store' hStore'
      have hCapacity := reserveSnapshotWorkspace_capacity hWorkspace
      rw [hStore.2] at hCapacity
      exact ⟨hStore', hCapacity⟩
    · intro _
      refine Triple.readOnly_bind (fun header _ => ?_) fun _ _ _ h => h.1
      exact Triple.bind (Q := fun _ => Stocked limit maximum) (Triple.update fun _ h => h) fun _ => Triple.ret fun _ h => h

end Stores

section Sessions

variable {C α : Type} {limit maximum : Nat} (engine : Engine C)

/-- A session that answers has its workspace. -/
def Session.Kept (limit maximum : Nat) (session : Session C) : Prop :=
  Shaped limit maximum session.store ∧ (session.recoveryRequired = false → maximum ≤ session.store.workspace.capacity)

/-- A session that answers, with its workspace. -/
def Session.Ready (limit maximum : Nat) (session : Session C) : Prop :=
  session.recoveryRequired = false ∧ Stocked limit maximum session.store

theorem Session.Ready.kept {session : Session C} (h : session.Ready limit maximum) : session.Kept limit maximum :=
  ⟨h.2.1, fun _ => h.2.2⟩

namespace Session

/-- What holds of a store operation holds of it in a session. -/
theorem onStore_triple {P : Store → Prop} {Q : α → Store → Prop} {D : Error → Store → Prop} {operation : StoreM α}
    (h : Triple P operation Q D) (required : Bool) :
    Triple (fun session : Session C => session.recoveryRequired = required ∧ P session.store) (onStore operation)
      (fun a session => session.recoveryRequired = required ∧ Q a session.store)
      fun e session => session.recoveryRequired = required ∧ D e session.store := by
  rintro session ⟨hRequired, hStore⟩
  have hRun := h session.store hStore
  rw [onStore]
  cases hResult : operation session.store with
  | ok a store =>
      rw [hResult] at hRun
      exact ⟨hRequired, hRun⟩
  | error e store =>
      rw [hResult] at hRun
      exact ⟨hRequired, hRun⟩

/-- Only a session that answers passes the first check of a call. -/
theorem installed_ready : Triple (Kept limit maximum) (installed : SessionM C Bool) (fun _ => Ready limit maximum)
    fun _ => Kept limit maximum := by
  apply Triple.get
  intro session hKept
  apply Triple.failIf_bind (fun _ s hs => hs ▸ hKept)
  intro hAnswers
  apply Triple.ret
  intro s hs
  subst hs
  have hRequired : s.recoveryRequired = false := by simpa using hAnswers
  exact ⟨hRequired, hKept.1, hKept.2 hRequired⟩

theorem recover_kept (surroundings : Surroundings) :
    Triple (fun session => Shaped limit maximum session.store) (recover engine surroundings)
      (fun _ => Kept limit maximum) fun _ => Kept limit maximum := by
  apply Triple.bind (Q := fun _ (session : Session C) => session.recoveryRequired = true ∧
    Shaped limit maximum session.store)
  · exact Triple.update fun _ h => ⟨rfl, h⟩
  · intro _
    have hUnusable : ∀ session : Session C, session.recoveryRequired = true ∧ Shaped limit maximum session.store →
        session.Kept limit maximum := fun session h => ⟨h.2, fun hAnswers => by rw [h.1] at hAnswers; cases hAnswers⟩
    refine Triple.readOnly_bind (fun code _ => ?_) fun _ _ => hUnusable
    apply Triple.get
    intro session hSession
    apply Triple.bind (Q := fun _ (session : Session C) => session.recoveryRequired = true ∧
      Stocked limit maximum session.store)
    · exact ((onStore_triple (recover_stocked engine code session.sizes surroundings.provider) true).at hSession).conseq
        (fun _ h => h) (fun _ _ h => h) fun _ => hUnusable
    · exact fun card => Triple.update fun _ h => ⟨h.2.1, fun _ => h.2.2⟩

/-- A result that failed is followed by recovery, which needs the bounds alone. -/
theorem finishApdu_kept (result : Except Error α) (surroundings : Surroundings) :
    Triple (fun session => Shaped limit maximum session.store ∧
        ((∃ a, result = .ok a) → session.Kept limit maximum)) (finishApdu engine result surroundings)
      (fun _ => Kept limit maximum) fun _ => Kept limit maximum := by
  cases result with
  | ok a => exact fun session h => h.2 ⟨a, rfl⟩
  | error e =>
      apply Triple.bind ((recover_kept engine surroundings).conseq (fun _ h => h.1) (fun _ _ h => h) fun _ _ h => h)
      exact fun _ => Triple.raise fun _ h => h

/-- A call whose body returns the workspace when it succeeds, and recovers when it fails. -/
theorem finished_kept {body : SessionM C α} (surroundings : Surroundings)
    (hBody : Triple (Ready limit maximum) body (fun _ => Ready limit maximum) fun _ session => Shaped limit maximum session.store) :
    Triple (Ready limit maximum) (capture body >>= fun result => finishApdu engine result surroundings)
      (fun _ => Kept limit maximum) fun _ => Kept limit maximum := by
  apply Triple.capture_bind hBody
  · exact fun a => (finishApdu_kept engine _ surroundings).conseq (fun _ h => ⟨h.2.1, fun _ => h.kept⟩) (fun _ _ h => h)
      fun _ _ h => h
  · intro e
    apply (finishApdu_kept engine (.error e) surroundings).conseq (fun _ h => ⟨h, ?_⟩) (fun _ _ h => h) fun _ _ h => h
    rintro ⟨a, hNever⟩
    cases hNever

/-- A check that leaves the session as it is. -/
theorem readOnly_ready (result : Except Error α) :
    Triple (Ready limit maximum) (readOnly result : SessionM C α) (fun _ => Ready limit maximum)
      fun _ session => Shaped limit maximum session.store :=
  Triple.readOnly (fun _ _ _ h => h) fun _ _ _ h => h.2.1

theorem failIf_ready (c : Prop) [Decidable c] (e : Error) :
    Triple (Ready limit maximum) (failIf c e : SessionM C Unit) (fun _ => Ready limit maximum)
      fun _ session => Shaped limit maximum session.store :=
  (Invariant.failIf c e).conseq (fun _ h => h) (fun _ _ h => h) fun _ _ h => h.2.1

/-- A refused checkpoint ends the command; one that is taken leaves the workspace. -/
theorem executed_ready (execution : Execution C α) (provider : Provider) :
    Triple (Ready limit maximum) (executed execution provider) (fun _ => Ready limit maximum)
      fun _ session => Shaped limit maximum session.store := by
  have hRequests : Triple (Stocked limit maximum) (execution.requests.forM (checkpoint provider))
      (fun _ => Stocked limit maximum) fun _ => Shaped limit maximum :=
    Triple.forM (fun _ => Stocked limit maximum) fun _ _ => checkpoint_stocked provider _
  apply Triple.capture_bind (onStore_triple hRequests false)
  · intro granted
    apply Triple.bind (Q := fun _ => Ready limit maximum)
    · exact Triple.update fun _ h => h
    · exact fun _ => readOnly_ready _
  · intro e
    apply Triple.bind (Q := fun _ session => Shaped limit maximum session.store)
    · exact Triple.update fun _ h => h.2
    · exact fun _ => Triple.readOnly (fun _ hNever => nomatch hNever) fun _ _ _ h => h

theorem processCommand_kept (command : List Byte) (security : Option Byte) (execution : Execution C α)
    (cancelled : Bool) (surroundings : Surroundings) :
    Invariant (Kept limit maximum) (processCommand engine command security execution cancelled surroundings) := by
  have hPass : ∀ (c : Prop) [Decidable c] (e : Error), Triple (Ready limit maximum) (failIf c e : SessionM C Unit)
      (fun _ => Ready limit maximum) fun _ => Kept limit maximum :=
    fun c _ e => (Invariant.failIf c e).conseq (fun _ h => h) (fun _ _ h => h) fun _ _ h => h.kept
  apply Triple.bind installed_ready
  intro present
  apply Triple.bind (hPass _ _)
  intro _
  apply Triple.bind (hPass _ _)
  intro _
  apply finished_kept
  apply Triple.bind (readOnly_ready _)
  intro file
  apply Triple.bind (failIf_ready _ _)
  exact fun _ => executed_ready execution surroundings.provider

theorem deselect_kept (execution : Execution C Unit) (surroundings : Surroundings) :
    Invariant (Kept limit maximum) (deselect engine execution surroundings) := by
  have hSelected : Triple (Kept limit maximum) (selected engine) (fun _ => Ready limit maximum)
      fun _ => Kept limit maximum := by
    apply Triple.bind installed_ready
    exact fun _ => Triple.get fun session h => Triple.ret fun s hs => hs ▸ h
  apply Triple.bind hSelected
  intro chosen
  apply Triple.onlyIf
  · intro _
    apply finished_kept
    apply Triple.bind (readOnly_ready _)
    exact fun file => executed_ready execution surroundings.provider
  · exact fun _ session h => h.kept

theorem commit_stocked (card : C) (provider : Provider) :
    Triple (Stocked limit maximum) (commit engine card provider) (fun _ => Stocked limit maximum)
      fun _ => Shaped limit maximum :=
  Triple.readOnly_bind (fun view _ => commitView_stocked view .installation provider) fun _ _ _ h => h.1

/-- An installation that completed is committed; whatever fails is followed by recovery. -/
theorem finishInstall_kept (result : Except Error Unit) (late : Bool) (surroundings : Surroundings) :
    Triple (Ready limit maximum) (finishInstall engine result late surroundings) (fun _ => Kept limit maximum)
      fun _ => Kept limit maximum := by
  apply finished_kept
  apply Triple.bind (readOnly_ready result)
  intro _
  apply Triple.get
  intro session hReady
  apply Triple.orFail_bind (fun _ s hs => hs ▸ hReady.2.1)
  intro card _
  apply Triple.bind (Q := fun _ => Ready limit maximum)
  · exact (onStore_triple (commit_stocked engine card surroundings.provider) false).conseq (fun _ hs => hs ▸ hReady)
      (fun _ _ h => h) fun _ _ h => h.2
  · exact fun _ => failIf_ready _ _

theorem install_kept (installing : Except Jcvm.Error (Installing C)) (cancelled late : Bool)
    (surroundings : Surroundings) :
    Invariant (Kept limit maximum) (install engine installing cancelled late surroundings) := by
  have hPass : ∀ (c : Prop) [Decidable c] (e : Error), Triple (Ready limit maximum) (failIf c e : SessionM C Unit)
      (fun _ => Ready limit maximum) fun _ => Kept limit maximum :=
    fun c _ e => (Invariant.failIf c e).conseq (fun _ h => h) (fun _ _ h => h) fun _ _ h => h.kept
  apply Triple.bind installed_ready
  intro present
  apply Triple.bind (hPass _ _)
  intro _
  apply Triple.bind (hPass _ _)
  intro _
  have hCallback : Invariant (Ready limit maximum) (do
      let _ ← readOnly (loadFile surroundings)
      let installing ← readOnly (installing.mapError sessionError)
      modify fun session => { session with card := some installing.card }
      readOnly (installing.outcome.mapError sessionError) : SessionM C Unit) := by
    apply Invariant.bind (Invariant.readOnly _)
    intro file
    apply Invariant.bind (Invariant.readOnly _)
    intro fresh
    apply Invariant.bind
    · exact Invariant.update fun _ h => h
    · exact fun _ => Invariant.readOnly _
  apply Triple.capture_bind hCallback
  · exact fun _ => finishInstall_kept engine _ late surroundings
  · exact fun _ => finishInstall_kept engine _ late surroundings

theorem onCard_kept (change : EStateM Jcvm.Error C α) : Invariant (Kept limit maximum) (onCard change) := by
  apply Triple.bind installed_ready
  intro _
  apply Triple.get
  intro session hReady
  apply Triple.orFail_bind (fun _ s hs => hs ▸ hReady.kept)
  intro card _
  apply Triple.conseq (P := Kept limit maximum) ?_ (fun s hs => hs ▸ hReady.kept) (fun _ _ h => h) fun _ _ h => h
  split
  · apply Triple.bind (Q := fun _ => Kept limit maximum)
    · exact Triple.update fun _ h => h
    · exact fun _ => Triple.ret fun _ h => h
  · apply Triple.bind (Q := fun _ => Kept limit maximum)
    · exact Triple.update fun _ h => h
    · exact fun _ => Triple.raise fun _ h => h

end Session

end Sessions

section Spending

variable {C : Type} {limit maximum : Nat} (engine : Engine C)

/-- The live state of the card. -/
def Session.Shows (session : Session C) (view : PersistentView) : Prop :=
  ∃ card, session.card = some card ∧ engine.persistentView card = .ok view

/-- The session answers, and this is the live state of its card. -/
def Session.Live (session : Session C) (view : PersistentView) : Prop :=
  session.recoveryRequired = false ∧ session.Shows engine view

/-- A call from which the workspace does not return: an epoch record for the identity and
the image of the store, a renewed store that is adopted, and a compaction whose snapshot
the journal refuses. -/
def Operation.Spends (surroundings : Surroundings) (session : Session C) : Operation C → Prop
  | .prepareEpochRecord oldIdentity image _ _ =>
      session.store.installation = oldIdentity ∧ session.store.image = image ∧ ∃ view, session.Live engine view
  | .adoptRenewedStore flash key installation =>
      session.store.installation ≠ installation ∧ ∃ view, session.Live engine view ∧
        ∃ renewed, session.renewedStore view flash key installation surroundings = .ok renewed
  | .compactIdle => ∃ view snapshot e journal, session.Live engine view ∧
      encodeSnapshotInto view session.store.image session.store.installation session.store.maximum
        session.store.workspace = .ok () snapshot ∧
      commitReusing snapshot .apduEnd surroundings.provider session.store.journal = .error e journal
  | _ => False

/-- `installed` returns. -/
def Session.Answers (session : Session C) : Prop := ∃ present, Session.installed session = .ok present session

/-- As long as the session answers, no snapshot of a heap within the limit is refused for
want of space. -/
def Session.Roomy (statics : Nat) (session : Session C) : Prop :=
  session.Answers → ∀ view : PersistentView, view.instance' < 2 ^ 16 → view.statics.length = statics →
    view.heapBytes ≤ session.store.heapLimit → ∀ workspace, encodeSnapshotInto view session.store.image
      session.store.installation session.store.maximum session.store.workspace ≠ .error .quota workspace

theorem Session.answers_iff {session : Session C} : session.Answers ↔ session.recoveryRequired = false := by
  simp only [Session.Answers, Session.installed, bind_ok, get_ok, failIf_ok, pure_ok, Bool.not_eq_true]
  constructor
  · rintro ⟨present, _, _, ⟨rfl, -⟩, _, _, ⟨hAnswers, -⟩, -⟩
    exact hAnswers
  · exact fun hAnswers => ⟨_, _, _, ⟨rfl, rfl⟩, (), _, ⟨hAnswers, rfl⟩, rfl, rfl⟩

/-- A session with its workspace has room. -/
theorem Session.Kept.roomy {session : Session C} {statics : Nat} (h : session.Kept limit maximum)
    (hAdmits : Admits limit statics maximum) : session.Roomy statics := by
  intro hAnswers view hInstance hStatics hHeap workspace hRun
  obtain ⟨⟨hLimit, hMaximum⟩, hCapacity⟩ := h
  obtain ⟨size, hSize, hFits⟩ := hAdmits view.instance' view.heapBytes hInstance (hLimit ▸ hHeap)
  rw [← hStatics] at hSize
  rw [← hMaximum] at hFits hCapacity
  exact encodeSnapshotInto_roomy hSize hFits (hCapacity (Session.answers_iff.1 hAnswers)) hRun rfl

/-- A session without a workspace has none. -/
theorem Session.Roomy.stocked {session : Session C} {statics : Nat} (h : session.Roomy statics)
    (hAnswers : session.recoveryRequired = false) : session.store.workspace.capacity ≠ 0 := by
  intro hEmpty
  have hSmall : (PersistentView.mk (fun _ => 0) 0 (List.replicate statics 0) 0 0 none).heapBytes ≤
      session.store.heapLimit := Nat.zero_le _
  exact h (Session.answers_iff.2 hAnswers) _ (Nat.two_pow_pos 16) (List.length_replicate ..) hSmall _
    (encodeSnapshotInto_starved hEmpty)

/-- What is left of a store without its workspace. -/
def Session.Starved (session : Session C) : Prop :=
  session.recoveryRequired = false ∧ session.store.workspace.capacity = 0

/-- The outcome of a snapshot, from those of the encoder and of the journal. -/
theorem commitSnapshot_eq (view : PersistentView) (reason : CheckpointReason) (provider : Provider) (store : Store) :
    Store.commitSnapshot view reason provider store =
      match encodeSnapshotInto view store.image store.installation store.maximum store.workspace with
      | .error e workspace => .error e { store with workspace }
      | .ok () snapshot =>
          match commitReusing snapshot reason provider store.journal with
          | .error e journal => .error e { store with journal, workspace := .empty }
          | .ok record journal => .ok () { store with journal, workspace := ⟨[], record.capacity⟩ } := by
  simp only [Store.commitSnapshot, bind, EStateM.bind, get, getThe, MonadStateOf.get, EStateM.get, Store.onWorkspace]
  cases encodeSnapshotInto view store.image store.installation store.maximum store.workspace with
  | error e workspace => rfl
  | ok u snapshot =>
      simp only [Store.takeWorkspace, Store.onJournal]
      cases commitReusing snapshot reason provider store.journal with
      | error e journal => rfl
      | ok record journal => rfl

/-- A snapshot that the journal does not refuse returns the workspace, also when it cannot
be encoded. -/
theorem commitSnapshot_accepted {view : PersistentView} {reason : CheckpointReason} {provider : Provider} {store : Store}
    (hStore : Stocked limit maximum store)
    (hAccepted : ∀ snapshot e journal,
      encodeSnapshotInto view store.image store.installation store.maximum store.workspace = .ok () snapshot →
        commitReusing snapshot reason provider store.journal ≠ .error e journal) :
    Triple (fun s => s = store) (Store.commitSnapshot view reason provider) (fun _ => Stocked limit maximum)
      fun _ => Stocked limit maximum := by
  have hAll := commitSnapshot_stocked view reason provider store hStore
  have hCapacity := @encodeSnapshotInto_capacity view store.image store.installation store.maximum
    store.workspace
  intro s hs
  subst hs
  rw [commitSnapshot_eq] at hAll ⊢
  cases hEncode : encodeSnapshotInto view s.image s.installation s.maximum s.workspace with
  | error e workspace =>
      rw [hEncode] at hCapacity
      exact ⟨hStore.1, hStore.2.trans_eq hCapacity.symm⟩
  | ok u snapshot =>
      rw [hEncode] at hAll
      cases hCommit : commitReusing snapshot reason provider s.journal with
      | error e journal => exact absurd hCommit (hAccepted snapshot e journal hEncode)
      | ok record journal =>
          simp only [hCommit] at hAll ⊢
          exact hAll

theorem compactView_accepted {view : PersistentView} {provider : Provider} {store : Store}
    (hStore : Stocked limit maximum store)
    (hAccepted : ∀ snapshot e journal,
      encodeSnapshotInto view store.image store.installation store.maximum store.workspace = .ok () snapshot →
        commitReusing snapshot .apduEnd provider store.journal ≠ .error e journal) :
    Triple (fun s => s = store) (Store.compactView view provider) (fun _ => Stocked limit maximum)
      fun _ => Stocked limit maximum := by
  apply Triple.bind (commitSnapshot_accepted hStore hAccepted)
  intro _
  apply Triple.bind (Q := fun _ => Stocked limit maximum)
  · exact Triple.update fun _ h => h
  · intro _
    apply Triple.bind (Invariant.readOnly _)
    exact fun header => Triple.update fun _ h => h

namespace Session

variable {session : Session C} {view : PersistentView}

theorem installed_refused (hRequired : session.recoveryRequired = true) : installed session = .error .storage session := by
  simp only [installed, bind, EStateM.bind, get, getThe, MonadStateOf.get, EStateM.get, failIf, hRequired, if_true]
  rfl

theorem installed_answered (hAnswers : session.recoveryRequired = false) :
    installed session = .ok session.card.isSome session := by
  simp only [installed, bind, EStateM.bind, get, getThe, MonadStateOf.get, EStateM.get, failIf, hAnswers,
    Bool.false_eq_true, if_false]
  rfl

theorem liveView_shows (hShows : session.Shows engine view) : liveView engine session = .ok view session := by
  obtain ⟨card, hCard, hView⟩ := hShows
  simp only [liveView, bind, EStateM.bind, get, getThe, MonadStateOf.get, EStateM.get, hCard, orFail, pure,
    EStateM.pure, hView, Except.mapError, readOnly]

/-- Either the live state is read, or there is none. -/
theorem liveView_cases (session : Session C) : (∃ view, session.Shows engine view) ∨
    ∃ e, liveView engine session = .error e session := by
  cases hCard : session.card with
  | none =>
      refine .inr ⟨.missing, ?_⟩
      simp only [liveView, bind, EStateM.bind, get, getThe, MonadStateOf.get, EStateM.get, hCard]
      rfl
  | some card =>
      cases hView : engine.persistentView card with
      | error e =>
          refine .inr ⟨sessionError e, ?_⟩
          simp only [liveView, bind, EStateM.bind, get, getThe, MonadStateOf.get, EStateM.get, hCard, orFail, pure,
            EStateM.pure, hView, Except.mapError, readOnly]
      | ok view => exact .inl ⟨view, card, hCard, hView⟩

theorem compactIdle_live (provider : Provider) (hLive : session.Live engine view) :
    compactIdle engine provider session = onStore (Store.compactView view provider) session := by
  simp only [compactIdle, bind, EStateM.bind, installed_answered hLive.1, liveView_shows engine hLive.2]

/-- A compaction that the journal does not refuse leaves the workspace. -/
theorem compactIdle_kept (surroundings : Surroundings) (hKept : session.Kept limit maximum)
    (hSaved : ¬Operation.compactIdle.Spends engine surroundings session) :
    (final (compactIdle engine surroundings.provider session)).Kept limit maximum := by
  cases hRequired : session.recoveryRequired with
  | true =>
      simp only [compactIdle, bind, EStateM.bind, installed_refused hRequired]
      exact hKept
  | false =>
      obtain ⟨view, hShows⟩ | ⟨e, hError⟩ := liveView_cases engine session
      · have hLive : session.Live engine view := ⟨hRequired, hShows⟩
        rw [compactIdle_live engine surroundings.provider hLive]
        have hStocked : Stocked limit maximum session.store := ⟨hKept.1, hKept.2 hRequired⟩
        have hCompact := @compactView_accepted limit maximum view surroundings.provider session.store hStocked
          fun snapshot e journal hEncode hCommit => hSaved ⟨view, snapshot, e, journal, hLive, hEncode, hCommit⟩
        exact (Triple.final (R := Ready limit maximum) (onStore_triple hCompact false) ⟨hRequired, rfl⟩).kept
      · simp only [compactIdle, bind, EStateM.bind, installed_answered hRequired, hError]
        exact hKept

theorem compactIdle_spent (surroundings : Surroundings)
    (hSpends : Operation.compactIdle.Spends engine surroundings session) :
    (final (compactIdle engine surroundings.provider session)).Starved := by
  obtain ⟨view, snapshot, e, journal, hLive, hEncode, hCommit⟩ := hSpends
  rw [compactIdle_live engine surroundings.provider hLive]
  simp only [onStore, Store.compactView, bind, EStateM.bind, commitSnapshot_eq, hEncode, hCommit, final]
  exact ⟨hLive.1, rfl⟩

/-- An epoch record is only made where the identity, the image and the card are there. -/
theorem prepareEpochRecord_kept {oldIdentity newIdentity : Cbor.Fixed 16} {image : Cbor.Fixed 32} {key : List Byte}
    (surroundings : Surroundings) (hKept : session.Kept limit maximum)
    (hSaved : ¬(Operation.prepareEpochRecord oldIdentity image newIdentity key).Spends engine surroundings session) :
    (final (prepareEpochRecord engine oldIdentity image newIdentity key surroundings.provider session)).Kept limit
      maximum := by
  cases hRequired : session.recoveryRequired with
  | true =>
      simp only [prepareEpochRecord, bind, EStateM.bind, installed_refused hRequired]
      exact hKept
  | false =>
      simp only [prepareEpochRecord, bind, EStateM.bind, installed_answered hRequired, get, getThe, MonadStateOf.get,
        EStateM.get, failIf]
      by_cases hOther : session.store.installation ≠ oldIdentity ∨ session.store.image ≠ image
      · rw [if_pos hOther]
        exact hKept
      · rw [if_neg hOther]
        obtain ⟨view, hShows⟩ | ⟨e, hError⟩ := liveView_cases engine session
        · rw [not_or, not_not, not_not] at hOther
          exact absurd ⟨hOther.1, hOther.2, view, hRequired, hShows⟩ hSaved
        · simp only [pure, EStateM.pure, hError]
          exact hKept

/-- The record takes the workspace with it, also when it is not made. -/
theorem prepared_starved (installation : Cbor.Fixed 16) (key : List Byte) (provider : Provider) (store : Store) :
    (final (Store.prepareEpochRecord view installation key provider store)).workspace = .empty := by
  have hTaken : Triple (fun _ => True) (Store.prepareEpochRecord view installation key provider)
      (fun _ store => store.workspace = .empty) fun _ store => store.workspace = .empty := by
    apply Triple.bind (Q := fun _ store => store.workspace = .empty) (fun store _ => rfl)
    intro buffer
    apply Triple.get
    intro store hStore
    apply Triple.bind (Triple.at (P := fun store : Store => store.workspace = .empty) (Invariant.readOnly _) hStore)
    intro snapshot
    split
    · exact Invariant.readOnly _
    · exact Triple.raise fun _ h => h
  exact hTaken.final trivial

theorem prepareEpochRecord_spent {oldIdentity newIdentity : Cbor.Fixed 16} {image : Cbor.Fixed 32} {key : List Byte}
    (surroundings : Surroundings)
    (hSpends : (Operation.prepareEpochRecord oldIdentity image newIdentity key).Spends engine surroundings session) :
    (final (prepareEpochRecord engine oldIdentity image newIdentity key surroundings.provider session)).Starved := by
  obtain ⟨hIdentity, hImage, view, hLive⟩ := hSpends
  have hEmpty := @prepared_starved view newIdentity key surroundings.provider session.store
  have hSame : ¬(session.store.installation ≠ oldIdentity ∨ session.store.image ≠ image) := by
    rw [not_or, not_not, not_not]
    exact ⟨hIdentity, hImage⟩
  simp only [prepareEpochRecord, bind, EStateM.bind, installed_answered hLive.1, get, getThe, MonadStateOf.get,
    EStateM.get, failIf, if_neg hSame, pure, EStateM.pure, liveView_shows engine hLive.2,
    onStore]
  cases hRun : Store.prepareEpochRecord view newIdentity key surroundings.provider session.store with
  | ok record store =>
      rw [hRun] at hEmpty
      exact ⟨hLive.1, congrArg Buffer.capacity hEmpty⟩
  | error e store =>
      rw [hRun] at hEmpty
      exact ⟨hLive.1, congrArg Buffer.capacity hEmpty⟩

/-- The renewed store comes without a workspace. -/
theorem renewedStore_empty {flash : MemoryFlash} {key : List Byte} {installation : Cbor.Fixed 16}
    {surroundings : Surroundings} {renewed : Store}
    (hRun : session.renewedStore view flash key installation surroundings = .ok renewed) :
    renewed.workspace = .empty := by
  simp only [renewedStore, Checks.bind_ok] at hRun
  obtain ⟨code, -, file, -, ⟨fresh, snapshot⟩, hOpened, -, -, bytes, -, saved, -, -, -, -, -, hSame⟩ := hRun
  have hFresh : fresh.workspace = .empty := by
    simp only [Store.openSnapshot, Checks.bind_ok] at hOpened
    obtain ⟨-, -, image, -, hJournal⟩ := hOpened
    split at hJournal
    · obtain ⟨hStore, -⟩ := Prod.mk.inj (Checks.pure_ok.1 hJournal)
      rw [← hStore]
    · cases hJournal
  rw [← Checks.pure_ok.1 hSame]
  exact hFresh

/-- A handoff that fails forbids the session, and keeps its store. -/
theorem adoptRenewedStore_kept {flash : MemoryFlash} {key : List Byte} {installation : Cbor.Fixed 16}
    (surroundings : Surroundings) (hKept : session.Kept limit maximum)
    (hSaved : ¬(Operation.adoptRenewedStore flash key installation).Spends engine surroundings session) :
    (final (adoptRenewedStore engine flash key installation surroundings session)).Kept limit maximum := by
  cases hRequired : session.recoveryRequired with
  | true =>
      simp only [adoptRenewedStore, bind, EStateM.bind, installed_refused hRequired]
      exact hKept
  | false =>
      have hForbidden : Kept limit maximum { session with recoveryRequired := true } :=
        ⟨hKept.1, fun hNever => nomatch hNever⟩
      simp only [adoptRenewedStore, bind, EStateM.bind, installed_answered hRequired, modify, modifyGet,
        MonadStateOf.modifyGet, EStateM.modifyGet, get, getThe, MonadStateOf.get, EStateM.get, failIf]
      by_cases hSame : session.store.installation = installation
      · rw [if_pos hSame]
        exact hForbidden
      · rw [if_neg hSame]
        obtain ⟨view, hShows⟩ | ⟨e, hError⟩ := liveView_cases engine { session with recoveryRequired := true }
        · simp only [pure, EStateM.pure, liveView_shows engine hShows]
          cases hRenewed : renewedStore { session with recoveryRequired := true } view flash key installation
              surroundings with
          | ok renewed => exact absurd ⟨hSame, view, ⟨hRequired, hShows⟩, renewed, hRenewed⟩ hSaved
          | error e => exact hForbidden
        · simp only [pure, EStateM.pure, hError]
          exact hForbidden

theorem adoptRenewedStore_spent {flash : MemoryFlash} {key : List Byte} {installation : Cbor.Fixed 16}
    (surroundings : Surroundings)
    (hSpends : (Operation.adoptRenewedStore flash key installation).Spends engine surroundings session) :
    (final (adoptRenewedStore engine flash key installation surroundings session)).Starved := by
  obtain ⟨hOther, view, hLive, renewed, hRenewed⟩ := hSpends
  have hEmpty := renewedStore_empty hRenewed
  have hShows : Shows engine { session with recoveryRequired := true } view := hLive.2
  have hRun : renewedStore { session with recoveryRequired := true } view flash key installation surroundings =
      .ok renewed := hRenewed
  simp only [adoptRenewedStore, bind, EStateM.bind, installed_answered hLive.1, modify, modifyGet,
    MonadStateOf.modifyGet, EStateM.modifyGet, get, getThe, MonadStateOf.get, EStateM.get, failIf, if_neg hOther, pure,
    EStateM.pure, liveView_shows engine hShows, readOnly, hRun, final]
  exact ⟨rfl, congrArg Buffer.capacity hEmpty⟩

end Session

end Spending

section Runs

variable {C : Type} {limit maximum : Nat} (engine : Engine C) {session : Session C}

/-- A call that does not spend the workspace leaves it to the session. -/
theorem Session.after_kept (call : Call C) (hKept : session.Kept limit maximum)
    (hSaved : ¬call.operation.Spends engine call.surroundings session) :
    (session.after engine call).Kept limit maximum := by
  obtain ⟨surroundings, operation⟩ := call
  cases operation with
  | processCommand command security execution cancelled =>
      exact (Session.processCommand_kept engine command security execution cancelled surroundings).final hKept
  | deselect execution => exact (Session.deselect_kept engine execution surroundings).final hKept
  | install installing cancelled late =>
      exact (Session.install_kept engine installing cancelled late surroundings).final hKept
  | recover => exact (Session.recover_kept engine surroundings).final hKept.1
  | compactIdle => exact Session.compactIdle_kept engine surroundings hKept hSaved
  | onCard change => exact (Session.onCard_kept change).final hKept
  | prepareEpochRecord oldIdentity image newIdentity key =>
      have hPrepared := Session.prepareEpochRecord_kept engine surroundings hKept hSaved
      simp only [Session.after, Operation.run, bind, EStateM.bind]
      revert hPrepared
      cases Session.prepareEpochRecord engine oldIdentity image newIdentity key surroundings.provider session with
      | ok record after => exact fun h => h
      | error e after => exact fun h => h
  | adoptRenewedStore flash key installation => exact Session.adoptRenewedStore_kept engine surroundings hKept hSaved
  | takeSecurityReset => exact hKept
  | losePowerAfter writes => exact hKept

/-- A call that spends the workspace leaves a session that answers without it. -/
theorem Session.after_starved (call : Call C) (hSpends : call.operation.Spends engine call.surroundings session) :
    (session.after engine call).Starved := by
  obtain ⟨surroundings, operation⟩ := call
  cases operation with
  | compactIdle => exact Session.compactIdle_spent engine surroundings hSpends
  | prepareEpochRecord oldIdentity image newIdentity key =>
      have hPrepared := Session.prepareEpochRecord_spent engine surroundings hSpends
      simp only [Session.after, Operation.run, bind, EStateM.bind]
      revert hPrepared
      cases Session.prepareEpochRecord engine oldIdentity image newIdentity key surroundings.provider session with
      | ok record after => exact fun h => h
      | error e after => exact fun h => h
  | adoptRenewedStore flash key installation => exact Session.adoptRenewedStore_spent engine surroundings hSpends
  | processCommand command security execution cancelled => exact hSpends.elim
  | deselect execution => exact hSpends.elim
  | install installing cancelled late => exact hSpends.elim
  | recover => exact hSpends.elim
  | onCard change => exact hSpends.elim
  | takeSecurityReset => exact hSpends.elim
  | losePowerAfter writes => exact hSpends.elim

theorem Session.afterAll_concat (calls : List (Call C)) (call : Call C) :
    session.afterAll engine (calls ++ [call]) = (session.afterAll engine calls).after engine call := by
  rw [Session.afterAll, Session.afterAll, List.foldl_append]
  rfl

/-- In a run without a call that spends the workspace every state has it. -/
theorem Session.afterAll_kept (calls : List (Call C)) (hKept : session.Kept limit maximum)
    (hSaved : ∀ before call after, calls = before ++ call :: after →
      ¬call.operation.Spends engine call.surroundings (session.afterAll engine before)) :
    (session.afterAll engine calls).Kept limit maximum := by
  induction calls using List.reverseRecOn with
  | nil => exact hKept
  | append_singleton calls call ih =>
      rw [Session.afterAll_concat]
      apply Session.after_kept engine call _ (hSaved calls call [] rfl)
      apply ih
      intro before other after hCalls
      exact hSaved before other (after ++ [call]) (by rw [hCalls, List.append_assoc, List.cons_append])

/-- An opened session has its workspace, and a heap limit that fits the bank. -/
theorem Session.opened_kept {flash : MemoryFlash} {key : List Byte} {installation : Cbor.Fixed 16} {sizes : Sizes}
    {surroundings : Surroundings} {file : LoadFile} {fields : Jcvm.StaticField}
    (hOpened : Session.opened engine flash key installation sizes surroundings = .ok session)
    (hFile : Session.loadFile surroundings = .ok file) (hFields : file.staticFields = .ok fields) :
    ∃ limit maximum, session.Kept limit maximum ∧ Admits limit fields.imageSize maximum := by
  obtain ⟨code, hCode, hParse⟩ := Checks.bind_ok.1 hFile
  simp only [Session.opened, Checks.bind_ok, hCode, Except.ok.injEq] at hOpened
  obtain ⟨_, rfl, ⟨store, card⟩, hStore, hSession⟩ := hOpened
  simp only [Store.opened, Checks.bind_ok, hParse, Except.ok.injEq] at hStore
  obtain ⟨_, rfl, ⟨fresh, snapshot⟩, hFresh, _, hStatics, heapLimit, hLimit, workspace, hWorkspace, restored, -, header, -,
    hSame⟩ := hStore
  rw [hFields] at hStatics
  injection hStatics with hStatics
  subst hStatics
  obtain ⟨hStore, -⟩ := Prod.mk.inj (Checks.pure_ok.1 hSame)
  have hCapacity := reserveSnapshotWorkspace_capacity hWorkspace
  refine ⟨heapLimit, fresh.maximum, ?_, (maximumHeapBytes_largest hLimit).2.1.admits⟩
  rw [← Checks.pure_ok.1 hSession, ← hStore]
  exact ⟨⟨rfl, rfl⟩, fun _ => hCapacity⟩

/-- Every state of a run has room for a snapshot exactly when no call of it spends the
workspace. -/
theorem workspace_kept_iff {flash : MemoryFlash} {key : List Byte} {installation : Cbor.Fixed 16} {sizes : Sizes}
    {surroundings : Surroundings} {file : LoadFile} {fields : Jcvm.StaticField}
    (hOpened : Session.opened engine flash key installation sizes surroundings = .ok session)
    (hFile : Session.loadFile surroundings = .ok file) (hFields : file.staticFields = .ok fields)
    (calls : List (Call C)) :
    (∀ before after, calls = before ++ after → (session.afterAll engine before).Roomy fields.imageSize) ↔
      ∀ before call after, calls = before ++ call :: after →
        ¬call.operation.Spends engine call.surroundings (session.afterAll engine before) := by
  obtain ⟨limit, maximum, hKept, hAdmits⟩ := Session.opened_kept engine hOpened hFile hFields
  constructor
  · intro hRoomy before call after hCalls hSpends
    have hStarved := Session.after_starved engine call hSpends
    rw [← Session.afterAll_concat] at hStarved
    have hRoom := hRoomy (before ++ [call]) after (by rw [hCalls, List.append_assoc, List.singleton_append])
    exact hRoom.stocked hStarved.1 hStarved.2
  · intro hSaved before after hCalls
    have hPrior : (session.afterAll engine before).Kept limit maximum := by
      apply Session.afterAll_kept engine before hKept
      intro earlier call rest hBefore
      exact hSaved earlier call (rest ++ after) (by rw [hCalls, hBefore, List.append_assoc, List.cons_append])
    exact hPrior.roomy hAdmits

end Runs

section Renewal

/-- An engine with one card, whose state never changes. -/
def stillEngine : Engine Unit where
  restore := fun _ _ _ => .ok ()
  persistentView := fun _ => .ok { PersistentView.smallView with statics := [0, 0] }
  persistentHeapBytes := fun _ => 26
  selected := fun _ => true

/-- A host whose digest of every code is zero. -/
def stillSurroundings : Surroundings where
  code := .ok Jcvm.AppletInstance.seedBlock
  provider := ⟨Journal.plainProvider, fun _ => .ok ⟨List.replicate 32 0, by decide⟩⟩

def firstIdentity : Cbor.Fixed 16 := Cbor.Fixed.replicate 16 1

def secondIdentity : Cbor.Fixed 16 := Cbor.Fixed.replicate 16 2

/-- A session on erased storage. -/
def freshSession : Except Error (Session Unit) :=
  Session.opened stillEngine (MemoryFlash.withSlots 192 2 (by decide)) [] firstIdentity ⟨26, 0, 0, 0⟩ stillSurroundings

def installCall : Call Unit := ⟨stillSurroundings, .install (.ok ⟨(), .ok ()⟩) false false⟩

def renewCall : Call Unit :=
  ⟨stillSurroundings, .prepareEpochRecord firstIdentity ⟨List.replicate 32 0, by decide⟩ secondIdentity []⟩

set_option maxRecDepth 4000 in
theorem freshSession_opened : ∃ session file fields, freshSession = .ok session ∧
    Session.loadFile stillSurroundings = .ok file ∧ file.staticFields = .ok fields := by
  have hOpened : freshSession.isOk = true := by decide +kernel
  have hParsed : (Session.loadFile stillSurroundings >>= fun file => engineCheck .format file.staticFields).isOk = true := by
    decide +kernel
  cases hSession : freshSession with
  | error e =>
      rw [hSession] at hOpened
      cases hOpened
  | ok session =>
      cases hFile : Session.loadFile stillSurroundings with
      | error e =>
          rw [hFile] at hParsed
          cases hParsed
      | ok file =>
          cases hFields : file.staticFields with
          | error e =>
              have hNever : (engineCheck .format file.staticFields).isOk = true := by rwa [hFile] at hParsed
              rw [hFields] at hNever
              cases hNever
          | ok fields => exact ⟨session, file, fields, rfl, rfl, hFields⟩

theorem workspace_kept_iff_install : ∃ session fields, freshSession = .ok session ∧
    ∀ before after, [installCall] = before ++ after →
      (session.afterAll stillEngine before).Roomy (Jcvm.StaticField.imageSize fields) := by
  obtain ⟨session, file, fields, hOpened, hFile, hFields⟩ := freshSession_opened
  refine ⟨session, fields, hOpened, ?_⟩
  apply (workspace_kept_iff stillEngine hOpened hFile hFields [installCall]).2
  intro before call after hCalls hSpends
  cases before with
  | nil =>
      rw [List.nil_append] at hCalls
      injection hCalls with hCall
      rw [← hCall] at hSpends
      exact hSpends
  | cons first before =>
      injection hCalls with _ hRest
      cases before <;> cases hRest

/-- An installed session that prepares an epoch record answers, and refuses the snapshot of
its own card. -/
theorem workspace_lost_to_record : ∃ session file fields, freshSession = .ok session ∧
    Session.loadFile stillSurroundings = .ok file ∧ file.staticFields = .ok fields ∧
      (session.afterAll stillEngine [installCall, renewCall]).Answers ∧
        ¬(session.afterAll stillEngine [installCall, renewCall]).Roomy fields.imageSize ∧
          ∃ after, Store.commitSnapshot { PersistentView.smallView with statics := [0, 0] } .apduEnd
            stillSurroundings.provider (session.afterAll stillEngine [installCall, renewCall]).store =
              .error .quota after := by
  obtain ⟨session, file, fields, hOpened, hFile, hFields⟩ := freshSession_opened
  have hRun : (match freshSession with
      | .ok session => !(session.afterAll stillEngine [installCall, renewCall]).recoveryRequired &&
          (session.afterAll stillEngine [installCall, renewCall]).store.workspace.capacity == 0
      | .error _ => false) = true := by
    decide +kernel
  rw [hOpened] at hRun
  generalize hRenewed : session.afterAll stillEngine [installCall, renewCall] = renewed
  simp only [Bool.and_eq_true, Bool.not_eq_true', beq_iff_eq] at hRun
  obtain ⟨hAnswers, hEmpty⟩ := hRun
  refine ⟨session, file, fields, hOpened, hFile, hFields, ?_⟩
  rw [hRenewed]
  rw [hRenewed] at hAnswers hEmpty
  refine ⟨Session.answers_iff.2 hAnswers, ?_, ?_⟩
  · exact fun hRoomy => hRoomy.stocked hAnswers hEmpty
  · rw [commitSnapshot_eq, encodeSnapshotInto_starved hEmpty]
    exact ⟨_, rfl⟩

end Renewal

end MicroCard.JcvmStorage
