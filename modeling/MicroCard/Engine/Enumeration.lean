import MicroCard.Card.LoadHistory
import MicroCard.Engine.Listing

/-! GET STATUS [first] and [next] over the transport: what the card answers before it
protects the answer, and what a host sees that goes on while the card announces more. -/
namespace MicroCard.Engine

open Bytes Cbor CrashTriple Card Transport

section Replies

/-- An answer before it is protected. -/
structure Reply where
  data : List Byte
  sw : Nat
  deriving DecidableEq, Repr

/-- The answer under a cursor, and the cursor it leaves. -/
def Listing.recordReply (listing : Listing) (cursor : StatusCursor) : Reply × Option StatusCursor :=
  match listing.getStatusRecord cursor.p1 cursor.next cursor.filter with
  | .ok (bytes, more) =>
      (⟨bytes, if more then 0x6310 else 0x9000⟩, if more then some { cursor with next := cursor.next + 1 } else none)
  | .error .missing => (⟨[], 0x6a88⟩, none)
  | .error _ => (⟨[], 0x6a80⟩, none)

/-- The answer to an authorized GET STATUS, and the cursor it leaves. -/
def Listing.reply (listing : Listing) (stored : Option StatusCursor) (command : Command) :
    Reply × Option StatusCursor :=
  if command.p1 = 0x80 ∧ command.p2 = 0x03 then (⟨[], 0x6a80⟩, none)
  else
    match Transport.statusCursor command stored with
    | .error _ => (⟨[], 0x6a80⟩, none)
    | .ok cursor => listing.recordReply cursor

def statusCommand (p1 p2 : Byte) (data : List Byte) : Command := ⟨0x80, 0xf2, p1, p2, data, none⟩

/-- The first answers to a host that begins with `p2` and asks for the next occurrence
as long as the card announces one. -/
def Listing.enumerate (listing : Listing) (p1 : Byte) (data : List Byte) :
    Nat → Byte → Option StatusCursor → List Reply
  | 0, _, _ => []
  | count + 1, p2, stored =>
      let (reply, next) := listing.reply stored (statusCommand p1 p2 data)
      reply :: if reply.sw = 0x6310 then listing.enumerate p1 data count 0x03 next else []

/-- A complete enumeration: one record for each answer, the last of them under 9000. -/
def pages : List (List Byte) → List Reply
  | [] => [⟨[], 0x6a88⟩]
  | [last] => [⟨last, 0x9000⟩]
  | first :: second :: rest => ⟨first, 0x6310⟩ :: pages (second :: rest)

end Replies

section Transport

/-- An engine that lists the registry it is given. -/
def serving {κ : Type} (base : CardEngine κ) (view : κ → Listing) : CardEngine κ :=
  { base with
    getStatusRecord := fun kind index filter card =>
      match (view card).getStatusRecord kind index filter with
      | .ok answer => .ok answer card
      | .error e => .error e card }

variable {κ : Type} (scp03 : Scp03) (base : CardEngine κ) (view : κ → Listing) (verified : Verified)

/-- Protect a reply after its cursor was kept. -/
def protect (reply : Reply × Option StatusCursor) (trace : List (Event κ)) (exchange : Exchange κ) :
    EStateM.Result Error (Exchange κ) (List Byte) :=
  answer scp03 (serving base view) reply.1.data reply.1.sw
    { exchange with endpoint := { exchange.endpoint with statusCursor := reply.2, trace := trace } }

theorem statusRecord_reply (cursor : StatusCursor) (exchange : Exchange κ) :
    statusRecord scp03 (serving base view) verified cursor exchange =
      protect scp03 base view ((view exchange.endpoint.card).recordReply cursor)
        (exchange.endpoint.trace ++ [.status verified]) exchange := by
  unfold statusRecord Listing.recordReply protect
  simp only [bind, EStateM.bind, note, modifyEndpoint, modify, modifyGet, MonadStateOf.modifyGet, EStateM.modifyGet,
    capture, call, serving, setCursor]
  cases hRecord : (view exchange.endpoint.card).getStatusRecord cursor.p1 cursor.next cursor.filter with
  | ok answer => rfl
  | error e => cases e <;> rfl

/-- Whatever cursor was stored is replaced. -/
theorem continueStatus_reply (exchange : Exchange κ) :
    ∃ trace, continueStatus scp03 (serving base view) verified exchange =
      protect scp03 base view
        (match Transport.statusCursor verified.command exchange.endpoint.statusCursor with
          | .error _ => (⟨[], 0x6a80⟩, none)
          | .ok cursor => (view exchange.endpoint.card).recordReply cursor) trace exchange := by
  have hTaken : ∃ stored, onlyIf (verified.command.p2 ≠ 0x02) (setCursor none) exchange =
      .ok () { exchange with endpoint := { exchange.endpoint with statusCursor := stored } } := by
    unfold onlyIf
    split
    · exact ⟨none, rfl⟩
    · exact ⟨exchange.endpoint.statusCursor, rfl⟩
  obtain ⟨stored, hTaken⟩ := hTaken
  simp only [continueStatus, bind, EStateM.bind, get, getThe, MonadStateOf.get, EStateM.get, hTaken]
  cases Transport.statusCursor verified.command exchange.endpoint.statusCursor with
  | error e => exact ⟨exchange.endpoint.trace, rfl⟩
  | ok cursor => exact ⟨_, statusRecord_reply scp03 base view verified cursor _⟩

/-- The transport protects the reply and keeps its cursor. -/
theorem handleStatus_reply (exchange : Exchange κ) (hLevel : verified.mayManage = true) :
    ∃ trace, handleStatus scp03 (serving base view) verified exchange =
      protect scp03 base view
        ((view exchange.endpoint.card).reply exchange.endpoint.statusCursor verified.command) trace exchange := by
  rw [handleStatus, if_neg (by simp [hLevel]), Listing.reply]
  split
  · exact ⟨exchange.endpoint.trace, rfl⟩
  · exact continueStatus_reply scp03 base view verified exchange

end Transport

section Runs

variable {listing : Listing}

/-- What the answer at a position of the enumeration is. -/
theorem recordReply_entry (hIntact : listing.Intact) {cursor : StatusCursor} (hKind : cursor.p1 ∈ [0x80, 0x40, 0x20, 0x10])
    {entry : Entry} (hAt : (listing.matching cursor.p1 cursor.filter)[cursor.next]? = some entry)
    (hFits : (listing.record cursor.p1 entry).length ≤ 220) :
    listing.recordReply cursor =
      if cursor.next + 1 < (listing.matching cursor.p1 cursor.filter).length then
        (⟨listing.record cursor.p1 entry, 0x6310⟩, some { cursor with next := cursor.next + 1 })
      else (⟨listing.record cursor.p1 entry, 0x9000⟩, none) := by
  rw [Listing.recordReply, Listing.getStatusRecord_entry hIntact hKind hAt, if_pos hFits]
  by_cases hMore : cursor.next + 1 < (listing.matching cursor.p1 cursor.filter).length
  · simp [hMore]
  · simp [hMore]

/-- The card takes up an enumeration where its cursor stands. -/
theorem reply_next {p1 : Byte} {data filter : List Byte} {index : Nat} (hKind : p1 ≠ 0x80)
    (hFilter : parseAidQualifier data = .ok filter) :
    listing.reply (some ⟨p1, index, filter⟩) (statusCommand p1 0x03 data) = listing.recordReply ⟨p1, index, filter⟩ := by
  simp [Listing.reply, statusCommand, Transport.statusCursor, StatusCursor.matchesNext, hKind, hFilter, orFail,
    Option.filter_some, Except.toOption, pure, Except.pure]

theorem reply_first {p1 : Byte} {data filter : List Byte} (hKind : p1 ∈ [0x80, 0x40, 0x20, 0x10])
    (hFilter : parseAidQualifier data = .ok filter) (stored : Option StatusCursor) :
    listing.reply stored (statusCommand p1 0x02 data) = listing.recordReply ⟨p1, 0, filter⟩ := by
  simp [Listing.reply, statusCommand, Transport.statusCursor, StatusCursor.first, hKind, hFilter, failIf, pure,
    Except.pure, bind, Except.bind]

/-- The scope of the issuer security domain holds that domain alone. -/
theorem matching_isd (hIntact : listing.Intact) (filter : List Byte) :
    ∃ domain ∈ listing.store.state.domains.entries, domain.aid = Aid.isd ∧
      listing.matching 0x80 filter = [.domain domain] := by
  obtain ⟨domain, hHead, hIsd⟩ := hIntact.valid.isd
  have hMem : domain ∈ listing.store.state.domains.entries := SlotTable.mem_entries.2 (List.mem_of_mem_head? hHead)
  refine ⟨domain, hMem, hIsd, ?_⟩
  have hOnly : (listing.store.state.domains.entries.filter fun d => d.aid = Aid.isd) = [domain] := by
    rw [← hIsd]
    exact filter_key (domains_nodup hIntact.valid) hMem
  simp [Listing.matching, Listing.table, hOnly]

/-- From a cursor on, the answers are the records of the entries behind it, as long as
these fit. The induction is on the number of answers. -/
theorem enumerate_from (hIntact : listing.Intact) {p1 : Byte} {data filter : List Byte}
    (hKind : p1 ∈ [0x80, 0x40, 0x20, 0x10]) (hFilter : parseAidQualifier data = .ok filter) (count : Nat) :
    ∀ (index : Nat) (p2 : Byte) (stored : Option StatusCursor),
      listing.reply stored (statusCommand p1 p2 data) = listing.recordReply ⟨p1, index, filter⟩ →
      index < (listing.matching p1 filter).length →
      (∀ entry ∈ ((listing.matching p1 filter).drop index).take count, (listing.record p1 entry).length ≤ 220) →
      listing.enumerate p1 data count p2 stored =
        (pages (((listing.matching p1 filter).drop index).map (listing.record p1))).take count := by
  induction count with
  | zero =>
      intro index p2 stored _ _ _
      rfl
  | succ count ih =>
      intro index p2 stored hReply hIndex hFits
      have hDrop := List.drop_eq_getElem_cons hIndex
      have hFirst : (listing.record p1 (listing.matching p1 filter)[index]).length ≤ 220 :=
        hFits _ (by rw [hDrop, List.take_succ_cons]; exact List.mem_cons_self)
      have hEntry := @recordReply_entry listing hIntact ⟨p1, index, filter⟩ hKind _ (List.getElem?_eq_getElem hIndex)
        hFirst
      rw [Listing.enumerate, hReply, hEntry]
      by_cases hMore : index + 1 < (listing.matching p1 filter).length
      · have hOther : p1 ≠ 0x80 := by
          rintro rfl
          obtain ⟨domain, -, -, hOnly⟩ := matching_isd hIntact filter
          rw [hOnly, List.length_singleton] at hMore
          omega
        have hRest := ih (index + 1) 0x03 (some ⟨p1, index + 1, filter⟩) (reply_next hOther hFilter) hMore
          fun entry hMem => hFits entry (by
            rw [hDrop, List.take_succ_cons]
            exact List.mem_cons_of_mem _ hMem)
        simp only [if_pos hMore, if_true, hRest]
        rw [hDrop, List.drop_eq_getElem_cons hMore]
        rfl
      · have hLast : (listing.matching p1 filter).drop (index + 1) = [] := List.drop_eq_nil_iff.2 (by omega)
        simp only [if_neg hMore]
        rw [hDrop, hLast]
        simp [pages]

end Runs

section Limits

/-- The bytes a session makes of an answer: its body, padded if it is encrypted, its MAC
and the status word. -/
def responseLength (scp03 : Scp03) (session : Transport.Session) (reply : Reply) : Nat :=
  (if session.encryptsResponse reply.data reply.sw then cbcEncryptedLength reply.data.length
    else if isProtected reply.sw then reply.data.length else 0) + session.macLength scp03 reply.sw + 2

theorem responseLength_le (scp03 : Scp03) (session : Transport.Session) {reply : Reply} (h : reply.data.length ≤ 220) :
    responseLength scp03 session reply ≤ maxShortResponseBytes := by
  have hMac : session.macLength scp03 reply.sw ≤ 16 := by
    unfold Session.macLength Scp03.macBytes
    split <;> try split
    all_goals omega
  have hBody : (if session.encryptsResponse reply.data reply.sw then cbcEncryptedLength reply.data.length
      else if isProtected reply.sw then reply.data.length else 0) ≤ 224 := by
    unfold cbcEncryptedLength
    split
    · omega
    · split <;> omega
  rw [responseLength, maxShortResponseBytes]
  omega

theorem recordReply_short (listing : Listing) (cursor : StatusCursor) :
    (listing.recordReply cursor).1.data.length ≤ 220 := by
  unfold Listing.recordReply
  split
  · rename_i bytes more hRecord
    simp only [Listing.getStatusRecord, Checks.bind_ok, Checks.pure_ok, Listing.template_ok] at hRecord
    obtain ⟨_, -, _, -, _, -, body, -, answered, hTemplate, hPair⟩ := hRecord
    injection hPair with hBytes
    split at hTemplate
    · rename_i hFits
      injection hTemplate with hTemplate
      rw [← hBytes, ← hTemplate]
      exact hFits
    · cases hTemplate
  · exact Nat.zero_le _
  · exact Nat.zero_le _

theorem reply_short (listing : Listing) (stored : Option StatusCursor) (command : Command) :
    (listing.reply stored command).1.data.length ≤ 220 := by
  unfold Listing.reply
  split
  · exact Nat.zero_le _
  · split
    · exact Nat.zero_le _
    · exact recordReply_short listing _

theorem enumerate_short (listing : Listing) (p1 : Byte) (data : List Byte) (count : Nat) :
    ∀ (p2 : Byte) (stored : Option StatusCursor), ∀ reply ∈ listing.enumerate p1 data count p2 stored,
      reply.data.length ≤ 220 := by
  induction count with
  | zero => exact fun _ _ _ hMem => nomatch hMem
  | succ count ih =>
      intro p2 stored reply hMem
      have hShort := reply_short listing stored (statusCommand p1 p2 data)
      rw [Listing.enumerate] at hMem
      generalize listing.reply stored (statusCommand p1 p2 data) = answered at hMem hShort
      rcases List.mem_cons.1 hMem with rfl | hLater
      · exact hShort
      · by_cases hMore : answered.1.sw = 0x6310
        · rw [if_pos hMore] at hLater
          exact ih _ _ reply hLater
        · rw [if_neg hMore] at hLater
          cases hLater

end Limits

section Main

/-- The table of a scope names each entry once. -/
theorem matching_nodup {listing : Listing} (hIntact : listing.Intact) (kind : Byte) (filter : List Byte) :
    ((listing.matching kind filter).map Entry.aid).Nodup := by
  have hValid := hIntact.valid
  have hTable : ((listing.table kind).map Entry.aid).Nodup := by
    unfold Listing.table
    simp only
    split
    · rw [List.map_map]
      exact (domains_nodup hValid).sublist (List.filter_sublist.map _)
    · split
      · rw [List.map_append, List.map_map, List.map_map]
        refine List.nodup_append.2 ⟨(domains_nodup hValid).sublist (List.filter_sublist.map _), instances_nodup hValid, ?_⟩
        intro aid hFirst other hSecond
        obtain ⟨d, hDomain, rfl⟩ := List.mem_map.1 hFirst
        obtain ⟨i, hInstance, rfl⟩ := List.mem_map.1 hSecond
        exact (hValid.placed i hInstance).domains d (List.mem_of_mem_filter hDomain)
      · split
        · rw [List.map_map]
          exact (loads_nodup hValid).sublist (List.filter_sublist.map _)
        · exact List.nodup_nil
  unfold Listing.matching
  split
  · exact hTable
  · exact hTable.sublist (List.filter_sublist.map _)

/-- The first answer names an entry, unless none matches or its record does not fit. -/
theorem first_missing {listing : Listing} (hIntact : listing.Intact) {p1 : Byte} {filter : List Byte}
    (hScope : p1 ∈ [0x80, 0x40, 0x20, 0x10]) :
    (listing.recordReply ⟨p1, 0, filter⟩).1.sw = 0x6a88 ↔ listing.matching p1 filter = [] := by
  cases hMatching : listing.matching p1 filter with
  | nil =>
      have hEnd : (listing.matching p1 filter).length ≤ 0 := by rw [hMatching]; exact Nat.le_refl 0
      rw [Listing.recordReply, Listing.getStatusRecord_end hIntact hScope hEnd]
      simp
  | cons entry rest =>
      have hAt : (listing.matching p1 filter)[0]? = some entry := by rw [hMatching]; rfl
      rw [Listing.recordReply, Listing.getStatusRecord_entry hIntact hScope hAt]
      by_cases hFits : (listing.record p1 entry).length ≤ 220
      · rw [if_pos hFits]
        by_cases hMore : 0 + 1 < (listing.matching p1 filter).length
        · simp [hMore]
        · simp [hMore]
      · rw [if_neg hFits]
        simp

theorem enumerate_first {listing : Listing} (hIntact : listing.Intact) {p1 : Byte} {data filter : List Byte}
    (hScope : p1 ∈ [0x80, 0x40, 0x20, 0x10]) (hFilter : parseAidQualifier data = .ok filter)
    (stored : Option StatusCursor) (count : Nat)
    (hFits : p1 = 0x10 → ∀ entry ∈ (listing.matching p1 filter).take count, (listing.record p1 entry).length ≤ 220) :
    listing.enumerate p1 data count 0x02 stored =
      (pages ((listing.matching p1 filter).map (listing.record p1))).take count := by
  have hReply := @reply_first listing p1 data filter hScope hFilter stored
  have hAll : ∀ entry ∈ ((listing.matching p1 filter).drop 0).take count, (listing.record p1 entry).length ≤ 220 := by
    intro entry hMem
    by_cases hModules : p1 = 0x10
    · exact hFits hModules entry hMem
    · exact Listing.record_fits hModules entry
  rcases Nat.eq_zero_or_pos (listing.matching p1 filter).length with hNone | hSome
  · cases count with
    | zero => rfl
    | succ count =>
        have hEnd : (listing.matching p1 filter).length ≤ 0 := Nat.le_of_eq hNone
        rw [Listing.enumerate, hReply, Listing.recordReply, Listing.getStatusRecord_end hIntact hScope hEnd,
          List.length_eq_zero_iff.1 hNone]
        simp [pages]
  · exact enumerate_from hIntact hScope hFilter count 0 0x02 stored hReply hSome hAll

/-- On an intact card, whatever cursor was stored: the answers to [first] and [next] are
the records of the entries that match, each once and in table order, as far as they fit a
response; 6310 announces another one and 9000 ends the enumeration, 6A88 is the answer
when nothing matches and only then. No answer exceeds what a session can return, and what
the transport answers is this reply under the protection of its session. -/
theorem enumeration_complete {listing : Listing} (hIntact : listing.Intact) {p1 : Byte} {data filter : List Byte}
    (hScope : p1 ∈ [0x80, 0x40, 0x20, 0x10]) (hFilter : parseAidQualifier data = .ok filter)
    (stored : Option StatusCursor) :
    (∀ count, (p1 = 0x10 → ∀ entry ∈ (listing.matching p1 filter).take count, (listing.record p1 entry).length ≤ 220) →
      listing.enumerate p1 data count 0x02 stored =
        (pages ((listing.matching p1 filter).map (listing.record p1))).take count) ∧
      ((listing.matching p1 filter).map Entry.aid).Nodup ∧
      (((listing.reply stored (statusCommand p1 0x02 data)).1.sw = 0x6a88) ↔ listing.matching p1 filter = []) ∧
      (∀ count, ∀ reply ∈ listing.enumerate p1 data count 0x02 stored, ∀ scp03 session,
        responseLength scp03 session reply ≤ maxShortResponseBytes) ∧
      ∀ (κ : Type) (scp03 : Scp03) (base : CardEngine κ) (view : κ → Listing) (verified : Verified) (exchange : Exchange κ),
        verified.mayManage = true → view exchange.endpoint.card = listing → ∃ trace,
          handleStatus scp03 (serving base view) verified exchange =
            protect scp03 base view (listing.reply exchange.endpoint.statusCursor verified.command) trace exchange := by
  refine ⟨enumerate_first hIntact hScope hFilter stored, matching_nodup hIntact p1 filter, ?_, ?_, ?_⟩
  · rw [reply_first hScope hFilter stored]
    exact first_missing hIntact hScope
  · intro count reply hMem scp03 session
    exact responseLength_le scp03 session (enumerate_short listing p1 data count 0x02 stored reply hMem)
  · intro κ scp03 base view verified exchange hLevel hView
    rw [← hView]
    exact handleStatus_reply scp03 base view verified exchange hLevel

end Main

section Wide

/-- Twelve applets, whose AIDs are as long as AIDs get. -/
def wideApplets : List Byte :=
  12 :: (List.range 12).flatMap fun n => 16 :: UInt8.ofNat n :: List.replicate 15 0xf0 ++ [0, 1]

/-- A load file with these applets and one method. -/
def wideParts : List (Jcvm.Tag × List Byte) :=
  (Jcvm.Package.parts {}).map fun part => if part.1 = .applet then (.applet, wideApplets) else part

def wideDirectory : List Byte :=
  [0, 15, 0, 31] ++ wideParts.flatMap (fun part => Jcvm.toBE16 part.2.length) ++ [0, 0, 0, 0, 0, 0, 0, 0, 0, 0, 0, 12, 0]

def wideFile : List Byte :=
  Jcvm.Package.component .header (Jcvm.Package.header {}) ++ Jcvm.Package.component .directory wideDirectory ++
    wideParts.flatMap fun part => Jcvm.Package.component part.1 part.2

theorem wideFile_verifies : Package.verify wideFile Aid.isd.bytes oneIncarnation (fun raw => .ok (lengthDigest raw)) 256 =
    .ok (packageOf wideFile) := by
  decide +kernel

/-- A card whose issuer security domain holds this load file. -/
def wideListing : Listing where
  store := {
    state := (Change.activate (packageOf wideFile) ⟨0, UInt32.ofNat wideFile.length, lengthDigest wideFile⟩).after
      (Registry.new oneIncarnation)
    committed := Registry.new oneIncarnation
    recoveryRequired := false
    poisoned := false
    generation := 0
    attempts := 0 }
  images := fun _ => .ok wideFile
  sha256 := fun raw => .ok (lengthDigest raw)
  scratch := 256

theorem wideListing_intact : wideListing.Intact where
  ready := by decide +kernel
  valid := validate_ok.1 (by decide +kernel)
  stored := by
    have hLoads : wideListing.store.state.loads.entries =
        [⟨Aid.isd, packageAid, 257, some ⟨0, UInt32.ofNat wideFile.length, lengthDigest wideFile⟩⟩] := by
      decide +kernel
    intro load hLoad _
    rw [hLoads, List.mem_singleton] at hLoad
    rw [hLoad]
    exact ⟨_, wideFile, ⟨Aid.isd, oneIncarnation⟩, packageOf wideFile, rfl, rfl, by decide +kernel, wideFile_verifies,
      rfl, rfl, rfl⟩

/-- A search AID that no entry matches is answered with the issuer security domain, and
the modules of the load do not fit a response, so the load is not reported at all. -/
theorem enumeration_incomplete :
    (wideListing.enumerate 0x80 [0x4f, 1, 0xf0] 2 0x02 none =
        [⟨[0xe3, 0x13, 0x4f, 8, 0xa0, 0, 0, 1, 0x51, 0, 0, 0, 0x9f, 0x70, 1, 0x0f, 0xc5, 3, 0x80, 0, 0], 0x9000⟩] ∧
      ¬[0xf0].isPrefixOf Aid.isd.bytes) ∧
      wideListing.enumerate 0x10 [0x4f, 0] 2 0x02 none = [⟨[], 0x6a80⟩] ∧
      (wideListing.matching 0x10 []).length = 1 := by
  decide +kernel

/-- The load without its modules is reported. -/
theorem enumeration_complete_loads :
    wideListing.enumerate 0x20 [0x4f, 0] 2 0x02 none =
      (pages ((wideListing.matching 0x20 []).map (wideListing.record 0x20))).take 2 :=
  (enumeration_complete wideListing_intact (by decide) rfl none).1 2 fun hModules => absurd hModules (by decide)

end Wide

end MicroCard.Engine
