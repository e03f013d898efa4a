import MinecraftNetwork.Endpoint.Dialogue

/-!
# The stages of a dialogue

`Start.Accepts`, `Start.script` and `Start.reports` say what the handshake and the read
chain are for: which bytes of the peer are accepted and with which identifier, which bytes
are sent in the handshake, and what the owner is told about the bytes read so far.

`Stage` lists the stages of the chain, each with the operation it waits for and with what
has been read, sent and reported. Every completion leads from a stage to a stage
(`Stage.next`), so every reachable endpoint is in a stage (`exists_stage`).
-/

namespace MinecraftNetwork

open LittleEndian

/-- `OnValidate`, `OnInvalidate` or a message for the incoming queue. -/
def Effect.isReport : Effect → Bool
  | .onValidate _ | .onInvalidate | .emplaceBack _ _ => true
  | .asyncConnect | .asyncRead _ _ | .asyncWrite _ _ | .disconnect | .postClose
  | .emptyDeque => false

/-- The last exchange of the handshake begins: `WriteValidation4` or `ReadValidation4`. -/
def Effect.opens : Effect → Bool
  | .asyncWrite op _ => decide (op = .validation4)
  | .asyncRead op _ => decide (op = .validation4)
  | .asyncConnect | .onValidate _ | .onInvalidate | .emplaceBack _ _ | .disconnect
  | .postClose | .emptyDeque => false

/-- The handshake is complete: `ReadHeader` is called. -/
def Effect.completes : Effect → Bool
  | .asyncRead op _ => decide (op = .header)
  | .asyncConnect | .asyncWrite _ _ | .onValidate _ | .onInvalidate | .emplaceBack _ _
  | .disconnect | .postClose | .emptyDeque => false

/-! ## What a handshake is for -/

namespace Endpoint

/-- The answer to a challenge. -/
def respond (challenge : UInt64) : UInt64 := encrypt .dedicatedServer challenge

/-- The bytes `p` of the peer complete the handshake, and leave the identifier `id`. -/
def Start.Accepts : Start → List UInt8 → UInt64 → Prop
  | .created _ _, _, _ => False
  | .server now id, p, id' => p.length = 8 ∧ decode64 p = respond now ∧ id' = id
  | .client _, p, id' => p.length = 24 ∧
      decode64 ((p.drop 8).take 8) = respond (respond (decode64 (p.take 8))) ∧
      id' = decode64 (p.drop 16)

/-- The bytes of a complete handshake, when the peer has sent `b`. -/
def Start.script : Start → List UInt8 → List UInt8
  | .created _ _, _ => []
  | .server now id, _ => encode64 now ++ encode64 (respond (respond now)) ++ encode64 id
  | .client _, b => encode64 (respond (decode64 (b.take 8)))

/-- A message for the incoming queue: a client leaves its owner null. -/
def Start.deliver (s : Start) (m : Message) : Effect :=
  .emplaceBack (s.owner != .dedicatedClient) m

/-- What the owner is told of the bytes `b` of the peer. -/
def Start.reports : Start → List UInt8 → List Effect
  | .created _ _, _ => []
  | .server now id, b =>
    if b.length < 8 then []
    else if decode64 (b.take 8) ≠ respond now then [.onInvalidate]
    else .onValidate id :: (splitFrames (b.drop 8)).1.map (.emplaceBack true)
  | .client _, b =>
    if b.length < 16 then []
    else if decode64 ((b.drop 8).take 8) ≠ respond (respond (decode64 (b.take 8))) then
      [.onInvalidate]
    else if b.length < 24 then []
    else .onValidate (decode64 ((b.drop 16).take 8)) ::
      (splitFrames (b.drop 24)).1.map (.emplaceBack false)

end Endpoint

namespace Dialogue

/-- What the owner has been told. -/
def reports (d : Dialogue) : List Effect := d.history.filter Effect.isReport

/-- The bytes of the handshake handed to the socket. -/
def handed (d : Dialogue) : List UInt8 := d.history.flatMap Effect.bytes

/-- The last exchange of the handshake has begun. -/
def opening (d : Dialogue) : Bool := d.history.any Effect.opens

/-- `ReadHeader` has been called. -/
def completed (d : Dialogue) : Bool := d.history.any Effect.completes

/-- A dialogue that goes on: what has been read, reported and sent. -/
structure Shows (d : Dialogue) (consumed : List UInt8) (reports : List Effect)
    (handed : List UInt8) (opening completed : Bool) : Prop where
  consumed : d.consumed = consumed
  reports : d.reports = reports
  handed : d.handed = handed
  opening : d.opening = opening
  completed : d.completed = completed
  ended : d.ended = false

theorem Shows.next {d : Dialogue} {consumed handed : List UInt8} {reports effects : List Effect}
    {opening completed : Bool} {c : Completion} {conn : Connection}
    (h : d.Shows consumed reports handed opening completed)
    (hResume : c.resume d.connection = (conn, effects)) (hEnds : c.ends d.connection = false) :
    (d.next c).connection = conn ∧
      (d.next c).Shows (consumed ++ c.bytes) (reports ++ (talk effects).filter Effect.isReport)
        (handed ++ (talk effects).flatMap Effect.bytes)
        (opening || (talk effects).any Effect.opens)
        (completed || (talk effects).any Effect.completes) := by
  refine ⟨by rw [Dialogue.next, hResume], ?_, ?_, ?_, ?_, ?_, ?_⟩
  · rw [← h.consumed, Dialogue.next]
  · rw [← h.reports]
    simp only [Dialogue.reports, Dialogue.next, hResume, List.filter_append]
  · rw [← h.handed]
    simp only [Dialogue.handed, Dialogue.next, hResume, List.flatMap_append]
  · rw [← h.opening]
    simp only [Dialogue.opening, Dialogue.next, hResume, List.any_append]
  · rw [← h.completed]
    simp only [Dialogue.completed, Dialogue.next, hResume, List.any_append]
  · simp only [Dialogue.next, h.ended, hEnds, Bool.or_false]

end Dialogue

namespace Endpoint

/-! ## The stages -/

/-- The stages of the handshake and read chain, with the operation each waits for. -/
inductive Stage : Start → Option Pending → Dialogue → Prop
  /-- Nothing has been started. -/
  | created {owner isOpen d} (hShows : d.Shows [] [] [] false false) :
      Stage (.created owner isOpen) none d
  /-- The server sends its challenge. -/
  | challenge {now id d} (hOwner : d.connection.owner = .dedicatedServer)
      (hBody : d.connection.tempIncomingMessage.body = [])
      (hCheck : d.connection.validationCheck = respond now) (hId : d.connection.id = id)
      (hShows : d.Shows [] [] (encode64 now) false false) :
      Stage (.server now id) (some (.write .validation1)) d
  /-- The server waits for the answer. -/
  | answer {now id d} (hOwner : d.connection.owner = .dedicatedServer)
      (hBody : d.connection.tempIncomingMessage.body = [])
      (hCheck : d.connection.validationCheck = respond now) (hId : d.connection.id = id)
      (hShows : d.Shows [] [] (encode64 now) false false) :
      Stage (.server now id) (some (.read .validation2 8)) d
  /-- The server answers the answer. -/
  | reply {now id p d} (hOwner : d.connection.owner = .dedicatedServer)
      (hBody : d.connection.tempIncomingMessage.body = [])
      (hAccepts : Start.Accepts (.server now id) p id) (hId : d.connection.id = id)
      (hShows : d.Shows p [.onValidate id]
        (encode64 now ++ encode64 (respond (respond now))) false false) :
      Stage (.server now id) (some (.write .validation3)) d
  /-- The server sends the identifier. -/
  | name {now id p d} (hOwner : d.connection.owner = .dedicatedServer)
      (hBody : d.connection.tempIncomingMessage.body = [])
      (hAccepts : Start.Accepts (.server now id) p id)
      (hShows : d.Shows p [.onValidate id] (Start.script (.server now id) p) true false) :
      Stage (.server now id) (some (.write .validation4)) d
  /-- The client waits for the connection. -/
  | connect {opened d} (hOwner : d.connection.owner = .dedicatedClient)
      (hBody : d.connection.tempIncomingMessage.body = [])
      (hShows : d.Shows [] [] [] false false) :
      Stage (.client opened) (some .connect) d
  /-- The client waits for the challenge. -/
  | challenged {opened d} (hOwner : d.connection.owner = .dedicatedClient)
      (hBody : d.connection.tempIncomingMessage.body = [])
      (hShows : d.Shows [] [] [] false false) :
      Stage (.client opened) (some (.read .validation1 8)) d
  /-- The client answers the challenge `b`. -/
  | answering {opened b d} (hOwner : d.connection.owner = .dedicatedClient)
      (hBody : d.connection.tempIncomingMessage.body = []) (hLength : b.length = 8)
      (hCheck : d.connection.validationCheck = respond (respond (decode64 b)))
      (hShows : d.Shows b [] (encode64 (respond (decode64 b))) false false) :
      Stage (.client opened) (some (.write .validation2)) d
  /-- The client waits for the answer to its answer. -/
  | replied {opened b d} (hOwner : d.connection.owner = .dedicatedClient)
      (hBody : d.connection.tempIncomingMessage.body = []) (hLength : b.length = 8)
      (hCheck : d.connection.validationCheck = respond (respond (decode64 b)))
      (hShows : d.Shows b [] (encode64 (respond (decode64 b))) false false) :
      Stage (.client opened) (some (.read .validation3 8)) d
  /-- The client waits for its identifier. -/
  | named {opened b b' d} (hOwner : d.connection.owner = .dedicatedClient)
      (hBody : d.connection.tempIncomingMessage.body = [])
      (hLength : b.length = 8) (hLength' : b'.length = 8)
      (hCheck : decode64 b' = respond (respond (decode64 b)))
      (hShows : d.Shows (b ++ b') [] (encode64 (respond (decode64 b))) true false) :
      Stage (.client opened) (some (.read .validation4 8)) d
  /-- The messages `ms` have been read, and a header is awaited. -/
  | header {s p id ms d} (hOwner : d.connection.owner = s.owner)
      (hBody : d.connection.tempIncomingMessage.body = []) (hAccepts : s.Accepts p id)
      (hAnnounces : ∀ m ∈ ms, Message.Announces m)
      (hShows : d.Shows (p ++ frames ms) (.onValidate id :: ms.map s.deliver) (s.script p) true true) :
      Stage s (some (.read .header headerSize)) d
  /-- The header of the next message has been read, and its body is awaited. -/
  | body {s p id ms d} (hOwner : d.connection.owner = s.owner) (hAccepts : s.Accepts p id)
      (hAnnounces : ∀ m ∈ ms, Message.Announces m)
      (hSize : 0 < d.connection.tempIncomingMessage.header.size.toNat)
      (hShows : d.Shows (p ++ frames ms ++ d.connection.tempIncomingMessage.header.bytes)
        (.onValidate id :: ms.map s.deliver) (s.script p) true true) :
      Stage s (some (.read .body d.connection.tempIncomingMessage.header.size.toNat)) d
  /-- The peer has been rejected. -/
  | rejected {s d} (hReports : d.reports = [.onInvalidate])
      (hRejects : ∀ after, s.reports (d.consumed ++ after) = [.onInvalidate])
      (hHanded : d.handed <+: s.script d.consumed) (hOpening : d.opening = false)
      (hCompleted : d.completed = false) (hEnded : d.ended = true) : Stage s none d
  /-- The operation the chain waited for has failed. -/
  | broken {s k d d'} (hBefore : Stage s (some k) d) (hAfter : d' = { d with ended := true }) :
      Stage s none d'

/-- What a complete handshake leaves behind: the peer has been accepted, and until an
operation of the chain fails the next one is a read. -/
structure Completed (s : Start) (k : Option Pending) (d : Dialogue) : Prop where
  accepts : ∃ p id, s.Accepts p id ∧ p <+: d.consumed ∧ .onValidate id ∈ d.reports
  opening : d.opening = true
  unwritten : ∀ op, k ≠ some (.write op)
  reading : d.ended = false → ∃ op n, k = some (.read op n)

theorem Stage.completed {s : Start} {k : Option Pending} {d : Dialogue} (h : Stage s k d)
    (hCompleted : d.completed = true) : Completed s k d := by
  induction h with
  | created hShows | challenge _ _ _ _ hShows | answer _ _ _ _ hShows | reply _ _ _ _ hShows
  | connect _ _ hShows | challenged _ _ hShows | answering _ _ _ _ hShows
  | replied _ _ _ _ hShows | name _ _ _ hShows | named _ _ _ _ _ hShows =>
    rw [hShows.completed] at hCompleted
    cases hCompleted
  | header _ _ hAccepts _ hShows =>
    refine ⟨⟨_, _, hAccepts, ?_, ?_⟩, hShows.opening, by simp, fun _ => ⟨_, _, rfl⟩⟩
    · rw [hShows.consumed]
      exact List.prefix_append _ _
    · rw [hShows.reports]
      exact List.mem_cons_self
  | body _ hAccepts _ _ hShows =>
    refine ⟨⟨_, _, hAccepts, ?_, ?_⟩, hShows.opening, by simp, fun _ => ⟨_, _, rfl⟩⟩
    · rw [hShows.consumed, List.append_assoc]
      exact List.prefix_append _ _
    · rw [hShows.reports]
      exact List.mem_cons_self
  | rejected _ _ _ _ hNot _ =>
    rw [hNot] at hCompleted
    cases hCompleted
  | broken _ hAfter ih =>
    subst hAfter
    obtain ⟨hAccepts, hOpening, -, -⟩ := ih hCompleted
    exact ⟨hAccepts, hOpening, by simp, fun hNot => by cases hNot⟩

/-- An operation that has done what it was started for. -/
inductive Done : Pending → Completion → Prop
  | connect : Done .connect .connected
  | read {op n bytes} (hLength : bytes.length = n) : Done (.read op n) (.read op bytes)
  | write {op} : Done (.write op) (.written op)

/-- The stage a completion leads to, which starts the operation that stage waits for. The
identifier is written once: nothing follows the last exchange but reads. The chain stops
without a failure only when all that could be told has been told. -/
def Moves (s : Start) (k : Pending) (d : Dialogue) (c : Completion) : Prop :=
  ∃ k', Stage s k' (d.next c) ∧
    (talk (c.resume d.connection).2).filterMap Effect.pending? = k'.toList ∧
    (d.opening = true → k ≠ .write .validation4 → k' ≠ some (.write .validation4)) ∧
    (k' = none → Done k c → ∀ after,
      s.reports ((d.next c).consumed ++ after) = (d.next c).reports)

/-- The operation of a stage fails. -/
theorem moves_failed {s : Start} {k : Pending} {d : Dialogue} {c : Completion}
    (h : Stage s (some k) d) (hMain : c.isMain = true) (hk : c.pending? = some k)
    (hDone : ¬ Done k c) : Moves s k d c := by
  have hFails : c.resume d.connection = d.connection.failed ∧ c.bytes = [] ∧
      c.ends d.connection = true := by
    cases c with
    | connectFailed | readFailed => exact ⟨rfl, rfl, rfl⟩
    | writeFailed op => exact ⟨rfl, rfl, hMain⟩
    | connected =>
      cases hk
      exact absurd .connect hDone
    | read op bytes =>
      cases hk
      exact absurd (.read rfl) hDone
    | written op =>
      cases hk
      exact absurd .write hDone
    | lambda => cases hMain
  obtain ⟨hResume, hBytes, hEnds⟩ := hFails
  have hTalk : talk d.connection.failed.2 = [] := Connection.disconnect_talk _
  refine ⟨none, .broken h ?_, by rw [hResume, hTalk]; rfl, nofun,
    fun _ h => absurd h hDone⟩
  simp only [Dialogue.next, hResume, hBytes, hEnds, hTalk, List.append_nil, Bool.or_true]
  rfl

/-- The operation of a stage succeeds, and the chain goes on. -/
theorem moves_on {s : Start} {k k' : Pending} {d : Dialogue} {c : Completion} {conn : Connection}
    {effects : List Effect} {consumed handed : List UInt8} {reports : List Effect} {opening completed : Bool}
    (hShows : d.Shows consumed reports handed opening completed)
    (hResume : c.resume d.connection = (conn, effects)) (hEnds : c.ends d.connection = false)
    (hPending : (talk effects).filterMap Effect.pending? = [k'])
    (hOnce : k' = .write .validation4 → opening = false)
    (hStage : (d.next c).connection = conn →
      (d.next c).Shows (consumed ++ c.bytes) (reports ++ (talk effects).filter Effect.isReport)
        (handed ++ (talk effects).flatMap Effect.bytes)
        (opening || (talk effects).any Effect.opens)
        (completed || (talk effects).any Effect.completes) → Stage s (some k') (d.next c)) :
    Moves s k d c := by
  obtain ⟨hConn, hNext⟩ := hShows.next hResume hEnds
  refine ⟨some k', hStage hConn hNext, by rw [hResume, hPending]; rfl, fun hOpening _ hk' => ?_,
    fun h => by cases h⟩
  rw [hShows.opening, hOnce (Option.some.inj hk')] at hOpening
  cases hOpening

/-- The peer is rejected, and the chain stops. -/
theorem moves_rejected {s : Start} {k : Pending} {d : Dialogue} {c : Completion}
    {conn : Connection} {consumed handed : List UInt8}
    (hShows : d.Shows consumed [] handed false false)
    (hResume : c.resume d.connection = (conn, .onInvalidate :: conn.disconnect))
    (hEnds : c.ends d.connection = true)
    (hRejects : ∀ after, s.reports (consumed ++ c.bytes ++ after) = [.onInvalidate])
    (hHanded : handed <+: s.script (consumed ++ c.bytes)) : Moves s k d c := by
  have hTalk : talk (.onInvalidate :: conn.disconnect) = [.onInvalidate] :=
    congrArg (Effect.onInvalidate :: ·) (Connection.disconnect_talk conn)
  have hHistory : (d.next c).history = d.history ++ [.onInvalidate] := by
    rw [Dialogue.next, hResume, hTalk]
  have hReports : (d.next c).reports = [.onInvalidate] := by
    have hNone := hShows.reports
    simp only [Dialogue.reports] at hNone
    simp [Dialogue.reports, hHistory, hNone, Effect.isReport]
  have hTold : ∀ after, s.reports ((d.next c).consumed ++ after) = [.onInvalidate] := by
    simpa only [Dialogue.next, hShows.consumed] using hRejects
  refine ⟨none, .rejected hReports hTold ?_ ?_ ?_ ?_, by rw [hResume, hTalk]; rfl,
    fun _ _ => (Option.some_ne_none _).symm, fun _ _ after => (hTold after).trans hReports.symm⟩
  · have hBytes := hShows.handed
    simp only [Dialogue.handed] at hBytes
    have hConsumed : (d.next c).consumed = consumed ++ c.bytes := by
      rw [Dialogue.next, hShows.consumed]
    rw [hConsumed]
    simpa [Dialogue.handed, hHistory, hBytes, Effect.bytes] using hHanded
  · have hOpening := hShows.opening
    simp only [Dialogue.opening] at hOpening
    simp [Dialogue.opening, hHistory, hOpening, Effect.opens]
  · have hCompleted := hShows.completed
    simp only [Dialogue.completed] at hCompleted
    simp [Dialogue.completed, hHistory, hCompleted, Effect.completes]
  · simp only [Dialogue.next, hEnds, Bool.or_true]

/-! ## The moves of the server's handshake -/

section

variable {now id : UInt64} {d : Dialogue} {c : Completion}

theorem moves_challenge (h : Stage (.server now id) (some (.write .validation1)) d)
    (hDone : Done (.write .validation1) c) : Moves (.server now id) (.write .validation1) d c := by
  cases hDone
  cases h with
  | challenge hOwner hBody hCheck hId hShows =>
    have hResume : (Completion.written .validation1).resume d.connection =
        (d.connection, [.asyncRead .validation2 8]) := by
      simp [Completion.resume, Connection.writeDone, Connection.readValidation2,
        Connection.readValidation, hOwner]
    refine moves_on hShows hResume rfl rfl (fun h => by cases h) fun hConn hNext => ?_
    refine .answer (hConn ▸ hOwner) (hConn ▸ hBody) (hConn ▸ hCheck) (hConn ▸ hId) ?_
    simpa [Completion.bytes, talk, List.filter_cons, Effect.isTalk, Effect.isReport, Effect.bytes,
      Effect.opens, Effect.completes] using hNext

theorem moves_answer (h : Stage (.server now id) (some (.read .validation2 8)) d)
    (hDone : Done (.read .validation2 8) c) :
    Moves (.server now id) (.read .validation2 8) d c := by
  cases hDone with
  | @read _ _ bytes hLength =>
  cases h with
  | answer hOwner hBody hCheck hId hShows =>
    by_cases hAnswer : decode64 bytes = respond now
    · have hResume : (Completion.read .validation2 bytes).resume d.connection =
          ({ d.connection with
              validationIn := decode64 bytes, validationOut := respond (respond now) },
            [.onValidate id, .asyncWrite .validation3 (encode64 (respond (respond now)))]) := by
        simp [Completion.resume, Connection.readDone, Connection.readValidation2Done, hCheck,
          hAnswer, hId, Connection.writeValidation3, Connection.writeValidation, hOwner,
          Connection.encrypt, respond]
      have hEnds : (Completion.read .validation2 bytes).ends d.connection = false := by
        simp [Completion.ends, Connection.rejects, hCheck, hAnswer]
      refine moves_on hShows hResume hEnds rfl (fun h => by cases h) fun hConn hNext => ?_
      refine .reply (p := bytes) (by rw [hConn]; exact hOwner) (by rw [hConn]; exact hBody)
        ⟨hLength, hAnswer, rfl⟩ (by rw [hConn]; exact hId) ?_
      simpa [Completion.bytes, talk, List.filter_cons, Effect.isTalk, Effect.isReport,
        Effect.bytes, Effect.opens, Effect.completes,
        WriteOp.sendsFrame] using hNext
    · have hResume : (Completion.read .validation2 bytes).resume d.connection =
          ({ d.connection with validationIn := decode64 bytes },
            .onInvalidate :: Connection.disconnect
              { d.connection with validationIn := decode64 bytes }) := by
        simp [Completion.resume, Connection.readDone, Connection.readValidation2Done, hCheck,
          hAnswer]
      have hEnds : (Completion.read .validation2 bytes).ends d.connection = true := by
        simp [Completion.ends, Connection.rejects, hCheck, hAnswer]
      refine moves_rejected hShows hResume hEnds (fun after => ?_) ?_
      · simp [Start.reports, Completion.bytes, hLength, List.take_left' hLength, hAnswer]
      · simp [Start.script]

theorem moves_reply (h : Stage (.server now id) (some (.write .validation3)) d)
    (hDone : Done (.write .validation3) c) : Moves (.server now id) (.write .validation3) d c := by
  cases hDone
  cases h with
  | reply hOwner hBody hAccepts hId hShows =>
    have hResume : (Completion.written .validation3).resume d.connection =
        (d.connection, [.asyncWrite .validation4 (encode64 id)]) := by
      simp [Completion.resume, Connection.writeDone, Connection.writeValidation4,
        Connection.writeValidation, hOwner, hId]
    refine moves_on hShows hResume rfl rfl (fun _ => rfl) fun hConn hNext => ?_
    refine .name (hConn ▸ hOwner) (hConn ▸ hBody) hAccepts ?_
    simpa [Completion.bytes, talk, List.filter_cons, Effect.isTalk, Effect.isReport, Effect.bytes,
      Effect.opens, Effect.completes,
        WriteOp.sendsFrame, Start.script] using hNext

theorem moves_name (h : Stage (.server now id) (some (.write .validation4)) d)
    (hDone : Done (.write .validation4) c) : Moves (.server now id) (.write .validation4) d c := by
  cases hDone
  cases h with
  | @name _ _ p _ hOwner hBody hAccepts hShows =>
    have hResume : (Completion.written .validation4).resume d.connection =
        (d.connection, [.asyncRead .header headerSize]) := rfl
    refine moves_on hShows hResume rfl rfl (fun h => by cases h) fun hConn hNext => ?_
    refine @Stage.header _ p _ [] _ (hConn ▸ hOwner) (hConn ▸ hBody) hAccepts (by simp) ?_
    simpa [Completion.bytes, talk, List.filter_cons, Effect.isTalk, Effect.isReport, Effect.bytes,
      Effect.opens, Effect.completes] using hNext

end

/-! ## The moves of the client's handshake -/

section

variable {opened : Bool} {d : Dialogue} {c : Completion}

theorem moves_connect (h : Stage (.client opened) (some .connect) d) (hDone : Done .connect c) :
    Moves (.client opened) .connect d c := by
  cases hDone
  cases h with
  | connect hOwner hBody hShows =>
    have hResume : Completion.connected.resume d.connection =
        (d.connection, [.asyncRead .validation1 8]) := by
      simp [Completion.resume, Connection.connectDone, Connection.readValidation1,
        Connection.readValidation, hOwner]
    refine moves_on hShows hResume rfl rfl (fun h => by cases h) fun hConn hNext => ?_
    refine .challenged (hConn ▸ hOwner) (hConn ▸ hBody) ?_
    simpa [Completion.bytes, talk, List.filter_cons, Effect.isTalk, Effect.isReport, Effect.bytes,
      Effect.opens, Effect.completes] using hNext

theorem moves_challenged (h : Stage (.client opened) (some (.read .validation1 8)) d)
    (hDone : Done (.read .validation1 8) c) :
    Moves (.client opened) (.read .validation1 8) d c := by
  cases hDone with
  | @read _ _ bytes hLength =>
  cases h with
  | challenged hOwner hBody hShows =>
    have hResume : (Completion.read .validation1 bytes).resume d.connection =
        ({ d.connection with
            validationIn := decode64 bytes, validationOut := respond (decode64 bytes),
            validationCheck := respond (respond (decode64 bytes)) },
          [.asyncWrite .validation2 (encode64 (respond (decode64 bytes)))]) := by
      simp [Completion.resume, Connection.readDone, Connection.readValidation1Done,
        Connection.writeValidation2, Connection.writeValidation, hOwner, Connection.encrypt,
        respond, encrypt]
    refine moves_on hShows hResume rfl rfl (fun h => by cases h) fun hConn hNext => ?_
    refine .answering (b := bytes) (by rw [hConn]; exact hOwner) (by rw [hConn]; exact hBody)
      hLength (by rw [hConn]) ?_
    simpa [Completion.bytes, talk, List.filter_cons, Effect.isTalk, Effect.isReport,
      Effect.bytes, Effect.opens, Effect.completes,
        WriteOp.sendsFrame] using hNext

theorem moves_answering (h : Stage (.client opened) (some (.write .validation2)) d)
    (hDone : Done (.write .validation2) c) : Moves (.client opened) (.write .validation2) d c := by
  cases hDone
  cases h with
  | answering hOwner hBody hLength hCheck hShows =>
    have hResume : (Completion.written .validation2).resume d.connection =
        (d.connection, [.asyncRead .validation3 8]) := by
      simp [Completion.resume, Connection.writeDone, Connection.readValidation3,
        Connection.readValidation, hOwner]
    refine moves_on hShows hResume rfl rfl (fun h => by cases h) fun hConn hNext => ?_
    refine .replied (hConn ▸ hOwner) (hConn ▸ hBody) hLength (hConn ▸ hCheck) ?_
    simpa [Completion.bytes, talk, List.filter_cons, Effect.isTalk, Effect.isReport, Effect.bytes,
      Effect.opens, Effect.completes] using hNext

theorem moves_replied (h : Stage (.client opened) (some (.read .validation3 8)) d)
    (hDone : Done (.read .validation3 8) c) :
    Moves (.client opened) (.read .validation3 8) d c := by
  cases hDone with
  | @read _ _ bytes hLength' =>
  cases h with
  | @replied _ b _ hOwner hBody hLength hCheck hShows =>
    by_cases hAnswer : decode64 bytes = respond (respond (decode64 b))
    · have hResume : (Completion.read .validation3 bytes).resume d.connection =
          ({ d.connection with validationIn := decode64 bytes }, [.asyncRead .validation4 8]) := by
        simp [Completion.resume, Connection.readDone, Connection.readValidation3Done, hCheck,
          hAnswer, Connection.readValidation4, Connection.readValidation, hOwner]
      have hEnds : (Completion.read .validation3 bytes).ends d.connection = false := by
        simp [Completion.ends, Connection.rejects, hCheck, hAnswer]
      refine moves_on hShows hResume hEnds rfl (fun h => by cases h) fun hConn hNext => ?_
      refine .named (b := b) (by rw [hConn]; exact hOwner) (by rw [hConn]; exact hBody)
        hLength hLength' hAnswer ?_
      simpa [Completion.bytes, talk, List.filter_cons, Effect.isTalk, Effect.isReport,
        Effect.bytes, Effect.opens, Effect.completes] using hNext
    · have hResume : (Completion.read .validation3 bytes).resume d.connection =
          ({ d.connection with validationIn := decode64 bytes },
            .onInvalidate :: Connection.disconnect
              { d.connection with validationIn := decode64 bytes }) := by
        simp [Completion.resume, Connection.readDone, Connection.readValidation3Done, hCheck,
          hAnswer]
      have hEnds : (Completion.read .validation3 bytes).ends d.connection = true := by
        simp [Completion.ends, Connection.rejects, hCheck, hAnswer]
      refine moves_rejected hShows hResume hEnds (fun after => ?_) ?_
      · have hLong : 16 ≤ b.length + (bytes.length + after.length) := by omega
        simp [Start.reports, Completion.bytes, hLong, List.take_left' hLength,
          List.drop_left' hLength, List.take_left' hLength', hAnswer]
      · simp [Start.script, Completion.bytes, List.take_left' hLength]

theorem moves_named (h : Stage (.client opened) (some (.read .validation4 8)) d)
    (hDone : Done (.read .validation4 8) c) :
    Moves (.client opened) (.read .validation4 8) d c := by
  cases hDone with
  | @read _ _ bytes hLength'' =>
  cases h with
  | @named _ b b' _ hOwner hBody hLength hLength' hCheck hShows =>
    have hResume : (Completion.read .validation4 bytes).resume d.connection =
        ({ d.connection with id := decode64 bytes },
          [.onValidate (decode64 bytes), .asyncRead .header headerSize]) := rfl
    refine moves_on hShows hResume rfl rfl (fun h => by cases h) fun hConn hNext => ?_
    refine @Stage.header _ (b ++ b' ++ bytes) (decode64 bytes) [] _
      (by rw [hConn]; exact hOwner) (by rw [hConn]; exact hBody) ?_ (by simp) ?_
    · refine ⟨by simp [hLength, hLength', hLength''], ?_, ?_⟩
      · simpa [List.take_left' hLength, List.drop_left' hLength, List.take_left' hLength']
          using hCheck
      · rw [List.drop_left' (by simp [hLength, hLength'])]
    · simpa [Completion.bytes, talk, List.filter_cons, Effect.isTalk, Effect.isReport,
        Effect.bytes, Effect.opens, Effect.completes,
        Start.script, List.take_left' hLength] using hNext

end

/-! ## Reading messages -/

section

variable {s : Start} {d : Dialogue} {c : Completion}

theorem moves_header (h : Stage s (some (.read .header headerSize)) d)
    (hDone : Done (.read .header headerSize) c) : Moves s (.read .header headerSize) d c := by
  cases hDone with
  | @read _ _ bytes hLength =>
  cases h with
  | @header _ p id ms _ hOwner hBody hAccepts hAnnounces hShows =>
    have hBytes := MessageHeader.bytes_ofBytes hLength
    by_cases hSize : (MessageHeader.ofBytes bytes).size > 0
    · have hResume : (Completion.read .header bytes).resume d.connection =
          ({ d.connection with tempIncomingMessage := {
              header := MessageHeader.ofBytes bytes
              body := resize [] (MessageHeader.ofBytes bytes).size.toNat } },
            [.asyncRead .body (MessageHeader.ofBytes bytes).size.toNat]) := by
        simp [Completion.resume, Connection.readDone, Connection.readHeaderDone, hSize,
          Connection.readBody, hBody, resize_nil]
      refine moves_on hShows hResume rfl rfl (fun h => by cases h) fun hConn hNext => ?_
      have hHeader : (d.next (.read .header bytes)).connection.tempIncomingMessage.header =
          MessageHeader.ofBytes bytes := by rw [hConn]
      rw [← hHeader]
      refine @Stage.body _ p id ms _ (by rw [hConn]; exact hOwner) hAccepts
        hAnnounces ?_ ?_
      · rw [hHeader]
        exact UInt32.lt_iff_toNat_lt.mp hSize
      · rw [hHeader, hBytes]
        simpa [Completion.bytes, talk, List.filter_cons, Effect.isTalk, Effect.isReport,
          Effect.bytes, Effect.opens, Effect.completes] using hNext
    · have hZero : (MessageHeader.ofBytes bytes).size.toNat = 0 := by
        have := mt UInt32.lt_iff_toNat_lt.mpr hSize
        simpa using this
      have hResume : (Completion.read .header bytes).resume d.connection =
          ({ d.connection with tempIncomingMessage := {
              header := { MessageHeader.ofBytes bytes with size := 0 }, body := [] } },
            [s.deliver { header := MessageHeader.ofBytes bytes, body := [] },
              .asyncRead .header headerSize]) := by
        simp [Completion.resume, Connection.readDone, Connection.readHeaderDone, hSize,
          Connection.addToIncomingMessageQueue, hBody, hOwner, Start.deliver,
          Connection.readHeader]
      refine moves_on hShows hResume rfl rfl (fun h => by cases h) fun hConn hNext => ?_
      refine @Stage.header _ p id
        (ms ++ [{ header := MessageHeader.ofBytes bytes, body := [] }]) _
        (by rw [hConn]; exact hOwner) (by rw [hConn]) hAccepts ?_ ?_
      · intro m hm
        rcases List.mem_append.mp hm with hm | hm
        · exact hAnnounces m hm
        · rw [List.mem_singleton.mp hm]
          exact hZero
      · simpa [Completion.bytes, talk, List.filter_cons, Effect.isTalk, Effect.isReport,
          Effect.bytes, Effect.opens, Effect.completes,
        Start.deliver, Message.frame, hBytes] using hNext

theorem moves_body {n : Nat} (h : Stage s (some (.read .body n)) d)
    (hDone : Done (.read .body n) c) : Moves s (.read .body n) d c := by
  cases hDone with
  | @read _ _ bytes hLength =>
  cases h with
  | @body _ p id ms _ hOwner hAccepts hAnnounces hSize hShows =>
    have hResume : (Completion.read .body bytes).resume d.connection =
        ({ d.connection with tempIncomingMessage := {
            header := { d.connection.tempIncomingMessage.header with size := 0 }, body := [] } },
          [s.deliver { header := d.connection.tempIncomingMessage.header, body := bytes },
            .asyncRead .header headerSize]) := by
      simp [Completion.resume, Connection.readDone, Connection.readBodyDone,
        Connection.addToIncomingMessageQueue, hOwner, Start.deliver, Connection.readHeader]
    refine moves_on hShows hResume rfl rfl (fun h => by cases h) fun hConn hNext => ?_
    refine @Stage.header _ p id
      (ms ++ [{ header := d.connection.tempIncomingMessage.header, body := bytes }]) _
      (by rw [hConn]; exact hOwner) (by rw [hConn]) hAccepts ?_ ?_
    · intro m hm
      rcases List.mem_append.mp hm with hm | hm
      · exact hAnnounces m hm
      · rw [List.mem_singleton.mp hm]
        exact hLength.symm
    · simpa [Completion.bytes, talk, List.filter_cons, Effect.isTalk, Effect.isReport,
        Effect.bytes, Effect.opens, Effect.completes,
        Start.deliver, Message.frame] using hNext

/-- **Every completion leads from a stage to a stage.** -/
theorem Stage.next {k : Pending} (h : Stage s (some k) d) (hMain : c.isMain = true)
    (hk : c.pending? = some k) : Moves s k d c := by
  by_cases hDone : Done k c
  · cases h with
    | challenge hOwner hBody hCheck hId hShows =>
      exact moves_challenge (.challenge hOwner hBody hCheck hId hShows) hDone
    | answer hOwner hBody hCheck hId hShows =>
      exact moves_answer (.answer hOwner hBody hCheck hId hShows) hDone
    | reply hOwner hBody hAccepts hId hShows =>
      exact moves_reply (.reply hOwner hBody hAccepts hId hShows) hDone
    | name hOwner hBody hAccepts hShows =>
      exact moves_name (.name hOwner hBody hAccepts hShows) hDone
    | connect hOwner hBody hShows => exact moves_connect (.connect hOwner hBody hShows) hDone
    | challenged hOwner hBody hShows =>
      exact moves_challenged (.challenged hOwner hBody hShows) hDone
    | answering hOwner hBody hLength hCheck hShows =>
      exact moves_answering (.answering hOwner hBody hLength hCheck hShows) hDone
    | replied hOwner hBody hLength hCheck hShows =>
      exact moves_replied (.replied hOwner hBody hLength hCheck hShows) hDone
    | named hOwner hBody hLength hLength' hCheck hShows =>
      exact moves_named (.named hOwner hBody hLength hLength' hCheck hShows) hDone
    | header hOwner hBody hAccepts hAnnounces hShows =>
      exact moves_header (.header hOwner hBody hAccepts hAnnounces hShows) hDone
    | body hOwner hAccepts hAnnounces hSize hShows =>
      exact moves_body (.body hOwner hAccepts hAnnounces hSize hShows) hDone
  · exact moves_failed h hMain hk hDone

end

/-! ## Stages that wait for nothing -/

theorem Stage.ended_none {s : Start} {k : Option Pending} {d : Dialogue} (h : Stage s k d)
    (hEnded : d.ended = true) : k = none := by
  cases h with
  | created | rejected | broken => rfl
  | challenge _ _ _ _ hShows | answer _ _ _ _ hShows | reply _ _ _ _ hShows
  | connect _ _ hShows | challenged _ _ hShows | answering _ _ _ _ hShows
  | replied _ _ _ _ hShows | name _ _ _ hShows | named _ _ _ _ _ hShows
  | header _ _ _ _ hShows | body _ _ _ _ hShows =>
    rw [hShows.ended] at hEnded
    cases hEnded

/-- A connection that has not begun its handshake waits for nothing. -/
theorem Stage.created_none {owner : ConnectionOwner} {isOpen : Bool} {k : Option Pending}
    {d : Dialogue} (h : Stage (.created owner isOpen) k d) : k = none := by
  cases h with
  | created | rejected | broken => rfl
  | header _ _ hAccepts => exact hAccepts.elim
  | body _ hAccepts => exact hAccepts.elim

/-! ## Runs -/

/-- The handshake and read chain is in a stage, and waits for what the stage waits for. -/
def InStage (s : Start) (e : Endpoint) : Prop := ∃ k, e.Waits k ∧ Stage s k e.dialogue

/-- One step of an endpoint, as a step between stages. -/
theorem Stage.step {s : Start} {e e' : Endpoint} {k : Option Pending} {event : Event}
    (hWaits : e.Waits k) (hStage : Stage s k e.dialogue) (hStep : e.step event = some e') :
    ∃ k', e'.Waits k' ∧ Stage s k' e'.dialogue ∧
      (e.dialogue.opening = true → k ≠ some (.write .validation4) →
        e'.dialogue.opening = true ∧ k' ≠ some (.write .validation4)) := by
  by_cases hFrame : event.isFrame = true
  · obtain ⟨hDialogue, hKeep⟩ := step_frame hFrame hStep
    rw [hDialogue]
    exact ⟨k, hKeep k hWaits, hStage, fun hOpening hNe => ⟨hOpening, hNe⟩⟩
  · cases event with
    | complete c =>
      have hMain : c.isMain = true := by simpa [Event.isFrame] using hFrame
      obtain ⟨rfl, hDialogue, hNext⟩ := step_main hWaits hMain hStep
      cases hPending : c.pending? with
      | none => cases c <;> cases hPending; cases hMain
      | some k =>
        rw [hPending] at hStage
        obtain ⟨k', hStage', hStarts, hOnce, -⟩ := hStage.next hMain hPending
        rw [hDialogue]
        refine ⟨k', hNext k' hStarts, hStage', fun hOpening hNe => ⟨?_, hOnce hOpening ?_⟩⟩
        · simp only [Dialogue.opening] at hOpening
          simp [Dialogue.opening, Dialogue.next, hOpening]
        · exact fun h => hNe (congrArg some h)
    | send | disconnect | transfer => exact absurd rfl hFrame

theorem InStage.step {s : Start} {e e' : Endpoint} {event : Event} (h : InStage s e)
    (hStep : e.step event = some e') : InStage s e' := by
  obtain ⟨k, hWaits, hStage⟩ := h
  obtain ⟨k', hWaits', hStage', -⟩ := hStage.step hWaits hStep
  exact ⟨k', hWaits', hStage'⟩

theorem inStage_start (lambdas : List Lambda) (s : Start) : InStage s (start lambdas s) := by
  cases s with
  | created owner isOpen =>
    exact ⟨none, ⟨rfl, rfl, fun _ _ => rfl⟩, .created ⟨rfl, rfl, rfl, rfl, rfl, rfl⟩⟩
  | server now id =>
    refine ⟨some (.write .validation1), ?_, .challenge rfl rfl rfl rfl ⟨rfl, rfl, ?_, rfl, rfl, rfl⟩⟩
    · exact Waits.performAll ⟨rfl, rfl, fun _ _ => rfl⟩ rfl
    · exact List.append_nil _
  | client opened =>
    refine ⟨some .connect, ?_, .connect rfl rfl ⟨rfl, rfl, rfl, rfl, rfl, rfl⟩⟩
    exact Waits.performAll ⟨rfl, rfl, fun _ _ => rfl⟩ rfl

/-- **Every reachable endpoint is in a stage.** -/
theorem exists_stage {s : Start} {ok : Endpoint → Event → Prop} {e : Endpoint}
    (h : Runs.Reach (system s) ok e) : InStage s e := by
  refine h.invariant ?_ fun e event e' hStage _ hStep => hStage.step hStep
  rintro _ ⟨lambdas, rfl⟩
  exact inStage_start lambdas s

end Endpoint

end MinecraftNetwork
