import MinecraftNetwork.Endpoint.Reading
import MinecraftNetwork.Endpoint.Outgoing

/-!
# How far an endpoint has come with its handshake

What the other side of a connection may rely on: the identifier of a server connection is
the one it was given, and that of a client is the one its owner was told (`Named`); the
handshake ends with the last byte the peer owes (`Stage.consumed_le`); and an endpoint
that has gone on has put its part of the handshake on the wire (`Operational.length_wire`).
-/

namespace MinecraftNetwork

open Runs

/-- The operation has failed. -/
def Completion.fails : Completion → Bool
  | .connectFailed | .readFailed _ _ | .writeFailed _ => true
  | .connected | .read _ _ | .written _ | .lambda => false

/-! ## The identifier -/

namespace Connection

theorem disconnect_validates (c : Connection) (i : UInt64) : .onValidate i ∉ c.disconnect := by
  unfold disconnect
  split
  · split <;> simp
  · simp

theorem readValidation_validates (owner : ConnectionOwner) (op : ReadOp) (c : Connection)
    (i : UInt64) : .onValidate i ∉ readValidation owner op c := by
  unfold readValidation
  split <;> simp

theorem writeValidation_validates (owner : ConnectionOwner) (op : WriteOp)
    (field : Connection → UInt64) (c : Connection) (i : UInt64) :
    .onValidate i ∉ writeValidation owner op field c := by
  unfold writeValidation
  split <;> simp

/-- Only `ReadValidation4` changes the identifier, and the owner is told the identifier the
connection has. -/
theorem resume_id (c : Connection) {completion : Completion} (hMain : completion.isMain = true) :
    ((completion.resume c).1.id = c.id ∨ ∃ bytes, completion = .read .validation4 bytes) ∧
      ∀ i, .onValidate i ∈ (completion.resume c).2 → (completion.resume c).1.id = i := by
  have hNone : ∀ {effects : List Effect} {i j : UInt64}, .onValidate i ∉ effects →
      .onValidate i ∈ effects → j = i := fun hNot hMem => absurd hMem hNot
  cases completion with
  | connected => exact ⟨.inl rfl, fun i => hNone (readValidation_validates _ _ _ i)⟩
  | connectFailed | readFailed | writeFailed =>
    exact ⟨.inl rfl, fun i => hNone (c.disconnect_validates i)⟩
  | lambda => cases hMain
  | written op =>
    cases op with
    | header | body => cases hMain
    | validation1 | validation2 => exact ⟨.inl rfl, fun i => hNone (readValidation_validates _ _ _ i)⟩
    | validation3 => exact ⟨.inl rfl, fun i => hNone (writeValidation_validates _ _ _ _ i)⟩
    | validation4 => exact ⟨.inl rfl, by simp [Completion.resume, writeDone, readHeader]⟩
  | read op bytes =>
    cases op with
    | header =>
      simp only [Completion.resume, readDone, readHeaderDone]
      split
      · exact ⟨.inl rfl, by simp [readBody]⟩
      · exact ⟨.inl rfl, by simp [addToIncomingMessageQueue, readHeader]⟩
    | body =>
      refine ⟨.inl rfl, ?_⟩
      simp [Completion.resume, readDone, readBodyDone, addToIncomingMessageQueue, readHeader]
    | validation1 => exact ⟨.inl rfl, fun i => hNone (writeValidation_validates _ _ _ _ i)⟩
    | validation2 =>
      simp only [Completion.resume, readDone, readValidation2Done]
      split
      · refine ⟨.inl rfl, fun i hMem => ?_⟩
        rcases List.mem_cons.mp hMem with hSame | hMem
        · exact (Effect.onValidate.inj hSame).symm
        · exact hNone (writeValidation_validates _ _ _ _ i) hMem
      · refine ⟨.inl rfl, fun i hMem => ?_⟩
        rcases List.mem_cons.mp hMem with hSame | hMem
        · cases hSame
        · exact hNone (disconnect_validates _ i) hMem
    | validation3 =>
      simp only [Completion.resume, readDone, readValidation3Done]
      split
      · exact ⟨.inl rfl, fun i => hNone (readValidation_validates _ _ _ i)⟩
      · refine ⟨.inl rfl, fun i hMem => ?_⟩
        rcases List.mem_cons.mp hMem with hSame | hMem
        · cases hSame
        · exact hNone (disconnect_validates _ i) hMem
    | validation4 =>
      refine ⟨.inr ⟨bytes, rfl⟩, ?_⟩
      simp [Completion.resume, readDone, readValidation4Done, readHeader]

end Connection

namespace Endpoint

/-- The identifier the owner has been told is that of the connection, and a server
connection keeps the one it was given. -/
structure Named (s : Start) (e : Endpoint) : Prop where
  told : ∀ i, .onValidate i ∈ e.history → e.connection.id = i
  given : ∀ now id, s = .server now id → e.connection.id = id

/-- `ReadValidation4` runs on a client whose owner has been told nothing. -/
theorem Stage.read_name {s : Start} {n : Nat} {d : Dialogue}
    (h : Stage s (some (.read .validation4 n)) d) :
    d.reports = [] ∧ ∀ now id, s ≠ .server now id := by
  cases h with
  | named _ _ _ _ _ hShows => exact ⟨hShows.reports, by simp⟩

theorem onValidate_reports {e : Endpoint} {i : UInt64} :
    .onValidate i ∈ e.dialogue.reports ↔ .onValidate i ∈ e.history := by
  rw [dialogue_reports, reports, List.mem_filter]
  exact and_iff_left rfl

theorem onInvalidate_reports {e : Endpoint} :
    .onInvalidate ∈ e.dialogue.reports ↔ .onInvalidate ∈ e.history := by
  rw [dialogue_reports, reports, List.mem_filter]
  exact and_iff_left rfl

theorem Named.congr {s : Start} {e e' : Endpoint} (h : Named s e)
    (hDialogue : e'.dialogue = e.dialogue) : Named s e' := by
  have hId : e'.connection.id = e.connection.id :=
    congrArg (fun d : Dialogue => d.connection.id) hDialogue
  refine ⟨fun i hMem => ?_, fun now id hStart => hId.trans (h.given now id hStart)⟩
  rw [← onValidate_reports, hDialogue, onValidate_reports] at hMem
  exact hId.trans (h.told i hMem)

theorem Named.step {s : Start} {e e' : Endpoint} {event : Event} (h : Named s e)
    (hStage : InStage s e) (hStep : e.step event = some e') : Named s e' := by
  by_cases hFrame : event.isFrame = true
  · exact h.congr (step_frame hFrame hStep).1
  · cases event with
    | send | disconnect | transfer => exact absurd rfl hFrame
    | complete c =>
      have hMain : c.isMain = true := by simpa [Event.isFrame] using hFrame
      obtain ⟨k, hWaits, hStage⟩ := hStage
      have hPending := (step_main hWaits hMain hStep).1
      simp only [Endpoint.step, Option.map_eq_some_iff] at hStep
      obtain ⟨⟨e₁, effects⟩, hHandle, rfl⟩ := hStep
      obtain ⟨hConnection, hEffects, -, -⟩ := handle_resume hMain hHandle
      obtain ⟨hId, hTold⟩ := e.connection.resume_id hMain
      have hHistory := (handle_keeps hHandle).2.2
      refine ⟨fun i hMem => ?_, fun now id hStart => ?_⟩
      · rw [performAll_connection, hConnection]
        rw [performAll_history, hHistory, List.mem_append, hEffects] at hMem
        rcases hMem with hMem | hMem
        · rcases hId with hId | ⟨bytes, rfl⟩
          · exact hId.trans (h.told i hMem)
          · obtain rfl := hPending
            rw [← onValidate_reports, hStage.read_name.1] at hMem
            cases hMem
        · exact hTold i hMem
      · rw [performAll_connection, hConnection]
        rcases hId with hId | ⟨bytes, rfl⟩
        · exact hId.trans (h.given now id hStart)
        · obtain rfl := hPending
          exact absurd hStart (hStage.read_name.2 now id)

theorem Named.start (lambdas : List Lambda) (s : Start) : Named s (start lambdas s) := by
  refine ⟨fun i hMem => ?_, ?_⟩
  · cases s with
    | created => cases hMem
    | server | client => cases List.mem_singleton.mp hMem
  · rintro now id rfl
    rfl

/-! ## The bytes read -/

/-- The number of bytes an operation reads. -/
def size : Pending → Nat
  | .read _ n => n
  | .connect | .write _ => 0

theorem Start.Accepts.length {s : Start} {p : List UInt8} {id : UInt64} (h : s.Accepts p id) :
    p.length = s.expects := by
  cases s with
  | created => exact h.elim
  | server | client => exact h.1

/-- Until the handshake is complete no byte behind it is read. -/
theorem Stage.consumed_le {s : Start} {k : Pending} {d : Dialogue} (h : Stage s (some k) d)
    (hNot : d.completed = false) : d.consumed.length + size k ≤ s.expects := by
  cases h with
  | challenge _ _ _ _ hShows | answer _ _ _ _ hShows | connect _ _ hShows | challenged _ _ hShows =>
    rw [hShows.consumed]
    simp [size, Start.expects]
  | reply _ _ hAccepts _ hShows | name _ _ hAccepts hShows =>
    rw [hShows.consumed, hAccepts.length]
    exact Nat.le_refl _
  | answering _ _ hLength _ hShows | replied _ _ hLength _ hShows =>
    rw [hShows.consumed, hLength]
    simp [size, Start.expects]
  | named _ _ hLength hLength' _ hShows =>
    rw [hShows.consumed, List.length_append, hLength, hLength']
    exact Nat.le_refl _
  | header _ _ _ _ hShows | body _ _ _ _ hShows =>
    rw [hShows.completed] at hNot
    cases hNot

/-- A complete handshake has been read. -/
theorem Stage.expects_le {s : Start} {k : Option Pending} {d : Dialogue} (h : Stage s k d)
    (hCompleted : d.completed = true) : s.expects ≤ d.consumed.length := by
  obtain ⟨p, id, hAccepts, hPrefix, -⟩ := (h.completed hCompleted).accepts
  rw [← hAccepts.length]
  exact hPrefix.length_le

/-- Whoever is validated has sent the whole handshake. -/
theorem Start.expects_le_of_reports {s : Start} {b : List UInt8} {i : UInt64}
    (h : .onValidate i ∈ s.reports b) : s.expects ≤ b.length := by
  cases s with
  | created => cases h
  | server now id =>
    simp only [Start.reports] at h
    split at h
    · cases h
    · simp only [Start.expects]
      omega
  | client opened =>
    simp only [Start.reports] at h
    split at h
    · cases h
    · split at h
      · simp at h
      · split at h
        · cases h
        · simp only [Start.expects]
          omega

/-! ## The bytes written -/

theorem Waits.writing_cons {e : Endpoint} {op : WriteOp} (h : e.Waits (some (.write op)))
    (hOp : op.sendsFrame = false) : ∃ bytes rest, e.writing op = bytes :: rest := by
  have hOne := h.writing op hOp
  rw [if_pos rfl] at hOne
  obtain ⟨bytes, hWriting⟩ := List.length_eq_one_iff.mp hOne
  exact ⟨bytes, [], hWriting⟩

/-- A server that has written more than its challenge has judged the peer. -/
theorem Stage.answered {now id : UInt64} {k : Option Pending} {d : Dialogue}
    (h : Stage (.server now id) k d) (hLong : 8 < d.handed.length) :
    (∃ i, .onValidate i ∈ d.reports) ∨ .onInvalidate ∈ d.reports := by
  generalize hStart : Start.server now id = s at h
  induction h with
  | created | connect | challenged | answering | replied | named => cases hStart
  | challenge _ _ _ _ hShows | answer _ _ _ _ hShows =>
    rw [hShows.handed, LittleEndian.length_encode64] at hLong
    omega
  | @reply _ id' _ _ _ _ _ _ hShows | @name _ id' _ _ _ _ _ hShows
  | @header _ _ id' _ _ _ _ _ _ hShows | @body _ _ id' _ _ _ _ _ _ hShows =>
    refine .inl ⟨id', ?_⟩
    rw [hShows.reports]
    exact List.mem_cons_self
  | rejected hReports =>
    right
    rw [hReports]
    exact List.mem_cons_self
  | broken _ hAfter ih =>
    subst hAfter
    exact ih hLong hStart

theorem Wire.of_sound {e : Endpoint} (h : Wire e) (hEnded : e.ended = false)
    (hFailed : e.writeFailed = false) : e.wire ++ e.inFlight = e.handed := by
  cases h with
  | sound hWire => exact hWire
  | dead _ _ hDead => simp [hEnded, hFailed] at hDead

/-- When the writes of the handshake are over, what is in flight belongs to the frames. -/
theorem inFlight_le {s : Start} {e : Endpoint} {done : List Message} (hStage : InStage s e)
    (hFronted : Fronted e) (hChain : WriteChain e done) (hSent : e.handshakeSent = true) :
    e.inFlight.length ≤ e.frameHanded.length := by
  have hWrites := writes_handshakeSent hStage hSent
  rw [writes_eq] at hWrites
  have hNone : ∀ op, e.outstanding op = 0 → e.writing op = [] :=
    fun op hZero => List.eq_nil_of_length_eq_zero hZero
  have hFlight : e.inFlight = (e.writing .header).flatten ++ (e.writing .body).flatten := by
    simp [inFlight, WriteOp.all, hNone .validation1 (by omega), hNone .validation2 (by omega),
      hNone .validation3 (by omega), hNone .validation4 (by omega)]
  have hOne : ∀ op, op.sendsFrame = true → e.outstanding op = 1 → ∀ {m rest},
      e.connection.outgoingMessages = m :: rest →
      (e.writing op).flatten.length ≤ (op.part m).length := by
    intro op hOp hOne m rest hQueue
    obtain ⟨bytes, hWriting⟩ := List.length_eq_one_iff.mp hOne
    obtain ⟨m', rest', hFront, hSuffix⟩ := hFronted.part op bytes hOp (by simp [hWriting])
    obtain ⟨rfl, rfl⟩ := List.cons.inj (hQueue.symm.trans hFront)
    simpa [hWriting] using hSuffix.length_le
  rw [hFlight]
  cases hChain.state with
  | idle _ _ _ hHeader hBody | failed _ _ _ hHeader hBody =>
    rw [hNone _ hHeader, hNone _ hBody]
    exact Nat.zero_le _
  | header hQueue _ hHanded hHeader hBody =>
    have hBound := hOne .header rfl hHeader hQueue
    rw [hNone _ hBody, List.flatten_nil, List.append_nil, hHanded, List.length_append]
    exact hBound.trans (Nat.le_add_left _ _)
  | body hQueue _ hHanded hHeader hBody =>
    have hBound := hOne .body rfl hBody hQueue
    rw [hNone _ hHeader, List.flatten_nil, List.nil_append, hHanded, List.length_append,
      Message.frame, List.length_append]
    exact hBound.trans ((Nat.le_add_left _ _).trans (Nat.le_add_left _ _))

/-- **An endpoint that has written its handshake has put it on the wire.** -/
theorem Operational.length_wire {s : Start} {e : Endpoint} (h : Operational s e)
    (hFronted : Fronted e) (hSent : e.handshakeSent = true) (hEnded : e.ended = false)
    (hFailed : e.writeFailed = false) : (s.script e.consumed).length ≤ e.wire.length := by
  obtain ⟨done, hChain⟩ := h.orderly.chain
  obtain ⟨k, hWaits, hStage⟩ := h.orderly.stage
  have hScript : e.dialogue.handed = s.script e.consumed :=
    (hStage.opened ((handshakeSent_iff hWaits).mp hSent).1).1
  have hBound := inFlight_le h.orderly.stage hFronted hChain hSent
  have hWire := congrArg List.length (h.wire.of_sound hEnded hFailed)
  rw [h.orderly.order, hScript, List.length_append, List.length_append] at hWire
  omega

/-- **An endpoint that waits for its peer has written what it has to say so far.** -/
theorem Operational.wire_waiting {s : Start} {e : Endpoint} {op : ReadOp} {n : Nat}
    (h : Operational s e) (hWaits : e.Waits (some (.read op n))) (hSent : e.handshakeSent = false)
    (hEnded : e.ended = false) (hFailed : e.writeFailed = false) : e.wire = e.dialogue.handed := by
  have hZero : e.writes = 0 := by
    have hHandshake := hWaits.sum_handshake.2 (by simp)
    have hHeader : e.outstanding .header = 0 := by rw [outstanding, h.orderly.writing hSent _ rfl]; rfl
    have hBody : e.outstanding .body = 0 := by rw [outstanding, h.orderly.writing hSent _ rfl]; rfl
    rw [writes_eq, hHandshake, hHeader, hBody]
  have hWire := h.wire.of_sound hEnded hFailed
  rwa [inFlight_nil hZero, List.append_nil, h.orderly.order, frameHanded,
    frameBytes_main (h.orderly.history hSent), List.append_nil] at hWire

/-! ## Without a failure -/

theorem rejects_onInvalidate {c : Connection} {op : ReadOp} {bytes : List UInt8}
    (h : c.rejects op bytes = true) : .onInvalidate ∈ (c.readDone op bytes).2 := by
  cases op with
  | validation2 =>
    have hNot : ¬ LittleEndian.decode64 bytes = c.validationCheck := by
      simpa [Connection.rejects] using h
    simp [Connection.readDone, Connection.readValidation2Done, hNot]
  | validation3 =>
    have hNot : ¬ LittleEndian.decode64 bytes = c.validationCheck := by
      simpa [Connection.rejects] using h
    simp [Connection.readDone, Connection.readValidation3Done, hNot]
  | header | body | validation1 | validation4 => cases h

/-- A handler that has not failed stops the chain only by rejecting the peer. -/
theorem handle_unfailing {e e' : Endpoint} {effects : List Effect} {c : Completion}
    (hFails : c.fails = false) (h : e.handle c = some (e', effects)) :
    e'.writeFailed = e.writeFailed ∧ (e'.ended = e.ended ∨ .onInvalidate ∈ effects) := by
  cases c with
  | connected | written =>
    simp only [handle] at h
    split at h <;> cases h
    exact ⟨rfl, .inl rfl⟩
  | lambda =>
    simp only [handle] at h
    split at h <;> cases h <;> exact ⟨rfl, .inl rfl⟩
  | read op bytes =>
    simp only [handle] at h
    split at h <;> cases h
    refine ⟨rfl, ?_⟩
    cases hRejects : e.connection.rejects op bytes with
    | false => exact .inl (Bool.or_false _)
    | true => exact .inr (rejects_onInvalidate hRejects)
  | connectFailed | readFailed | writeFailed => cases hFails

/-- A step of the owner, the network or a handler that has not failed. -/
theorem step_unfailing {e e' : Endpoint} {event : Event}
    (hOk : ∀ c, event = .complete c → c.fails = false) (hStep : e.step event = some e')
    (hNot : .onInvalidate ∉ e'.history) :
    e'.ended = e.ended ∧ e'.writeFailed = e.writeFailed := by
  cases event with
  | send | disconnect =>
    cases hStep
    exact ⟨rfl, rfl⟩
  | transfer op k =>
    obtain ⟨-, -, -, -, -, -, -, hEnded, hFailed⟩ := transfer_frame hStep
    exact ⟨hEnded, hFailed⟩
  | complete c =>
    simp only [step, Option.map_eq_some_iff] at hStep
    obtain ⟨⟨e₁, effects⟩, hHandle, rfl⟩ := hStep
    obtain ⟨hFailed, hEnded⟩ := handle_unfailing (hOk c rfl) hHandle
    rw [performAll_ended, performAll_writeFailed]
    refine ⟨hEnded.resolve_right fun hMem => hNot ?_, hFailed⟩
    rw [performAll_history]
    exact List.mem_append_right _ hMem

end Endpoint

end MinecraftNetwork
