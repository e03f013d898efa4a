import MinecraftNetwork.Link.Delivery
import MinecraftNetwork.Endpoint.Opening

/-!
# The two sides of a handshake agree

`greeting` is what each side has to say in the handshake. Both sides read a prefix of what
the other has written, so neither is rejected, and the side that has read all of the other's
greeting stands at the first byte of the other's first frame. The client can have been
told its identifier only by a server that has validated it. And as long as no operation
fails, one of the two can go on (`Advances`).
-/

namespace MinecraftNetwork

open Runs

namespace Peer

variable {κ : Type}

/-- A step of an endpoint that reads a stream is a step of the endpoint, or leaves it alone. -/
theorem step_endpoint {p p' : Peer κ} {stream : List UInt8} {event : Event κ}
    (hStream : p.endpoint.consumed <+: stream) (h : p.step stream event = some p') :
    p'.endpoint.consumed <+: stream ∧ p.endpoint.wire <+: p'.endpoint.wire ∧
      (p'.endpoint = p.endpoint ∨
        ∃ event', event = .endpoint event' ∧ p.endpoint.step event' = some p'.endpoint) := by
  cases step_cases h with
  | foreign | poll => exact ⟨hStream, List.prefix_rfl, .inl rfl⟩
  | outside hOutside hStep =>
    have hFrame := Endpoint.outside_frame hOutside hStep
    refine ⟨?_, hFrame.wire, .inr ⟨_, rfl, hStep⟩⟩
    rw [hFrame.consumed]
    exact hStream
  | complete hThere hHandle =>
    refine ⟨?_, ?_, .inr ⟨_, rfl, ?_⟩⟩
    · rw [Endpoint.performAll_consumed, Endpoint.handle_consumed hHandle]
      exact hThere
    · rw [Endpoint.performAll_wire, (Endpoint.handle_keeps hHandle).2.1]
    · simp only [Endpoint.step, hHandle, Option.map_some]

/-- A posted lambda runs. -/
def Event.isLambda : Event κ → Bool
  | .endpoint event => event == .complete .lambda
  | .foreign _ _ | .poll _ => false

/-- The part of an endpoint that reads a stream that its handshake rests on. -/
structure Greets (s : Endpoint.Start) (stream : List UInt8) (p : Peer κ) : Prop where
  operational : Endpoint.Operational s p.endpoint
  fronted : Endpoint.Fronted p.endpoint
  named : Endpoint.Named s p.endpoint
  stream : p.endpoint.consumed <+: stream

theorem Greets.mono {s : Endpoint.Start} {stream stream' : List UInt8} {p : Peer κ}
    (h : p.Greets s stream) (hStream : stream <+: stream') : p.Greets s stream' :=
  { h with stream := h.stream.trans hStream }

theorem greets_start (s : Endpoint.Start) (lambdas : List Lambda) (stream : List UInt8) :
    ({ endpoint := Endpoint.start lambdas s } : Peer κ).Greets s stream := by
  refine ⟨.start lambdas s, .start lambdas s, .start lambdas s, ?_⟩
  cases s <;> exact List.nil_prefix

theorem Greets.step {s : Endpoint.Start} {stream : List UInt8} {p p' : Peer κ} {event : Event κ}
    (h : p.Greets s stream)
    (hOk : ∀ event', event = .endpoint event' → Endpoint.LateLambda p.endpoint event')
    (hStep : p.step stream event = some p') :
    p'.Greets s stream ∧ p.endpoint.wire <+: p'.endpoint.wire := by
  obtain ⟨hStream, hWire, hSame | ⟨event', rfl, hStep'⟩⟩ := step_endpoint h.stream hStep
  · refine ⟨⟨?_, ?_, ?_, hStream⟩, hWire⟩
    · rw [hSame]
      exact h.operational
    · rw [hSame]
      exact h.fronted
    · rw [hSame]
      exact h.named
  · obtain ⟨done, hChain⟩ := h.operational.orderly.chain
    exact ⟨⟨h.operational.step (hOk _ rfl) hStep', h.fronted.step hChain hStep',
      h.named.step h.operational.orderly.stage hStep', hStream⟩, hWire⟩

end Peer

namespace Link

variable {κ : Type}

open LittleEndian Endpoint

/-- What a side says in the handshake. -/
def greeting (now id : UInt64) : Side → List UInt8
  | .server => encode64 now ++ encode64 (respond (respond now)) ++ encode64 id
  | .client => encode64 (respond now)

/-- Both sides at the start of their handshake, with lambdas that have been posted before. -/
def startWith (lambdas : Side → List Lambda) (starts : Side → Endpoint.Start) : Link κ :=
  fun side => { endpoint := Endpoint.start (lambdas side) (starts side) }

/-- A connection whose owners may have called it before its handshake began. -/
def handshakes (κ : Type) (now id : UInt64) (opened : Bool) :
    System (Link κ) (Side × Peer.Event κ) where
  init l := ∃ lambdas, l = startWith lambdas (begins now id opened)
  step := step

/-- The lambdas of `Send` run after the side has called `ReadHeader`. -/
def LateLambda (l : Link κ) : Side × Peer.Event κ → Prop
  | (side, .endpoint event) => Endpoint.LateLambda (l side).endpoint event
  | (_, .foreign _ _) | (_, .poll _) => True

/-- No operation fails. -/
def Unfailing (_ : Link κ) : Side × Peer.Event κ → Prop
  | (_, .endpoint (.complete c)) => c.fails = false
  | _ => True

/-! ## Runs -/

/-- Each side reads what the other has written. -/
def Greets (starts : Side → Endpoint.Start) (l : Link κ) : Prop :=
  ∀ side, (l side).Greets (starts side) (l side.other).endpoint.wire

theorem Greets.step {starts : Side → Endpoint.Start} {l l' : Link κ} {event : Side × Peer.Event κ}
    (h : Greets starts l) (hOk : LateLambda l event) (hStep : l.step event = some l') :
    Greets starts l' := by
  refine step_sides (I := fun side stream p => p.Greets (starts side) stream)
    (fun hGreets => hGreets.mono) h hStep fun p hPeer => (h event.1).step ?_ hPeer
  obtain ⟨side, event⟩ := event
  rintro event' rfl
  exact hOk

theorem greets_of_reach {now id : UInt64} {opened : Bool} {l : Link κ}
    (h : Reach (handshakes κ now id opened) LateLambda l) : Greets (begins now id opened) l := by
  refine h.invariant ?_ fun l event l' hGreets hOk hStep => hGreets.step hOk hStep
  rintro _ ⟨lambdas, rfl⟩ side
  exact Peer.greets_start _ _ _

/-! ## What the two sides hear -/

section

variable {now id : UInt64} {opened : Bool} {l : Link κ}

theorem accepts_greeting (now id : UInt64) (opened : Bool) (side : Side) :
    (begins now id opened side).Accepts (greeting now id side.other) id := by
  cases side with
  | server => exact ⟨length_encode64 _, decode64_encode64 _, rfl⟩
  | client =>
    refine ⟨by simp [greeting, Side.other], ?_, ?_⟩
    · simp only [greeting, Side.other, List.append_assoc]
      rw [List.drop_left' (length_encode64 _), List.take_left' (length_encode64 _),
        List.take_left' (length_encode64 _), decode64_encode64, decode64_encode64]
    · simp only [greeting, Side.other]
      rw [List.drop_left' (by simp), decode64_encode64]

theorem length_greeting (now id : UInt64) (opened : Bool) (side : Side) :
    (greeting now id side.other).length = (begins now id opened side).expects :=
  (accepts_greeting now id opened side).length

/-- A side whose peer is owed nothing more has written its greeting. -/
theorem script_eq (h : Greets (begins now id opened) l) (side : Side)
    (hWire : (l side).endpoint.wire ≠ []) :
    (begins now id opened side).script (l side).endpoint.consumed = greeting now id side := by
  cases side with
  | server => rfl
  | client =>
    have hClient := (h .client).operational
    have hPrefix : (l .client).endpoint.wire <+: (l .client).endpoint.handed := by
      cases hClient.wire with
      | sound hSound => exact ⟨_, hSound⟩
      | dead hDead => exact hDead
    have hHanded : (l .client).endpoint.handed ≠ [] := fun hNone => by
      rw [hNone] at hPrefix
      exact hWire (List.prefix_nil.mp hPrefix)
    have hLong : 8 ≤ (l .client).endpoint.consumed.length :=
      hClient.orderly.separate.challenged hHanded
    -- the challenge the client has read is the one the server has written
    obtain ⟨rest, hRest⟩ := (h .client).stream.trans (h .server).operational.wire_prefix
    have hChallenge : (l .client).endpoint.consumed.take 8 = encode64 now := by
      rw [← List.take_append_of_le_length hLong, hRest]
      simp only [begins, Start.script, List.append_assoc]
      exact List.take_left' (length_encode64 _)
    simp only [begins, Start.script, hChallenge, decode64_encode64, greeting]

/-- What a side writes is its greeting and then its frames. -/
theorem wire_greeting (h : Greets (begins now id opened) l) (side : Side) :
    (l side).endpoint.wire <+: greeting now id side ++ frames (l side).endpoint.sent := by
  by_cases hWire : (l side).endpoint.wire = []
  · rw [hWire]
    exact List.nil_prefix
  · rw [← script_eq h side hWire]
    exact (h side).operational.wire_prefix

/-- What a side reads is the greeting of the other and then its frames. -/
theorem consumed_greeting (h : Greets (begins now id opened) l) (side : Side) :
    (l side).endpoint.consumed <+:
      greeting now id side.other ++ frames (l side.other).endpoint.sent :=
  (h side).stream.trans (wire_greeting h side.other)

/-- The owner of a side is told of the identifier and of messages. -/
theorem reports_greeting (h : Greets (begins now id opened) l) (side : Side) :
    (l side).endpoint.dialogue.reports <+:
      .onValidate id :: (splitFrames (frames (l side.other).endpoint.sent)).1.map
        (begins now id opened side).deliver := by
  obtain ⟨k, -, hStage⟩ := (h side).operational.orderly.stage
  obtain ⟨rest, hRest⟩ := consumed_greeting h side
  have hReports := hStage.reports_prefix rest
  rw [show (l side).endpoint.dialogue.consumed = (l side).endpoint.consumed from rfl, hRest,
    (accepts_greeting now id opened side).reports] at hReports
  exact hReports

theorem not_rejected (h : Greets (begins now id opened) l) (side : Side) :
    .onInvalidate ∉ (l side).endpoint.history := by
  intro hMem
  have hTold := (reports_greeting h side).subset (onInvalidate_reports.mpr hMem)
  simp [Start.deliver] at hTold

theorem validated_id (h : Greets (begins now id opened) l) {side : Side} {i : UInt64}
    (hMem : .onValidate i ∈ (l side).endpoint.history) : i = id := by
  have hTold := (reports_greeting h side).subset (onValidate_reports.mpr hMem)
  simpa [Start.deliver] using hTold

/-- **The client is told its identifier after the server has validated it.** -/
theorem server_validated (h : Greets (begins now id opened) l) {i : UInt64}
    (hMem : .onValidate i ∈ (l .client).endpoint.history) :
    .onValidate id ∈ (l .server).endpoint.history := by
  have hServer := (h .server).operational
  obtain ⟨k, -, hClientStage⟩ := (h .client).operational.orderly.stage
  obtain ⟨k', hWaits, hStage⟩ := hServer.orderly.stage
  have hLong : 24 ≤ (l .server).endpoint.handed.length := by
    have hReports := hClientStage.reports_prefix []
    rw [List.append_nil] at hReports
    have hRead := Start.expects_le_of_reports (hReports.subset (onValidate_reports.mpr hMem))
    have hStream := (h .client).stream.length_le
    have hWire : (l .server).endpoint.wire.length ≤ (l .server).endpoint.handed.length := by
      cases hServer.wire with
      | sound hSound =>
        rw [← hSound, List.length_append]
        exact Nat.le_add_right _ _
      | dead hDead => exact hDead.length_le
    exact hRead.trans (hStream.trans hWire)
  have hDialogue : 8 < (l .server).endpoint.dialogue.handed.length := by
    cases hSent : (l .server).endpoint.handshakeSent with
    | false =>
      rw [hServer.orderly.order, frameHanded, frameBytes_main (hServer.orderly.history hSent),
        List.append_nil] at hLong
      omega
    | true =>
      rw [(hStage.opened ((handshakeSent_iff hWaits).mp hSent).1).1]
      simp [begins, Start.script]
  rcases hStage.answered hDialogue with ⟨j, hTold⟩ | hTold
  · have hMem' := onValidate_reports.mp hTold
    rwa [validated_id h hMem'] at hMem'
  · exact absurd (onInvalidate_reports.mp hTold) (not_rejected h .server)

/-! ## The first header -/

/-- **The side that calls `ReadHeader` has read the greeting of the other, and no more.** -/
theorem consumed_first {l' : Link κ} {event : Side × Peer.Event κ} {side : Side}
    (h : Greets (begins now id opened) l) (h' : Greets (begins now id opened) l')
    (hStep : l.step event = some l') (hNot : (l side).endpoint.completed = false)
    (hNow : (l' side).endpoint.completed = true) :
    (l' side).endpoint.consumed = greeting now id side.other := by
  have hLength := length_greeting now id opened side
  obtain ⟨k, hWaits, hStage⟩ := (h side).operational.orderly.stage
  obtain ⟨k', -, hStage'⟩ := (h' side).operational.orderly.stage
  have hMost : (l' side).endpoint.consumed.length ≤ (begins now id opened side).expects := by
    simp only [Link.step, Option.map_eq_some_iff] at hStep
    obtain ⟨p, hPeer, rfl⟩ := hStep
    by_cases hSame : side = event.1
    · subst hSame
      rw [Function.update_self] at hNow ⊢
      obtain ⟨-, -, hSame | ⟨event', -, hEndpoint⟩⟩ := Peer.step_endpoint (h event.1).stream hPeer
      · rw [hSame, hNot] at hNow
        cases hNow
      · by_cases hFrame : event'.isFrame = true
        · rw [completed, (step_frame hFrame hEndpoint).1] at hNow
          exact absurd hNow (by simpa [completed] using hNot)
        · cases event' with
          | send | disconnect | transfer => exact absurd rfl hFrame
          | complete c =>
            have hMain : c.isMain = true := by simpa [Event.isFrame] using hFrame
            obtain ⟨rfl, hDialogue, -⟩ := step_main hWaits hMain hEndpoint
            have hConsumed : p.endpoint.consumed = (l event.1).endpoint.consumed ++ c.bytes :=
              congrArg Dialogue.consumed hDialogue
            cases hPending : c.pending? with
            | none => cases c <;> cases hPending; cases hMain
            | some k =>
              rw [hPending] at hStage
              have hBound := hStage.consumed_le hNot
              have hSize : c.bytes.length ≤ size k := by
                cases c <;> cases hPending <;> simp [Completion.bytes, size]
              rw [hConsumed, List.length_append]
              change (l event.1).endpoint.consumed.length + size k ≤ _ at hBound
              omega
    · rw [Function.update_of_ne hSame, hNot] at hNow
      cases hNow
  have hLeast := hStage'.expects_le hNow
  change _ ≤ (l' side).endpoint.consumed.length at hLeast
  have hPrefix := List.prefix_of_prefix_length_le (consumed_greeting h' side)
    (List.prefix_append (greeting now id side.other) _) (by omega)
  exact hPrefix.eq_of_length (by omega)

/-! ## Going on -/

/-- An operation that can complete is pending: a side completes one, at once or when bytes of
it have left. -/
def Advances (l : Link κ) : Prop :=
  ∃ side c, c ≠ .lambda ∧ c.fails = false ∧
    ((l.step (side, .endpoint (.complete c))).isSome ∨
      ∃ op n l', l.step (side, .endpoint (.transfer op n)) = some l' ∧
        (l'.step (side, .endpoint (.complete c))).isSome)

theorem isSome_step {side : Side} {c : Completion}
    (hStream : (l side).endpoint.consumed ++ c.bytes <+: (l side.other).endpoint.wire)
    (hHandle : ((l side).endpoint.handle c).isSome) :
    (l.step (side, .endpoint (.complete c))).isSome := by
  simp only [Link.step, Peer.step, if_pos hStream, Option.isSome_map, hHandle]

/-- A pending `async_connect` can complete. -/
theorem advances_connect (h : Greets (begins now id opened) l) {side : Side}
    (hConnect : (l side).endpoint.connecting = true) : Advances l := by
  refine ⟨side, .connected, Completion.noConfusion, rfl, .inl (isSome_step ?_ ?_)⟩
  · rw [show Completion.connected.bytes = [] from rfl, List.append_nil]
    exact (h side).stream
  · simp only [handle, hConnect, if_true, Option.isSome_some]

/-- A pending write can complete. -/
theorem advances_write (h : Greets (begins now id opened) l) {side : Side} {op : WriteOp}
    {bytes : List UInt8} {rest : List (List UInt8)}
    (hWriting : (l side).endpoint.writing op = bytes :: rest) : Advances l := by
  have hOther : side.other ≠ side := by cases side <;> decide
  refine ⟨side, .written op, Completion.noConfusion, rfl,
    .inr ⟨op, bytes.length, Function.update l side { l side with endpoint :=
      { (l side).endpoint with
        writing := Function.update (l side).endpoint.writing op (bytes.drop bytes.length :: rest)
        wire := (l side).endpoint.wire ++ bytes.take bytes.length } }, ?_, isSome_step ?_ ?_⟩⟩
  · simp only [Link.step, Peer.step, Endpoint.step, transfer, hWriting, Option.map_some]
  · rw [Function.update_self, Function.update_of_ne hOther]
    rw [show (Completion.written op).bytes = [] from rfl, List.append_nil]
    exact (h side).stream
  · simp [handle]

/-- A pending read completes when its bytes are there. -/
theorem advances_read (h : Greets (begins now id opened) l) {side : Side} {op : ReadOp} {n : Nat}
    (hReading : (op, n) ∈ (l side).endpoint.reading)
    (hThere : (l side).endpoint.consumed.length + n ≤ (l side.other).endpoint.wire.length) :
    Advances l := by
  obtain ⟨rest, hRest⟩ := (h side).stream
  have hLong : n ≤ rest.length := by
    rw [← hRest, List.length_append] at hThere
    omega
  have hLength : (rest.take n).length = n := by simpa using hLong
  refine ⟨side, .read op (rest.take n), Completion.noConfusion, rfl, .inl (isSome_step ?_ ?_)⟩
  · rw [← hRest]
    exact (List.prefix_append_right_inj _).mpr (List.take_prefix _ _)
  · simp only [handle, hLength, if_pos hReading, Option.isSome_some]

/-- Where a side stands in its handshake, when none of its operations has failed. -/
inductive Standing (e : Endpoint) : Side → Prop
  | connect (hConnect : e.connecting = true) : Standing e .client
  | write {side : Side} {op : WriteOp} {bytes : List UInt8} {rest : List (List UInt8)}
      (hWriting : e.writing op = bytes :: rest) : Standing e side
  /-- The server waits for the answer to its challenge. -/
  | answer (hReading : (.validation2, 8) ∈ e.reading) (hConsumed : e.consumed = [])
      (hWire : e.wire.length = 8) : Standing e .server
  /-- The client waits for the challenge, for the proof of the server, or for its name. -/
  | challenged (hReading : (.validation1, 8) ∈ e.reading) (hConsumed : e.consumed = []) :
      Standing e .client
  | replied (hReading : (.validation3, 8) ∈ e.reading) (hConsumed : e.consumed.length = 8)
      (hWire : e.wire.length = 8) : Standing e .client
  | named (hReading : (.validation4, 8) ∈ e.reading) (hConsumed : e.consumed.length = 16)
      (hWire : 8 ≤ e.wire.length) : Standing e .client
  /-- The handshake is complete. -/
  | server (hCompleted : e.completed = true) (hWire : 24 ≤ e.wire.length) : Standing e .server
  | client (hCompleted : e.completed = true) (hWire : 8 ≤ e.wire.length) : Standing e .client

theorem standing_server (h : Greets (begins now id opened) l)
    (hEnded : (l .server).endpoint.ended = false)
    (hFailed : (l .server).endpoint.writeFailed = false) :
    Standing (l .server).endpoint .server := by
  obtain ⟨hOperational, hFronted, -, -⟩ := h .server
  obtain ⟨k, hWaits, hStage⟩ := hOperational.orderly.stage
  have hSent := handshakeSent_iff hWaits
  have hLong := fun hSent => hOperational.length_wire hFronted hSent hEnded hFailed
  have hWriting : ∀ {op}, op.sendsFrame = false → k = some (.write op) →
      Standing (l .server).endpoint .server := by
    rintro op hOp rfl
    obtain ⟨bytes, rest, hWriting⟩ := hWaits.writing_cons hOp
    exact .write hWriting
  simp only [begins] at hStage hLong
  cases hStage with
  | challenge | reply | name => exact hWriting rfl rfl
  | answer _ _ _ _ hShows =>
    have hNot : (l .server).endpoint.handshakeSent = false := by
      rw [Bool.eq_false_iff, Ne, hSent, hShows.opening]
      simp
    refine .answer (by rw [hWaits.reading]; exact List.mem_cons_self) hShows.consumed ?_
    rw [hOperational.wire_waiting hWaits hNot hEnded hFailed, hShows.handed, length_encode64]
  | header _ _ _ _ hShows | body _ _ _ _ hShows =>
    exact .server hShows.completed (hLong (hSent.mpr ⟨hShows.opening, by simp⟩))
  | rejected _ _ _ _ _ hYes =>
    rw [show (l .server).endpoint.dialogue.ended = (l .server).endpoint.ended from rfl, hEnded]
      at hYes
    cases hYes
  | broken _ hAfter =>
    have hYes := congrArg Dialogue.ended hAfter
    rw [show (l .server).endpoint.dialogue.ended = (l .server).endpoint.ended from rfl, hEnded]
      at hYes
    cases hYes

theorem standing_client (h : Greets (begins now id opened) l)
    (hEnded : (l .client).endpoint.ended = false)
    (hFailed : (l .client).endpoint.writeFailed = false) :
    Standing (l .client).endpoint .client := by
  obtain ⟨hOperational, hFronted, -, -⟩ := h .client
  obtain ⟨k, hWaits, hStage⟩ := hOperational.orderly.stage
  have hSent := handshakeSent_iff hWaits
  have hLong : (l .client).endpoint.handshakeSent = true → 8 ≤ (l .client).endpoint.wire.length := by
    intro hSent
    have hWire := hOperational.length_wire hFronted hSent hEnded hFailed
    simpa [begins, Start.script] using hWire
  have hReading := hWaits.reading
  simp only [begins] at hStage
  cases hStage with
  | connect => exact .connect (by rw [hWaits.connecting]; rfl)
  | challenged _ _ hShows =>
    exact .challenged (by rw [hReading]; exact List.mem_cons_self) hShows.consumed
  | answering =>
    obtain ⟨bytes, rest, hWriting⟩ := hWaits.writing_cons rfl
    exact .write hWriting
  | replied _ _ hLength _ hShows =>
    have hNot : (l .client).endpoint.handshakeSent = false := by
      rw [Bool.eq_false_iff, Ne, hSent, hShows.opening]
      simp
    refine .replied (by rw [hReading]; exact List.mem_cons_self) ?_ ?_
    · exact (congrArg List.length hShows.consumed).trans hLength
    · rw [hOperational.wire_waiting hWaits hNot hEnded hFailed, hShows.handed, length_encode64]
  | named _ _ hLength hLength' _ hShows =>
    refine .named (by rw [hReading]; exact List.mem_cons_self) ?_
      (hLong (hSent.mpr ⟨hShows.opening, by simp⟩))
    refine (congrArg List.length hShows.consumed).trans ?_
    rw [List.length_append, hLength, hLength']
  | header _ _ _ _ hShows | body _ _ _ _ hShows =>
    exact .client hShows.completed (hLong (hSent.mpr ⟨hShows.opening, by simp⟩))
  | rejected _ _ _ _ _ hYes =>
    rw [show (l .client).endpoint.dialogue.ended = (l .client).endpoint.ended from rfl, hEnded]
      at hYes
    cases hYes
  | broken _ hAfter =>
    have hYes := congrArg Dialogue.ended hAfter
    rw [show (l .client).endpoint.dialogue.ended = (l .client).endpoint.ended from rfl, hEnded]
      at hYes
    cases hYes

/-- **The two sides never wait for each other.** -/
theorem advances (h : Greets (begins now id opened) l)
    (hSound : ∀ side, (l side).endpoint.ended = false ∧ (l side).endpoint.writeFailed = false)
    (hNot : ∃ side, (l side).endpoint.completed = false) : Advances l := by
  have hServer := standing_server h (hSound .server).1 (hSound .server).2
  have hClient := standing_client h (hSound .client).1 (hSound .client).2
  cases hClient with
  | connect hConnect => exact advances_connect h hConnect
  | write hWriting => exact advances_write h hWriting
  | challenged hReading hConsumed =>
    have hRead : ∀ n, n = (l .server).endpoint.wire.length → 8 ≤ n → Advances l := by
      rintro n rfl hThere
      refine advances_read h hReading ?_
      rw [hConsumed]
      simpa [Side.other] using hThere
    cases hServer with
    | write hWriting => exact advances_write h hWriting
    | answer _ _ hWire => exact hRead 8 hWire.symm (Nat.le_refl _)
    | server _ hWire => exact hRead _ rfl (by omega)
  | replied hReading hConsumed hWire =>
    cases hServer with
    | write hWriting => exact advances_write h hWriting
    | answer hAnswer hNone _ =>
      refine advances_read h hAnswer ?_
      rw [hNone]
      exact hWire.ge
    | server _ hLong =>
      refine advances_read h hReading ?_
      simp only [Side.other]
      omega
  | named hReading hConsumed hWire =>
    cases hServer with
    | write hWriting => exact advances_write h hWriting
    | answer hAnswer hNone _ =>
      refine advances_read h hAnswer ?_
      rw [hNone]
      exact (Nat.zero_add _).trans_le hWire
    | server _ hLong =>
      refine advances_read h hReading ?_
      simp only [Side.other]
      omega
  | client hDone hWire =>
    cases hServer with
    | write hWriting => exact advances_write h hWriting
    | answer hAnswer hNone _ =>
      refine advances_read h hAnswer ?_
      rw [hNone]
      exact (Nat.zero_add _).trans_le hWire
    | server hDone' _ =>
      obtain ⟨side, hSide⟩ := hNot
      cases side with
      | server =>
        rw [hDone'] at hSide
        cases hSide
      | client =>
        rw [hDone] at hSide
        cases hSide

/-- No operation fails in a run. -/
def Smooth (l : Link κ) (event : Side × Peer.Event κ) : Prop :=
  LateLambda l event ∧ Unfailing l event

theorem smooth_sound (h : Reach (handshakes κ now id opened) Smooth l) :
    ∀ side, (l side).endpoint.ended = false ∧ (l side).endpoint.writeFailed = false := by
  induction h with
  | init hInit =>
    obtain ⟨lambdas, rfl⟩ := hInit
    intro side
    cases side <;> exact ⟨rfl, rfl⟩
  | @step l l' event prior hOk hStep ih =>
    have hGreets := greets_of_reach (prior.mono fun _ _ h => h.1)
    have hGreets' := hGreets.step hOk.1 hStep
    have hNot := fun side => not_rejected hGreets' side
    obtain ⟨side, event⟩ := event
    change Link.step l (side, event) = some l' at hStep
    simp only [Link.step, Option.map_eq_some_iff] at hStep
    obtain ⟨p, hPeer, rfl⟩ := hStep
    intro side'
    by_cases hSame : side' = side
    · subst hSame
      have hNotSide := hNot side'
      rw [Function.update_self] at hNotSide ⊢
      obtain ⟨-, -, hSame | ⟨event', rfl, hEndpoint⟩⟩ := Peer.step_endpoint (hGreets side').stream hPeer
      · rw [hSame]
        exact ih side'
      · obtain ⟨hEnded, hFailed⟩ := step_unfailing (fun c hc => by
          subst hc
          exact hOk.2) hEndpoint hNotSide
        rw [hEnded, hFailed]
        exact ih side'
    · rw [Function.update_of_ne hSame]
      exact ih side'

end

/-! ## The agreement -/

/-- What the two sides of a handshake may rely on. -/
structure Agrees (now id : UInt64) (opened : Bool) (l : Link κ) : Prop where
  /-- Nobody is rejected. -/
  accepted : ∀ side, .onInvalidate ∉ (l side).endpoint.history
  /-- When the owner of the client is told that it is validated, so has been that of the
  server, and both connections have the identifier. -/
  validated : ∀ i, .onValidate i ∈ (l .client).endpoint.history →
    .onValidate i ∈ (l .server).endpoint.history ∧ (l .server).endpoint.connection.id = i ∧
      (l .client).endpoint.connection.id = i
  /-- The stream of a side is its greeting and then its frames. -/
  stream : ∀ side, (l side).endpoint.wire <+: greeting now id side ++ frames (l side).endpoint.sent
  /-- The side that calls `ReadHeader` for the first time has read the greeting. -/
  first : ∀ side event l', LateLambda l event → l.step event = some l' →
    (l side).endpoint.completed = false → (l' side).endpoint.completed = true →
      (l' side).endpoint.consumed = greeting now id side.other
  /-- When no operation has failed, the handshake goes on. -/
  advances : Reach (handshakes κ now id opened) Smooth l →
    (∃ side, (l side).endpoint.completed = false) → Advances l

/-- **The two sides of a handshake agree**, through any failure, whatever their owners send
after it. -/
theorem agrees_of_reach {now id : UInt64} {opened : Bool} {l : Link κ}
    (h : Reach (handshakes κ now id opened) LateLambda l) : Agrees now id opened l := by
  have hGreets := greets_of_reach h
  refine ⟨not_rejected hGreets, fun i hMem => ?_, wire_greeting hGreets,
    fun side event l' hOk hStep hNot hNow => ?_, fun hSmooth hNot => ?_⟩
  · obtain rfl := validated_id hGreets hMem
    exact ⟨server_validated hGreets hMem, (hGreets .server).named.given now i rfl,
      (hGreets .client).named.told i hMem⟩
  · exact consumed_first hGreets (hGreets.step hOk hStep) hStep hNot hNow
  · exact advances hGreets (smooth_sound hSmooth) hNot

/-- The handshake of `twoMessages`, and nothing after it. -/
def greetings : List (Side × Peer.Event Unit) := twoMessages.take 13

theorem agrees_of_greetings : ∃ l, Reach (handshakes Unit 0 1 true) LateLambda l ∧
    .onValidate 1 ∈ (l .client).endpoint.history ∧ Agrees 0 1 true l ∧
      (l .server).endpoint.connection.id = 1 := by
  have hOk : ∀ (l : Link Unit) (event : Side × Peer.Event Unit),
      (!event.2.isLambda) = true → LateLambda l event := by
    rintro l ⟨side, event⟩ hNot
    cases event with
    | foreign | poll => trivial
    | endpoint event =>
      rintro rfl
      cases hNot
  obtain ⟨l, hReach, hEnd⟩ := Reach.exists_of_replay (M := handshakes Unit 0 1 true) hOk
    ⟨fun _ => [], rfl⟩ greetings
    (fun l => (l .client).endpoint.history.contains (.onValidate 1)) (by decide)
  have hMem : .onValidate 1 ∈ (l .client).endpoint.history := List.contains_iff_mem.mp hEnd
  have hAgrees := agrees_of_reach hReach
  exact ⟨l, hReach, hMem, hAgrees, (hAgrees.validated 1 hMem).2.1⟩

end Link

end MinecraftNetwork
