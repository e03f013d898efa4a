import MinecraftNetwork.Relay.Faithful

/-!
# A message that leaves no room for the identifier of its sender

`operator<<` cuts the size of the body to 32 bits, and `WriteBody` sends the whole body. So a
message of `2 ^ 32 - 8` bytes is relayed with a header that announces nothing
(`size_relayed_huge`): the other clients take it for an empty message, on which `operator>>`
fails, and go on to read the body of the sender as the next header.
-/

namespace MinecraftNetwork

open Runs LittleEndian

namespace Endpoint

variable {e : Endpoint}

/-- The only outstanding read has filled its buffer. -/
theorem handle_read {op : ReadOp} {bytes : List UInt8} (h : e.reading = [(op, bytes.length)]) :
    e.handle (.read op bytes) = some ({ e with
      reading := []
      consumed := e.consumed ++ bytes
      ended := e.ended || e.connection.rejects op bytes
      }.resume (e.connection.readDone op bytes)) := by
  simp [handle, h]

/-- A header that announces a body has the body read. -/
theorem handle_header {m : Message} (h : e.reading = [(.header, headerSize)])
    (hTemp : e.connection.tempIncomingMessage.body = []) (hAnnounces : m.Announces)
    (hSize : m.header.size > 0) : ∃ e', e.handle (.read .header m.header.bytes) =
      some (e', [.asyncRead .body m.body.length]) ∧ e'.reading = [] ∧ e'.history = e.history ∧
        e'.connection.isOpen = e.connection.isOpen ∧
        e'.connection.tempIncomingMessage.header = m.header := by
  have hLength : (resize [] m.header.size.toNat).length = m.body.length := by
    rw [resize_nil, List.length_replicate]
    exact hAnnounces
  rw [handle_read (by rw [h, MessageHeader.length_bytes])]
  simp only [resume, Connection.readDone, Connection.readHeaderDone, MessageHeader.ofBytes_bytes,
    if_pos hSize, hTemp, Connection.readBody, hLength]
  exact ⟨_, rfl, rfl, rfl, rfl, rfl⟩

/-- The body completes the message, and the next header is read. -/
theorem handle_body {m : Message} (h : e.reading = [(.body, m.body.length)])
    (hTemp : e.connection.tempIncomingMessage.header = m.header) :
    ∃ e' tag, e.handle (.read .body m.body) =
      some (e', [.emplaceBack tag m, .asyncRead .header headerSize]) ∧ e'.history = e.history ∧
        e'.connection.isOpen = e.connection.isOpen := by
  rw [handle_read h]
  simp only [resume, Connection.readDone, Connection.readBodyDone,
    Connection.addToIncomingMessageQueue, hTemp]
  exact ⟨_, _, rfl, rfl, rfl⟩

/-- A header that announces nothing completes an empty message. -/
theorem handle_empty {header : MessageHeader} (h : e.reading = [(.header, headerSize)])
    (hTemp : e.connection.tempIncomingMessage.body = []) (hSize : header.size = 0) :
    ∃ e' tag, e.handle (.read .header header.bytes) = some (e',
      [.emplaceBack tag { header := header, body := [] }, .asyncRead .header headerSize]) := by
  rw [handle_read (by rw [h, MessageHeader.length_bytes])]
  simp only [resume, Connection.readDone, Connection.readHeaderDone, MessageHeader.ofBytes_bytes,
    hSize, Connection.addToIncomingMessageQueue, hTemp]
  exact ⟨_, _, rfl⟩

/-- `Send` starts to write when nothing else is to be written. -/
theorem handle_send {m : Message} (h : e.posted = [.send m])
    (hOutgoing : e.connection.outgoingMessages = []) : ∃ e', e.handle .lambda =
      some (e', [.asyncWrite .header m.header.bytes]) ∧ e'.writing = e.writing ∧
        e'.wire = e.wire := by
  simp only [handle, h, resume, Connection.runSend, hOutgoing]
  exact ⟨_, rfl, rfl, rfl⟩

end Endpoint

namespace DedicatedServer

variable {s : DedicatedServer} {x : Nat}

theorem step_complete {c : Completion} {e : Endpoint} {effects : List Effect}
    (hIdle : s.tasks .context = []) (hOwner : x ∈ s.owners)
    (hHandle : (s.objects x).handle c = some (e, effects)) :
    s.step (.complete x c) = some ((s.setObject x e).advance x effects) := by
  simp only [step, if_pos (And.intro hIdle hOwner), hHandle, Option.map_some]

/-- The connection to a client reads a frame with a body. -/
theorem read_frame {m : Message} (hIdle : s.tasks .context = []) (hClient : some x ∈ s.clients)
    (hReading : (s.objects x).reading = [(.header, headerSize)])
    (hTemp : (s.objects x).connection.tempIncomingMessage.body = [])
    (hAnnounces : m.Announces) (hSize : m.header.size > 0) :
    ∃ s₁ e, s.step (.complete x (.read .header m.header.bytes)) = some s₁ ∧
      s₁.step (.complete x (.read .body m.body)) = some ((s.enqueue x m).setObject x e) ∧
        e.connection.isOpen = (s.objects x).connection.isOpen ∧
        (s.objects x).history <+: e.history := by
  obtain ⟨e₁, hHeader, hNone, hHistory, hOpen, hAnnounced⟩ :=
    Endpoint.handle_header hReading hTemp hAnnounces hSize
  let e₂ := e₁.perform (.asyncRead .body m.body.length)
  have hBodyRead : e₂.reading = [(.body, m.body.length)] := by
    change e₁.reading ++ _ = _
    rw [hNone]
    rfl
  obtain ⟨e₃, tag, hBody, hHistory', hOpen'⟩ := Endpoint.handle_body hBodyRead hAnnounced
  have hFirst := step_complete hIdle (owned_of_client hClient) hHeader
  have hOnce : (s.setObject x e₁).advance x [.asyncRead .body m.body.length] =
      s.setObject x e₂ := by
    simp [advance, setObject, e₂]
  rw [hOnce] at hFirst
  have hHere : (s.setObject x e₂).objects x = e₂ := Function.update_self ..
  have hSecond := step_complete (s := s.setObject x e₂) (x := x) hIdle
    (owned_of_client hClient) (hHere ▸ hBody)
  refine ⟨_, (e₃.perform (.emplaceBack tag m)).perform (.asyncRead .header headerSize), hFirst,
    ?_, hOpen'.trans hOpen, ?_⟩
  · rw [hSecond]
    simp [advance, setObject, enqueue]
  · change _ <+: e₃.history ++ [_] ++ [_]
    rw [hHistory', List.append_assoc]
    change _ <+: e₁.history ++ [_] ++ _
    rw [hHistory, List.append_assoc]
    exact List.prefix_append _ _

theorem step_poll {event : PollEvent} {q : Polling (Nat × Message)} (hNot : event ≠ .pop)
    (hIdle : s.tasks .polling = []) (hStep : s.incoming.step event = some q) :
    s.step (.poll event) = some { s with incoming := q } := by
  simp only [step, if_pos hIdle]
  split
  · exact absurd rfl hNot
  · rw [hStep, Option.map_some]

theorem step_pop {m : Message} {rest : List (Nat × Message)} {q : Polling (Nat × Message)}
    (hIdle : s.tasks .polling = []) (hQueue : s.incoming.incomingMessages = (x, m) :: rest)
    (hStep : s.incoming.step .pop = some q) : s.step (.poll .pop) = some
      (call { s with incoming := q } .polling (.onMessage x m) [.release (some x)]) := by
  simp only [step, if_pos hIdle, hQueue, hStep, Option.map_some]

/-- `PollMessages` passes the only message of the queue to `OnMessage`. -/
theorem poll_one {m : Message} (hIdle : s.tasks .polling = []) (hPoll : s.incoming.poll = .idle)
    (hQueue : s.incoming.incomingMessages = [(x, m)]) :
    ∃ s₁ s₂ q, s.step (.poll (.call 1 false)) = some s₁ ∧ s₁.step (.poll .test) = some s₂ ∧
      s₂.step (.poll .pop) = some
        (call { s with incoming := q } .polling (.onMessage x m) [.release (some x)]) := by
  have hCall : s.incoming.step (.call 1 false) = some { s.incoming with poll := .testing 1 } := by
    simp [Polling.step, hPoll]
  have hTest : { s.incoming with poll := .testing 1 }.step .test =
      some { s.incoming with poll := .popping 0 } := by
    simp [Polling.step, hQueue]
  have hPop : { s.incoming with poll := .popping 0 }.step .pop = some { s.incoming with
      incomingMessages := [], poll := .testing 0
      processed := s.incoming.processed ++ [(x, m)] } := by
    simp [Polling.step, hQueue]
  exact ⟨_, _, _, step_poll (by simp) hIdle hCall,
    step_poll (s := { s with incoming := _ }) (by simp) hIdle hTest,
    step_pop (s := { s with incoming := _ }) hIdle hQueue hPop⟩

/-- `MessageAll` sends to the other client of two. -/
theorem send_other {y : Nat} {m : Message} {rest : List Task}
    (hTasks : s.tasks .polling = .messageAll m (some x) 0 2 false :: rest)
    (hClients : s.clients = [some x, some y]) (hConnected : s.isConnected x = true)
    (hOther : s.isConnected y = true) (hNe : y ≠ x) :
    ∃ s₁ s₂, s.step (.run .polling) = some s₁ ∧ s₁.step (.run .polling) = some s₂ ∧
      s₂.clients = s.clients ∧ s₂.tasks .context = s.tasks .context ∧
        s₂.objects y = (s.objects y).send m := by
  let s₁ := s.setTasks .polling (.messageAll m (some x) 1 2 false :: rest)
  let s₂ := s₁.setTasks .polling (.messageAll m (some x) 2 2 false :: rest)
  have hFirst : s.step (.run .polling) = some s₁ := by
    simp [step, hTasks, iterate, hClients, hConnected, s₁]
  have hSecond : s₁.step (.run .polling) = some (s₂.setObject y ((s.objects y).send m)) := by
    have hHere : s₁.tasks .polling = .messageAll m (some x) 1 2 false :: rest := by
      simp [s₁, setTasks]
    have hClients₁ : s₁.clients = [some x, some y] := hClients
    have hOther₁ : s₁.isConnected y = true := hOther
    have hObject : s₂.objects y = s.objects y := rfl
    simp [step, hHere, iterate, hClients₁, hOther₁, hNe, ← hObject, s₂]
  exact ⟨s₁, _, hFirst, hSecond, rfl, rfl, Function.update_self ..⟩

/-- The connection to a client with nothing else to write sends the header of a message. -/
theorem write_header {m : Message} (hIdle : s.tasks .context = []) (hClient : some x ∈ s.clients)
    (hPosted : (s.objects x).posted = [.send m])
    (hOutgoing : (s.objects x).connection.outgoingMessages = [])
    (hWriting : (s.objects x).writing .header = []) :
    ∃ s₁ s₂, s.step (.complete x .lambda) = some s₁ ∧
      s₁.step (.transfer x .header headerSize) = some s₂ ∧
        (s₂.objects x).wire = (s.objects x).wire ++ m.header.bytes := by
  obtain ⟨e, hLambda, hSame, hWire⟩ := Endpoint.handle_send hPosted hOutgoing
  let e₁ := e.perform (.asyncWrite .header m.header.bytes)
  have hWrites : e₁.writing .header = [m.header.bytes] := by
    simp [e₁, Endpoint.perform, hSame, hWriting]
  have hTransfer : ∃ e₂, e₁.transfer .header headerSize = some e₂ ∧
      e₂.wire = (s.objects x).wire ++ m.header.bytes := by
    have hAll : m.header.bytes.take headerSize = m.header.bytes :=
      List.take_of_length_le (MessageHeader.length_bytes _).le
    simp only [Endpoint.transfer, hWrites, hAll]
    exact ⟨_, rfl, congrArg (· ++ m.header.bytes) hWire⟩
  obtain ⟨e₂, hTransfer, hWire₂⟩ := hTransfer
  have hFirst := step_complete hIdle (owned_of_client hClient) hLambda
  have hOnce : (s.setObject x e).advance x [.asyncWrite .header m.header.bytes] =
      s.setObject x e₁ := by
    simp [advance, setObject, e₁]
  rw [hOnce] at hFirst
  have hHere : (s.setObject x e₁).objects x = e₁ := Function.update_self ..
  have hOwner : x ∈ (s.setObject x e₁).owners := owned_of_client hClient
  refine ⟨_, (s.setObject x e₁).setObject x e₂, hFirst, ?_, ?_⟩
  · simp only [step, if_pos hOwner, hHere, hTransfer, Option.map_some]
  · simpa [setObject] using hWire₂

end DedicatedServer

namespace Relay

variable {s : Relay} {m : Message}

/-- Two clients are admitted, and nothing is on the way. -/
structure Admitted (s : Relay) : Prop where
  idle : s.server.tasks .context = [] ∧ s.server.tasks .polling = []
  poll : s.server.incoming.poll = .idle
  queue : s.server.incoming.incomingMessages = []
  clients : s.server.clients = [some 0, some 1]
  isOpen : ∀ x < 2, (s.server.objects x).connection.isOpen = true
  completed : ∀ x < 2, (s.server.objects x).completed = true
  /-- The connection to the first client reads. -/
  reads : (s.server.objects 0).reading = [(.header, headerSize)] ∧
    (s.server.objects 0).connection.tempIncomingMessage.body = []
  /-- The connection to the second client has nothing to write. -/
  silent : (s.server.objects 1).posted = [] ∧
    (s.server.objects 1).connection.outgoingMessages = [] ∧
    (s.server.objects 1).writing .header = []
  /-- The second client reads. -/
  listens : (s.clients 1).reading = [(.header, headerSize)] ∧
    (s.clients 1).connection.tempIncomingMessage.body = [] ∧
    (s.clients 1).consumed = (s.server.objects 1).wire
  heard : (s.server.objects 1).consumed <+: (s.clients 1).wire

theorem admitted_of_admission : ∃ s, Reach (system innocent) Validated s ∧ Admitted s := by
  obtain ⟨s, hReach, hEnd⟩ := Reach.exists_of_checked (M := system innocent) Validated
    ⟨fun _ => true, rfl⟩ admission (fun s => decide (
      (s.server.tasks .context = [] ∧ s.server.tasks .polling = []) ∧
      s.server.incoming.poll = .idle ∧ s.server.incoming.incomingMessages = [] ∧
      s.server.clients = [some 0, some 1] ∧
      (∀ x : Nat, x < 2 → (s.server.objects x).connection.isOpen = true) ∧
      (∀ x : Nat, x < 2 → (s.server.objects x).completed = true) ∧
      ((s.server.objects 0).reading = [(.header, headerSize)] ∧
        (s.server.objects 0).connection.tempIncomingMessage.body = []) ∧
      ((s.server.objects 1).posted = [] ∧
        (s.server.objects 1).connection.outgoingMessages = [] ∧
        (s.server.objects 1).writing .header = []) ∧
      ((s.clients 1).reading = [(.header, headerSize)] ∧
        (s.clients 1).connection.tempIncomingMessage.body = [] ∧
        (s.clients 1).consumed = (s.server.objects 1).wire) ∧
      (s.server.objects 1).consumed <+: (s.clients 1).wire)) (by decide)
  obtain ⟨hIdle, hPoll, hQueue, hClients, hOpen, hCompleted, hReads, hSilent, hListens, hHeard⟩ :=
    of_decide_eq_true hEnd
  exact ⟨s, hReach, hIdle, hPoll, hQueue, hClients, hOpen, hCompleted, hReads, hSilent, hListens,
    hHeard⟩

theorem reach_server {honest : Nat → Bool} {event : DedicatedServer.Event}
    {server : DedicatedServer} (h : Reach (system honest) Validated s)
    (hStep : s.server.step event = some server) (hOk : s.Validated (.server event))
    (hPerforms : s.Performs event) (hReads : s.Reads honest event) :
    Reach (system honest) Validated
      { s with server := server, answered := s.answeredAfter event } := by
  refine .step (e := .server event) h hOk ?_
  simp only [system, Relay.step, if_pos (And.intro hPerforms hReads), hStep, Option.map_some]

theorem reach_client {honest : Nat → Bool} {x : Nat} {c : Completion} {e : Endpoint}
    {effects : List Effect} (h : Reach (system honest) Validated s) (hHonest : honest x = true)
    (hArrived : (s.clients x).consumed ++ c.bytes <+: (s.server.objects x).wire)
    (hHandle : (s.clients x).handle c = some (e, effects)) :
    Reach (system honest) Validated (s.setClient x (e.performAll effects)) := by
  refine .step (e := .complete x c) h trivial ?_
  simp only [system, Relay.step, if_pos (And.intro hHonest hArrived), Endpoint.step, hHandle,
    Option.map_some]

/-- Nothing but the capacity of the vector stops `operator<<`. -/
theorem push_relayed {id : UInt64} (h : m.body.length + 8 ≤ maxSize) :
    m.push (.ofUInt64 id) = .ok (relayed id m) := by
  have hData : (Data.ofUInt64 id).size = 8 := length_encode64 id
  have hPush := Message.push_eq m (.ofUInt64 id)
  rw [hData, if_pos h] at hPush
  rw [hPush]
  exact congrArg Except.ok (Message.push_uint64 hPush)

/-- `OnMessage` of the server runs for a message of the first of two validated clients. -/
structure Calling (s : Relay) (m : Message) : Prop where
  context : s.server.tasks .context = []
  polling : s.server.tasks .polling = [.callback (.onMessage 0 m), .release (some 0)]
  answered : s.answered = false
  clients : s.server.clients = [some 0, some 1]
  isOpen : ∀ x < 2, (s.server.objects x).connection.isOpen = true
  completed : ∀ x < 2, (s.server.objects x).completed = true

/-- The server reads a message of the first client, and passes it to `OnMessage`. -/
theorem Admitted.calls (h : Admitted s) (hReach : Reach (system innocent) Validated s)
    (hAnnounces : m.Announces) (hSize : m.header.size > 0) :
    ∃ s', Reach (system innocent) Validated s' ∧ Calling s' m ∧ s'.clients = s.clients ∧
      s'.server.objects 1 = s.server.objects 1 := by
  have hFirst : some 0 ∈ s.server.clients := by simp [h.clients]
  have hForged : ∀ {s : Relay} {c : Completion}, s.Reads innocent (.complete 0 c) :=
    fun hHonest => absurd hHonest (by decide)
  -- the context thread reads the message
  obtain ⟨s₁, e, hHeader, hBody, hOpen, hHistory⟩ := DedicatedServer.read_frame h.idle.1 hFirst
    h.reads.1 h.reads.2 hAnnounces hSize
  let s₂ := (s.server.enqueue 0 m).setObject 0 e
  have hReach₂ : Reach (system innocent) Validated { s with server := s₂ } :=
    reach_server (reach_server hReach hHeader trivial trivial hForged) hBody trivial trivial hForged
  -- the polling thread takes it from the queue
  have hQueue : s₂.incoming.incomingMessages = [(0, m)] := by
    change s.server.incoming.incomingMessages ++ _ = _
    rw [h.queue]
    rfl
  have hIdle : s₂.tasks .polling = [] := h.idle.2
  obtain ⟨s₃, s₄, q, hCall, hTest, hPop⟩ := DedicatedServer.poll_one hIdle h.poll hQueue
  let s₅ := DedicatedServer.call { s₂ with incoming := q } .polling (.onMessage 0 m)
    [.release (some 0)]
  have hReach₅ : Reach (system innocent) Validated { s with server := s₅, answered := false } :=
    reach_server (reach_server (reach_server hReach₂ hCall trivial trivial trivial) hTest trivial
      trivial trivial) hPop trivial trivial trivial
  have hHere : s₅.objects 0 = e := by simp [s₅, s₂, DedicatedServer.call,
    DedicatedServer.setTasks, DedicatedServer.setObject]
  have hOther : s₅.objects 1 = s.server.objects 1 := rfl
  refine ⟨_, hReach₅, ⟨h.idle.1, ?_, rfl, h.clients, fun x hx => ?_, fun x hx => ?_⟩, rfl, rfl⟩
  · change s₅.tasks .polling = _
    simp [s₅, DedicatedServer.call, DedicatedServer.setTasks, hIdle]
  · change (s₅.objects x).connection.isOpen = true
    interval_cases x
    · rw [hHere, hOpen]
      exact h.isOpen 0 (by decide)
    · rw [hOther]
      exact h.isOpen 1 (by decide)
  · change (s₅.objects x).completed = true
    interval_cases x
    · rw [hHere]
      exact Endpoint.completed_mono hHistory (h.completed 0 (by decide))
    · rw [hOther]
      exact h.completed 1 (by decide)

/-- `OnMessage` of the server relays the message to the second client. -/
theorem Calling.relays (h : Calling s m) (hReach : Reach (system innocent) Validated s)
    (hId : m.header.id = MessageType.clientMessageOtherClients.id)
    (hRoom : m.body.length + 8 ≤ maxSize) :
    ∃ s' id, Reach (system innocent) Validated s' ∧ s'.clients = s.clients ∧
      s'.server.tasks .context = [] ∧ some 1 ∈ s'.server.clients ∧
        s'.server.objects 1 = (s.server.objects 1).send (relayed id m) := by
  let id := (s.server.objects 0).connection.id
  have hReply : s.reply = .ok (some (.messageAll (relayed id m) (some 0))) := by
    have hPing : MessageType.clientMessageOtherClients.id ≠ MessageType.clientPingServer.id := by
      decide
    simp [reply, h.polling, h.answered, Server.onMessage, hId, hPing, push_relayed hRoom,
      Except.map, id]
  have hValidated : s.Validated (.server (.app .polling (.messageAll (relayed id m) (some 0)))) := by
    intro x hx
    rw [h.clients] at hx
    have hTwo : x = 0 ∨ x = 1 := by simpa using hx
    exact h.completed x (by omega)
  let s₁ := s.server.setTasks .polling (.messageAll (relayed id m) (some 0) 0 2 false ::
    s.server.tasks .polling)
  have hCalls : s.server.step (.app .polling (.messageAll (relayed id m) (some 0))) = some s₁ := by
    have hOwner : 0 ∈ s.server.owners := DedicatedServer.owned_of_client (by simp [h.clients])
    simp [DedicatedServer.step, DedicatedServer.inApplication, h.polling, DedicatedServer.act,
      hOwner, h.clients, s₁]
  have hTasks : s₁.tasks .polling = .messageAll (relayed id m) (some 0) 0 2 false ::
      s.server.tasks .polling := by
    simp [s₁, DedicatedServer.setTasks]
  obtain ⟨s₂, s₃, hIgnored, hSent, hClients, hContext, hObject⟩ := DedicatedServer.send_other hTasks
    h.clients (h.isOpen 0 (by decide)) (h.isOpen 1 (by decide)) (by decide)
  have hReach₁ := reach_server hReach hCalls hValidated ⟨rfl, hReply⟩ trivial
  have hReach₃ := reach_server (reach_server hReach₁ hIgnored trivial trivial trivial) hSent
    trivial trivial trivial
  refine ⟨_, id, hReach₃, rfl, hContext.trans h.context, ?_, hObject⟩
  change some 1 ∈ s₃.clients
  rw [hClients]
  change some 1 ∈ s.server.clients
  simp [h.clients]

/-- A message whose body is eight bytes short of `2 ^ 32`. -/
def huge : Message where
  header := { id := MessageType.clientMessageOtherClients.id, size := 4294967288 }
  body := List.replicate 4294967288 0

theorem announces_huge : huge.Announces := by
  rw [Message.Announces, huge, List.length_replicate]
  rfl

theorem length_huge : huge.body.length = 4294967288 := List.length_replicate

/-- The header of the message that is relayed announces nothing. -/
theorem size_relayed_huge (id : UInt64) : (relayed id huge).header =
    { id := MessageType.clientMessageOtherClients.id, size := 0 } := rfl

/-- What the other client takes the message for. -/
def hollow : Message where
  header := { id := MessageType.clientMessageOtherClients.id, size := 0 }
  body := []

/-- The second client decodes an empty message. -/
theorem Admitted.overflows (h : Admitted s) (hReach : Reach (system innocent) Validated s) :
    ∃ s', Reach (system innocent) Validated s' ∧ hollow ∈ (s'.clients 1).received := by
  obtain ⟨s₁, hReach₁, hCalling, hClients₁, hSame⟩ :=
    h.calls hReach announces_huge (by decide)
  obtain ⟨s₂, id, hReach₂, hClients₂, hIdle, hClient, hSent⟩ := hCalling.relays hReach₁ rfl (by
    rw [length_huge]
    decide)
  rw [hSame] at hSent
  -- the server writes the header
  have hPosted : (s₂.server.objects 1).posted = [.send (relayed id huge)] := by
    simp [hSent, Endpoint.send, h.silent.1]
  obtain ⟨server₃, server₄, hLambda, hTransfer, hWire⟩ := DedicatedServer.write_header hIdle hClient
    hPosted (hSent ▸ h.silent.2.1) (hSent ▸ h.silent.2.2)
  have hReads : s₂.Reads innocent (.complete 1 .lambda) := by
    intro
    rw [hSent, hClients₂, hClients₁]
    exact (List.append_nil _).symm ▸ h.heard
  have hReach₄ := reach_server (reach_server hReach₂ hLambda trivial trivial hReads) hTransfer
    trivial trivial trivial
  -- the client reads it
  have hNothing : (relayed id huge).header.size = 0 := rfl
  obtain ⟨e, tag, hRead⟩ := Endpoint.handle_empty h.listens.1 h.listens.2.1 hNothing
  have hClients : s₂.clients = s.clients := hClients₂.trans hClients₁
  have hArrived : (s₂.clients 1).consumed ++ (relayed id huge).header.bytes <+:
      (server₄.objects 1).wire := by
    rw [hClients, h.listens.2.2, hWire, hSent]
    exact List.prefix_rfl
  rw [← hClients] at hRead
  have hReach₅ := reach_client (x := 1) (c := .read .header (relayed id huge).header.bytes) hReach₄
    rfl hArrived hRead
  refine ⟨_, hReach₅, List.mem_filterMap.mpr ⟨.emplaceBack tag hollow, ?_, rfl⟩⟩
  simp [setClient, Endpoint.performAll, Endpoint.perform, size_relayed_huge, hollow]

/-- **A malicious client makes the others fail the assertion of `operator>>`.** -/
theorem unfaithful_of_overflow : ∃ s, Reach (system innocent) Validated s ∧
    (∃ m ∈ (s.clients 1).received, Client.onMessage m = .error .assertion) ∧ ¬ Faithful s 1 := by
  obtain ⟨s, hReach, hAdmitted⟩ := admitted_of_admission
  obtain ⟨s', hReach', hMem⟩ := hAdmitted.overflows hReach
  have hFails : Client.onMessage hollow = .error .assertion := rfl
  refine ⟨s', hReach', ⟨hollow, hMem, hFails⟩, fun hFaithful => ?_⟩
  obtain ⟨printed, hPrinted⟩ := hFaithful.safe hollow hMem
  rw [hFails] at hPrinted
  cases hPrinted

end Relay

end MinecraftNetwork
