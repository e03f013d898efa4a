import MinecraftNetwork.Star.Basic

/-!
# Every connection to an honest peer is a pair of channels

`Joined` is the invariant of one connection: both of its ends are operational and late, and
each has read a prefix of what the other has written. The streams only grow, the steps of the
server on other connections leave the connection alone, and so do the other peers, honest or
not (`Joined.step`). What the two applications see follows from the two streams
(`channels_of_reach`).
-/

namespace MinecraftNetwork

open Runs LittleEndian

namespace DedicatedServer

variable {s s' : DedicatedServer} {event : Event} {x : Nat}

/-- What a connection has written and read before and after a step. -/
theorem Framed.streams (h : Framed s) (hStep : s.step event = some s') (x : Nat) :
    (s.endpoint x).wire <+: (s'.endpoint x).wire ∧
      ((s'.endpoint x).consumed = (s.endpoint x).consumed ∨ (s'.endpoint x).consumed = [] ∨
        ∃ c, event = .complete x c ∧
          (s'.endpoint x).consumed = (s.endpoint x).consumed ++ c.bytes) := by
  cases h.sound.change hStep x with
  | same hSame =>
    rw [hSame]
    exact ⟨List.prefix_rfl, .inl rfl⟩
  | @handler c hEvent _ hMove =>
    refine ⟨(Endpoint.step_history hMove).2, .inr (.inr ⟨c, hEvent, ?_⟩)⟩
    simp only [Endpoint.step, Option.map_eq_some_iff] at hMove
    obtain ⟨⟨e, effects⟩, hHandle, hEnd⟩ := hMove
    rw [← hEnd, Endpoint.performAll_consumed, Endpoint.handle_consumed hHandle]
  | outside _ hOutside hMove =>
    have hFrame := Endpoint.outside_frame hOutside hMove
    exact ⟨hFrame.wire, .inl hFrame.consumed⟩
  | create _ hFresh hCreate =>
    rw [h.fresh x hFresh.ge, hCreate]
    exact ⟨List.prefix_rfl, .inl rfl⟩
  | register _ hTasks hRegister =>
    obtain ⟨-, ⟨lambdas, hLambdas⟩, hNone⟩ := h.sound.opening x (mem_openings hTasks)
    have hNothing : (s.endpoint x).wire = [] := by
      rw [endpoint, hNone, hLambdas]
      rfl
    rw [hNothing, hRegister]
    exact ⟨List.nil_prefix, .inr (.inl rfl)⟩

/-- The messages of a connection are those it has told. -/
theorem messagesOf_telling (e : Endpoint) (x : Nat) :
    messagesOf x ((telling e x).filterMap Notice.enqueued?) = e.received := by
  simp only [messagesOf, telling, Endpoint.received, List.filterMap_filterMap]
  congr 1
  funext effect
  cases effect <;> simp [Effect.notice?, Notice.enqueued?, Effect.message?]

/-- A connection of the server whose application sends late. -/
structure Tame (e : Endpoint) : Prop where
  operational : ∃ start : Endpoint.Start, start.owner = .dedicatedServer ∧
    Endpoint.Operational start e
  late : Endpoint.Late e

theorem Tame.move {e e' : Endpoint} {action : Endpoint.Event} (h : Tame e)
    (hOk : Endpoint.LateSend e action) (hMove : e.step action = some e') : Tame e' := by
  obtain ⟨start, hOwner, hOperational⟩ := h.operational
  have hLambda := h.late.lateLambda hOperational.orderly.chain action
  exact ⟨⟨start, hOwner, hOperational.step hLambda hMove⟩,
    h.late.step hOperational.orderly.stage hOk hMove⟩

theorem tame_create : Tame (Endpoint.create .dedicatedServer true) :=
  ⟨⟨_, rfl, Endpoint.Operational.start [] (.created .dedicatedServer true)⟩,
    Endpoint.Late.start (.created .dedicatedServer true)⟩

/-- What an action of the application sends is what the step gives to the connection. -/
theorem gives_of_send {m : Message} (hStep : s.step event = some s')
    (hAccept : event = .accept → x ≠ s.allocated)
    (hMove : (s.endpoint x).step (.send m) = some (s'.endpoint x)) : m ∈ s.gives x event := by
  have hSent := sent_step hStep hAccept
  have hSend : (s'.endpoint x).sent = (s.endpoint x).sent ++ [m] := by
    rw [← Option.some.inj hMove]
    rfl
  rw [endpoint_sent, endpoint_sent, hSent] at hSend
  rw [List.append_cancel_left hSend]
  exact List.mem_singleton_self m

/-- **A step keeps a connection tame if what it sends there is sent late.** -/
theorem Tame.step (h : Tame (s.endpoint x)) (hFramed : Framed s) (hStep : s.step event = some s')
    (hLate : ∀ m ∈ s.gives x event, (s.endpoint x).completed = true ∧ m.Announces) :
    Tame (s'.endpoint x) := by
  cases hFramed.sound.change hStep x with
  | same hSame => rwa [hSame]
  | @handler c _ _ hMove =>
    have hOk : (s.endpoint x).LateSend (.complete c) := trivial
    exact h.move hOk hMove
  | @outside action hOwned _ hMove =>
    refine h.move ?_ hMove
    cases action with
    | send m =>
      refine hLate m (gives_of_send hStep ?_ hMove)
      rintro - rfl
      exact absurd (hFramed.allocated _ hOwned) (Nat.lt_irrefl _)
    | disconnect | transfer | complete => trivial
  | create _ _ hCreate =>
    rw [hCreate]
    exact tame_create
  | @register now id lambdas rest hEvent hTasks hRegister =>
    -- before its handshake the connection has been given nothing to send
    obtain ⟨-, ⟨posted, hPosted⟩, hNone⟩ := hFramed.sound.opening x (mem_openings hTasks)
    have hOpening : s.endpoint x = (Endpoint.create .dedicatedServer true).postAll posted := by
      rw [endpoint, hNone, hPosted]
      rfl
    have hBefore : (s.endpoint x).sent = [] := by
      by_contra hSome
      have hCompleted := h.late.late hSome
      rw [hOpening] at hCompleted
      cases hCompleted
    have hSent : (s'.endpoint x).sent = [] := by
      subst hEvent
      rw [endpoint_sent, sent_step hStep (by simp), ← endpoint_sent, hBefore]
      rfl
    refine ⟨⟨.server now id, rfl, ?_⟩, ?_, ?_⟩
    · rw [hRegister]
      exact Endpoint.Operational.start lambdas _
    · rw [hSent]
      exact fun hSome => absurd rfl hSome
    · rw [hSent]
      exact fun m hMem => by cases hMem

/-- The stream of a tame connection: the handshake and the frames of what was sent. -/
theorem Tame.wire {e : Endpoint} (h : Tame e) :
    ∃ p : List UInt8, p.length = 24 ∧ e.wire <+: p ++ frames e.sent := by
  obtain ⟨start, hOwner, hOperational⟩ := h.operational
  have hWire := hOperational.wire_prefix
  cases start with
  | client => cases hOwner
  | server now id => exact ⟨_, by simp [Endpoint.Start.script], hWire⟩
  | created owner isOpen =>
    obtain ⟨k, -, hStage⟩ := hOperational.orderly.stage
    have hNothing : e.sent = [] := by
      by_contra hSome
      obtain ⟨p, id, hAccepts, -⟩ := (hStage.completed (h.late.late hSome)).accepts
      exact hAccepts
    rw [hNothing] at hWire ⊢
    refine ⟨List.replicate 24 0, List.length_replicate, ?_⟩
    rw [List.prefix_nil.mp hWire]
    exact List.nil_prefix

/-- When nothing is left to be written, the stream carries all of it. -/
theorem Tame.wire_all {e : Endpoint} (h : Tame e) (hCompleted : e.completed = true)
    (hFailed : e.writeFailed = false) (hPosted : e.posted = []) (hWriting : ∀ op, e.writing op = []) :
    ∃ p : List UInt8, p.length = 24 ∧ e.wire = p ++ frames e.sent := by
  obtain ⟨start, hOwner, hOperational⟩ := h.operational
  have hWire := hOperational.wire_eq hCompleted hFailed hPosted hWriting
  obtain ⟨k, -, hStage⟩ := hOperational.orderly.stage
  cases start with
  | client => cases hOwner
  | server now id => exact ⟨_, by simp [Endpoint.Start.script], hWire⟩
  | created owner isOpen =>
    obtain ⟨p, id, hAccepts, -⟩ := (hStage.completed hCompleted).accepts
    exact hAccepts.elim

end DedicatedServer

namespace Endpoint

/-- The stream of a client: its answer and the frames of what was sent. -/
theorem Operational.client_wire {opened : Bool} {e : Endpoint} (h : Operational (.client opened) e) :
    ∃ p : List UInt8, p.length = 8 ∧ e.wire <+: p ++ frames e.sent ∧
      (e.completed = true → e.writeFailed = false → e.posted = [] → (∀ op, e.writing op = []) →
        e.wire = p ++ frames e.sent) := by
  refine ⟨_, ?_, h.wire_prefix, fun hCompleted hFailed hPosted hWriting =>
    h.wire_eq hCompleted hFailed hPosted hWriting⟩
  exact length_encode64 _

end Endpoint

namespace Star

variable {honest : Nat → Bool} {s s' : Star} {x : Nat}

/-- The two ends of a connection to an honest peer, and the streams between them. -/
structure Joined (s : Star) (x : Nat) : Prop where
  client : ∃ opened, Endpoint.Operational (.client opened) (s.clients x)
  late : Endpoint.Late (s.clients x)
  server : DedicatedServer.Tame (s.server.endpoint x)
  down : (s.clients x).consumed <+: (s.server.endpoint x).wire
  up : (s.server.endpoint x).consumed <+: (s.clients x).wire

theorem endpoint_wire (server : DedicatedServer) (x : Nat) :
    (server.endpoint x).wire = (server.objects x).wire := Endpoint.performAll_wire _ _

theorem endpoint_consumed (server : DedicatedServer) (x : Nat) :
    (server.endpoint x).consumed = (server.objects x).consumed := Endpoint.performAll_consumed _ _

theorem joined_init (opened : Nat → Bool) (x : Nat) :
    Joined { clients := fun x => Endpoint.start [] (.client (opened x)) } x :=
  ⟨⟨opened x, Endpoint.Operational.start [] _⟩, Endpoint.Late.start (.client (opened x)),
    DedicatedServer.tame_create, List.nil_prefix, List.nil_prefix⟩

/-- A step of the server, on this connection or on others. -/
theorem Joined.server_step {event : DedicatedServer.Event} {server : DedicatedServer}
    (h : Joined s x) (hFramed : s.server.Framed) (hStep : s.server.step event = some server)
    (hReads : x ∈ handled event → s.reads x event <+: (s.clients x).wire)
    (hLate : ∀ m ∈ s.server.gives x event,
      (s.server.endpoint x).completed = true ∧ m.Announces) :
    Joined { s with server := server } x := by
  obtain ⟨hWire, hConsumed⟩ := hFramed.streams hStep x
  refine ⟨h.client, h.late, h.server.step hFramed hStep hLate, h.down.trans hWire, ?_⟩
  rcases hConsumed with hSame | hNone | ⟨c, rfl, hMore⟩
  · simp only
    rw [hSame]
    exact h.up
  · simp only
    rw [hNone]
    exact List.nil_prefix
  · have hThere := hReads rfl
    simp only [reads, if_true] at hThere
    simp only
    rw [hMore, endpoint_consumed]
    exact hThere

/-- A step of the peer. -/
theorem Joined.client_step {event : Endpoint.Event} {e : Endpoint} (h : Joined s x)
    (hReads : ∀ c, event = .complete c →
      (s.clients x).consumed ++ c.bytes <+: (s.server.objects x).wire)
    (hLate : Endpoint.LateSend (s.clients x) event)
    (hMove : (s.clients x).step event = some e) : Joined (s.setClient x e) x := by
  obtain ⟨opened, hOperational⟩ := h.client
  have hLambda := h.late.lateLambda hOperational.orderly.chain event
  have hHere : (s.setClient x e).clients x = e := Function.update_self ..
  refine ⟨⟨opened, ?_⟩, ?_, h.server, ?_, ?_⟩
  · rw [hHere]
    exact hOperational.step hLambda hMove
  · rw [hHere]
    exact h.late.step hOperational.orderly.stage hLate hMove
  · rw [hHere]
    by_cases hHandler : ∃ c, event = .complete c
    · obtain ⟨c, rfl⟩ := hHandler
      have hThere := hReads c rfl
      simp only [Endpoint.step, Option.map_eq_some_iff] at hMove
      obtain ⟨⟨e₁, effects⟩, hHandle, rfl⟩ := hMove
      rw [Endpoint.performAll_consumed, Endpoint.handle_consumed hHandle]
      exact (endpoint_wire s.server x).symm ▸ hThere
    · push Not at hHandler
      rw [(Endpoint.outside_frame hHandler hMove).consumed]
      exact h.down
  · rw [hHere]
    exact h.up.trans (Endpoint.step_history hMove).2

/-- A step of another peer. -/
theorem Joined.other_step {y : Nat} {e : Endpoint} (h : Joined s x) (hOther : x ≠ y) :
    Joined (s.setClient y e) x := by
  have hHere : (s.setClient y e).clients x = s.clients x := Function.update_of_ne hOther ..
  refine ⟨?_, ?_, h.server, ?_, ?_⟩
  · rw [hHere]
    exact h.client
  · rw [hHere]
    exact h.late
  · rw [hHere]
    exact h.down
  · rw [hHere]
    exact h.up

/-- **Every step keeps the two ends joined.** -/
theorem Joined.step {event : Event} (h : Joined s x) (hFramed : s.server.Framed)
    (hHonest : honest x = true) (hOk : s.LateSend honest event)
    (hStep : s.step honest event = some s') : Joined s' x := by
  cases step_cases hStep with
  | server hReads hServer =>
    exact h.server_step hFramed hServer (fun hHere => hReads x hHere hHonest) (hOk x hHonest)
  | @client y event e _ hReads hMove =>
    by_cases hSame : x = y
    · subst hSame
      exact h.client_step hReads hOk hMove
    · exact h.other_step hSame

/-! ## What the applications see -/

/-- What the server has read from an honest peer are the first messages of the peer. -/
theorem Joined.received_up (h : Joined s x) :
    (s.server.endpoint x).received <+: (s.clients x).sent := by
  obtain ⟨opened, hClient⟩ := h.client
  obtain ⟨p, hLength, hWire, -⟩ := hClient.client_wire
  obtain ⟨start, hOwner, hServer⟩ := h.server.operational
  obtain ⟨k, -, hStage⟩ := hServer.orderly.stage
  rw [Endpoint.received_eq]
  cases start with
  | client => cases hOwner
  | server now id => exact hStage.received_prefix hLength h.late.announces (h.up.trans hWire)
  | created owner isOpen =>
    rw [hStage.reports_eq]
    exact List.nil_prefix

theorem Joined.received_down (h : Joined s x) :
    (s.clients x).received <+: (s.server.endpoint x).sent := by
  obtain ⟨opened, hClient⟩ := h.client
  obtain ⟨k, -, hStage⟩ := hClient.orderly.stage
  obtain ⟨p, hLength, hWire⟩ := h.server.wire
  rw [Endpoint.received_eq]
  exact hStage.received_prefix hLength h.server.late.announces (h.down.trans hWire)

/-- A read that waits for more than is on the stream has left nothing unread. -/
theorem Settled.short {sender receiver : Endpoint} {op : ReadOp} {n : Nat} {rest : List UInt8}
    (h : Settled sender receiver) (hWaits : receiver.Waits (some (.read op n)))
    (hRest : receiver.consumed ++ rest = sender.wire) : rest.length < n := by
  have hBlocked := h.reading op n (by rw [hWaits.reading]; exact List.mem_cons_self)
  rw [← hRest, List.length_append] at hBlocked
  omega

/-- **When nothing is on the way up, the server has read all that the peer has sent.** -/
theorem Joined.settled_up (h : Joined s x)
    (hSettled : Settled (s.clients x) (s.server.endpoint x)) :
    (s.server.endpoint x).received = (s.clients x).sent := by
  obtain ⟨opened, hClient⟩ := h.client
  obtain ⟨p, hLength, -, hAll⟩ := hClient.client_wire
  have hWire := hAll hSettled.completed.1 hSettled.sound.1 hSettled.posted hSettled.writing
  obtain ⟨start, hOwner, hServer⟩ := h.server.operational
  obtain ⟨k, hWaits, hStage⟩ := hServer.orderly.stage
  obtain ⟨op, n, rfl⟩ := (hStage.completed hSettled.completed.2).reading hSettled.sound.2
  obtain ⟨rest, hRest⟩ := h.up
  have hShort := hSettled.short hWaits hRest
  rw [Endpoint.received_eq]
  cases start with
  | client => cases hOwner
  | server now id =>
    exact hStage.received_all hSettled.completed.2 hLength h.late.announces (hRest.trans hWire)
      hShort
  | created owner isOpen => cases hStage.created_none

/-- **When nothing is on the way down, the peer has read all that the server has sent.** -/
theorem Joined.settled_down (h : Joined s x)
    (hSettled : Settled (s.server.endpoint x) (s.clients x)) :
    (s.clients x).received = (s.server.endpoint x).sent := by
  obtain ⟨opened, hClient⟩ := h.client
  obtain ⟨k, hWaits, hStage⟩ := hClient.orderly.stage
  obtain ⟨op, n, rfl⟩ := (hStage.completed hSettled.completed.2).reading hSettled.sound.2
  obtain ⟨p, hLength, hWire⟩ := h.server.wire_all hSettled.completed.1 hSettled.sound.1
    hSettled.posted hSettled.writing
  obtain ⟨rest, hRest⟩ := h.down
  have hShort := hSettled.short hWaits hRest
  rw [Endpoint.received_eq]
  exact hStage.received_all hSettled.completed.2 hLength h.server.late.announces
    (hRest.trans hWire) hShort

end Star

namespace DedicatedServer

variable {s : DedicatedServer}

/-- What is handed over has been read. -/
theorem handed_prefix (h : Recorded s) (x : Nat) :
    handed s.log x <+: (s.endpoint x).received := by
  have hTold : told s.log x <+: telling (s.endpoint x) x := by
    rw [telling_endpoint, h.told]
    exact List.prefix_append _ _
  have hQueue : handed s.log x <+: messagesOf x (s.log.filterMap Notice.enqueued?) := by
    rw [handed, ← h.enqueued, ← h.processed, ← h.queue.queue]
    exact (List.prefix_append _ _).filterMap _
  rw [messagesOf_enqueued] at hQueue
  rw [← messagesOf_telling _ x]
  exact hQueue.trans ((hTold.filterMap _).filterMap _)

/-- With an empty queue, and no handler in progress, all that was read is handed over. -/
theorem handed_all (h : Recorded s) (hIdle : s.tasks .context = [])
    (hEmpty : s.incoming.incomingMessages = []) (x : Nat) :
    handed s.log x = (s.endpoint x).received := by
  have hQueue := h.queue.queue
  rw [hEmpty, List.append_nil] at hQueue
  rw [handed, ← h.processed, hQueue, h.enqueued, messagesOf_enqueued, h.told,
    ← messagesOf_telling _ x, telling_endpoint, rest_idle hIdle, List.filterMap_nil,
    List.append_nil]

end DedicatedServer

namespace Star

variable {honest : Nat → Bool} {s s' : Star} {x : Nat}

/-- **A server with any application and any number of peers is a pair of channels for each
honest peer**: in every run in which the two applications send late on the connection, each
gets what the other has sent, once and in order, and all of it when nothing is on the way,
whatever happens on the other connections. -/
theorem channels_of_reach (h : Reach (system honest) (LateSend honest) s)
    (hHonest : honest x = true) : Channels s x := by
  have hAll : s.server.Recorded ∧ Joined s x := by
    refine h.invariant (I := fun s => s.server.Recorded ∧ Joined s x) ?_ ?_
    · rintro _ ⟨opened, rfl⟩
      exact ⟨DedicatedServer.recorded_init, joined_init opened x⟩
    · rintro s event s' ⟨hRecorded, hJoined⟩ hOk hStep
      refine ⟨?_, hJoined.step hRecorded.framed hHonest hOk hStep⟩
      cases step_cases hStep with
      | server _ hServer => exact hRecorded.step hServer
      | client => exact hRecorded
  obtain ⟨hRecorded, hJoined⟩ := hAll
  have hWhole : s.server.tasks .context = [] → s.server.endpoint x = s.server.objects x := by
    intro hIdle
    rw [DedicatedServer.endpoint, DedicatedServer.rest_idle hIdle]
    rfl
  refine ⟨(DedicatedServer.handed_prefix hRecorded x).trans hJoined.received_up, ?_, ?_, ?_⟩
  · rw [← DedicatedServer.endpoint_sent]
    exact hJoined.received_down
  · intro hIdle hEmpty hSettled
    rw [DedicatedServer.handed_all hRecorded hIdle hEmpty]
    exact hJoined.settled_up ((hWhole hIdle).symm ▸ hSettled)
  · intro hIdle hSettled
    rw [← DedicatedServer.endpoint_sent]
    exact hJoined.settled_down ((hWhole hIdle).symm ▸ hSettled)

/-- The connections that a step of the server may send on. -/
def asks (s : DedicatedServer) : DedicatedServer.Event → List Nat
  | .app _ (.send y _) => [y]
  | .app _ (.messageOne p _) => p.toList
  | .run _ => s.clients.filterMap id
  | .app _ (.disconnect _) | .app _ (.messageAll _ _) | .app _ (.keep _) | .app _ (.drop _)
  | .accept | .complete _ _ | .transfer _ _ _ | .leave _ | .allow _ | .deny | .poll _ => []

theorem mem_asks {server : DedicatedServer} {event : DedicatedServer.Event} {m : Message}
    (h : m ∈ server.gives x event) : x ∈ asks server event := by
  cases event with
  | app t action =>
    cases action with
    | send y m' =>
      simp only [DedicatedServer.gives] at h
      split at h
      · rename_i hSame
        rw [hSame]
        exact List.mem_cons_self
      · cases h
    | messageOne p m' =>
      simp only [DedicatedServer.gives] at h
      split at h
      · rename_i hSame
        rw [hSame.1]
        exact List.mem_cons_self
      · cases h
    | disconnect | messageAll | keep | drop => cases h
  | run t =>
    simp only [DedicatedServer.gives] at h
    split at h
    · split at h
      · rename_i hHere
        exact List.mem_filterMap.mpr ⟨some x, List.mem_of_getElem? hHere.2.1, rfl⟩
      · cases h
    all_goals cases h
  | accept | complete | transfer | leave | allow | deny | poll => cases h

/-- Only the connections that a step may send on are to be looked at. -/
instance (honest : Nat → Bool) (s : Star) (event : Event) : Decidable (s.LateSend honest event) :=
  match event with
  | .client x event => inferInstanceAs (Decidable (Endpoint.LateSend (s.clients x) event))
  | .server event =>
    decidable_of_iff (∀ x ∈ asks s.server event, honest x = true →
      ∀ m ∈ s.server.gives x event, (s.server.endpoint x).completed = true ∧ m.Announces)
      ⟨fun h x hHonest m hm => h x (mem_asks hm) hHonest m hm,
        fun h x _ hHonest m hm => h x hHonest m hm⟩

/-- A stranger is found invalid between the steps of the handshake with an honest peer. The
server and the peer send one message each; the one of the peer is handed over. -/
def twoWays : List Event :=
  let server (event : DedicatedServer.Event) := Event.server event
  let client (event : Endpoint.Event) := Event.client 0 event
  let answer := encode64 (Endpoint.respond 0)
  let reply := encode64 (Endpoint.respond (Endpoint.respond 0))
  let message := DedicatedServer.bare
  [[.accept, .allow 0, .leave .context, .accept, .allow 0, .leave .context,
      .transfer 0 .validation1 8, .complete 0 (.written .validation1),
      .transfer 1 .validation1 8, .complete 1 (.written .validation1)].map server,
    [.complete .connected, .complete (.read .validation1 (encode64 0)),
      .transfer .validation2 8, .complete (.written .validation2)].map client,
    [.complete 1 (.read .validation2 (encode64 0)), .leave .context, .run .context,
      .leave .context, .run .context, .run .context,
      .complete 0 (.read .validation2 answer), .leave .context, .run .context,
      .transfer 0 .validation3 8, .complete 0 (.written .validation3),
      .transfer 0 .validation4 8, .complete 0 (.written .validation4),
      .app .polling (.messageOne (some 0) (message 3)), .complete 0 .lambda,
      .transfer 0 .header 8, .complete 0 (.written .header)].map server,
    [.complete (.read .validation3 reply), .complete (.read .validation4 (encode64 1)),
      .complete (.read .header (message 3).header.bytes), .send (message 4), .complete .lambda,
      .transfer .header 8, .complete (.written .header)].map client,
    [.complete 0 (.read .header (message 4).header.bytes), .poll (.call 1 false), .poll .test,
      .poll .pop].map server].flatten

theorem channels_twoWays : ∃ s, Reach (system fun x => x == 0) (LateSend fun x => x == 0) s ∧
    DedicatedServer.handed s.server.log 0 = [DedicatedServer.bare 4] ∧
      (s.clients 0).received = [DedicatedServer.bare 3] ∧ Channels s 0 := by
  obtain ⟨s, hReach, hEnd⟩ := Reach.exists_of_checked (M := system fun x => x == 0)
    (LateSend fun x => x == 0) ⟨fun _ => true, rfl⟩ twoWays
    (fun s => decide (DedicatedServer.handed s.server.log 0 = [DedicatedServer.bare 4] ∧
      (s.clients 0).received = [DedicatedServer.bare 3])) (by decide)
  obtain ⟨hUp, hDown⟩ := of_decide_eq_true hEnd
  exact ⟨s, hReach, hUp, hDown, channels_of_reach hReach rfl⟩

end Star

end MinecraftNetwork
