import MinecraftNetwork.Link.Basic

/-!
# What is sent is delivered once, in order

`Peer.Sound` is the invariant of one side of a link, relative to the stream it reads. The
streams only grow, so a step of one side keeps the invariant of the other. The messages
passed to `OnMessage` are then a prefix of those put into the queue, which are a prefix of
those on the stream, which is a prefix of the frames of the other side; and when nothing
is left on the way, all of these are equal.
-/

namespace MinecraftNetwork

open Runs

namespace Peer

variable {κ : Type}

theorem own_append (xs ys : List (Option κ × Message)) : own (xs ++ ys) = own xs ++ own ys :=
  List.filterMap_append

theorem own_map_none (ms : List Message) : own (ms.map ((none : Option κ), ·)) = ms := by
  simp [own, List.filterMap_map]

theorem own_some (k : κ) (m : Message) : own [(some k, m)] = [] := rfl

/-- The invariant of an endpoint that reads a stream. -/
structure Sound (s : Endpoint.Start) (stream : List UInt8) (p : Peer κ) : Prop where
  operational : Endpoint.Operational s p.endpoint
  late : Endpoint.Late p.endpoint
  incoming : p.incoming.Sound
  own : own p.incoming.enqueued = p.endpoint.received
  stream : p.endpoint.consumed <+: stream

theorem Sound.mono {s : Endpoint.Start} {stream stream' : List UInt8} {p : Peer κ}
    (h : p.Sound s stream) (hStream : stream <+: stream') : p.Sound s stream' :=
  { h with stream := h.stream.trans hStream }

theorem sound_start (s : Endpoint.Start) (stream : List UInt8) :
    ({ endpoint := Endpoint.start [] s } : Peer κ).Sound s stream := by
  refine ⟨.start [] s, .start s, ⟨rfl, fun _ h => by cases h⟩, ?_, ?_⟩
  · cases s <;> rfl
  · cases s <;> exact List.nil_prefix

/-- An event of the endpoint is kept by the invariants of the endpoint. -/
theorem Sound.endpoint_step {s : Endpoint.Start} {stream : List UInt8} {p : Peer κ} {e : Endpoint}
    {event : Endpoint.Event} (h : p.Sound s stream)
    (hOk : Endpoint.LateSend p.endpoint event) (hStep : p.endpoint.step event = some e) :
    Endpoint.Operational s e ∧ Endpoint.Late e :=
  ⟨h.operational.step (h.late.lateLambda h.operational.orderly.chain event) hStep,
    h.late.step h.operational.orderly.stage hOk hStep⟩

/-- **A step keeps the invariant, and what has left an endpoint stays on the stream.** -/
theorem Sound.step {s : Endpoint.Start} {stream : List UInt8} {p p' : Peer κ} {event : Event κ}
    (h : p.Sound s stream)
    (hOk : ∀ event', event = .endpoint event' → Endpoint.LateSend p.endpoint event')
    (hStep : p.step stream event = some p') :
    p'.Sound s stream ∧ p.endpoint.wire <+: p'.endpoint.wire := by
  cases step_cases hStep with
  | foreign =>
    refine ⟨{ h with incoming := h.incoming.emplaceBack _, own := ?_ }, List.prefix_rfl⟩
    rw [Polling.emplaceBack, own_append, own_some, List.append_nil]
    exact h.own
  | poll hPoll =>
    obtain ⟨hIncoming, hEnqueued⟩ := h.incoming.step hPoll
    refine ⟨{ h with incoming := hIncoming, own := ?_ }, List.prefix_rfl⟩
    rw [hEnqueued]
    exact h.own
  | outside hOutside hEndpoint =>
    obtain ⟨hOperational, hLate⟩ := h.endpoint_step (hOk _ rfl) hEndpoint
    have hFrame := Endpoint.outside_frame hOutside hEndpoint
    refine ⟨⟨hOperational, hLate, h.incoming, ?_, ?_⟩, hFrame.wire⟩
    · rw [Endpoint.received, hFrame.history]
      exact h.own
    · rw [hFrame.consumed]
      exact h.stream
  | @complete c e effects hThere hHandle =>
    have hWhole : p.endpoint.step (.complete c) = some (e.performAll effects) := by
      rw [Endpoint.step, hHandle]
      rfl
    obtain ⟨hOperational, hLate⟩ := h.endpoint_step (hOk _ rfl) hWhole
    obtain ⟨-, hWire, hHistory⟩ := Endpoint.handle_keeps hHandle
    refine ⟨⟨hOperational, hLate, h.incoming.emplaceAll _, ?_, ?_⟩, ?_⟩
    · rw [Polling.emplaceAll_enqueued, own_append, own_map_none, h.own]
      simp [Endpoint.received, hHistory]
    · have hConsumed : e.consumed = p.endpoint.consumed ++ c.bytes :=
        Endpoint.handle_consumed hHandle
      rw [Endpoint.performAll_consumed, hConsumed]
      exact hThere
    · rw [Endpoint.performAll_wire, hWire]

end Peer

namespace Link

variable {κ : Type}

/-- Nothing is on the way from a side to the other, and no operation of the two has failed. -/
structure Settled (sender receiver : Peer κ) : Prop where
  completed : sender.endpoint.completed = true ∧ receiver.endpoint.completed = true
  ended : sender.endpoint.ended = false ∧ receiver.endpoint.ended = false
  writeFailed : sender.endpoint.writeFailed = false ∧ receiver.endpoint.writeFailed = false
  /-- No lambda is posted. -/
  posted : sender.endpoint.posted = []
  /-- No write is outstanding. -/
  writing : ∀ op, sender.endpoint.writing op = []
  /-- The outstanding read waits for more bytes than are on the stream. -/
  reading : ∀ op n, (op, n) ∈ receiver.endpoint.reading →
    sender.endpoint.wire.length < receiver.endpoint.consumed.length + n
  /-- The incoming queue has been polled empty. -/
  polled : receiver.incoming.incomingMessages = []

/-- What one side is to get from the other: each message once, in order. -/
structure Delivers (sender receiver : Peer κ) : Prop where
  inOrder : receiver.received <+: sender.endpoint.sent
  all : Settled sender receiver → receiver.received = sender.endpoint.sent

/-- The invariant of a link. -/
def Sound (starts : Side → Endpoint.Start) (l : Link κ) : Prop :=
  ∀ side, (l side).Sound (starts side) (l side.other).endpoint.wire

theorem other_other (side : Side) : side.other.other = side := by
  cases side <;> rfl

/-- A step of one side keeps what holds of both relative to the streams they read. -/
theorem step_sides {I : Side → List UInt8 → Peer κ → Prop}
    (hMono : ∀ {side stream stream' p}, I side stream p → stream <+: stream' → I side stream' p)
    {l l' : Link κ} {event : Side × Peer.Event κ}
    (h : ∀ side, I side (l side.other).endpoint.wire (l side)) (hStep : l.step event = some l')
    (hPeer : ∀ p, (l event.1).step (l event.1.other).endpoint.wire event.2 = some p →
      I event.1 (l event.1.other).endpoint.wire p ∧ (l event.1).endpoint.wire <+: p.endpoint.wire) :
    ∀ side, I side (l' side.other).endpoint.wire (l' side) := by
  obtain ⟨side, event⟩ := event
  simp only [Link.step, Option.map_eq_some_iff] at hStep
  obtain ⟨p, hStep, rfl⟩ := hStep
  obtain ⟨hSide, hWire⟩ := hPeer p hStep
  have hOther : side.other ≠ side := by cases side <;> decide
  intro side'
  by_cases hSame : side' = side
  · subst hSame
    rw [Function.update_self, Function.update_of_ne hOther]
    exact hSide
  · obtain rfl : side' = side.other := by
      cases side <;> cases side' <;> first | rfl | exact absurd rfl hSame
    rw [Function.update_of_ne hSame, other_other, Function.update_self]
    refine hMono (h side.other) ?_
    rw [other_other]
    exact hWire

theorem Sound.step {starts : Side → Endpoint.Start} {l l' : Link κ} {event : Side × Peer.Event κ}
    (h : Sound starts l) (hOk : LateSend l event) (hStep : l.step event = some l') :
    Sound starts l' := by
  refine step_sides (I := fun side stream p => p.Sound (starts side) stream)
    (fun hSound => hSound.mono) h hStep fun p hPeer => (h event.1).step ?_ hPeer
  obtain ⟨side, event⟩ := event
  rintro event' rfl
  exact hOk

theorem sound_of_reach {now id : UInt64} {opened : Bool} {l : Link κ}
    (h : Reach (system κ now id opened) LateSend l) : Sound (begins now id opened) l := by
  refine h.invariant ?_ fun l event l' hSound hOk hStep => hSound.step hOk hStep
  rintro _ rfl side
  exact Peer.sound_start _ _

/-- The handshake one side writes is the one the other side reads. -/
theorem length_script (now id : UInt64) (opened : Bool) (side : Side) (b : List UInt8) :
    ((begins now id opened side.other).script b).length = (begins now id opened side).expects := by
  cases side <;> simp [begins, Side.other, Endpoint.Start.script, Endpoint.Start.expects]

/-- **Every message is delivered at most once, in order, and none is lost but by an error.** -/
theorem delivers_of_reach {now id : UInt64} {opened : Bool} {l : Link κ}
    (h : Reach (system κ now id opened) LateSend l) (side : Side) :
    Delivers (l side.other) (l side) := by
  have hSound := sound_of_reach h
  obtain ⟨hOperational, hLate, hIncoming, hOwn, hStream⟩ := hSound side
  have hSender := hSound side.other
  obtain ⟨k, hWaits, hStage⟩ := hOperational.orderly.stage
  have hLength := length_script now id opened side (l side.other).endpoint.consumed
  have hEnqueued : (l side).received <+: (l side).endpoint.received := by
    rw [← hOwn, ← hIncoming.queue, Peer.own_append]
    exact List.prefix_append _ _
  refine ⟨?_, fun hSettled => ?_⟩
  · have hReceived : (l side).endpoint.received <+: (l side.other).endpoint.sent := by
      rw [Endpoint.received_eq]
      exact hStage.received_prefix hLength hSender.late.announces
        (hStream.trans hSender.operational.wire_prefix)
    exact hEnqueued.trans hReceived
  · obtain ⟨op, n, rfl⟩ := (hStage.completed hSettled.completed.2).reading hSettled.ended.2
    obtain ⟨rest, hRest⟩ := hStream
    have hWire := hSender.operational.wire_eq hSettled.completed.1 hSettled.writeFailed.1
      hSettled.posted hSettled.writing
    have hShort : rest.length < n := by
      have hBlocked := hSettled.reading op n (by rw [hWaits.reading]; exact List.mem_cons_self)
      rw [← hRest, List.length_append] at hBlocked
      omega
    have hAll : (l side).endpoint.received = (l side.other).endpoint.sent := by
      rw [Endpoint.received_eq]
      exact hStage.received_all hSettled.completed.2 hLength hSender.late.announces
        (hRest.trans hWire) hShort
    rw [← hAll, ← hOwn, ← hIncoming.queue, hSettled.polled, List.append_nil]
    rfl

/-- A message with a body, and one without. -/
def bodied : Message := { header := { id := 2, size := 1 }, body := [7] }

def bodiless : Message := { header := { id := 3 } }

/-- A handshake, and two messages from the server to the client. -/
def twoMessages : List (Side × Peer.Event Unit) :=
  let server event := (Side.server, Peer.Event.endpoint event)
  let client event := (Side.client, Peer.Event.endpoint event)
  let poll event := (Side.client, Peer.Event.poll event)
  let challenge := LittleEndian.encode64 0
  let answer := LittleEndian.encode64 (Endpoint.respond 0)
  let reply := LittleEndian.encode64 (Endpoint.respond (Endpoint.respond 0))
  [server (.transfer .validation1 8), server (.complete (.written .validation1)),
    client (.complete .connected), client (.complete (.read .validation1 challenge)),
    client (.transfer .validation2 8), client (.complete (.written .validation2)),
    server (.complete (.read .validation2 answer)),
    server (.transfer .validation3 8), server (.complete (.written .validation3)),
    server (.transfer .validation4 8), server (.complete (.written .validation4)),
    client (.complete (.read .validation3 reply)),
    client (.complete (.read .validation4 (LittleEndian.encode64 1))),
    server (.send bodied), server (.send bodiless), server (.complete .lambda),
    server (.complete .lambda), server (.transfer .header 8), server (.complete (.written .header)),
    client (.complete (.read .header bodied.header.bytes)),
    server (.transfer .body 1), server (.complete (.written .body)),
    client (.complete (.read .body bodied.body)),
    server (.transfer .header 8), server (.complete (.written .header)),
    client (.complete (.read .header bodiless.header.bytes)),
    poll (.call 5 false), poll .test, poll .pop, poll .test, poll .pop]

theorem delivers_twoMessages : ∃ l, Reach (system Unit 0 1 true) LateSend l ∧
    (l .client).received = [bodied, bodiless] ∧ Delivers (l Side.client.other) (l .client) := by
  obtain ⟨l, hReach, hEnd⟩ := Reach.exists_of_checked (M := system Unit 0 1 true) LateSend rfl
    twoMessages (fun l => decide ((l .client).received = [bodied, bodiless])) (by decide)
  exact ⟨l, hReach, of_decide_eq_true hEnd, delivers_of_reach hReach .client⟩

end Link

end MinecraftNetwork
