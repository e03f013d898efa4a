import MinecraftNetwork.Relay.Regular

/-!
# The connections to honest clients

An honest client reads what its connection of the server has written, and the connection
reads what the client has written (`Linked`). What each has received is then a prefix of the
messages given to `Send` on the other side, and all of them when nothing is on the way.
-/

namespace MinecraftNetwork

open Runs LittleEndian

namespace Relay

variable {s : Relay} {server : DedicatedServer} {event : DedicatedServer.Event} {x : Nat}

/-! ## What an honest client sends -/

/-- The messages that `Client.cpp` sends. -/
def Sends (m : Message) : Prop :=
  m = Client.messageOtherClients ∨ ∃ now, Client.pingServer now = .ok m

theorem pingServer_eq (now : UInt64) : Client.pingServer now = .ok
    { header := { id := MessageType.clientPingServer.id, size := 8 }, body := encode64 now } := by
  rw [Client.pingServer, Message.push_eq, if_pos]
  · have hData : (Data.ofUInt64 now).size = 8 := length_encode64 now
    rw [hData]
    rfl
  · have hData : (Data.ofUInt64 now).size = 8 := length_encode64 now
    rw [hData]
    decide

theorem Sends.announces {m : Message} (h : Sends m) : m.Announces := by
  rcases h with rfl | ⟨now, hPing⟩
  · rfl
  · rw [pingServer_eq] at hPing
    cases hPing
    exact (length_encode64 now).symm

/-- A ping carries a clock value. -/
theorem Sends.ping {m : Message} (h : Sends m)
    (hId : m.header.id = MessageType.clientPingServer.id) : m.body.length = 8 := by
  rcases h with rfl | ⟨now, hPing⟩
  · cases hId
  · rw [pingServer_eq] at hPing
    cases hPing
    exact length_encode64 now

/-! ## The two ends of a connection -/

/-- A connection of the server and the honest client at its other end. -/
structure Linked (s : Relay) (x : Nat) : Prop where
  operational : ∃ opened, Endpoint.Operational (.client opened) (s.clients x)
  sends : ∀ m ∈ (s.clients x).sent, Sends m
  down : (s.clients x).consumed <+: (s.server.objects x).wire
  up : (s.server.objects x).consumed <+: (s.clients x).wire

theorem endpoint_wire (server : DedicatedServer) (x : Nat) :
    (server.endpoint x).wire = (server.objects x).wire := Endpoint.performAll_wire _ _

theorem endpoint_consumed (server : DedicatedServer) (x : Nat) :
    (server.endpoint x).consumed = (server.objects x).consumed := Endpoint.performAll_consumed _ _

/-- A connection that is not admitted has neither written nor read anything. -/
theorem Regular.opening {answered : Bool} (h : Regular server answered) (hx : x ∈ server.openings) :
    server.endpoint x = Endpoint.create .dedicatedServer true := by
  cases h.made x with
  | created hNew => exact hNew
  | admitted hOwner =>
    rw [DedicatedServer.endpoint_connection] at hOwner
    exact absurd hx (h.framed.admitted hOwner).2

theorem Regular.streams {answered : Bool} (h : Regular server answered)
    {server' : DedicatedServer} (hStep : server.step event = some server') (x : Nat) :
    (server.objects x).wire <+: (server'.objects x).wire ∧
      ((server'.objects x).consumed = (server.objects x).consumed ∨
        (server'.objects x).consumed = [] ∨ ∃ c, event = .complete x c ∧
          (server'.objects x).consumed = (server.objects x).consumed ++ c.bytes) := by
  rw [← endpoint_wire, ← endpoint_wire, ← endpoint_consumed, ← endpoint_consumed]
  cases h.framed.sound.change hStep x with
  | same hSame =>
    rw [hSame]
    exact ⟨List.prefix_rfl, .inl rfl⟩
  | @handler c hEvent _ hMove =>
    refine ⟨(Endpoint.step_history hMove).2, .inr (.inr ⟨c, hEvent, ?_⟩)⟩
    simp only [Endpoint.step, Option.map_eq_some_iff] at hMove
    obtain ⟨⟨e, effects⟩, hHandle, hEnd⟩ := hMove
    rw [← hEnd, Endpoint.performAll_consumed, Endpoint.handle_consumed hHandle]
  | @outside action _ hOutside hMove =>
    refine ⟨(Endpoint.step_history hMove).2, .inl ?_⟩
    cases action with
    | send | disconnect => rw [← Option.some.inj hMove]; rfl
    | transfer op n =>
      obtain ⟨-, -, -, -, -, -, hConsumed, -⟩ := Endpoint.transfer_frame hMove
      exact hConsumed
    | complete c => exact absurd rfl (hOutside c)
  | create _ hFresh hCreate =>
    rw [h.framed.fresh x hFresh.ge, hCreate]
    exact ⟨List.prefix_rfl, .inl rfl⟩
  | register _ hTasks hRegister =>
    rw [h.opening (DedicatedServer.mem_openings hTasks), hRegister]
    exact ⟨List.nil_prefix, .inr (.inl rfl)⟩

/-- A step of the server. -/
theorem Linked.step_server (h : Linked s x) (hRegular : Regular s.server s.answered)
    (hReads : ∀ c, event = .complete x c →
      (s.server.objects x).consumed ++ c.bytes <+: (s.clients x).wire)
    (hStep : s.server.step event = some server) (answered : Bool) :
    Linked { s with server := server, answered := answered } x := by
  obtain ⟨hWire, hConsumed⟩ := hRegular.streams hStep x
  refine ⟨h.operational, h.sends, h.down.trans hWire, ?_⟩
  change (server.objects x).consumed <+: (s.clients x).wire
  rcases hConsumed with hSame | hNone | ⟨c, hEvent, hMore⟩
  · rw [hSame]
    exact h.up
  · rw [hNone]
    exact List.nil_prefix
  · rw [hMore]
    exact hReads c hEvent

/-- A step of the client. -/
theorem Linked.step_client {e : Endpoint} {c : Endpoint.Event} (h : Linked s x)
    (hLate : (s.clients x).LateLambda c) (hStep : (s.clients x).step c = some e)
    (hSends : ∀ m ∈ e.sent, Sends m) (hDown : e.consumed <+: (s.server.objects x).wire) :
    Linked (s.setClient x e) x := by
  obtain ⟨opened, hOperational⟩ := h.operational
  have hHere : (s.setClient x e).clients x = e := Function.update_self ..
  refine ⟨⟨opened, ?_⟩, ?_, ?_, ?_⟩
  · rw [hHere]
    exact hOperational.step hLate hStep
  · rw [hHere]
    exact hSends
  · rw [hHere]
    exact hDown
  · rw [hHere]
    exact h.up.trans (Endpoint.step_history hStep).2

/-- A step of another client. -/
theorem Linked.step_other {y : Nat} {e : Endpoint} (h : Linked s x) (hOther : x ≠ y) :
    Linked (s.setClient y e) x := by
  have hHere : (s.setClient y e).clients x = s.clients x := Function.update_of_ne hOther ..
  refine ⟨?_, ?_, ?_, ?_⟩
  · rw [hHere]
    exact h.operational
  · rw [hHere]
    exact h.sends
  · rw [hHere]
    exact h.down
  · rw [hHere]
    exact h.up

theorem Linked.step {honest : Nat → Bool} {s' : Relay} {event : Event} (h : Linked s x)
    (hRegular : Regular s.server s.answered) (hHonest : honest x = true) (hOk : s.Careful event)
    (hStep : s.step honest event = some s') : Linked s' x := by
  have hSend : ∀ {y m}, Sends m → Linked (s.setClient y ((s.clients y).send m)) x := by
    intro y m hSends
    by_cases hSame : x = y
    · subst hSame
      refine h.step_client (c := .send m) (fun hNot => by cases hNot) rfl ?_ h.down
      intro m' hMem
      rcases List.mem_append.mp hMem with hOld | hNew
      · exact h.sends m' hOld
      · rw [List.mem_singleton.mp hNew]
        exact hSends
    · exact h.step_other hSame
  cases step_cases hStep with
  | server _ hReads hServer =>
    refine h.step_server hRegular ?_ hServer _
    rintro c rfl
    exact hReads hHonest
  | @pingServer _ now _ _ hPing => exact hSend (.inr ⟨now, hPing⟩)
  | messageOtherClients => exact hSend (.inl rfl)
  | @transfer y op n e _ hTransfer =>
    obtain ⟨-, hSent, -, -, -, -, hConsumed, -⟩ := Endpoint.transfer_frame hTransfer
    by_cases hSame : x = y
    · subst hSame
      refine h.step_client (c := .transfer op n) (fun hNot => by cases hNot) hTransfer ?_ ?_
      · rw [hSent]
        exact h.sends
      · rw [hConsumed]
        exact h.down
    · exact h.step_other hSame
  | @complete y c e _ hThere hMove =>
    by_cases hSame : x = y
    · subst hSame
      have hLate : (s.clients x).LateLambda (.complete c) := by
        intro hLambda _ _ _
        cases hLambda
        exact hOk.cautious rfl
      have hBoth : e.sent = (s.clients x).sent ∧
          e.consumed = (s.clients x).consumed ++ c.bytes := by
        simp only [Endpoint.step, Option.map_eq_some_iff] at hMove
        obtain ⟨⟨e₁, effects⟩, hHandle, rfl⟩ := hMove
        rw [Endpoint.performAll_sent, Endpoint.performAll_consumed,
          (Endpoint.handle_keeps hHandle).1, Endpoint.handle_consumed hHandle]
        exact ⟨rfl, rfl⟩
      refine h.step_client hLate hMove ?_ ?_
      · rw [hBoth.1]
        exact h.sends
      · rw [hBoth.2]
        exact hThere
    · exact h.step_other hSame

theorem linked_init (opened : Nat → Bool) (x : Nat) :
    Linked { clients := fun x => Endpoint.start [] (.client (opened x)) } x :=
  ⟨⟨opened x, Endpoint.Operational.start [] _⟩, (fun m hMem => by cases hMem), List.nil_prefix,
    List.nil_prefix⟩

/-! ## What is delivered -/

theorem length_script (now id : UInt64) (b : List UInt8) :
    (Endpoint.Start.script (.server now id) b).length = 24 := by
  simp [Endpoint.Start.script]

/-- The wire of a connection of the server carries a handshake and the frames. -/
theorem Made.wire {e : Endpoint} (h : Made e) : (∀ m ∈ e.sent, m.Announces) ∧
    ∃ p : List UInt8, p.length = 24 ∧ e.wire <+: p ++ frames e.sent := by
  cases h with
  | created hNew =>
    rw [hNew]
    exact ⟨fun m hMem => (List.not_mem_nil hMem).elim, _, length_script 0 0 [], List.nil_prefix⟩
  | admitted _ hOperational hLate =>
    exact ⟨hLate.announces, _, length_script _ _ _, hOperational.wire_prefix⟩

theorem Made.wire_all {e : Endpoint} (h : Made e) (hCompleted : e.completed = true)
    (hFailed : e.writeFailed = false) (hPosted : e.posted = []) (hWriting : ∀ op, e.writing op = []) :
    ∃ p : List UInt8, p.length = 24 ∧ e.wire = p ++ frames e.sent := by
  cases h with
  | created hNew =>
    rw [hNew] at hCompleted
    cases hCompleted
  | admitted _ hOperational _ =>
    exact ⟨_, length_script _ _ _, hOperational.wire_eq hCompleted hFailed hPosted hWriting⟩

/-- **An honest client receives what the server has sent to it, in order.** -/
theorem Linked.received_down (h : Linked s x) (hMade : Made (s.server.endpoint x)) :
    (s.clients x).received <+: (s.server.objects x).sent := by
  obtain ⟨opened, hOperational⟩ := h.operational
  obtain ⟨k, -, hStage⟩ := hOperational.orderly.stage
  obtain ⟨hAnnounces, p, hLength, hWire⟩ := hMade.wire
  rw [DedicatedServer.endpoint_sent] at hAnnounces hWire
  rw [endpoint_wire] at hWire
  rw [Endpoint.received_eq]
  exact hStage.received_prefix hLength hAnnounces (h.down.trans hWire)

/-- **When nothing is on the way, it has received all of it.** -/
theorem Linked.received_settled (h : Linked s x) (hRegular : Regular s.server s.answered)
    (hSettled : Settled s x) : (s.clients x).received = (s.server.objects x).sent := by
  have hWhole : s.server.endpoint x = s.server.objects x := by
    rw [DedicatedServer.endpoint, DedicatedServer.rest_idle (hSettled.idle .context)]
    rfl
  have hMade := hRegular.made x
  rw [hWhole] at hMade
  obtain ⟨opened, hOperational⟩ := h.operational
  obtain ⟨k, hWaits, hStage⟩ := hOperational.orderly.stage
  obtain ⟨op, n, rfl⟩ := (hStage.completed hSettled.completed.2).reading hSettled.sound.2
  obtain ⟨p, hLength, hWire⟩ := hMade.wire_all hSettled.completed.1 hSettled.sound.1
    hSettled.posted hSettled.writing
  obtain ⟨rest, hRest⟩ := h.down
  have hShort : rest.length < n := by
    have hBlocked := hSettled.reading op n (by rw [hWaits.reading]; exact List.mem_cons_self)
    rw [← hRest, List.length_append] at hBlocked
    omega
  rw [Endpoint.received_eq]
  exact hStage.received_all hSettled.completed.2 hLength hMade.wire.1 (hRest.trans hWire) hShort

/-- **The server receives from an honest client what `Client.cpp` sends.** -/
theorem Linked.received_up (h : Linked s x) (hMade : Made (s.server.endpoint x)) :
    ∀ m ∈ (s.server.endpoint x).received, Sends m := by
  cases hMade with
  | created hNew =>
    rw [hNew]
    exact fun m hMem => by cases hMem
  | admitted _ hServer _ =>
    obtain ⟨opened, hOperational⟩ := h.operational
    obtain ⟨k, -, hStage⟩ := hServer.orderly.stage
    have hLength : (Endpoint.Start.script (.client opened) (s.clients x).consumed).length = 8 :=
      length_encode64 _
    have hStream := h.up.trans hOperational.wire_prefix
    rw [← endpoint_consumed] at hStream
    intro m hMem
    rw [Endpoint.received_eq] at hMem
    exact h.sends m ((hStage.received_prefix hLength (fun m hMem => (h.sends m hMem).announces)
      hStream).subset hMem)

end Relay

end MinecraftNetwork
