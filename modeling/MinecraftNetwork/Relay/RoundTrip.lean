import MinecraftNetwork.Relay.Faithful
import MinecraftNetwork.DedicatedServer.Clients
import MinecraftNetwork.DedicatedServer.Courtesy
import MinecraftNetwork.Star.Channels

/-!
# From key to console

What a client prints is a matter of what the clients have called. A ping comes back to the
client that has sent it, so the starting times a client reads are those of its own calls of
`PingServer`, in their order, none twice and none skipped (`returned_of_reach`). A message to
the other clients is printed under the identifier of the client that has sent it, at most once
for each call of `MessageOtherClients` (`heardOnce_of_reach`). When nothing is on the way it is
exactly once.

Both follow from three facts: the server hands over what a client has sent, in order
(`Sound.processed_prefix`), a client decodes what the server is to answer, and `OnMessage`
of the client takes no message for an answer that is none.
-/

namespace MinecraftNetwork

open Runs LittleEndian

namespace Client

/-- What `OnMessage` prints of a message, if it finds the value it reads. -/
def printed? (m : Message) : Option Printed :=
  match onMessage m with
  | .ok printed => printed
  | .error _ => none

/-- The starting time in a line about a ping. -/
def Printed.start? : Printed → Option UInt64
  | .ping start => some start
  | .received _ => none

/-- The starting time that a message gives back. -/
def started? (m : Message) : Option UInt64 := (printed? m).bind Printed.start?

theorem printed_relayed {m : Message} (id : UInt64)
    (hId : m.header.id = MessageType.clientMessageOtherClients.id) :
    printed? (Relay.relayed id m) = some (.received id) := by
  rw [printed?, Relay.onMessage_relayed id hId]

/-- A line about a ping is printed of a ping only. -/
theorem printed_other {m : Message} (hId : m.header.id ≠ MessageType.clientPingServer.id)
    (start : UInt64) : printed? m ≠ some (.ping start) := by
  intro hPrinted
  rw [printed?, onMessage, if_neg hId] at hPrinted
  split at hPrinted
  · rename_i hOk
    subst hPrinted
    split at hOk
    · cases hPop : m.pop .uint64 with
      | ok p =>
        rw [hPop] at hOk
        cases hOk
      | error failure =>
        rw [hPop] at hOk
        cases hOk
    · cases hOk
  · cases hPrinted

/-- A line about another client is not printed of a ping. -/
theorem printed_ping {m : Message} (hId : m.header.id = MessageType.clientPingServer.id)
    (id : UInt64) : printed? m ≠ some (.received id) := by
  intro hPrinted
  rw [printed?, onMessage, if_pos hId] at hPrinted
  split at hPrinted
  · rename_i hOk
    subst hPrinted
    cases hPop : m.pop .uint64 with
    | ok p =>
      rw [hPop] at hOk
      cases hOk
    | error failure =>
      rw [hPop] at hOk
      cases hOk
  · cases hPrinted

theorem started_none {m : Message} (hId : m.header.id ≠ MessageType.clientPingServer.id) :
    started? m = none := by
  rw [started?, Option.bind_eq_none_iff]
  intro printed hPrinted
  cases printed with
  | ping start => exact absurd hPrinted (printed_other hId start)
  | received id => rfl

end Client

namespace DedicatedServer

variable {s : DedicatedServer}

/-- As long as `m_NextClientID` does not wrap around, no two admitted connections have the
same identifier. -/
theorem Numbered.unshared (h : Numbered s) (hAccepts : s.allocated < 2 ^ 64 - 1) {x y : Nat}
    (hx : x ∈ allowed s.log) (hSame : (s.objects x).connection.id = (s.objects y).connection.id) :
    x = y := by
  have hIds := (h.toNat hAccepts).2
  obtain ⟨k, hk⟩ := List.mem_iff_getElem?.mp hx
  have hId := hIds k x hk
  have hy : y ∈ allowed s.log := by
    by_contra hNot
    rw [hSame, h.unnamed y hNot] at hId
    cases hId
  obtain ⟨j, hj⟩ := List.mem_iff_getElem?.mp hy
  have hOther := hIds j y hj
  rw [← hSame, hId] at hOther
  obtain rfl : k = j := by omega
  rw [hk] at hj
  exact Option.some.inj hj

theorem polite_of_reach {ok : DedicatedServer → Event → Prop} (h : Reach system ok s) :
    Polite s := by
  have hBoth : Framed s ∧ Polite s := by
    refine h.invariant (I := fun s => Framed s ∧ Polite s) ?_ ?_
    · rintro _ rfl
      exact ⟨framed_init, polite_init⟩
    · rintro s event s' ⟨hFramed, hPolite⟩ _ hStep
      exact ⟨hFramed.step hStep, hPolite.step hFramed hStep⟩
  exact hBoth.2

/-- A connection with an owner has been admitted. -/
theorem Polite.allowed (h : Polite s) {x : Nat}
    (hOwner : (s.objects x).connection.hasConnectable = true) : x ∈ allowed s.log := by
  obtain ⟨n, hn, hMoment⟩ := List.mem_filterMap.mp (h.greeted x hOwner)
  refine List.mem_filterMap.mpr ⟨n, hn, ?_⟩
  cases n with
  | enqueued => cases hMoment
  | call c =>
    cases c with
    | onConnect y =>
      by_cases hSame : y = x
      · rw [hSame]
        rfl
      · simp [Notice.moment?, hSame] at hMoment
    | onValidate y | onInvalidate y =>
      by_cases hSame : y = x <;> simp [Notice.moment?, hSame] at hMoment
    | allowConnection | onDisconnect | onMessage => cases hMoment

end DedicatedServer

namespace Relay

variable {honest : Nat → Bool} {s : Relay} {x y : Nat}

/-- The starting times in a list of messages. -/
def starts (ms : List Message) : List UInt64 := ms.filterMap Client.started?

/-- How often the identifier of `y` is printed by `x`. -/
def heard (s : Relay) (x y : Nat) : Nat :=
  ((s.clients x).received.filterMap Client.printed?).count
    (.received (s.server.objects y).connection.id)

/-- `OnMessage` of the server has been called with all that the client has sent. -/
structure Attended (s : Relay) (x : Nat) : Prop where
  idle : s.server.tasks .context = []
  queue : s.server.incoming.incomingMessages = []
  settled : Star.Settled (s.clients x) (s.server.objects x)

/-- The answers to the pings of a client. -/
structure Returned (s : Relay) (x : Nat) : Prop where
  ordered : (starts (s.clients x).received).Sublist (starts (s.clients x).sent)
  /-- None is skipped while the client is registered. -/
  inOrder : some x ∈ s.server.clients →
    starts (s.clients x).received <+: starts (s.clients x).sent
  all : some x ∈ s.server.clients → Settled s x → Attended s x →
    starts (s.clients x).received = starts (s.clients x).sent

/-- What `x` hears of `y`. -/
structure Heard (s : Relay) (x y : Nat) : Prop where
  most : s.heard x y ≤ (s.clients y).sent.count Client.messageOtherClients
  all : some x ∈ s.server.clients → Settled s x → Attended s y →
    s.heard x y = (s.clients y).sent.count Client.messageOtherClients

/-! ## From a client to the server -/

/-- The server of a relay runs as a server. -/
theorem server_of_reach {ok : Relay → Event → Prop} (h : Reach (system honest) ok s) :
    Reach DedicatedServer.system Free s.server := by
  induction h with
  | init hInit =>
    obtain ⟨opened, rfl⟩ := hInit
    exact .init rfl
  | step _ _ hStep ih =>
    cases step_cases hStep with
    | server _ _ hServer => exact ih.step trivial hServer
    | pingServer | messageOtherClients | transfer | complete => exact ih

/-- What the server has received from a client are the first messages of the client. -/
theorem Linked.received_prefix (h : Linked s x) (hMade : Made (s.server.endpoint x)) :
    (s.server.endpoint x).received <+: (s.clients x).sent := by
  obtain ⟨opened, hClient⟩ := h.operational
  cases hMade with
  | created hNew =>
    rw [hNew]
    exact List.nil_prefix
  | admitted _ hServer _ =>
    obtain ⟨k, -, hStage⟩ := hServer.orderly.stage
    obtain ⟨p, hLength, hWire, -⟩ := hClient.client_wire
    have hStream := h.up.trans hWire
    rw [← endpoint_consumed] at hStream
    rw [Endpoint.received_eq]
    exact hStage.received_prefix hLength (fun m hMem => (h.sends m hMem).announces) hStream

/-- When nothing is on the way to the server, they are all of them. -/
theorem Linked.received_attended (h : Linked s x) (hMade : Made (s.server.endpoint x))
    (hAttended : Attended s x) : (s.server.endpoint x).received = (s.clients x).sent := by
  obtain ⟨hIdle, -, hSettled⟩ := hAttended
  have hWhole : s.server.endpoint x = s.server.objects x := by
    rw [DedicatedServer.endpoint, DedicatedServer.rest_idle hIdle]
    rfl
  rw [hWhole] at hMade ⊢
  obtain ⟨opened, hClient⟩ := h.operational
  cases hMade with
  | created hNew =>
    have hCompleted := hSettled.completed.2
    rw [hNew] at hCompleted
    cases hCompleted
  | admitted _ hServer _ =>
    obtain ⟨k, hWaits, hStage⟩ := hServer.orderly.stage
    obtain ⟨op, n, rfl⟩ := (hStage.completed hSettled.completed.2).reading hSettled.sound.2
    obtain ⟨p, hLength, -, hAll⟩ := hClient.client_wire
    have hWire := hAll hSettled.completed.1 hSettled.sound.1 hSettled.posted hSettled.writing
    obtain ⟨rest, hRest⟩ := h.up
    have hShort := hSettled.short hWaits hRest
    rw [Endpoint.received_eq]
    exact hStage.received_all hSettled.completed.2 hLength
      (fun m hMem => (h.sends m hMem).announces) (hRest.trans hWire) hShort

theorem messagesOf_processed (hRecorded : s.server.Recorded) (x : Nat) :
    DedicatedServer.messagesOf x s.processed = DedicatedServer.handed s.server.log x := by
  rw [processed, hRecorded.processed, DedicatedServer.handed]

/-- **`OnMessage` of the server is called with what a client has sent, in order.** -/
theorem Sound.processed_prefix (h : Sound honest s) (hRecorded : s.server.Recorded)
    (hHonest : honest x = true) :
    DedicatedServer.messagesOf x s.processed <+: (s.clients x).sent := by
  rw [messagesOf_processed hRecorded]
  have hLinked := h.linked x hHonest
  exact (DedicatedServer.handed_prefix hRecorded x).trans (hLinked.received_prefix (h.regular.made x))

theorem Sound.processed_attended (h : Sound honest s) (hRecorded : s.server.Recorded)
    (hHonest : honest x = true) (hAttended : Attended s x) :
    DedicatedServer.messagesOf x s.processed = (s.clients x).sent := by
  rw [messagesOf_processed hRecorded,
    DedicatedServer.handed_all hRecorded hAttended.idle hAttended.queue]
  exact (h.linked x hHonest).received_attended (h.regular.made x) hAttended

/-! ## From the server to a client -/

/-- A client decodes what the server is to answer. -/
theorem Sound.received_expected (h : Sound honest s) (hHonest : honest x = true) :
    (s.clients x).received.Sublist (s.expected x) ∧
      (some x ∈ s.server.clients → (s.clients x).received <+: s.expected x) ∧
      (some x ∈ s.server.clients → Settled s x → (s.clients x).received = s.expected x) := by
  have hLinked := h.linked x hHonest
  have hGiven : (s.clients x).received <+: s.given x :=
    (hLinked.received_down (h.regular.made x)).trans (List.prefix_append _ _)
  refine ⟨hGiven.sublist.trans (h.conveyed x).ordered, fun hMem => ?_, fun hMem hSettled => ?_⟩
  · rw [← (h.conveyed x).all hMem]
    exact hGiven
  · rw [← (h.conveyed x).all hMem, given, pending_nil (hSettled.idle .polling) (.inl rfl),
      List.append_nil]
    exact hLinked.received_settled h.regular hSettled

/-- What is decoded as a ping is a ping of the client itself. -/
theorem starts_expected (s : Relay) (x : Nat) :
    starts (s.expected x) = starts (DedicatedServer.messagesOf x s.processed) := by
  rw [starts, starts, expected, DedicatedServer.messagesOf, List.filterMap_filterMap,
    List.filterMap_filterMap]
  congr 1
  funext p
  by_cases hPing : p.2.header.id = MessageType.clientPingServer.id
  · rw [forClient_ping hPing]
  · have hNone : ((if p.1 = x then some p.2 else none).bind Client.started?) = none := by
      split
      · exact Client.started_none hPing
      · rfl
    rw [hNone, Option.bind_eq_none_iff]
    intro m hFor
    rw [forClient, if_neg hPing] at hFor
    split at hFor
    · rename_i hOther
      split at hFor
      · cases hFor
      · cases hFor
        rw [Client.started?, Client.printed_relayed _ hOther]
        rfl
    · cases hFor

/-- **The pings of a client come back to it, in order.** -/
theorem Sound.returned (h : Sound honest s) (hRecorded : s.server.Recorded)
    (hHonest : honest x = true) : Returned s x := by
  obtain ⟨hOrdered, hInOrder, hAll⟩ := h.received_expected hHonest
  have hUp := (h.processed_prefix hRecorded hHonest).filterMap Client.started?
  have hDown := starts_expected s x
  rw [starts, starts] at hDown
  refine ⟨?_, fun hMem => ?_, fun hMem hSettled hAttended => ?_⟩
  · have hReceived := hOrdered.filterMap Client.started?
    rw [hDown] at hReceived
    exact hReceived.trans hUp.sublist
  · have hReceived := (hInOrder hMem).filterMap Client.started?
    rw [hDown] at hReceived
    exact hReceived.trans hUp
  · rw [hAll hMem hSettled, starts_expected, h.processed_attended hRecorded hHonest hAttended]

/-- A message that is to be relayed. -/
def isShout (m : Message) : Bool := m.header.id == MessageType.clientMessageOtherClients.id

theorem Sends.shout {m : Message} (h : Sends m) :
    isShout m = (m == Client.messageOtherClients) := by
  rcases h with rfl | ⟨now, hPing⟩
  · simp [isShout, Client.messageOtherClients, Message.new]
  · rw [pingServer_eq] at hPing
    cases hPing
    have hNot : encode64 now ≠ [] := by
      intro hNil
      have hLength := length_encode64 now
      rw [hNil] at hLength
      cases hLength
    symm
    simp [isShout, Client.messageOtherClients, Message.new, MessageType.id]

/-- **What `x` is to decode under the identifier of `y` is what `y` has sent.** -/
theorem heard_expected (hOther : y ≠ x) (hIds : ∀ p ∈ s.processed,
      (s.server.objects p.1).connection.id = (s.server.objects y).connection.id → p.1 = y) :
    ((s.expected x).filterMap Client.printed?).count
        (.received (s.server.objects y).connection.id) =
      (DedicatedServer.messagesOf y s.processed).countP isShout := by
  rw [expected, DedicatedServer.messagesOf, List.filterMap_filterMap, List.count_filterMap,
    List.countP_filterMap]
  apply List.countP_congr
  intro p hp
  by_cases hId : p.2.header.id = MessageType.clientMessageOtherClients.id
  · rw [forClient_other hId]
    by_cases hHere : p.1 = y
    · simp [hHere, hOther, Client.printed_relayed _ hId, isShout, hId]
    · by_cases hOwn : p.1 = x
      · simp [hOwn, Ne.symm hOther]
      · have hNot : (s.server.objects p.1).connection.id ≠ (s.server.objects y).connection.id :=
          fun hSame => hHere (hIds p hp hSame)
        simp [hHere, hOwn, Client.printed_relayed _ hId, hNot]
  · have hRight : ¬ (((if p.1 = y then some p.2 else none).map isShout).getD false) = true := by
      split <;> simp [isShout, hId]
    refine iff_of_false ?_ hRight
    rw [forClient]
    split
    · rename_i hPing
      split
      · cases hPrinted : Client.printed? p.2 with
        | none => simp [hPrinted]
        | some printed =>
          cases printed with
          | ping => simp [hPrinted]
          | received id => exact absurd hPrinted (Client.printed_ping hPing id)
      · simp
    · simp

theorem count_shouts {ms : List Message} (h : ∀ m ∈ ms, Sends m) :
    ms.countP isShout = ms.count Client.messageOtherClients :=
  List.countP_congr fun m hMem => by rw [(h m hMem).shout]

/-- **A message to the other clients is heard once.** -/
theorem Sound.heard (h : Sound honest s) (hRecorded : s.server.Recorded)
    (hIds : ∀ p ∈ s.processed,
      (s.server.objects p.1).connection.id = (s.server.objects y).connection.id → p.1 = y)
    (hx : honest x = true) (hy : honest y = true) (hOther : y ≠ x) : Heard s x y := by
  obtain ⟨hOrdered, -, hAll⟩ := h.received_expected hx
  have hExpected := heard_expected hOther hIds
  have hSent := count_shouts (h.linked y hy).sends
  refine ⟨?_, fun hMem hSettled hAttended => ?_⟩
  · calc Relay.heard s x y
        ≤ ((s.expected x).filterMap Client.printed?).count
          (.received (s.server.objects y).connection.id) := (hOrdered.filterMap _).count_le _
      _ = (DedicatedServer.messagesOf y s.processed).countP isShout := hExpected
      _ ≤ (s.clients y).sent.countP isShout :=
          (h.processed_prefix hRecorded hy).sublist.countP_le
      _ = (s.clients y).sent.count Client.messageOtherClients := hSent
  · rw [Relay.heard, hAll hMem hSettled, hExpected, h.processed_attended hRecorded hy hAttended,
      hSent]

/-! ## Runs -/

/-- The invariant of a run, with what the log of the server records. -/
theorem sound_of_reach (h : Reach (system honest) Careful s) :
    Sound honest s ∧ s.server.Recorded :=
  ⟨h.invariant (fun _ => sound_init) fun _ _ _ hSound hOk hStep => hSound.step hOk hStep,
    DedicatedServer.recorded_of_reach (server_of_reach h)⟩

/-- **A ping comes back**: in a careful run the starting times that an honest client decodes
are those of its own calls of `PingServer`, in order, and all of them when nothing is on the
way. -/
theorem returned_of_reach (h : Reach (system honest) Careful s) (hHonest : honest x = true) :
    Returned s x := by
  obtain ⟨hSound, hRecorded⟩ := sound_of_reach h
  exact hSound.returned hRecorded hHonest

/-- Whoever has sent a message is the only one with its identifier. -/
theorem ids_of_reach (h : Reach (system honest) Careful s)
    (hAccepts : s.server.allocated < 2 ^ 64 - 1) {p : Nat × Message} (hMem : p ∈ s.processed)
    (hSame : (s.server.objects p.1).connection.id = (s.server.objects y).connection.id) :
    p.1 = y := by
  have hServer := server_of_reach h
  obtain ⟨hSound, -⟩ := sound_of_reach h
  have hOwner := (hSound.regular.enqueued (hSound.regular.processed hMem)).1
  have hNumbered := (DedicatedServer.numbered_of_reach hServer).2.2
  have hPolite := (DedicatedServer.polite_of_reach hServer)
  exact hNumbered.unshared hAccepts (hPolite.allowed hOwner) hSame

/-- **A message to the other clients is heard once**: in a careful run an honest client prints
the identifier of another one at most as often as that one has called `MessageOtherClients`,
and as often when nothing is on the way. -/
theorem heardOnce_of_reach (h : Reach (system honest) Careful s)
    (hAccepts : s.server.allocated < 2 ^ 64 - 1) (hx : honest x = true) (hy : honest y = true)
    (hOther : y ≠ x) : Heard s x y := by
  obtain ⟨hSound, hRecorded⟩ := sound_of_reach h
  exact hSound.heard hRecorded (fun p hMem hSame => ids_of_reach h hAccepts hMem hSame) hx hy hOther

/-- A ping. -/
def ping : Message where
  header := { id := MessageType.clientPingServer.id, size := 8 }
  body := encode64 9

/-- Two honest clients are admitted and shake hands, one calls `PingServer` and the other
`MessageOtherClients`, and the first gets both answers. -/
def conversation : List Event :=
  let answer := Endpoint.respond 0
  let reply := encode64 (Endpoint.respond answer)
  let accept : List DedicatedServer.Event := [.accept, .allow 0, .leave .context]
  let challenge x : List DedicatedServer.Event :=
    [.transfer x .validation1 8, .complete x (.written .validation1)]
  let respond x : List Event :=
    [.complete x .connected, .complete x (.read .validation1 (encode64 0)),
      .transfer x .validation2 8, .complete x (.written .validation2)]
  let verdict x : List DedicatedServer.Event :=
    [.complete x (.read .validation2 (encode64 answer)), .leave .context, .run .context,
      .transfer x .validation3 8, .complete x (.written .validation3),
      .transfer x .validation4 8, .complete x (.written .validation4)]
  let named x id : List Event :=
    [.complete x (.read .validation3 reply), .complete x (.read .validation4 (encode64 id))]
  let greet x id := [(challenge x).map .server, respond x, (verdict x).map .server, named x id]
  let calls : List Event :=
    [.pingServer 1 9, .complete 1 .lambda, .transfer 1 .header 8, .complete 1 (.written .header),
      .transfer 1 .body 8, .complete 1 (.written .body),
      .messageOtherClients 0, .complete 0 .lambda, .transfer 0 .header 8,
      .complete 0 (.written .header)]
  let relay : List DedicatedServer.Event :=
    [.complete 1 (.read .header ping.header.bytes), .complete 1 (.read .body ping.body),
      .complete 0 (.read .header Client.messageOtherClients.header.bytes),
      .poll (.call 5 false), .poll .test, .poll .pop, .app .polling (.send 1 ping),
      .leave .polling, .run .polling, .poll .test, .poll .pop,
      .app .polling (.messageAll (relayed 1 Client.messageOtherClients) (some 0)),
      .run .polling, .run .polling, .run .polling, .leave .polling, .run .polling,
      .complete 1 .lambda, .complete 1 .lambda]
  let write : List DedicatedServer.Event :=
    [.transfer 1 .header 8, .complete 1 (.written .header), .transfer 1 .body 8,
      .complete 1 (.written .body)]
  let read (m : Message) : List Event :=
    [.complete 1 (.read .header m.header.bytes), .complete 1 (.read .body m.body)]
  [(accept ++ accept).map .server, (greet 0 1).flatten, (greet 1 2).flatten, calls,
    (relay ++ write ++ write).map .server, read ping,
    read (relayed 1 Client.messageOtherClients)].flatten

theorem exists_conversation : ∃ s, Reach (system fun _ => true) Careful s ∧
    starts (s.clients 1).received = [9] ∧ s.heard 1 0 = 1 ∧ s.server.allocated = 2 := by
  obtain ⟨s, hReach, hEnd⟩ := Reach.exists_of_checked (M := system fun _ => true) Careful
    ⟨fun _ => true, rfl⟩ conversation
    (fun s => decide (starts (s.clients 1).received = [9] ∧ s.heard 1 0 = 1 ∧
      s.server.allocated = 2)) (by decide)
  exact ⟨s, hReach, of_decide_eq_true hEnd⟩

theorem returned_conversation : ∃ s, Reach (system fun _ => true) Careful s ∧
    starts (s.clients 1).received = [9] ∧ Returned s 1 := by
  obtain ⟨s, hReach, hStarts, -, -⟩ := exists_conversation
  exact ⟨s, hReach, hStarts, returned_of_reach hReach rfl⟩

theorem heardOnce_conversation : ∃ s, Reach (system fun _ => true) Careful s ∧
    s.heard 1 0 = 1 ∧ Heard s 1 0 := by
  obtain ⟨s, hReach, -, hHeard, hAccepts⟩ := exists_conversation
  exact ⟨s, hReach, hHeard, heardOnce_of_reach hReach (by rw [hAccepts]; decide) rfl rfl (by decide)⟩

end Relay

end MinecraftNetwork
