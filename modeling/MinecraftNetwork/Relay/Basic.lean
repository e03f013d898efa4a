import MinecraftNetwork.DedicatedServer.Ownership
import MinecraftNetwork.Endpoint.Wire

/-!
# A server that relays messages between its clients

`Server` and `Client` are the two example applications: what they send, and what their
`OnMessage` does. Their other callbacks print a line and do nothing else, and
`AllowConnection` returns true.

`Relay.system` puts a server with these callbacks together with its clients, one at the
other end of each connection. An honest client runs the example application: it sends pings
and requests to message the other clients, and reads what its connection of the server has
written. The other end of a connection that is not honest writes whatever it likes.

A client passes the messages it decodes to `OnMessage` in their order; its polling thread is
left out.
-/

namespace MinecraftNetwork

open Runs LittleEndian

inductive MessageType
  | clientPingServer
  | clientMessageOtherClients
  deriving DecidableEq, Repr

def MessageType.id : MessageType → IDType
  | .clientPingServer => 0
  | .clientMessageOtherClients => 1

/-- A `uint64_t`, or a `std::chrono::system_clock::time_point`. -/
def Data.ofUInt64 (n : UInt64) : Data where
  bytes := encode64 n
  pos := by simp
  lt := by simp

/-- `sizeof(uint64_t)` -/
def ObjectSize.uint64 : ObjectSize := ⟨8, by decide⟩

namespace Server

/-- `OnMessage` of the server, for a connection and its identifier: the call it makes. -/
def onMessage (x : Nat) (id : UInt64) (m : Message) : Except Failure (Option Action) :=
  if m.header.id = MessageType.clientPingServer.id then .ok (some (.send x m))
  else if m.header.id = MessageType.clientMessageOtherClients.id then
    (m.push (.ofUInt64 id)).map fun m => some (.messageAll m (some x))
  else .ok none

end Server

namespace Client

/-- `PingServer`, at clock value `now` -/
def pingServer (now : UInt64) : Except Failure Message :=
  (Message.new (some MessageType.clientPingServer.id)).push (.ofUInt64 now)

def messageOtherClients : Message := Message.new (some MessageType.clientMessageOtherClients.id)

/-- What `OnMessage` of the client prints. -/
inductive Printed
  | ping (start : UInt64)
  /-- `Message received from client` -/
  | received (id : UInt64)
  deriving DecidableEq, Repr

/-- `OnMessage` of the client. -/
def onMessage (m : Message) : Except Failure (Option Printed) :=
  if m.header.id = MessageType.clientPingServer.id then
    (m.pop .uint64).map fun (_, start) => some (.ping (decode64 start))
  else if m.header.id = MessageType.clientMessageOtherClients.id then
    (m.pop .uint64).map fun (_, id) => some (.received (decode64 id))
  else .ok none

end Client

structure Relay where
  server : DedicatedServer := {}
  /-- `OnMessage` of the server has made its call. -/
  answered : Bool := false
  /-- The connection of the client at the other end of each connection of the server. -/
  clients : Nat → Endpoint := fun _ => Endpoint.start [] (.client true)

namespace Relay

inductive Event
  | server (event : DedicatedServer.Event)
  /-- An honest client calls `PingServer`, or `MessageOtherClients`. -/
  | pingServer (x : Nat) (now : UInt64)
  | messageOtherClients (x : Nat)
  /-- Bytes leave an honest client. -/
  | transfer (x : Nat) (op : WriteOp) (n : Nat)
  /-- A handler of an honest client runs. -/
  | complete (x : Nat) (c : Completion)
  deriving DecidableEq, Repr

/-- The call that `OnMessage` of the server is about to make. -/
def reply (s : Relay) : Except Failure (Option Action) :=
  match s.server.tasks .polling with
  | .callback (.onMessage x m) :: _ =>
    if s.answered then .ok none else Server.onMessage x (s.server.objects x).connection.id m
  | _ => .ok none

/-- The application calls what `OnMessage` calls, and allows every connection. -/
def Performs (s : Relay) : DedicatedServer.Event → Prop
  | .app t action => t = .polling ∧ s.reply = .ok (some action)
  | .leave .polling => s.reply = .ok none
  | .deny => False
  | .leave .context | .accept | .complete _ _ | .transfer _ _ _ | .allow _ | .run _ | .poll _ =>
    True

/-- A connection to an honest client reads what the client has written. -/
def Reads (honest : Nat → Bool) (s : Relay) : DedicatedServer.Event → Prop
  | .complete x c => honest x = true →
    (s.server.objects x).consumed ++ c.bytes <+: (s.clients x).wire
  | .app _ _ | .leave _ | .deny | .accept | .transfer _ _ _ | .allow _ | .run _ | .poll _ => True

/-- Whether `OnMessage` has made its call, after a step. -/
def answeredAfter (s : Relay) : DedicatedServer.Event → Bool
  | .app _ _ => true
  | .poll _ => false
  | .leave _ | .deny | .accept | .complete _ _ | .transfer _ _ _ | .allow _ | .run _ => s.answered

def setClient (s : Relay) (x : Nat) (e : Endpoint) : Relay :=
  { s with clients := Function.update s.clients x e }

instance (s : Relay) (event : DedicatedServer.Event) : Decidable (s.Performs event) :=
  match event with
  | .app _ _ => inferInstanceAs (Decidable (_ ∧ _))
  | .leave .polling => inferInstanceAs (Decidable (_ = _))
  | .deny => inferInstanceAs (Decidable False)
  | .leave .context | .accept | .complete _ _ | .transfer _ _ _ | .allow _ | .run _ | .poll _ =>
    inferInstanceAs (Decidable True)

instance (honest : Nat → Bool) (s : Relay) (event : DedicatedServer.Event) :
    Decidable (s.Reads honest event) :=
  match event with
  | .complete _ _ => inferInstanceAs (Decidable (_ → _))
  | .app _ _ | .leave _ | .deny | .accept | .transfer _ _ _ | .allow _ | .run _ | .poll _ =>
    inferInstanceAs (Decidable True)

def step (honest : Nat → Bool) (s : Relay) : Event → Option Relay
  | .server event =>
    if s.Performs event ∧ s.Reads honest event then
      (s.server.step event).map fun server =>
        { s with server := server, answered := s.answeredAfter event }
    else none
  | .pingServer x now =>
    match honest x, Client.pingServer now with
    | true, .ok m => some (s.setClient x ((s.clients x).send m))
    | _, _ => none
  | .messageOtherClients x =>
    if honest x = true then some (s.setClient x ((s.clients x).send Client.messageOtherClients))
    else none
  | .transfer x op n =>
    if honest x = true then ((s.clients x).transfer op n).map (s.setClient x) else none
  | .complete x c =>
    if honest x = true ∧ (s.clients x).consumed ++ c.bytes <+: (s.server.objects x).wire then
      ((s.clients x).step (.complete c)).map (s.setClient x)
    else none

/-- The branches of `step`. -/
inductive Step (honest : Nat → Bool) (s : Relay) : Event → Relay → Prop
  | server {event : DedicatedServer.Event} {server : DedicatedServer}
      (hPerforms : s.Performs event) (hReads : s.Reads honest event)
      (hServer : s.server.step event = some server) :
    Step honest s (.server event) { s with server := server, answered := s.answeredAfter event }
  | pingServer {x : Nat} {now : UInt64} {m : Message} (hHonest : honest x = true)
      (hPing : Client.pingServer now = .ok m) :
    Step honest s (.pingServer x now) (s.setClient x ((s.clients x).send m))
  | messageOtherClients {x : Nat} (hHonest : honest x = true) :
    Step honest s (.messageOtherClients x)
      (s.setClient x ((s.clients x).send Client.messageOtherClients))
  | transfer {x : Nat} {op : WriteOp} {n : Nat} {e : Endpoint} (hHonest : honest x = true)
      (hTransfer : (s.clients x).transfer op n = some e) :
    Step honest s (.transfer x op n) (s.setClient x e)
  | complete {x : Nat} {c : Completion} {e : Endpoint} (hHonest : honest x = true)
      (hThere : (s.clients x).consumed ++ c.bytes <+: (s.server.objects x).wire)
      (hMove : (s.clients x).step (.complete c) = some e) :
    Step honest s (.complete x c) (s.setClient x e)

theorem step_cases {honest : Nat → Bool} {s s' : Relay} {event : Event}
    (h : s.step honest event = some s') : Step honest s event s' := by
  cases event with
  | server event =>
    simp only [step] at h
    split at h
    · rename_i hCan
      simp only [Option.map_eq_some_iff] at h
      obtain ⟨server, hServer, rfl⟩ := h
      exact .server hCan.1 hCan.2 hServer
    · cases h
  | pingServer x now =>
    simp only [step] at h
    split at h <;> cases h
    exact .pingServer ‹_› ‹_›
  | messageOtherClients x =>
    simp only [step] at h
    split at h <;> cases h
    exact .messageOtherClients ‹_›
  | transfer x op n =>
    simp only [step] at h
    split at h
    · simp only [Option.map_eq_some_iff] at h
      obtain ⟨e, hTransfer, rfl⟩ := h
      exact .transfer ‹_› hTransfer
    · cases h
  | complete x c =>
    simp only [step] at h
    split at h
    · rename_i hCan
      simp only [Option.map_eq_some_iff] at h
      obtain ⟨e, hMove, rfl⟩ := h
      exact .complete hCan.1 hCan.2 hMove
    · cases h

def system (honest : Nat → Bool) : System Relay Event where
  init s := ∃ opened : Nat → Bool, s = { clients := fun x => Endpoint.start [] (.client (opened x)) }
  step := step honest

/-! ## What the clients are to decode -/

/-- A message with the identifier of its sender. -/
def relayed (id : UInt64) (m : Message) : Message where
  header := { m.header with size := m.header.size + 8 }
  body := m.body ++ encode64 id

/-- What a client is to decode for a message that the server has processed: its own ping, or
the message of another client. -/
def forClient (s : Relay) (x : Nat) (p : Nat × Message) : Option Message :=
  if p.2.header.id = MessageType.clientPingServer.id then if p.1 = x then some p.2 else none
  else if p.2.header.id = MessageType.clientMessageOtherClients.id then
    if p.1 = x then none else some (relayed (s.server.objects p.1).connection.id p.2)
  else none

/-- The messages passed to `OnMessage` of the server, with their connections, in order. -/
def processed (s : Relay) : List (Nat × Message) := s.server.incoming.processed

def expected (s : Relay) (x : Nat) : List Message := s.processed.filterMap (s.forClient x)

/-- `OnMessage` of the server has returned, and nothing is on the way to the client. -/
structure Settled (s : Relay) (x : Nat) : Prop where
  idle : ∀ t, s.server.tasks t = []
  completed : (s.server.objects x).completed = true ∧ (s.clients x).completed = true
  sound : (s.server.objects x).writeFailed = false ∧ (s.clients x).ended = false
  /-- No lambda is posted, and no write is outstanding. -/
  posted : (s.server.objects x).posted = []
  writing : ∀ op, (s.server.objects x).writing op = []
  /-- The outstanding read waits for more bytes than are on the stream. -/
  reading : ∀ op n, (op, n) ∈ (s.clients x).reading →
    (s.server.objects x).wire.length < (s.clients x).consumed.length + n

/-- What an honest client may rely on. -/
structure Faithful (s : Relay) (x : Nat) : Prop where
  /-- Nothing but messages of other clients and its own pings, each at most once, in the order
  in which the server has processed them. -/
  ordered : (s.clients x).received.Sublist (s.expected x)
  /-- None is skipped while the client is registered. -/
  inOrder : some x ∈ s.server.clients → (s.clients x).received <+: s.expected x
  all : some x ∈ s.server.clients → Settled s x → (s.clients x).received = s.expected x
  /-- `operator>>` finds the value it reads. -/
  safe : ∀ m ∈ (s.clients x).received, ∃ printed, Client.onMessage m = .ok printed
  /-- The identifier that is printed is that of the sender. -/
  real : ∀ m ∈ (s.clients x).received,
    m.header.id = MessageType.clientMessageOtherClients.id → ∃ p ∈ s.processed, p.1 ≠ x ∧
      Client.onMessage m = .ok (some (.received (s.server.objects p.1).connection.id))

/-! ## The runs -/

/-- A thread of the server is about to remove a connection from `m_Clients`. -/
def erases (s : Relay) : DedicatedServer.Event → Bool
  | .run t =>
    match s.server.tasks t with
    | .erase _ :: _ => true
    | _ => false
  | .app _ _ | .leave _ | .deny | .accept | .complete _ _ | .transfer _ _ _ | .allow _ | .poll _ =>
    false

/-- `MessageAll` is iterating. -/
def iterating (s : Relay) : Bool :=
  match s.server.tasks .polling with
  | .messageAll _ _ position stop _ :: _ => position != stop
  | _ => false

/-- The message that the running `OnMessage` of the server was called with. -/
def running (s : Relay) : Option Message :=
  match s.server.tasks .polling with
  | .callback (.onMessage _ m) :: _ => some m
  | _ => none

/-- A message that `OnMessage` of the server is to relay leaves room for the identifier. -/
def Fits (s : Relay) : Prop := ∀ m ∈ s.running, m.body.length + 8 < 2 ^ 32

/-- All clients are validated before the first message is relayed. -/
def Validated (s : Relay) : Event → Prop
  | .server (.app _ (.messageAll _ _)) =>
    ∀ x ∈ s.server.clients.filterMap id, (s.server.objects x).completed = true
  | .server (.allow _) =>
    ∀ p ∈ s.processed, p.2.header.id ≠ MessageType.clientMessageOtherClients.id
  | .server _ | .pingServer _ _ | .messageOtherClients _ | .transfer _ _ _ | .complete _ _ => True

/-- A message that is relayed leaves room for the identifier, no connection is removed while
`MessageAll` iterates, and an honest client sends after its handshake. -/
def Cautious (s : Relay) : Event → Prop
  | .server (.app _ (.messageAll _ _)) => s.Fits
  | .server event => s.erases event = true → s.iterating = false
  | .complete x c => c = .lambda → (s.clients x).completed = true
  | .pingServer _ _ | .messageOtherClients _ | .transfer _ _ _ => True

/-- The server and its peers keep what `DedicatedServer.Spares` asks of them. -/
def Spares (s : Relay) : Event → Prop
  | .server event => s.server.Spares event
  | .pingServer _ _ | .messageOtherClients _ | .transfer _ _ _ | .complete _ _ => True

structure Careful (s : Relay) (event : Event) : Prop where
  validated : s.Validated event
  cautious : s.Cautious event
  spares : s.Spares event

instance (s : Relay) : Decidable s.Fits := inferInstanceAs (Decidable (∀ m ∈ s.running, _))

instance (s : Relay) (event : Event) : Decidable (s.Validated event) :=
  match event with
  | .server (.app _ (.messageAll _ _)) => inferInstanceAs (Decidable (∀ x ∈ _, _))
  | .server (.allow _) => inferInstanceAs (Decidable (∀ p ∈ s.processed, _))
  | .server (.app _ (.send _ _)) | .server (.app _ (.disconnect _))
  | .server (.app _ (.messageOne _ _)) | .server (.app _ (.keep _)) | .server (.app _ (.drop _))
  | .server .accept | .server (.complete _ _) | .server (.transfer _ _ _) | .server (.leave _)
  | .server .deny | .server (.run _) | .server (.poll _) | .pingServer _ _
  | .messageOtherClients _ | .transfer _ _ _ | .complete _ _ => inferInstanceAs (Decidable True)

instance (s : Relay) (event : Event) : Decidable (s.Cautious event) :=
  match event with
  | .server (.app _ (.messageAll _ _)) => inferInstanceAs (Decidable s.Fits)
  | .server (.app _ (.send _ _)) | .server (.app _ (.disconnect _))
  | .server (.app _ (.messageOne _ _)) | .server (.app _ (.keep _)) | .server (.app _ (.drop _))
  | .server .accept | .server (.complete _ _) | .server (.transfer _ _ _) | .server (.leave _)
  | .server (.allow _) | .server .deny | .server (.run _) | .server (.poll _) | .complete _ _ =>
    inferInstanceAs (Decidable (_ → _))
  | .pingServer _ _ | .messageOtherClients _ | .transfer _ _ _ => inferInstanceAs (Decidable True)

instance (s : Relay) (event : Event) : Decidable (s.Spares event) :=
  match event with
  | .server event => inferInstanceAs (Decidable (s.server.Spares event))
  | .pingServer _ _ | .messageOtherClients _ | .transfer _ _ _ | .complete _ _ =>
    inferInstanceAs (Decidable True)

instance (s : Relay) (event : Event) : Decidable (s.Careful event) :=
  decidable_of_iff (s.Validated event ∧ s.Cautious event ∧ s.Spares event)
    ⟨fun ⟨hValidated, hCautious, hSpares⟩ => ⟨hValidated, hCautious, hSpares⟩,
      fun ⟨hValidated, hCautious, hSpares⟩ => ⟨hValidated, hCautious, hSpares⟩⟩

end Relay

end MinecraftNetwork
