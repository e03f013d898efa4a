import MinecraftNetwork.DedicatedServer.Demultiplexing
import MinecraftNetwork.Endpoint.Wire

/-!
# A server and the peers of its connections

A dedicated server with any application, and at the other end of each of its connections a
peer. An honest peer is a connection of a client: it reads what the connection of the server
has written, in chunks of any size, and its application sends and disconnects as it likes.
The other end of a connection that is not honest writes whatever it likes.

`Star.LateSend` is the promise the applications make to each other: both ends of a connection
to an honest peer send after the handshake, and messages whose header announces the body. It
says nothing about the connections to the other peers.
-/

namespace MinecraftNetwork

open Runs

structure Star where
  server : DedicatedServer := {}
  /-- The connection of the client at the other end of each connection of the server. -/
  clients : Nat → Endpoint := fun _ => Endpoint.start [] (.client true)

namespace Star

inductive Event
  | server (event : DedicatedServer.Event)
  /-- What happens to the connection of an honest peer. -/
  | client (x : Nat) (event : Endpoint.Event)
  deriving DecidableEq, Repr

/-- The bytes a connection of the server has read, after an event. -/
def reads (s : Star) (x : Nat) : DedicatedServer.Event → List UInt8
  | .complete y c =>
    if y = x then (s.server.objects x).consumed ++ c.bytes else (s.server.objects x).consumed
  | .app _ _ | .leave _ | .deny | .accept | .transfer _ _ _ | .allow _ | .run _ | .poll _ =>
    (s.server.objects x).consumed

/-- The connection whose handler runs. -/
def handled : DedicatedServer.Event → Option Nat
  | .complete x _ => some x
  | .app _ _ | .leave _ | .deny | .accept | .transfer _ _ _ | .allow _ | .run _ | .poll _ => none

def setClient (s : Star) (x : Nat) (e : Endpoint) : Star :=
  { s with clients := Function.update s.clients x e }

/-- One step. A read completes with bytes that the other end has written. -/
def step (honest : Nat → Bool) (s : Star) : Event → Option Star
  | .server event =>
    if ∀ x ∈ handled event, honest x = true → s.reads x event <+: (s.clients x).wire then
      (s.server.step event).map fun server => { s with server := server }
    else none
  | .client x (.complete c) =>
    if honest x = true ∧ (s.clients x).consumed ++ c.bytes <+: (s.server.objects x).wire then
      ((s.clients x).step (.complete c)).map (s.setClient x)
    else none
  | .client x event =>
    if honest x = true then ((s.clients x).step event).map (s.setClient x) else none

/-- The branches of `step`. -/
inductive Step (honest : Nat → Bool) (s : Star) : Event → Star → Prop
  | server {event : DedicatedServer.Event} {server : DedicatedServer}
      (hReads : ∀ x ∈ handled event, honest x = true → s.reads x event <+: (s.clients x).wire)
      (hServer : s.server.step event = some server) :
    Step honest s (.server event) { s with server := server }
  | client {x : Nat} {event : Endpoint.Event} {e : Endpoint} (hHonest : honest x = true)
      (hReads : ∀ c, event = .complete c →
        (s.clients x).consumed ++ c.bytes <+: (s.server.objects x).wire)
      (hMove : (s.clients x).step event = some e) : Step honest s (.client x event) (s.setClient x e)

theorem step_cases {honest : Nat → Bool} {s s' : Star} {event : Event}
    (h : s.step honest event = some s') : Step honest s event s' := by
  cases event with
  | server event =>
    simp only [step] at h
    split at h
    · rename_i hReads
      obtain ⟨server, hServer, rfl⟩ := Option.map_eq_some_iff.mp h
      exact .server hReads hServer
    · cases h
  | client x event =>
    cases event with
    | complete c =>
      simp only [step] at h
      split at h
      · rename_i hCan
        obtain ⟨e, hMove, rfl⟩ := Option.map_eq_some_iff.mp h
        refine .client hCan.1 ?_ hMove
        rintro c' hSame
        cases hSame
        exact hCan.2
      · cases h
    | send | disconnect | transfer =>
      simp only [step] at h
      split at h
      · rename_i hHonest
        obtain ⟨e, hMove, rfl⟩ := Option.map_eq_some_iff.mp h
        exact .client hHonest (fun c hSame => by cases hSame) hMove
      · cases h

def system (honest : Nat → Bool) : System Star Event where
  init s := ∃ opened : Nat → Bool, s = { clients := fun x => Endpoint.start [] (.client (opened x)) }
  step := step honest

/-- Both ends of a connection to an honest peer send after its handshake, and messages whose
header announces the body. -/
def LateSend (honest : Nat → Bool) (s : Star) : Event → Prop
  | .server event => ∀ x, honest x = true → ∀ m ∈ s.server.gives x event,
      (s.server.endpoint x).completed = true ∧ m.Announces
  | .client x event => Endpoint.LateSend (s.clients x) event

/-- Nothing is on the way from one end of a connection to the other, and no operation of the
two has failed. -/
structure Settled (sender receiver : Endpoint) : Prop where
  completed : sender.completed = true ∧ receiver.completed = true
  sound : sender.writeFailed = false ∧ receiver.ended = false
  /-- No lambda is posted, and no write is outstanding. -/
  posted : sender.posted = []
  writing : ∀ op, sender.writing op = []
  /-- The outstanding read waits for more bytes than are on the stream. -/
  reading : ∀ op n, (op, n) ∈ receiver.reading → sender.wire.length < receiver.consumed.length + n

/-- A connection to an honest peer as its two applications see it: two channels, each of
which delivers what was sent, once and in order, and all of it when nothing is on the way. -/
structure Channels (s : Star) (x : Nat) : Prop where
  up : DedicatedServer.handed s.server.log x <+: (s.clients x).sent
  down : (s.clients x).received <+: (s.server.objects x).sent
  upAll : s.server.tasks .context = [] → s.server.incoming.incomingMessages = [] →
    Settled (s.clients x) (s.server.objects x) →
      DedicatedServer.handed s.server.log x = (s.clients x).sent
  downAll : s.server.tasks .context = [] → Settled (s.server.objects x) (s.clients x) →
    (s.clients x).received = (s.server.objects x).sent

end Star

end MinecraftNetwork
