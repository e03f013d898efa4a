import MinecraftNetwork.Endpoint.Reading
import MinecraftNetwork.Endpoint.Wire
import MinecraftNetwork.PollMessages

/-!
# A link: the two endpoints of one connection

A connection of the server and the connection of a client that talk to each other, each
with the thread that polls its incoming queue. The bytes that have left one endpoint are
the stream the other reads: a read completes with the next bytes of it, in chunks of any
size, or fails. Other connections feed the same incoming queues; the tag that tells their
messages apart is not part of the program.
-/

namespace MinecraftNetwork

open Runs

inductive Side
  | server
  | client
  deriving DecidableEq, Repr

def Side.other : Side → Side
  | .server => .client
  | .client => .server

/-- An endpoint with its incoming queue. The messages of other connections carry the key
of their connection. -/
structure Peer (κ : Type) where
  endpoint : Endpoint
  incoming : Polling (Option κ × Message) := {}

namespace Peer

variable {κ : Type}

inductive Event (κ : Type)
  | endpoint (event : Endpoint.Event)
  /-- Another connection puts a message into the incoming queue. -/
  | foreign (k : κ) (m : Message)
  | poll (event : PollEvent)

/-- A step of an endpoint that reads a stream. -/
def step (p : Peer κ) (stream : List UInt8) : Event κ → Option (Peer κ)
  | .endpoint (.complete c) =>
    if p.endpoint.consumed ++ c.bytes <+: stream then
      (p.endpoint.handle c).map fun (e, effects) =>
        { endpoint := e.performAll effects
          incoming := p.incoming.emplaceAll ((effects.filterMap Effect.message?).map (none, ·)) }
    else none
  | .endpoint event => (p.endpoint.step event).map fun e => { p with endpoint := e }
  | .foreign k m => some { p with incoming := p.incoming.emplaceBack (some k, m) }
  | .poll event => (p.incoming.step event).map fun q => { p with incoming := q }

/-- The branches of `step`: a handler, what the application and the network do to the
endpoint, another connection, and the thread that polls. -/
inductive Step (p : Peer κ) (stream : List UInt8) : Event κ → Peer κ → Prop
  | complete {c : Completion} {e : Endpoint} {effects : List Effect}
      (hThere : p.endpoint.consumed ++ c.bytes <+: stream)
      (hHandle : p.endpoint.handle c = some (e, effects)) :
    Step p stream (.endpoint (.complete c))
      { endpoint := e.performAll effects
        incoming := p.incoming.emplaceAll ((effects.filterMap Effect.message?).map (none, ·)) }
  | outside {event : Endpoint.Event} {e : Endpoint} (hOutside : ∀ c, event ≠ .complete c)
      (hStep : p.endpoint.step event = some e) :
    Step p stream (.endpoint event) { p with endpoint := e }
  | foreign {k : κ} {m : Message} :
    Step p stream (.foreign k m) { p with incoming := p.incoming.emplaceBack (some k, m) }
  | poll {event : PollEvent} {q : Polling (Option κ × Message)}
      (hPoll : p.incoming.step event = some q) : Step p stream (.poll event) { p with incoming := q }

theorem step_cases {p p' : Peer κ} {stream : List UInt8} {event : Event κ}
    (h : p.step stream event = some p') : Step p stream event p' := by
  cases event with
  | endpoint event =>
    cases event with
    | complete c =>
      simp only [step] at h
      split at h
      · simp only [Option.map_eq_some_iff] at h
        obtain ⟨⟨e, effects⟩, hHandle, rfl⟩ := h
        exact .complete ‹_› hHandle
      · cases h
    | send | disconnect | transfer =>
      simp only [step, Option.map_eq_some_iff] at h
      obtain ⟨e, hStep, rfl⟩ := h
      exact .outside (by simp) hStep
  | foreign k m =>
    cases h
    exact .foreign
  | poll event =>
    simp only [step, Option.map_eq_some_iff] at h
    obtain ⟨q, hPoll, rfl⟩ := h
    exact .poll hPoll

/-- The messages of this connection among those of an incoming queue. -/
def own (xs : List (Option κ × Message)) : List Message :=
  xs.filterMap fun x => if x.1.isNone then some x.2 else none

/-- The messages of this connection passed to `OnMessage`, in order. -/
def received (p : Peer κ) : List Message := own p.incoming.processed

end Peer

/-- Both ends of a connection. -/
abbrev Link (κ : Type) := Side → Peer κ

namespace Link

variable {κ : Type}

/-- How the endpoint of a side begins. -/
def begins (now id : UInt64) (opened : Bool) : Side → Endpoint.Start
  | .server => .server now id
  | .client => .client opened

def start (starts : Side → Endpoint.Start) : Link κ :=
  fun side => { endpoint := Endpoint.start [] (starts side) }

def step (l : Link κ) (event : Side × Peer.Event κ) : Option (Link κ) :=
  ((l event.1).step (l event.1.other).endpoint.wire event.2).map (Function.update l event.1)

/-- A connection between a server, at clock value `now`, and a client, which the server
gives the identifier `id`. -/
def system (κ : Type) (now id : UInt64) (opened : Bool) : System (Link κ) (Side × Peer.Event κ) where
  init l := l = start (begins now id opened)
  step := step

/-- Each side sends after its handshake, and messages whose header announces the body. -/
def LateSend (l : Link κ) : Side × Peer.Event κ → Prop
  | (side, .endpoint event) => Endpoint.LateSend (l side).endpoint event
  | (_, .foreign _ _) | (_, .poll _) => True

instance (l : Link κ) (event : Side × Peer.Event κ) : Decidable (LateSend l event) := by
  obtain ⟨side, event⟩ := event
  unfold LateSend
  cases event <;> infer_instance

end Link

end MinecraftNetwork
