import MinecraftNetwork.Connection.Basic
import MinecraftNetwork.Foundations.Runs

/-!
# An endpoint: a connection with its socket and its pending handlers

The context of an endpoint runs one handler at a time: the completion of an operation the
connection has started, or a lambda posted for it. `Endpoint.handle` is one such handler:
it takes the completed operation from those outstanding, runs the continuation, and leaves
the effects of the continuation to be performed in order. In `Endpoint.step` nothing
comes between these effects; the models of the owners put the callbacks there.

Beside the state an endpoint carries its history: the effects so far, the messages given
to `Send`, the bytes that have left for the peer, and the bytes read by completed reads. Its
runs are those of a connection that is alive: which of its owners destroys it, and when, is a
matter of the models of the owners.
-/

namespace MinecraftNetwork

/-- A handler posted by `Connection::Send` or by `Connection::Disconnect`. -/
inductive Lambda
  | send (m : Message)
  | close
  deriving DecidableEq, Repr

/-- The message a lambda of `Send` carries. -/
def Lambda.message? : Lambda → Option Message
  | .send m => some m
  | .close => none

/-- The lambda an effect posts. -/
def Effect.post? : Effect → Option Lambda
  | .postClose => some .close
  | _ => none

structure Endpoint where
  connection : Connection
  /-- `async_connect` is outstanding. -/
  connecting : Bool := false
  /-- The outstanding reads, with the sizes of their buffers. -/
  reading : List (ReadOp × Nat) := []
  /-- The outstanding writes of each continuation, with the bytes still to be sent. -/
  writing : WriteOp → List (List UInt8) := fun _ => []
  /-- The posted lambdas, oldest first. -/
  posted : List Lambda := []
  /-- The messages given to `Connection::Send`, in order. -/
  sent : List Message := []
  history : List Effect := []
  /-- The bytes the socket has passed on to the peer. -/
  wire : List UInt8 := []
  /-- The bytes of the completed reads. -/
  consumed : List UInt8 := []
  /-- The handshake and read chain has stopped: one of its operations has failed, or it
  has rejected the peer. -/
  ended : Bool := false
  /-- A write of a frame has failed. -/
  writeFailed : Bool := false

/-- The completions of asynchronous operations, and a posted lambda reaching the front. -/
inductive Completion
  | connected
  | connectFailed
  | read (op : ReadOp) (bytes : List UInt8)
  | readFailed (op : ReadOp) (n : Nat)
  | written (op : WriteOp)
  | writeFailed (op : WriteOp)
  | lambda
  deriving DecidableEq, Repr

/-- The answer of the peer is not the one the connection has computed. -/
def Connection.rejects (c : Connection) : ReadOp → List UInt8 → Bool
  | .validation2, bytes | .validation3, bytes => LittleEndian.decode64 bytes != c.validationCheck
  | _, _ => false

namespace Endpoint

/-- One effect of a member function, as far as it concerns the endpoint. -/
def perform (e : Endpoint) (effect : Effect) : Endpoint :=
  let e := { e with history := e.history ++ [effect] }
  match effect with
  | .asyncConnect => { e with connecting := true }
  | .asyncRead op n => { e with reading := e.reading ++ [(op, n)] }
  | .asyncWrite op bytes =>
    { e with writing := Function.update e.writing op (e.writing op ++ [bytes]) }
  | .postClose => { e with posted := e.posted ++ [.close] }
  | _ => e

def performAll (e : Endpoint) (effects : List Effect) : Endpoint := effects.foldl perform e

/-- `Connection::Send` -/
def send (e : Endpoint) (m : Message) : Endpoint :=
  { e with sent := e.sent ++ [m], posted := e.posted ++ [.send m] }

/-- `Connection::Disconnect`, called by the application, as far as it concerns the
endpoint: the call it passes on to the owner is left to the models of the owners. -/
def disconnect (e : Endpoint) : Endpoint :=
  { e with posted := e.posted ++ e.connection.disconnect.filterMap Effect.post? }

/-- The socket passes on some bytes of the oldest write of a continuation. -/
def transfer (e : Endpoint) (op : WriteOp) (k : Nat) : Option Endpoint :=
  match e.writing op with
  | bytes :: rest =>
    some { e with
      writing := Function.update e.writing op (bytes.drop k :: rest)
      wire := e.wire ++ bytes.take k }
  | [] => none

/-- Store the connection a member function leaves, and keep its effects. -/
def resume (e : Endpoint) (result : Connection × List Effect) : Endpoint × List Effect :=
  ({ e with connection := result.1 }, result.2)

/-- Run the handler of a completion, if it can occur. -/
def handle (e : Endpoint) : Completion → Option (Endpoint × List Effect)
  | .connected =>
    if e.connecting then some ({ e with connecting := false }.resume e.connection.connectDone)
    else none
  | .connectFailed =>
    if e.connecting then
      some ({ e with connecting := false, ended := true }.resume e.connection.failed)
    else none
  | .read op bytes =>
    if (op, bytes.length) ∈ e.reading then
      some ({ e with
        reading := e.reading.erase (op, bytes.length)
        consumed := e.consumed ++ bytes
        ended := e.ended || e.connection.rejects op bytes
        }.resume (e.connection.readDone op bytes))
    else none
  | .readFailed op n =>
    if (op, n) ∈ e.reading then
      some ({ e with reading := e.reading.erase (op, n), ended := true
        }.resume e.connection.failed)
    else none
  | .written op =>
    match e.writing op with
    | [] :: rest =>
      some ({ e with writing := Function.update e.writing op rest
        }.resume (e.connection.writeDone op))
    | _ => none
  | .writeFailed op =>
    match e.writing op with
    | _ :: rest =>
      some ({ e with
        writing := Function.update e.writing op rest
        ended := e.ended || !op.sendsFrame
        writeFailed := e.writeFailed || op.sendsFrame
        }.resume e.connection.failed)
    | [] => none
  | .lambda =>
    match e.posted with
    | .send m :: rest => some ({ e with posted := rest }.resume (e.connection.runSend m))
    | .close :: rest => some ({ e with posted := rest }.resume e.connection.runClose)
    | [] => none

inductive Event
  /-- `Connection::Send` is called. -/
  | send (m : Message)
  /-- `Connection::Disconnect` is called. -/
  | disconnect
  /-- Bytes of an outstanding write leave for the peer. -/
  | transfer (op : WriteOp) (k : Nat)
  /-- The context runs a handler. -/
  | complete (c : Completion)
  deriving DecidableEq, Repr

def step (e : Endpoint) : Event → Option Endpoint
  | .send m => some (e.send m)
  | .disconnect => some e.disconnect
  | .transfer op k => e.transfer op k
  | .complete c => (e.handle c).map fun (e, effects) => e.performAll effects

/-- How the handshake of a connection begins: it does not, or as a connection of the
server at a clock value and with an identifier, or as that of the client. -/
inductive Start
  | created (owner : ConnectionOwner) (isOpen : Bool)
  | server (now id : UInt64)
  | client (opened : Bool)

def Start.owner : Start → ConnectionOwner
  | .created owner _ => owner
  | .server _ _ => .dedicatedServer
  | .client _ => .dedicatedClient

/-- The endpoint after the constructor of `Connection`. -/
def create (owner : ConnectionOwner) (isOpen : Bool) : Endpoint :=
  { connection := { owner := owner, isOpen := isOpen } }

/-- Lambdas posted before the handshake begins, from within `AllowConnection`. -/
def postAll (e : Endpoint) (lambdas : List Lambda) : Endpoint :=
  { e with
    posted := e.posted ++ lambdas
    sent := e.sent ++ lambdas.filterMap Lambda.message? }

/-- Store the result of a member function and perform its effects. -/
def run (e : Endpoint) (result : Connection × List Effect) : Endpoint :=
  { e with connection := result.1 }.performAll result.2

/-- A connection right after `ConnectToClient` or `ConnectToServer`. -/
def start (lambdas : List Lambda) : Start → Endpoint
  | .created owner isOpen => (create owner isOpen).postAll lambdas
  | .server now id =>
    let e := (create .dedicatedServer true).postAll lambdas
    e.run (e.connection.connectToClient now id)
  | .client opened =>
    let e := (create .dedicatedClient false).postAll lambdas
    e.run (e.connection.connectToServer opened)

/-- An endpoint with a given start, driven by its peer, its network and its owner. -/
def system (s : Start) : Runs.System Endpoint Event where
  init e := ∃ lambdas, e = start lambdas s
  step := step

end Endpoint

end MinecraftNetwork
