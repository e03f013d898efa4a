import MinecraftNetwork.Message.Frame

/-!
# Connections

The member functions of `net::Connection` change the fields of the connection and start
asynchronous operations; the continuation of an operation is a member function again. A
function of the model takes the fields to the new fields and the list of things it does
outside them, in order: it starts an operation, calls its owner back, posts a handler or
appends to the incoming queue. What the owner and the context do with these effects is
left to the models of the endpoints.

The text written to `std::cerr` on an error has no influence on the run and is left out.
-/

namespace MinecraftNetwork

open LittleEndian

inductive ConnectionOwner
  | dedicatedServer
  | dedicatedClient
  | peerToPeerNode
  deriving DecidableEq, Repr

/-- `((data & 0xF0F0F0F0F0F0F0F0) >> 4) | ((data & 0x0F0F0F0F0F0F0F0F) << 4)` -/
def swapNibbles (data : UInt64) : UInt64 :=
  ((data &&& 0xF0F0F0F0F0F0F0F0) >>> 4) ||| ((data &&& 0x0F0F0F0F0F0F0F0F) <<< 4)

/-- `Connection::Encrypt` -/
def encrypt : ConnectionOwner → UInt64 → UInt64
  | .dedicatedServer, data | .dedicatedClient, data =>
    swapNibbles (data ^^^ 0xDEADBEEFC0DECAFE) ^^^ 0xC0DEFACE12345678
  | .peerToPeerNode, data =>
    swapNibbles (data ^^^ 0xC0DECAFEDEADBEEF) ^^^ 0x12345678C0DEFACE

/-- The continuations of `asio::async_read`. -/
inductive ReadOp
  | header
  | body
  | validation1
  | validation2
  | validation3
  | validation4
  deriving DecidableEq, Repr

/-- The continuations of `asio::async_write`. -/
inductive WriteOp
  | header
  | body
  | validation1
  | validation2
  | validation3
  | validation4
  deriving DecidableEq, Repr

/-- The write chain that sends the outgoing messages, as against the handshake. -/
def WriteOp.sendsFrame : WriteOp → Bool
  | .header | .body => true
  | _ => false

/-- What a member function does outside the fields of its connection. -/
inductive Effect
  | asyncConnect
  | asyncRead (op : ReadOp) (n : Nat)
  | asyncWrite (op : WriteOp) (bytes : List UInt8)
  /-- `OnValidate`, with the identifier `GetID` gives the owner at the call. -/
  | onValidate (id : UInt64)
  | onInvalidate
  /-- `m_pConnectable->Disconnect(this->shared_from_this())` -/
  | disconnect
  /-- `asio::post(m_rContext, [this]() { m_Socket.close(); })` -/
  | postClose
  /-- `m_rIncomingMessages.EmplaceBack`, tagged with this connection or with null. -/
  | emplaceBack (tagged : Bool) (m : Message)
  /-- `Front` or `PopFront` on an empty deque, which is undefined. -/
  | emptyDeque
  deriving DecidableEq, Repr

structure Connection where
  owner : ConnectionOwner
  /-- `m_Socket.is_open()` -/
  isOpen : Bool
  outgoingMessages : List Message := []
  tempIncomingMessage : Message := {}
  id : UInt64 := 0
  /-- `m_pConnectable != nullptr` -/
  hasConnectable : Bool := false
  validationIn : UInt64 := 0
  validationOut : UInt64 := 0
  validationCheck : UInt64 := 0
  deriving DecidableEq, Repr

namespace Connection

def encrypt (c : Connection) (data : UInt64) : UInt64 := MinecraftNetwork.encrypt c.owner data

def isConnected (c : Connection) : Bool := c.isOpen

/-- `Connection::Disconnect` -/
def disconnect (c : Connection) : List Effect :=
  if c.isConnected then
    if c.hasConnectable then [.disconnect] else [.postClose]
  else []

/-! ## Starting an operation -/

def readHeader (_ : Connection) : List Effect := [.asyncRead .header headerSize]

def readBody (c : Connection) : List Effect :=
  [.asyncRead .body c.tempIncomingMessage.body.length]

/-- `ReadValidation1` to `ReadValidation4`: eight bytes, for one kind of owner. -/
def readValidation (owner : ConnectionOwner) (op : ReadOp) (c : Connection) : List Effect :=
  if c.owner = owner then [.asyncRead op 8] else []

def readValidation1 : Connection → List Effect := readValidation .dedicatedClient .validation1
def readValidation2 : Connection → List Effect := readValidation .dedicatedServer .validation2
def readValidation3 : Connection → List Effect := readValidation .dedicatedClient .validation3
def readValidation4 : Connection → List Effect := readValidation .dedicatedClient .validation4

def writeHeader (c : Connection) : List Effect :=
  match c.outgoingMessages with
  | m :: _ => [.asyncWrite .header m.header.bytes]
  | [] => [.emptyDeque]

def writeBody (c : Connection) : List Effect :=
  match c.outgoingMessages with
  | m :: _ => [.asyncWrite .body m.body]
  | [] => [.emptyDeque]

/-- `WriteValidation1` to `WriteValidation4`: the eight bytes of a field, for one kind of
owner. -/
def writeValidation (owner : ConnectionOwner) (op : WriteOp) (field : Connection → UInt64)
    (c : Connection) : List Effect :=
  if c.owner = owner then [.asyncWrite op (encode64 (field c))] else []

def writeValidation1 : Connection → List Effect :=
  writeValidation .dedicatedServer .validation1 validationOut
def writeValidation2 : Connection → List Effect :=
  writeValidation .dedicatedClient .validation2 validationOut
def writeValidation3 : Connection → List Effect :=
  writeValidation .dedicatedServer .validation3 validationOut
def writeValidation4 : Connection → List Effect :=
  writeValidation .dedicatedServer .validation4 id

/-- `Connection::ConnectToClient`, at clock value `now`. -/
def connectToClient (c : Connection) (now id : UInt64) : Connection × List Effect :=
  if c.isConnected then
    if c.owner = .dedicatedServer then
      let c := { c with hasConnectable := true, id := id, validationOut := now }
      let c := { c with validationCheck := c.encrypt c.validationOut }
      (c, c.writeValidation1)
    else (c, [])
  else (c, [])

/-- `Connection::ConnectToServer`. `async_connect` opens the socket if it can. -/
def connectToServer (c : Connection) (opened : Bool) : Connection × List Effect :=
  if c.owner = .dedicatedClient then
    ({ c with hasConnectable := true, isOpen := opened }, [.asyncConnect])
  else (c, [])

/-! ## Handlers posted to the context -/

/-- The lambda posted by `Connection::Send`. -/
def runSend (c : Connection) (m : Message) : Connection × List Effect :=
  let notWritingMessage := c.outgoingMessages.isEmpty
  let c := { c with outgoingMessages := c.outgoingMessages ++ [m] }
  (c, if notWritingMessage then c.writeHeader else [])

/-- The lambda posted by `Connection::Disconnect`. -/
def runClose (c : Connection) : Connection × List Effect := ({ c with isOpen := false }, [])

/-! ## Continuations -/

/-- `Connection::AddToIncomingMessageQueue` -/
def addToIncomingMessageQueue (c : Connection) : Connection × List Effect :=
  let message := c.tempIncomingMessage
  let c := { c with tempIncomingMessage :=
    { header := { message.header with size := 0 }, body := [] } }
  (c, .emplaceBack (c.owner != .dedicatedClient) message :: c.readHeader)

def connectDone (c : Connection) : Connection × List Effect := (c, c.readValidation1)

def readHeaderDone (c : Connection) (bytes : List UInt8) : Connection × List Effect :=
  let header := MessageHeader.ofBytes bytes
  let c := { c with tempIncomingMessage := { c.tempIncomingMessage with header := header } }
  if header.size > 0 then
    let c := { c with tempIncomingMessage := { c.tempIncomingMessage with
      body := resize c.tempIncomingMessage.body header.size.toNat } }
    (c, c.readBody)
  else c.addToIncomingMessageQueue

def readBodyDone (c : Connection) (bytes : List UInt8) : Connection × List Effect :=
  { c with tempIncomingMessage := { c.tempIncomingMessage with body := bytes }
    }.addToIncomingMessageQueue

def readValidation1Done (c : Connection) (bytes : List UInt8) : Connection × List Effect :=
  let c := { c with validationIn := decode64 bytes }
  let c := { c with validationOut := c.encrypt c.validationIn }
  let c := { c with validationCheck := c.encrypt c.validationOut }
  (c, c.writeValidation2)

def readValidation2Done (c : Connection) (bytes : List UInt8) : Connection × List Effect :=
  let c := { c with validationIn := decode64 bytes }
  if c.validationIn = c.validationCheck then
    let c := { c with validationOut := c.encrypt c.validationIn }
    (c, .onValidate c.id :: c.writeValidation3)
  else (c, .onInvalidate :: c.disconnect)

def readValidation3Done (c : Connection) (bytes : List UInt8) : Connection × List Effect :=
  let c := { c with validationIn := decode64 bytes }
  if c.validationIn = c.validationCheck then (c, c.readValidation4)
  else (c, .onInvalidate :: c.disconnect)

def readValidation4Done (c : Connection) (bytes : List UInt8) : Connection × List Effect :=
  let c := { c with id := decode64 bytes }
  (c, .onValidate c.id :: c.readHeader)

/-- The continuation of a read that has filled its buffer. -/
def readDone (c : Connection) : ReadOp → List UInt8 → Connection × List Effect
  | .header => c.readHeaderDone
  | .body => c.readBodyDone
  | .validation1 => c.readValidation1Done
  | .validation2 => c.readValidation2Done
  | .validation3 => c.readValidation3Done
  | .validation4 => c.readValidation4Done

/-- The end of the continuations of `WriteHeader` and `WriteBody`: the front message is sent. -/
def messageWritten (c : Connection) : Connection × List Effect :=
  match c.outgoingMessages with
  | _ :: rest =>
    let c := { c with outgoingMessages := rest }
    (c, if !rest.isEmpty then c.writeHeader else [])
  | [] => (c, [.emptyDeque])

def writeHeaderDone (c : Connection) : Connection × List Effect :=
  match c.outgoingMessages with
  | m :: _ => if m.body.length > 0 then (c, c.writeBody) else c.messageWritten
  | [] => (c, [.emptyDeque])

def writeBodyDone (c : Connection) : Connection × List Effect := c.messageWritten

/-- The continuation of a write that has sent its buffer. -/
def writeDone (c : Connection) : WriteOp → Connection × List Effect
  | .header => c.writeHeaderDone
  | .body => c.writeBodyDone
  | .validation1 => (c, c.readValidation2)
  | .validation2 => (c, c.readValidation3)
  | .validation3 => (c, c.writeValidation4)
  | .validation4 => (c, c.readHeader)

/-- The continuation of any operation that has failed. -/
def failed (c : Connection) : Connection × List Effect := (c, c.disconnect)

end Connection

end MinecraftNetwork
