import MinecraftNetwork.Endpoint.Basic
import MinecraftNetwork.PollMessages

/-!
# The dedicated client

The thread of the application calls `Connect`, `Disconnect`, `Send` and `PollMessages`, one
after the other or from within a callback. Each `Connect` makes a connection, stores it in
`m_pConnection` and starts a thread that runs the context and then restarts it. As in the
model of the server a thread has a stack of tasks, and a step is a handler up to its next
callback or the part of a function between two points where another thread may come in.

The context is described by what its users see of it: the handlers that are pending, and
the flag `stopped`. `stop` sets the flag and leaves the handlers, `run` returns at once while
it is set, `run` sets it itself when nothing is pending, and only `restart` clears it.

A callback on the context thread does not call `Connect` or `Disconnect`: the thread would
join itself, which throws. The handler of a connection that has been destroyed is undefined:
there is no such step. It is undefined too when a handler that is running goes on after the
last pointer to its connection, a copy of the application, is destroyed; the model then lets
it go on. Moving a new thread into a joinable `m_ContextThread` terminates the process.
-/

namespace MinecraftNetwork

open Runs

/-- A handler of the connection is pending. -/
def Endpoint.hasWork (e : Endpoint) : Bool :=
  e.connecting || !e.reading.isEmpty || !e.posted.isEmpty ||
    [WriteOp.header, .body, .validation1, .validation2, .validation3, .validation4].any
      fun op => !(e.writing op).isEmpty

namespace DedicatedClient

/-- The callbacks of `IConnectable`. The pointer given to `OnMessage` is null. -/
inductive Callback
  | allowConnection (x : Nat)
  | onConnect (x : Nat)
  | onDisconnect (x : Nat)
  | onValidate (x : Nat)
  | onInvalidate (x : Nat)
  | onMessage (m : Message)
  deriving DecidableEq, Repr

/-- What can be seen of a run, in order. -/
inductive Notice
  | call (c : Callback)
  /-- `ConnectToServer` has started `async_connect`, which could open the socket or not. -/
  | started (x : Nat) (opened : Bool)
  /-- The thread of a connection was moved into `m_ContextThread`, which was joinable or not. -/
  | assigned (x : Nat) (joinable : Bool)
  /-- The thread of a connection has entered `run`. -/
  | entered (x : Nat) (stopped hasWork : Bool)
  /-- `Connect` has returned true, or false. -/
  | connected (x : Nat)
  | failed (p : Option Nat)
  deriving DecidableEq, Repr

/-- `m_ContextThread` -/
inductive ContextThread
  /-- Not joinable. -/
  | none
  /-- Started for a connection, and not in `run` yet. -/
  | starting (x : Nat)
  | running
  /-- `run` has returned. -/
  | returned
  /-- `restart` has returned. -/
  | finished
  deriving DecidableEq, Repr

inductive Thread
  | context
  | application
  deriving DecidableEq, Repr

inductive Task
  | callback (c : Callback)
  /-- The rest of a member function of a connection. -/
  | resume (x : Nat) (effects : List Effect)
  /-- `Connect` from the resolver on. -/
  | connect
  /-- `Connect` from `AllowConnection` on, with `newConnection`. -/
  | start (x : Nat)
  /-- `Connect` from the call of `OnConnect` on. -/
  | greet (x : Nat)
  /-- `Connect` after `OnConnect`. -/
  | connected (x : Nat)
  /-- `Disconnect` from `m_Context.stop()` on. -/
  | stop
  /-- `Disconnect` from the join on. -/
  | join
  deriving DecidableEq, Repr

def Callback.refs : Callback → List Nat
  | .allowConnection x | .onConnect x | .onDisconnect x | .onValidate x | .onInvalidate x => [x]
  | .onMessage _ => []

/-- The pointers to connections that a task holds. -/
def Task.refs : Task → List Nat
  | .callback c => c.refs
  | .start x => [x]
  | .resume _ _ | .connect | .greet _ | .connected _ | .stop | .join => []

/-- What the application may call. -/
inductive Action
  | connect
  | disconnect
  | send (m : Message)
  /-- `Send` and `Disconnect` of a connection. -/
  | sendTo (x : Nat) (m : Message)
  | disconnectFrom (x : Nat)
  /-- Copy a pointer, and destroy a copy. -/
  | keep (x : Nat)
  | drop (x : Nat)
  deriving DecidableEq, Repr

end DedicatedClient

open DedicatedClient in
structure DedicatedClient where
  objects : Nat → Endpoint := fun _ => Endpoint.create .dedicatedClient false
  /-- The number of connections allocated so far. -/
  allocated : Nat := 0
  /-- `m_pConnection` -/
  connection : Option Nat := none
  contextThread : ContextThread := .none
  stopped : Bool := false
  /-- The posted lambdas that close `m_Socket`. -/
  closes : Nat := 0
  terminated : Bool := false
  incoming : Polling Message := {}
  kept : List Nat := []
  tasks : Thread → List Task := fun _ => []
  log : List Notice := []

namespace DedicatedClient

inductive Event
  | app (t : Thread) (action : Action)
  /-- A callback returns. `AllowConnection` returns true, or false. -/
  | leave (t : Thread)
  | deny
  /-- The resolver or `make_shared`, `AllowConnection` or `OnConnect` throws. -/
  | throw
  /-- `Connect` makes a connection. -/
  | create
  /-- `Connect` stores its connection and starts the thread, or fails to. -/
  | start (opened spawned : Bool)
  /-- A thread goes on with its next task. -/
  | run (t : Thread)
  | poll (event : PollEvent)
  /-- The context thread enters `run`. -/
  | enter
  /-- A handler of a connection runs. -/
  | complete (x : Nat) (c : Completion)
  /-- A lambda that closes `m_Socket` runs. -/
  | closeSocket
  /-- The last pending handler has run. -/
  | runOut
  /-- `run` returns, and `restart` does. -/
  | finish
  | restart
  /-- Bytes leave for the server. -/
  | transfer (x : Nat) (op : WriteOp) (n : Nat)
  deriving DecidableEq, Repr

def owners (s : DedicatedClient) : List Nat :=
  s.connection.toList ++ s.kept ++
    ((s.tasks .context).flatMap Task.refs ++ (s.tasks .application).flatMap Task.refs)

def setTasks (s : DedicatedClient) (t : Thread) (tasks : List Task) : DedicatedClient :=
  { s with tasks := Function.update s.tasks t tasks }

def setObject (s : DedicatedClient) (x : Nat) (e : Endpoint) : DedicatedClient :=
  { s with objects := Function.update s.objects x e }

def notify (s : DedicatedClient) (n : Notice) : DedicatedClient := { s with log := s.log ++ [n] }

/-- Call a callback, and do `rest` when it has returned. -/
def call (s : DedicatedClient) (t : Thread) (c : Callback) (rest : List Task) : DedicatedClient :=
  (s.setTasks t (.callback c :: (rest ++ s.tasks t))).notify (.call c)

/-- Something is pending in `m_Context`. -/
def hasWork (s : DedicatedClient) : Bool :=
  s.closes != 0 || (List.range s.allocated).any fun x => (s.objects x).hasWork

/-- `m_pConnection != nullptr && m_pConnection->IsConnected()` -/
def isConnected (s : DedicatedClient) : Bool :=
  s.connection.any fun x => (s.objects x).connection.isConnected

/-- `DedicatedClient::Disconnect(pConnection)` posts a lambda that closes `m_Socket`. -/
def disconnectSocket (s : DedicatedClient) : DedicatedClient := { s with closes := s.closes + 1 }

/-- `Connection::Disconnect` -/
def disconnectFrom (s : DedicatedClient) (x : Nat) : DedicatedClient :=
  let calls := .disconnect ∈ (s.objects x).connection.disconnect
  let s := s.setObject x (s.objects x).disconnect
  if calls then s.disconnectSocket else s

/-- `DedicatedClient::Disconnect()`, up to `m_Context.stop()` -/
def disconnect (s : DedicatedClient) (t : Thread) (rest : List Task) : DedicatedClient :=
  match s.connection with
  | some x =>
    let s := s.disconnectFrom x
    s.setTasks t (.stop :: .join :: (rest ++ s.tasks t))
  | none => s.setTasks t (rest ++ s.tasks t)

/-- A member function of a connection runs on the context thread, up to its next callback. -/
def advance (s : DedicatedClient) (x : Nat) : List Effect → DedicatedClient
  | [] => s
  | effect :: rest =>
    let s := s.setObject x ((s.objects x).perform effect)
    match effect with
    | .onValidate _ => s.call .context (.onValidate x) [.resume x rest]
    | .onInvalidate => s.call .context (.onInvalidate x) [.resume x rest]
    | .disconnect => s.disconnectSocket.advance x rest
    | .emplaceBack _ m => advance { s with incoming := s.incoming.emplaceBack m } x rest
    | .asyncConnect | .asyncRead _ _ | .asyncWrite _ _ | .postClose | .emptyDeque =>
      s.advance x rest

/-- The application calls a function on a thread. -/
def act (s : DedicatedClient) (t : Thread) : Action → Option DedicatedClient
  | .connect =>
    if t = .application then
      some (if s.isConnected then s.disconnect t [.connect]
        else s.setTasks t (.connect :: s.tasks t))
    else none
  | .disconnect => if t = .application then some (s.disconnect t []) else none
  | .send m =>
    match s.connection with
    | some x => some (if s.isConnected then s.setObject x ((s.objects x).send m) else s)
    | none => some s
  | .sendTo x m => if x ∈ s.owners then some (s.setObject x ((s.objects x).send m)) else none
  | .disconnectFrom x => if x ∈ s.owners then some (s.disconnectFrom x) else none
  | .keep x => if x ∈ s.owners then some { s with kept := s.kept ++ [x] } else none
  | .drop x => if x ∈ s.kept then some { s with kept := s.kept.erase x } else none

/-- The application is running on a thread. -/
def inApplication (s : DedicatedClient) (t : Thread) : Bool :=
  match s.tasks t with
  | .callback _ :: _ => true
  | [] => t == .application && s.incoming.poll == .idle
  | _ => false

/-- The context thread may take a handler. -/
def isReady (s : DedicatedClient) : Bool :=
  s.contextThread == .running && !s.stopped && (s.tasks .context).isEmpty

/-- `make_shared` in `Connect`, and the call of `AllowConnection`. -/
def create (s : DedicatedClient) (rest : List Task) : DedicatedClient :=
  let x := s.allocated
  let s := (s.setTasks .application rest).setObject x (.create .dedicatedClient false)
  call { s with allocated := x + 1 } .application (.allowConnection x) [.start x]

/-- `m_pConnection = newConnection` and `ConnectToServer` -/
def store (s : DedicatedClient) (x : Nat) (opened : Bool) : DedicatedClient :=
  let e := s.objects x
  let s := s.setObject x (e.run (e.connection.connectToServer opened))
  { s with connection := some x }.notify (.started x opened)

/-- `m_ContextThread = std::thread(…)`. The new thread may run before `OnConnect` is called. -/
def assign (s : DedicatedClient) (x : Nat) : DedicatedClient :=
  match s.contextThread with
  | .none =>
    { (s.notify (.assigned x false)).setTasks .application (.greet x :: s.tasks .application) with
      contextThread := .starting x }
  | .starting _ | .running | .returned | .finished =>
    { s.notify (.assigned x true) with terminated := true }

/-- `Connect` with its new connection, up to the call of `OnConnect`. -/
def start (s : DedicatedClient) (x : Nat) (opened spawned : Bool) (rest : List Task) :
    DedicatedClient :=
  let s := (s.setTasks .application rest).store x opened
  if spawned then s.assign x else s.notify (.failed (some x))

/-- The thread of a connection enters `run`, which stops the context if nothing is pending. -/
def enter (s : DedicatedClient) (x : Nat) : DedicatedClient :=
  { s.notify (.entered x s.stopped s.hasWork) with
    contextThread := .running
    stopped := s.stopped || !s.hasWork }

/-- A step of a process that has not been terminated. -/
def next (s : DedicatedClient) : Event → Option DedicatedClient
  | .app t action => if s.inApplication t then s.act t action else none
  | .leave t =>
    match s.tasks t with
    | .callback _ :: rest => some (s.setTasks t rest)
    | _ => none
  | .deny =>
    match s.tasks .application with
    | .callback (.allowConnection x) :: .start _ :: rest =>
      some ((s.setTasks .application rest).notify (.failed (some x)))
    | _ => none
  | .throw =>
    match s.tasks .application with
    | .connect :: rest => some ((s.setTasks .application rest).notify (.failed none))
    | .callback (.allowConnection x) :: .start _ :: rest
    | .callback (.onConnect x) :: .connected _ :: rest =>
      some ((s.setTasks .application rest).notify (.failed (some x)))
    | _ => none
  | .create =>
    match s.tasks .application with
    | .connect :: rest => some (s.create rest)
    | _ => none
  | .start opened spawned =>
    match s.tasks .application with
    | .start x :: rest => some (s.start x opened spawned rest)
    | _ => none
  | .run t =>
    match t, s.tasks t with
    | .context, .resume x effects :: rest =>
      some ((s.setTasks .context rest).advance x effects)
    | .application, .greet x :: rest =>
      some ((s.setTasks .application rest).call .application (.onConnect x) [.connected x])
    | .application, .connected x :: rest =>
      some ((s.setTasks .application rest).notify (.connected x))
    | .application, .stop :: rest => some { s.setTasks .application rest with stopped := true }
    | .application, .join :: rest =>
      if s.contextThread = .none ∨ s.contextThread = .finished then
        some { s.setTasks .application rest with contextThread := .none, connection := none }
      else none
    | _, _ => none
  | .poll event =>
    if s.tasks .application = [] then
      match event, s.incoming.incomingMessages with
      | .pop, m :: _ =>
        (s.incoming.step .pop).map fun q =>
          call { s with incoming := q } .application (.onMessage m) []
      | event, _ => (s.incoming.step event).map fun q => { s with incoming := q }
    else none
  | .enter =>
    match s.contextThread with
    | .starting x => some (s.enter x)
    | _ => none
  | .complete x c =>
    if s.isReady ∧ x ∈ s.owners then
      ((s.objects x).handle c).map fun (e, effects) => (s.setObject x e).advance x effects
    else none
  | .closeSocket => if s.isReady ∧ 0 < s.closes then some { s with closes := s.closes - 1 } else none
  | .runOut => if s.isReady ∧ !s.hasWork then some { s with stopped := true } else none
  | .finish =>
    if s.contextThread = .running ∧ s.stopped ∧ s.tasks .context = [] then
      some { s with contextThread := .returned }
    else none
  | .restart =>
    if s.contextThread = .returned then
      some { s with contextThread := .finished, stopped := false }
    else none
  | .transfer x op n =>
    if x ∈ s.owners then ((s.objects x).transfer op n).map (s.setObject x) else none

def step (s : DedicatedClient) (event : Event) : Option DedicatedClient :=
  if s.terminated then none else s.next event

def system : System DedicatedClient Event where
  init s := s = {}
  step := step

/-! ## The steps, one by one -/

/-- The branches of `act`. -/
inductive Act (s : DedicatedClient) : Thread → Action → DedicatedClient → Prop
  | connect (hNot : s.isConnected ≠ true) :
    Act s .application .connect (s.setTasks .application (.connect :: s.tasks .application))
  | reconnect (hConnected : s.isConnected = true) :
    Act s .application .connect (s.disconnect .application [.connect])
  | disconnect : Act s .application .disconnect (s.disconnect .application [])
  | send {t : Thread} {x : Nat} {m : Message} (hOwn : s.connection = some x)
      (hConnected : s.isConnected = true) : Act s t (.send m) (s.setObject x ((s.objects x).send m))
  /-- There is no connection, or it is closed. -/
  | sendNothing {t : Thread} {m : Message} (hNot : s.isConnected ≠ true) : Act s t (.send m) s
  | sendTo {t : Thread} {x : Nat} {m : Message} (hOwned : x ∈ s.owners) :
    Act s t (.sendTo x m) (s.setObject x ((s.objects x).send m))
  | disconnectFrom {t : Thread} {x : Nat} (hOwned : x ∈ s.owners) :
    Act s t (.disconnectFrom x) (s.disconnectFrom x)
  | keep {t : Thread} {x : Nat} (hOwned : x ∈ s.owners) :
    Act s t (.keep x) { s with kept := s.kept ++ [x] }
  | drop {t : Thread} {x : Nat} (hKept : x ∈ s.kept) :
    Act s t (.drop x) { s with kept := s.kept.erase x }

/-- The branches of `next`, each with what it asks for and the state it leaves. -/
inductive Next (s : DedicatedClient) : Event → DedicatedClient → Prop
  | app {t : Thread} {action : Action} {s' : DedicatedClient} (hApplication : s.inApplication t = true)
      (hAct : s.act t action = some s') : Next s (.app t action) s'
  | leave {t : Thread} {c : Callback} {rest : List Task} (hTasks : s.tasks t = .callback c :: rest) :
    Next s (.leave t) (s.setTasks t rest)
  | deny {x y : Nat} {rest : List Task}
      (hTasks : s.tasks .application = .callback (.allowConnection x) :: .start y :: rest) :
    Next s .deny ((s.setTasks .application rest).notify (.failed (some x)))
  | throwMake {rest : List Task} (hTasks : s.tasks .application = .connect :: rest) :
    Next s .throw ((s.setTasks .application rest).notify (.failed none))
  | throwAllow {x y : Nat} {rest : List Task}
      (hTasks : s.tasks .application = .callback (.allowConnection x) :: .start y :: rest) :
    Next s .throw ((s.setTasks .application rest).notify (.failed (some x)))
  | throwGreet {x y : Nat} {rest : List Task}
      (hTasks : s.tasks .application = .callback (.onConnect x) :: .connected y :: rest) :
    Next s .throw ((s.setTasks .application rest).notify (.failed (some x)))
  | create {rest : List Task} (hTasks : s.tasks .application = .connect :: rest) :
    Next s .create (s.create rest)
  | start {x : Nat} {opened spawned : Bool} {rest : List Task}
      (hTasks : s.tasks .application = .start x :: rest) :
    Next s (.start opened spawned) (s.start x opened spawned rest)
  | resume {x : Nat} {effects : List Effect} {rest : List Task}
      (hTasks : s.tasks .context = .resume x effects :: rest) :
    Next s (.run .context) ((s.setTasks .context rest).advance x effects)
  | greet {x : Nat} {rest : List Task} (hTasks : s.tasks .application = .greet x :: rest) :
    Next s (.run .application)
      ((s.setTasks .application rest).call .application (.onConnect x) [.connected x])
  | connected {x : Nat} {rest : List Task} (hTasks : s.tasks .application = .connected x :: rest) :
    Next s (.run .application) ((s.setTasks .application rest).notify (.connected x))
  | stop {rest : List Task} (hTasks : s.tasks .application = .stop :: rest) :
    Next s (.run .application) { s.setTasks .application rest with stopped := true }
  | join {rest : List Task} (hTasks : s.tasks .application = .join :: rest)
      (hEnded : s.contextThread = .none ∨ s.contextThread = .finished) :
    Next s (.run .application)
      { s.setTasks .application rest with contextThread := .none, connection := none }
  | pop {m : Message} {rest : List Message} {q : Polling Message}
      (hIdle : s.tasks .application = []) (hQueue : s.incoming.incomingMessages = m :: rest)
      (hPop : s.incoming.step .pop = some q) :
    Next s (.poll .pop) (call { s with incoming := q } .application (.onMessage m) [])
  | poll {event : PollEvent} {q : Polling Message} (hIdle : s.tasks .application = [])
      (hNot : event ≠ .pop) (hPoll : s.incoming.step event = some q) :
    Next s (.poll event) { s with incoming := q }
  | enter {x : Nat} (hThread : s.contextThread = .starting x) : Next s .enter (s.enter x)
  | complete {x : Nat} {c : Completion} {e : Endpoint} {effects : List Effect}
      (hReady : s.isReady = true) (hOwned : x ∈ s.owners)
      (hHandle : (s.objects x).handle c = some (e, effects)) :
    Next s (.complete x c) ((s.setObject x e).advance x effects)
  | closeSocket (hReady : s.isReady = true) (hCloses : 0 < s.closes) :
    Next s .closeSocket { s with closes := s.closes - 1 }
  | runOut (hReady : s.isReady = true) (hNothing : (!s.hasWork) = true) :
    Next s .runOut { s with stopped := true }
  | finish (hThread : s.contextThread = .running) (hStopped : s.stopped = true)
      (hIdle : s.tasks .context = []) : Next s .finish { s with contextThread := .returned }
  | restart (hThread : s.contextThread = .returned) :
    Next s .restart { s with contextThread := .finished, stopped := false }
  | transfer {x : Nat} {op : WriteOp} {n : Nat} {e : Endpoint} (hOwned : x ∈ s.owners)
      (hTransfer : (s.objects x).transfer op n = some e) :
    Next s (.transfer x op n) (s.setObject x e)

variable {s s' : DedicatedClient}

theorem act_cases {t : Thread} {action : Action} (h : s.act t action = some s') :
    Act s t action s' := by
  cases action with
  | connect =>
    simp only [act] at h
    split at h <;> cases h
    rename_i hThread
    subst hThread
    split
    · exact .reconnect ‹_›
    · exact .connect ‹_›
  | disconnect =>
    simp only [act] at h
    split at h <;> cases h
    rename_i hThread
    subst hThread
    exact .disconnect
  | send m =>
    simp only [act] at h
    split at h <;> cases h
    · rename_i x hOwn
      split
      · exact .send hOwn ‹_›
      · exact .sendNothing ‹_›
    · rename_i hNone
      refine .sendNothing ?_
      simp [isConnected, hNone]
  | sendTo x m =>
    simp only [act] at h
    split at h <;> cases h
    exact .sendTo ‹_›
  | disconnectFrom x =>
    simp only [act] at h
    split at h <;> cases h
    exact .disconnectFrom ‹_›
  | keep x =>
    simp only [act] at h
    split at h <;> cases h
    exact .keep ‹_›
  | drop x =>
    simp only [act] at h
    split at h <;> cases h
    exact .drop ‹_›

theorem next_cases_run {t : Thread} (h : s.next (.run t) = some s') : Next s (.run t) s' := by
  simp only [next] at h
  split at h
  · rename_i hTasks
    cases h
    exact .resume hTasks
  · rename_i hTasks
    cases h
    exact .greet hTasks
  · rename_i hTasks
    cases h
    exact .connected hTasks
  · rename_i hTasks
    cases h
    exact .stop hTasks
  · rename_i hTasks
    split at h <;> cases h
    rename_i hEnded
    exact .join hTasks hEnded
  · cases h

theorem next_cases_poll {event : PollEvent} (h : s.next (.poll event) = some s') :
    Next s (.poll event) s' := by
  simp only [next] at h
  split at h
  · rename_i hIdle
    split at h
    · rename_i hQueue
      simp only [Option.map_eq_some_iff] at h
      obtain ⟨q, hPop, rfl⟩ := h
      exact .pop hIdle hQueue hPop
    · rename_i hNot
      simp only [Option.map_eq_some_iff] at h
      obtain ⟨q, hPoll, rfl⟩ := h
      refine .poll hIdle ?_ hPoll
      rintro rfl
      obtain ⟨m, rest, hQueue⟩ := List.exists_cons_of_ne_nil (Polling.step_pop hPoll).1
      exact hNot m rest rfl hQueue
  · cases h

theorem next_cases_complete {x : Nat} {c : Completion} (h : s.next (.complete x c) = some s') :
    Next s (.complete x c) s' := by
  simp only [next] at h
  split at h
  · rename_i hCan
    simp only [Option.map_eq_some_iff] at h
    obtain ⟨⟨e, effects⟩, hHandle, rfl⟩ := h
    exact .complete hCan.1 hCan.2 hHandle
  · cases h

/-- **A step takes one of the branches.** -/
theorem next_cases {event : Event} (h : s.next event = some s') : Next s event s' := by
  cases event with
  | app t action =>
    simp only [next] at h
    split at h
    · rename_i hApplication
      exact .app hApplication h
    · cases h
  | leave t =>
    simp only [next] at h
    split at h <;> cases h
    rename_i hTasks
    exact .leave hTasks
  | deny =>
    simp only [next] at h
    split at h <;> cases h
    rename_i hTasks
    exact .deny hTasks
  | throw =>
    simp only [next] at h
    split at h <;> cases h
    · rename_i hTasks
      exact .throwMake hTasks
    · rename_i hTasks
      exact .throwAllow hTasks
    · rename_i hTasks
      exact .throwGreet hTasks
  | create =>
    simp only [next] at h
    split at h <;> cases h
    rename_i hTasks
    exact .create hTasks
  | start opened spawned =>
    simp only [next] at h
    split at h <;> cases h
    rename_i hTasks
    exact .start hTasks
  | run t => exact next_cases_run h
  | poll event => exact next_cases_poll h
  | enter =>
    simp only [next] at h
    split at h <;> cases h
    rename_i hThread
    exact .enter hThread
  | complete x c => exact next_cases_complete h
  | closeSocket =>
    simp only [next] at h
    split at h <;> cases h
    rename_i hCan
    exact .closeSocket hCan.1 hCan.2
  | runOut =>
    simp only [next] at h
    split at h <;> cases h
    rename_i hCan
    exact .runOut hCan.1 hCan.2
  | finish =>
    simp only [next] at h
    split at h <;> cases h
    rename_i hCan
    exact .finish hCan.1 hCan.2.1 hCan.2.2
  | restart =>
    simp only [next] at h
    split at h <;> cases h
    rename_i hThread
    exact .restart hThread
  | transfer x op n =>
    simp only [next] at h
    split at h
    · rename_i hOwned
      simp only [Option.map_eq_some_iff] at h
      obtain ⟨e, hTransfer, rfl⟩ := h
      exact .transfer hOwned hTransfer
    · cases h

theorem next_of_step {event : Event} (h : s.step event = some s') : s.next event = some s' := by
  simp only [step] at h
  split at h
  · cases h
  · exact h

end DedicatedClient

end MinecraftNetwork
