import MinecraftNetwork.Endpoint.Reading
import MinecraftNetwork.PollMessages

/-!
# The dedicated server: connections, their owners and the callbacks

The context thread runs the handlers of all connections one after the other; the polling
thread runs `PollMessages` and the code of the application. Both call the callbacks of the
application, and from within a callback the application may call the server again, so each
thread has a stack of tasks: the callback it is in, and what the functions that called it
still have to do. A step is a handler up to its next callback, one iteration of a loop, or
one call of the application.

A `Connection` is an object that lives while a `shared_ptr` to it exists. `owners` lists
these pointers: the entries of `m_Clients`, the owned messages in `m_IncomingMessages`, the
copies the application keeps, and the parameters and locals of running calls. The handlers
of a connection hold a raw `this` and no pointer. Using an object without an owner is
undefined; the step is then none.

A failed accept only waits for the next one and is left out, as is what is printed. What the
handler of an accept calls (`remote_endpoint` and the callbacks) does not throw: an exception
leaves `run` and terminates the process, so the runs here are those up to it.
-/

namespace MinecraftNetwork

open Runs

/-- The callbacks of `IConnectable`. A connection is named by the number of its allocation. -/
inductive Callback
  | allowConnection (x : Nat)
  | onConnect (x : Nat)
  | onDisconnect (p : Option Nat)
  | onValidate (x : Nat)
  | onInvalidate (x : Nat)
  | onMessage (x : Nat) (m : Message)
  deriving DecidableEq, Repr

/-- What the application sees of a run, in order. -/
inductive Notice
  | call (c : Callback)
  /-- A message of a connection is put into `m_IncomingMessages`. -/
  | enqueued (x : Nat) (m : Message)
  deriving DecidableEq, Repr

inductive Thread
  | context
  | polling
  deriving DecidableEq, Repr

/-- What a thread has to do. -/
inductive Task
  /-- The application is in a callback, and holds the pointer it was given. -/
  | callback (c : Callback)
  /-- The rest of a member function of a connection. -/
  | resume (x : Nat) (effects : List Effect)
  /-- `DedicatedServer::Disconnect` after `OnDisconnect`. -/
  | erase (p : Option Nat)
  /-- `MessageAll` at a position of `m_Clients`, with the end it has taken at its start. -/
  | messageAll (m : Message) (ignored : Option Nat) (position stop : Nat) (clientsRemoved : Bool)
  /-- `rpClient.reset()` in `MessageAll`, after `OnDisconnect` was called with `p`. -/
  | reset (position : Nat) (p : Option Nat)
  /-- A parameter or a local goes out of scope. -/
  | release (p : Option Nat)
  deriving DecidableEq, Repr

/-- The pointer a callback is given. -/
def Callback.refs : Callback → List Nat
  | .allowConnection x | .onConnect x | .onValidate x | .onInvalidate x | .onMessage x _ => [x]
  | .onDisconnect p => p.toList

/-- The pointers a task holds. -/
def Task.refs : Task → List Nat
  | .callback c => c.refs
  | .erase p | .release p => p.toList
  | .messageAll _ ignored _ _ _ => ignored.toList
  | .resume _ _ | .reset _ _ => []

/-- What the application may call. -/
inductive Action
  | send (x : Nat) (m : Message)
  /-- `Connection::Disconnect` -/
  | disconnect (x : Nat)
  | messageOne (p : Option Nat) (m : Message)
  | messageAll (m : Message) (ignored : Option Nat)
  /-- Copy a pointer, and destroy a copy. -/
  | keep (x : Nat)
  | drop (x : Nat)
  deriving DecidableEq, Repr

structure DedicatedServer where
  objects : Nat → Endpoint := fun _ => Endpoint.create .dedicatedServer true
  /-- The number of connections allocated so far. -/
  allocated : Nat := 0
  clients : List (Option Nat) := []
  nextClientID : UInt64 := 1
  incoming : Polling (Nat × Message) := {}
  /-- The pointers the application has kept. -/
  kept : List Nat := []
  tasks : Thread → List Task := fun _ => []
  log : List Notice := []

namespace DedicatedServer

inductive Event
  | accept
  /-- A handler of a connection runs. -/
  | complete (x : Nat) (c : Completion)
  /-- Bytes leave for the peer of a connection. -/
  | transfer (x : Nat) (op : WriteOp) (n : Nat)
  | app (t : Thread) (action : Action)
  /-- A callback returns. -/
  | leave (t : Thread)
  /-- `AllowConnection` returns true, and the clock stands at `now`, or false. -/
  | allow (now : UInt64)
  | deny
  /-- A thread goes on with its next task. -/
  | run (t : Thread)
  | poll (event : PollEvent)
  deriving DecidableEq, Repr

/-- The pointers to connections. -/
def owners (s : DedicatedServer) : List Nat :=
  s.clients.filterMap id ++ s.incoming.incomingMessages.map Prod.fst ++ s.kept ++
    ((s.tasks .context).flatMap Task.refs ++ (s.tasks .polling).flatMap Task.refs)

def setTasks (s : DedicatedServer) (t : Thread) (tasks : List Task) : DedicatedServer :=
  { s with tasks := Function.update s.tasks t tasks }

def setObject (s : DedicatedServer) (x : Nat) (e : Endpoint) : DedicatedServer :=
  { s with objects := Function.update s.objects x e }

/-- Call a callback, and do `rest` when it has returned. -/
def call (s : DedicatedServer) (t : Thread) (c : Callback) (rest : List Task) : DedicatedServer :=
  { s.setTasks t (.callback c :: (rest ++ s.tasks t)) with log := s.log ++ [Notice.call c] }

/-- `DedicatedServer::Disconnect` -/
def disconnect (s : DedicatedServer) (t : Thread) (p : Option Nat) (rest : List Task) :
    DedicatedServer :=
  s.call t (.onDisconnect p) (.erase p :: rest)

/-- `m_rIncomingMessages.EmplaceBack(this->shared_from_this(), m_TempIncomingMessage)` -/
def enqueue (s : DedicatedServer) (x : Nat) (m : Message) : DedicatedServer :=
  { s with incoming := s.incoming.emplaceBack (x, m), log := s.log ++ [Notice.enqueued x m] }

/-- A member function of a connection runs on the context thread, up to its next callback. -/
def advance (s : DedicatedServer) (x : Nat) : List Effect → DedicatedServer
  | [] => s
  | effect :: rest =>
    let s := s.setObject x ((s.objects x).perform effect)
    match effect with
    | .onValidate _ => s.call .context (.onValidate x) [.resume x rest]
    | .onInvalidate => s.call .context (.onInvalidate x) [.resume x rest]
    | .disconnect => s.disconnect .context (some x) [.resume x rest]
    | .emplaceBack _ m => (s.enqueue x m).advance x rest
    | .asyncConnect | .asyncRead _ _ | .asyncWrite _ _ | .postClose | .emptyDeque =>
      s.advance x rest

def isConnected (s : DedicatedServer) (x : Nat) : Bool := (s.objects x).connection.isConnected

/-- One iteration of the loop of `MessageAll`, or its end. -/
def iterate (s : DedicatedServer) (t : Thread) (m : Message) (ignored : Option Nat)
    (position stop : Nat) (clientsRemoved : Bool) (rest : List Task) : Option DedicatedServer :=
  if position = stop then
    let s := s.setTasks t rest
    some (if clientsRemoved then { s with clients := s.clients.filter (· ≠ none) } else s)
  else
    let removed p := s.setTasks t rest |>.call t (.onDisconnect p)
      [.reset position p, .messageAll m ignored (position + 1) stop true]
    match s.clients[position]? with
    | some (some x) =>
      if s.isConnected x then
        let s := s.setTasks t (.messageAll m ignored (position + 1) stop clientsRemoved :: rest)
        some (if some x ≠ ignored then s.setObject x ((s.objects x).send m) else s)
      else some (removed (some x))
    | some none => some (removed none)
    -- the iterator is past the end
    | none => none

/-- The application calls a function on a thread. -/
def act (s : DedicatedServer) (t : Thread) : Action → Option DedicatedServer
  | .send x m => if x ∈ s.owners then some (s.setObject x ((s.objects x).send m)) else none
  | .disconnect x =>
    if x ∈ s.owners then
      let calls := .disconnect ∈ (s.objects x).connection.disconnect
      let s := s.setObject x (s.objects x).disconnect
      some (if calls then s.disconnect t (some x) [] else s)
    else none
  | .messageOne none _ => some (s.disconnect t none [.release none])
  | .messageOne (some x) m =>
    if x ∈ s.owners then
      some (if s.isConnected x then s.setObject x ((s.objects x).send m)
        else s.disconnect t (some x) [.release (some x)])
    else none
  | .messageAll m ignored =>
    if ∀ x ∈ ignored, x ∈ s.owners then
      some (s.setTasks t (.messageAll m ignored 0 s.clients.length false :: s.tasks t))
    else none
  | .keep x => if x ∈ s.owners then some { s with kept := s.kept ++ [x] } else none
  | .drop x => if x ∈ s.kept then some { s with kept := s.kept.erase x } else none

/-- The application is running on a thread. -/
def inApplication (s : DedicatedServer) (t : Thread) : Bool :=
  match s.tasks t with
  | .callback _ :: _ => true
  | [] => t == .polling && s.incoming.poll == .idle
  | _ => false

/-- The rest of the accept handler, when `AllowConnection` has returned true. -/
def register (s : DedicatedServer) (x : Nat) (now : UInt64) (rest : List Task) : DedicatedServer :=
  let e := s.objects x
  let s := s.setTasks .context rest |>.setObject x
    (e.run (e.connection.connectToClient now s.nextClientID))
  call { s with clients := s.clients ++ [some x], nextClientID := s.nextClientID + 1 }
    .context (.onConnect x) []

def step (s : DedicatedServer) : Event → Option DedicatedServer
  | .accept =>
    if s.tasks .context = [] then
      let created := s.setObject s.allocated (Endpoint.create .dedicatedServer true)
      some (call { created with allocated := s.allocated + 1 }
        .context (.allowConnection s.allocated) [])
    else none
  | .complete x c =>
    if s.tasks .context = [] ∧ x ∈ s.owners then
      ((s.objects x).handle c).map fun (e, effects) => (s.setObject x e).advance x effects
    else none
  | .transfer x op n =>
    if x ∈ s.owners then ((s.objects x).transfer op n).map (s.setObject x) else none
  | .app t action => if s.inApplication t then s.act t action else none
  | .leave t =>
    match s.tasks t with
    | .callback (.allowConnection _) :: _ => none
    | .callback _ :: rest => some (s.setTasks t rest)
    | _ => none
  | .allow now =>
    match s.tasks .context with
    | .callback (.allowConnection x) :: rest => some (s.register x now rest)
    | _ => none
  | .deny =>
    match s.tasks .context with
    | .callback (.allowConnection _) :: rest => some (s.setTasks .context rest)
    | _ => none
  | .run t =>
    match s.tasks t with
    | .resume x effects :: rest =>
      if t = .context ∧ (effects = [] ∨ x ∈ s.owners) then
        some ((s.setTasks .context rest).advance x effects)
      else none
    | .erase p :: rest =>
      some { s.setTasks t rest with clients := s.clients.filter fun q => q ≠ none ∧ q ≠ p }
    | .messageAll m ignored position stop clientsRemoved :: rest =>
      s.iterate t m ignored position stop clientsRemoved rest
    | .reset position _ :: rest =>
      -- the reference is dangling when the deque has become shorter
      if position < s.clients.length then
        some { s.setTasks t rest with clients := s.clients.set position none }
      else none
    | .release _ :: rest => some (s.setTasks t rest)
    | .callback _ :: _ | [] => none
  | .poll event =>
    if s.tasks .polling = [] then
      match event, s.incoming.incomingMessages with
      | .pop, (x, m) :: _ =>
        (s.incoming.step .pop).map fun q =>
          call { s with incoming := q } .polling (.onMessage x m) [.release (some x)]
      | event, _ => (s.incoming.step event).map fun q => { s with incoming := q }
    else none

def system : System DedicatedServer Event where
  init s := s = {}
  step := step

/-! ## The steps, one by one -/

/-- The branches of `act`. -/
inductive Act (s : DedicatedServer) (t : Thread) : Action → DedicatedServer → Prop
  | send {x : Nat} {m : Message} (hOwned : x ∈ s.owners) :
    Act s t (.send x m) (s.setObject x ((s.objects x).send m))
  | disconnect {x : Nat} (hOwned : x ∈ s.owners)
      (hCalls : .disconnect ∈ (s.objects x).connection.disconnect) :
    Act s t (.disconnect x) ((s.setObject x (s.objects x).disconnect).disconnect t (some x) [])
  /-- The connection tells nobody. -/
  | disconnectSilent {x : Nat} (hOwned : x ∈ s.owners)
      (hNot : .disconnect ∉ (s.objects x).connection.disconnect) :
    Act s t (.disconnect x) (s.setObject x (s.objects x).disconnect)
  | messageNone {m : Message} : Act s t (.messageOne none m) (s.disconnect t none [.release none])
  | messageOne {x : Nat} {m : Message} (hOwned : x ∈ s.owners)
      (hConnected : s.isConnected x = true) :
    Act s t (.messageOne (some x) m) (s.setObject x ((s.objects x).send m))
  | messageDead {x : Nat} {m : Message} (hOwned : x ∈ s.owners)
      (hDead : s.isConnected x ≠ true) :
    Act s t (.messageOne (some x) m) (s.disconnect t (some x) [.release (some x)])
  | messageAll {m : Message} {ignored : Option Nat} (hOwned : ∀ x ∈ ignored, x ∈ s.owners) :
    Act s t (.messageAll m ignored)
      (s.setTasks t (.messageAll m ignored 0 s.clients.length false :: s.tasks t))
  | keep {x : Nat} (hOwned : x ∈ s.owners) : Act s t (.keep x) { s with kept := s.kept ++ [x] }
  | drop {x : Nat} (hKept : x ∈ s.kept) : Act s t (.drop x) { s with kept := s.kept.erase x }

/-- The branches of `iterate`: the loop is over, its client is served, or is found dead. -/
inductive Iterate (s : DedicatedServer) (t : Thread) (m : Message) (ignored : Option Nat)
    (position stop : Nat) (clientsRemoved : Bool) (rest : List Task) : DedicatedServer → Prop
  | finish (hEnd : position = stop) :
    Iterate s t m ignored position stop clientsRemoved rest
      (if clientsRemoved then { s.setTasks t rest with clients := s.clients.filter (· ≠ none) }
        else s.setTasks t rest)
  | next {x : Nat} (hMore : position ≠ stop) (hEntry : s.clients[position]? = some (some x))
      (hConnected : s.isConnected x = true) :
    Iterate s t m ignored position stop clientsRemoved rest
      (if some x ≠ ignored then
        (s.setTasks t (.messageAll m ignored (position + 1) stop clientsRemoved :: rest)).setObject x
          ((s.objects x).send m)
        else s.setTasks t (.messageAll m ignored (position + 1) stop clientsRemoved :: rest))
  | remove {p : Option Nat} (hMore : position ≠ stop) (hEntry : s.clients[position]? = some p)
      (hDead : ∀ x, p = some x → s.isConnected x ≠ true) :
    Iterate s t m ignored position stop clientsRemoved rest
      (s.setTasks t rest |>.call t (.onDisconnect p)
        [.reset position p, .messageAll m ignored (position + 1) stop true])

/-- The branches of `step`, each with what it asks for and the state it leaves. -/
inductive Step (s : DedicatedServer) : Event → DedicatedServer → Prop
  | accept (hIdle : s.tasks .context = []) :
    Step s .accept (call { s.setObject s.allocated (Endpoint.create .dedicatedServer true) with
      allocated := s.allocated + 1 } .context (.allowConnection s.allocated) [])
  | complete {x : Nat} {c : Completion} {e : Endpoint} {effects : List Effect}
      (hIdle : s.tasks .context = []) (hOwned : x ∈ s.owners)
      (hHandle : (s.objects x).handle c = some (e, effects)) :
    Step s (.complete x c) ((s.setObject x e).advance x effects)
  | transfer {x : Nat} {op : WriteOp} {n : Nat} {e : Endpoint} (hOwned : x ∈ s.owners)
      (hTransfer : (s.objects x).transfer op n = some e) :
    Step s (.transfer x op n) (s.setObject x e)
  | app {t : Thread} {action : Action} {s' : DedicatedServer} (hApplication : s.inApplication t = true)
      (hAct : s.act t action = some s') : Step s (.app t action) s'
  | leave {t : Thread} {c : Callback} {rest : List Task} (hTasks : s.tasks t = .callback c :: rest)
      (hNot : ∀ x, c ≠ .allowConnection x) : Step s (.leave t) (s.setTasks t rest)
  | allow {now : UInt64} {x : Nat} {rest : List Task}
      (hTasks : s.tasks .context = .callback (.allowConnection x) :: rest) :
    Step s (.allow now) (s.register x now rest)
  | deny {x : Nat} {rest : List Task}
      (hTasks : s.tasks .context = .callback (.allowConnection x) :: rest) :
    Step s .deny (s.setTasks .context rest)
  | resume {x : Nat} {effects : List Effect} {rest : List Task}
      (hTasks : s.tasks .context = .resume x effects :: rest)
      (hOwned : effects = [] ∨ x ∈ s.owners) :
    Step s (.run .context) ((s.setTasks .context rest).advance x effects)
  | erase {t : Thread} {p : Option Nat} {rest : List Task} (hTasks : s.tasks t = .erase p :: rest) :
    Step s (.run t)
      { s.setTasks t rest with clients := s.clients.filter fun q => q ≠ none ∧ q ≠ p }
  | iterate {t : Thread} {m : Message} {ignored : Option Nat} {position stop : Nat}
      {clientsRemoved : Bool} {rest : List Task} {s' : DedicatedServer}
      (hTasks : s.tasks t = .messageAll m ignored position stop clientsRemoved :: rest)
      (hIterate : s.iterate t m ignored position stop clientsRemoved rest = some s') :
    Step s (.run t) s'
  | reset {t : Thread} {position : Nat} {p : Option Nat} {rest : List Task}
      (hTasks : s.tasks t = .reset position p :: rest) (hBound : position < s.clients.length) :
    Step s (.run t) { s.setTasks t rest with clients := s.clients.set position none }
  | release {t : Thread} {p : Option Nat} {rest : List Task}
      (hTasks : s.tasks t = .release p :: rest) : Step s (.run t) (s.setTasks t rest)
  | pop {x : Nat} {m : Message} {rest : List (Nat × Message)} {q : Polling (Nat × Message)}
      (hIdle : s.tasks .polling = []) (hQueue : s.incoming.incomingMessages = (x, m) :: rest)
      (hPop : s.incoming.step .pop = some q) :
    Step s (.poll .pop)
      (call { s with incoming := q } .polling (.onMessage x m) [.release (some x)])
  | poll {event : PollEvent} {q : Polling (Nat × Message)} (hIdle : s.tasks .polling = [])
      (hNot : event ≠ .pop) (hPoll : s.incoming.step event = some q) :
    Step s (.poll event) { s with incoming := q }

variable {s s' : DedicatedServer}

theorem act_cases {t : Thread} {action : Action} (h : s.act t action = some s') :
    Act s t action s' := by
  cases action with
  | send x m =>
    simp only [act] at h
    split at h <;> cases h
    exact .send ‹_›
  | disconnect x =>
    simp only [act] at h
    split at h <;> cases h
    split
    · exact .disconnect ‹_› ‹_›
    · exact .disconnectSilent ‹_› ‹_›
  | messageOne p m =>
    cases p with
    | none =>
      cases h
      exact .messageNone
    | some x =>
      simp only [act] at h
      split at h <;> cases h
      split
      · exact .messageOne ‹_› ‹_›
      · exact .messageDead ‹_› ‹_›
  | messageAll m ignored =>
    simp only [act] at h
    split at h <;> cases h
    exact .messageAll ‹_›
  | keep x =>
    simp only [act] at h
    split at h <;> cases h
    exact .keep ‹_›
  | drop x =>
    simp only [act] at h
    split at h <;> cases h
    exact .drop ‹_›

theorem iterate_cases {t : Thread} {m : Message} {ignored : Option Nat} {position stop : Nat}
    {clientsRemoved : Bool} {rest : List Task}
    (h : s.iterate t m ignored position stop clientsRemoved rest = some s') :
    Iterate s t m ignored position stop clientsRemoved rest s' := by
  simp only [iterate] at h
  split at h
  · cases h
    exact .finish ‹_›
  · rename_i hMore
    split at h
    · rename_i x hEntry
      split at h
      · cases h
        exact .next hMore hEntry ‹_›
      · rename_i hDead
        cases h
        refine .remove hMore hEntry fun y hSame => ?_
        cases hSame
        exact hDead
    · rename_i hEntry
      cases h
      exact .remove hMore hEntry fun x hSame => by cases hSame
    · cases h

theorem step_cases_run {t : Thread} (h : s.step (.run t) = some s') : Step s (.run t) s' := by
  simp only [step] at h
  split at h
  · rename_i hTasks
    split at h <;> cases h
    rename_i hCan
    obtain ⟨rfl, hOwned⟩ := hCan
    exact .resume hTasks hOwned
  · rename_i hTasks
    cases h
    exact .erase hTasks
  · rename_i hTasks
    exact .iterate hTasks h
  · rename_i hTasks
    split at h <;> cases h
    rename_i hBound
    exact .reset hTasks hBound
  · rename_i hTasks
    cases h
    exact .release hTasks
  · cases h
  · cases h

theorem step_cases_poll {event : PollEvent} (h : s.step (.poll event) = some s') :
    Step s (.poll event) s' := by
  simp only [step] at h
  split at h
  · rename_i hIdle
    split at h
    · rename_i hQueue
      simp only [Option.map_eq_some_iff] at h
      obtain ⟨q, hPop, rfl⟩ := h
      exact .pop hIdle hQueue hPop
    · rename_i hNot
      simp only [Option.map_eq_some_iff] at h
      obtain ⟨q, hPoll, rfl⟩ := h
      refine .poll hIdle ?_ hPoll
      rintro rfl
      obtain ⟨p, rest, hQueue⟩ := List.exists_cons_of_ne_nil (Polling.step_pop hPoll).1
      exact hNot p.1 p.2 rest rfl hQueue
  · cases h

/-- **A step takes one of the branches.** -/
theorem step_cases {event : Event} (h : s.step event = some s') : Step s event s' := by
  cases event with
  | accept =>
    simp only [step] at h
    split at h <;> cases h
    rename_i hIdle
    exact .accept hIdle
  | complete x c =>
    simp only [step] at h
    split at h
    · rename_i hCan
      simp only [Option.map_eq_some_iff] at h
      obtain ⟨⟨e, effects⟩, hHandle, rfl⟩ := h
      exact .complete hCan.1 hCan.2 hHandle
    · cases h
  | transfer x op n =>
    simp only [step] at h
    split at h
    · rename_i hOwned
      simp only [Option.map_eq_some_iff] at h
      obtain ⟨e, hTransfer, rfl⟩ := h
      exact .transfer hOwned hTransfer
    · cases h
  | app t action =>
    simp only [step] at h
    split at h
    · rename_i hApplication
      exact .app hApplication h
    · cases h
  | leave t =>
    simp only [step] at h
    split at h
    · cases h
    · rename_i c rest hNot hTasks
      cases h
      refine .leave hTasks ?_
      rintro x rfl
      exact hNot x rfl
    · cases h
  | allow now =>
    simp only [step] at h
    split at h <;> cases h
    rename_i hTasks
    exact .allow hTasks
  | deny =>
    simp only [step] at h
    split at h <;> cases h
    rename_i hTasks
    exact .deny hTasks
  | run t => exact step_cases_run h
  | poll event => exact step_cases_poll h

end DedicatedServer

end MinecraftNetwork
