import MinecraftNetwork.DedicatedClient.Turns
import MinecraftNetwork.Relay.Links

/-!
# The program of the client

`main` of `Client.cpp` connects and goes round a loop. An iteration reads three keys if the
console window is in the foreground, makes the call of each key that has gone down since the
iteration before, and polls the messages. The loop ends when `IsConnected` is false, and
`main` calls `Disconnect` once more. The callbacks print, and call nothing of the client;
`OnMessage` reads the message with `operator>>`, whose assertion aborts the process if the
body is too short.

`Main` is this thread on top of the model of the client, whose context thread runs beside it.
In every run no thread is replaced while it is joinable, `Connect` is called once, and when
`main` has returned no thread of the client is left (`returns_of_reach`).
-/

namespace MinecraftNetwork

open Runs

namespace Client

/-- The keys 1, 2 and 3, the indices of `pKeys` and `pOldKeys`. -/
inductive Key
  | one
  | two
  | three
  deriving DecidableEq, Repr

/-- What `main` calls for the keys. -/
inductive Call
  | pingServer
  | messageOtherClients
  | disconnect
  deriving DecidableEq, Repr

def Call.key : Call → Key
  | .pingServer => .one
  | .messageOtherClients => .two
  | .disconnect => .three

def Call.action (now : UInt64) : Call → Except Failure DedicatedClient.Action
  | .pingServer => (Client.pingServer now).map .send
  | .messageOtherClients => .ok (.send Client.messageOtherClients)
  | .disconnect => .ok .disconnect

/-- The calls, in the order of the conditionals. -/
def Call.all : List Call := [.pingServer, .messageOtherClients, .disconnect]

/-- Which keys are down. -/
abbrev Keys := Key → Bool

/-- Where `main` is. -/
inductive Position
  /-- Before `client.Connect(address, port)`. -/
  | connect
  /-- Before the condition of the loop. -/
  | loop
  /-- Before the conditionals of these calls. -/
  | keys (calls : List Call)
  /-- After the loop. -/
  | disconnect
  /-- After the call of `client.Disconnect()`, before `std::cin.get()`. -/
  | done
  deriving DecidableEq, Repr

/-- `main`, with its client. -/
structure Main where
  client : DedicatedClient := {}
  position : Position := .connect
  pKeys : Keys := fun _ => false
  pOldKeys : Keys := fun _ => false
  /-- What each iteration has seen of the keys: nothing with the window in the background. -/
  frames : List (Option Keys) := []
  /-- The calls made for the keys, in order. -/
  calls : List Call := []

namespace Main

inductive Event
  | connect
  /-- The condition of the loop, and the keys if the window is in the foreground. -/
  | look (seen : Option Keys)
  /-- The next conditional, with the clock that `PingServer` reads. -/
  | press (now : UInt64)
  /-- `PollMessages` is called. -/
  | poll
  | disconnect
  /-- A step of the client: of a call in progress, or of its context thread. -/
  | client (event : DedicatedClient.Event)

/-- The last call has returned. -/
def resting (m : Main) : Bool :=
  (m.client.tasks .application).isEmpty && m.client.incoming.poll == .idle

/-- The process is aborted: `operator>>` has failed its assertion in `OnMessage`. -/
def aborted (m : Main) : Bool :=
  match m.client.tasks .application with
  | .callback (.onMessage message) :: _ => !(onMessage message).isOk
  | _ => false

/-- A key has gone down since the last iteration. -/
def down (m : Main) (call : Call) : Bool := m.pKeys call.key && !m.pOldKeys call.key

/-- A step of the client that `main` leaves to it. `AllowConnection` returns true, no callback
calls the client or throws, and the calls of the application are those of `main`. -/
def Lets (m : Main) : DedicatedClient.Event → Prop
  | .app _ _ | .deny | .poll (.call _ _) => False
  | .throw => (m.client.tasks .application).head? = some .connect
  | .leave _ | .create | .start _ _ | .run _ | .poll .wake | .poll .test | .poll .pop | .enter
  | .complete _ _ | .closeSocket | .runOut | .finish | .restart | .transfer _ _ _ => True

instance (m : Main) : (event : DedicatedClient.Event) → Decidable (m.Lets event)
  | .app _ _ | .deny | .poll (.call _ _) => inferInstanceAs (Decidable False)
  | .throw => inferInstanceAs (Decidable (_ = _))
  | .leave _ | .create | .start _ _ | .run _ | .poll .wake | .poll .test | .poll .pop | .enter
  | .complete _ _ | .closeSocket | .runOut | .finish | .restart | .transfer _ _ _ =>
    inferInstanceAs (Decidable True)

/-- `main` goes on. -/
def next (m : Main) : Event → Option Main
  | .connect =>
    match m.position with
    | .connect =>
      (m.client.step (.app .application .connect)).map fun client =>
        { m with client := client, position := .loop }
    | _ => none
  | .look seen =>
    match m.position with
    | .loop =>
      if m.client.isConnected then
        some { m with
          pKeys := seen.getD m.pKeys
          position := .keys Call.all
          frames := m.frames ++ [seen] }
      else some { m with position := .disconnect }
    | _ => none
  | .press now =>
    match m.position with
    | .keys (call :: rest) =>
      if m.down call then
        match call.action now with
        | .ok action =>
          (m.client.step (.app .application action)).map fun client =>
            { m with client := client, position := .keys rest, calls := m.calls ++ [call] }
        | .error _ => none
      else some { m with position := .keys rest }
    | _ => none
  | .poll =>
    match m.position with
    | .keys [] =>
      (m.client.step (.poll (.call (-1) false))).map fun client =>
        { m with client := client, position := .loop, pOldKeys := m.pKeys }
    | _ => none
  | .disconnect =>
    match m.position with
    | .disconnect =>
      (m.client.step (.app .application .disconnect)).map fun client =>
        { m with client := client, position := .done }
    | _ => none
  | .client _ => none

def step (m : Main) (event : Event) : Option Main :=
  if m.aborted then none
  else
    match event with
    | .client event =>
      if m.Lets event then
        (m.client.step event).map fun client => { m with client := client }
      else none
    | event => if m.resting then m.next event else none

/-- The branches of `step`. -/
inductive Step (m : Main) : Event → Main → Prop
  | connect {client : DedicatedClient} (hRests : m.resting = true) (hPosition : m.position = .connect)
      (hStep : m.client.step (.app .application .connect) = some client) :
    Step m .connect { m with client := client, position := .loop }
  | look {seen : Option Keys} (hRests : m.resting = true) (hPosition : m.position = .loop)
      (hConnected : m.client.isConnected = true) :
    Step m (.look seen) { m with
      pKeys := seen.getD m.pKeys
      position := .keys Call.all
      frames := m.frames ++ [seen] }
  | ended {seen : Option Keys} (hRests : m.resting = true) (hPosition : m.position = .loop)
      (hNot : m.client.isConnected ≠ true) : Step m (.look seen) { m with position := .disconnect }
  | press {now : UInt64} {call : Call} {rest : List Call} {action : DedicatedClient.Action}
      {client : DedicatedClient} (hRests : m.resting = true) (hPosition : m.position = .keys (call :: rest))
      (hDown : m.down call = true) (hAction : call.action now = .ok action)
      (hStep : m.client.step (.app .application action) = some client) :
    Step m (.press now)
      { m with client := client, position := .keys rest, calls := m.calls ++ [call] }
  | skip {now : UInt64} {call : Call} {rest : List Call} (hRests : m.resting = true)
      (hPosition : m.position = .keys (call :: rest)) (hNot : m.down call = false) :
    Step m (.press now) { m with position := .keys rest }
  | poll {client : DedicatedClient} (hRests : m.resting = true) (hPosition : m.position = .keys [])
      (hStep : m.client.step (.poll (.call (-1) false)) = some client) :
    Step m .poll { m with client := client, position := .loop, pOldKeys := m.pKeys }
  | disconnect {client : DedicatedClient} (hRests : m.resting = true)
      (hPosition : m.position = .disconnect)
      (hStep : m.client.step (.app .application .disconnect) = some client) :
    Step m .disconnect { m with client := client, position := .done }
  | client {event : DedicatedClient.Event} {client : DedicatedClient} (hLets : m.Lets event)
      (hStep : m.client.step event = some client) :
    Step m (.client event) { m with client := client }

theorem next_cases {m m' : Main} {event : Event} (hRests : m.resting = true)
    (h : m.next event = some m') : Step m event m' := by
  cases event with
  | connect =>
    simp only [next] at h
    split at h
    · obtain ⟨client, hStep, rfl⟩ := Option.map_eq_some_iff.mp h
      exact .connect hRests ‹_› hStep
    · cases h
  | look seen =>
    simp only [next] at h
    split at h
    · split at h <;> cases h
      · exact .look hRests ‹_› ‹_›
      · exact .ended hRests ‹_› ‹_›
    · cases h
  | press now =>
    simp only [next] at h
    split at h
    · split at h
      · split at h
        · obtain ⟨client, hStep, rfl⟩ := Option.map_eq_some_iff.mp h
          exact .press hRests ‹_› ‹_› ‹_› hStep
        · cases h
      · rename_i hNot
        cases h
        exact .skip hRests ‹_› (by simpa using hNot)
    · cases h
  | poll =>
    simp only [next] at h
    split at h
    · obtain ⟨client, hStep, rfl⟩ := Option.map_eq_some_iff.mp h
      exact .poll hRests ‹_› hStep
    · cases h
  | disconnect =>
    simp only [next] at h
    split at h
    · obtain ⟨client, hStep, rfl⟩ := Option.map_eq_some_iff.mp h
      exact .disconnect hRests ‹_› hStep
    · cases h
  | client event => cases h

theorem step_cases {m m' : Main} {event : Event} (h : m.step event = some m') :
    Step m event m' := by
  unfold step at h
  split at h
  · cases h
  cases event with
  | client event =>
    simp only at h
    split at h
    · obtain ⟨client, hStep, rfl⟩ := Option.map_eq_some_iff.mp h
      exact .client ‹_› hStep
    · cases h
  | connect | look | press | poll | disconnect =>
    simp only at h
    split at h
    · rename_i hRests
      exact next_cases hRests h
    · cases h

def system : System Main Event where
  init m := m = {}
  step := step

variable {m m' : Main}

/-! ## What is in progress -/

/-- `main` has called `Disconnect`. -/
def Gone (m : Main) : Prop := .disconnect ∈ m.calls ∨ m.position = .done

/-- `Connect` before it stores its connection. -/
inductive Connecting : List DedicatedClient.Task → Prop
  | resolving : Connecting [.connect]
  | asking {x : Nat} : Connecting [.callback (.allowConnection x), .start x]
  | starting {x : Nat} : Connecting [.start x]

/-- `Connect` from then on. -/
inductive Greeting : List DedicatedClient.Task → Prop
  | greeting {x : Nat} : Greeting [.greet x]
  | greeted {x : Nat} : Greeting [.callback (.onConnect x), .connected x]
  | returning {x : Nat} : Greeting [.connected x]

/-- The call of the client in progress, and what is known of the client meanwhile. -/
inductive Shape (client : DedicatedClient) (gone : Prop) : List DedicatedClient.Task → Prop
  | idle (hGone : gone → client.connection = none) : Shape client gone []
  | called {message : Message} (hGone : gone → client.connection = none) :
      Shape client gone [.callback (.onMessage message)]
  | connecting {tasks : List DedicatedClient.Task} (hTasks : Connecting tasks)
      (hThread : client.contextThread = .none) (hNone : client.connection = none) (hNot : ¬ gone) :
      Shape client gone tasks
  | greeting {tasks : List DedicatedClient.Task} (hTasks : Greeting tasks) (hNot : ¬ gone) :
      Shape client gone tasks
  | stopping : Shape client gone [.stop, .join]
  | joining : Shape client gone [.join]

/-- `main` is at its start. -/
structure Starting (m : Main) : Prop where
  tasks : m.client.tasks .application = []
  connection : m.client.connection = none
  poll : m.client.incoming.poll = .idle
  calls : m.calls = []

/-- The invariant of `main`. -/
structure Sound (m : Main) : Prop where
  running : m.client.terminated = false
  shape : Shape m.client m.Gone (m.client.tasks .application)
  starting : m.position = .connect → Starting m

theorem sound_init : Sound {} :=
  ⟨rfl, .idle fun _ => rfl, fun _ => ⟨rfl, rfl, rfl, rfl⟩⟩

theorem resting_iff : m.resting = true ↔
    m.client.tasks .application = [] ∧ m.client.incoming.poll = .idle := by
  rw [resting, Bool.and_eq_true, List.isEmpty_iff, beq_iff_eq]

/-- A call that `main` makes for a key. -/
theorem Call.action_cases {now : UInt64} {call : Call} {action : DedicatedClient.Action}
    (h : call.action now = .ok action) :
    call = .disconnect ∧ action = .disconnect ∨
      call ≠ .disconnect ∧ ∃ message, action = .send message := by
  cases call with
  | pingServer =>
    rw [Call.action, Relay.pingServer_eq] at h
    cases h
    exact .inr ⟨by decide, _, rfl⟩
  | messageOtherClients =>
    cases h
    exact .inr ⟨by decide, _, rfl⟩
  | disconnect =>
    cases h
    exact .inl ⟨rfl, rfl⟩

/-- `Send` is over when it returns. -/
theorem aside_send {s s' : DedicatedClient} {message : Message}
    (h : s.act .application (.send message) = some s') : DedicatedClient.Aside s s' := by
  cases DedicatedClient.act_cases h with
  | send | sendNothing => exact ⟨rfl, rfl, rfl, id, rfl, id⟩

theorem act_of_step {s s' : DedicatedClient} {action : DedicatedClient.Action}
    (h : s.step (.app .application action) = some s') : s.act .application action = some s' := by
  have hNext := DedicatedClient.next_of_step h
  cases DedicatedClient.next_cases hNext with
  | app _ hAct => exact hAct

/-- `Disconnect` without a connection is over when it returns, and with one it stops the context
next. -/
theorem disconnect_shape {s s' : DedicatedClient} (hTasks : s.tasks .application = [])
    (h : s.act .application .disconnect = some s') (gone : Prop) :
    Shape s' gone (s'.tasks .application) ∧ s'.terminated = s.terminated := by
  cases DedicatedClient.act_cases h with
  | disconnect =>
    cases hConnection : s.connection with
    | none =>
      simp only [DedicatedClient.disconnect, hConnection, DedicatedClient.setTasks_tasks, hTasks]
      exact ⟨.idle fun _ => hConnection, rfl⟩
    | some x =>
      have hSame : (s.disconnectFrom x).tasks = s.tasks :=
        (DedicatedClient.disconnectFrom_eq s x).2.1
      simp only [DedicatedClient.disconnect, hConnection, DedicatedClient.setTasks_tasks, hSame,
        hTasks]
      refine ⟨.stopping, ?_⟩
      unfold DedicatedClient.disconnectFrom
      simp only
      split <;> rfl

/-- What is in progress stays so in a step beside it. -/
theorem Shape.aside {s s' : DedicatedClient} {gone : Prop} {tasks : List DedicatedClient.Task}
    (h : Shape s gone tasks) (hConnection : s'.connection = s.connection)
    (hThread : s.contextThread = .none → s'.contextThread = .none) : Shape s' gone tasks := by
  cases h with
  | idle hGone => exact .idle fun hYes => hConnection.trans (hGone hYes)
  | called hGone => exact .called fun hYes => hConnection.trans (hGone hYes)
  | connecting hTasks hFree hNone hNot =>
    exact .connecting hTasks (hThread hFree) (hConnection.trans hNone) hNot
  | greeting hTasks hNot => exact .greeting hTasks hNot
  | stopping => exact .stopping
  | joining => exact .joining

/-- **The next part of the call in progress.** -/
theorem Shape.step {s s' : DedicatedClient} {gone : Prop} {event : DedicatedClient.Event}
    (h : Shape s gone (s.tasks .application)) (hTurn : DedicatedClient.Turn s event s')
    (hOwn : ∀ action, event ≠ .app .application action) (hDeny : event ≠ .deny)
    (hThrow : event = .throw → (s.tasks .application).head? = some .connect) :
    Shape s' gone (s'.tasks .application) ∧ s'.terminated = s.terminated := by
  cases hTurn with
  | aside hAside =>
    rw [hAside.tasks]
    exact ⟨h.aside hAside.connection hAside.thread, hAside.terminated⟩
  | app => exact absurd rfl (hOwn _)
  | deny => exact absurd rfl hDeny
  | threw hTasks =>
    have hHead := hThrow rfl
    rw [hTasks] at hHead
    cases hHead
  | @leave c rest hTasks =>
    rw [hTasks] at h
    rw [DedicatedClient.setTasks_tasks]
    cases h with
    | called hGone => exact ⟨.idle hGone, rfl⟩
    | connecting hConnecting hThread hNone hNot =>
      cases hConnecting with
      | asking => exact ⟨.connecting .starting hThread hNone hNot, rfl⟩
    | greeting hGreeting hNot =>
      cases hGreeting with
      | greeted => exact ⟨.greeting .returning hNot, rfl⟩
  | @throw rest hTasks =>
    rw [hTasks] at h
    cases h with
    | connecting hConnecting hThread hNone hNot =>
      cases hConnecting with
      | resolving =>
        refine ⟨?_, rfl⟩
        show Shape _ gone ((s.setTasks .application []).tasks .application)
        rw [DedicatedClient.setTasks_tasks]
        exact .idle fun hYes => absurd hYes hNot
    | greeting hGreeting => cases hGreeting
  | @create rest hTasks =>
    rw [hTasks] at h
    cases h with
    | connecting hConnecting hThread hNone hNot =>
      cases hConnecting with
      | resolving =>
        refine ⟨?_, rfl⟩
        have hNext : (s.create []).tasks .application =
            [.callback (.allowConnection s.allocated), .start s.allocated] := by
          simp [DedicatedClient.create, DedicatedClient.call, DedicatedClient.setTasks,
            DedicatedClient.setObject, DedicatedClient.notify]
        rw [hNext]
        exact .connecting .asking hThread hNone hNot
    | greeting hGreeting => cases hGreeting
  | @start x opened spawned rest hTasks =>
    rw [hTasks] at h
    cases h with
    | connecting hConnecting hThread hNone hNot =>
      cases hConnecting with
      | starting =>
        cases spawned with
        | false =>
          refine ⟨?_, rfl⟩
          show Shape _ gone ((s.setTasks .application []).tasks .application)
          rw [DedicatedClient.setTasks_tasks]
          exact .idle fun hYes => absurd hYes hNot
        | true =>
          have hFree : ((s.setTasks .application []).store x opened).contextThread = .none := hThread
          have hNext : (s.start x opened true []).tasks .application = [.greet x] ∧
              (s.start x opened true []).terminated = s.terminated := by
            simp only [DedicatedClient.start, if_true, DedicatedClient.assign, hFree]
            refine ⟨?_, rfl⟩
            simp [DedicatedClient.setTasks, DedicatedClient.store, DedicatedClient.notify,
              DedicatedClient.setObject]
          rw [hNext.1]
          exact ⟨.greeting .greeting hNot, hNext.2⟩
    | greeting hGreeting => cases hGreeting
  | @greet x rest hTasks =>
    rw [hTasks] at h
    cases h with
    | connecting hConnecting => cases hConnecting
    | greeting hGreeting hNot =>
      cases hGreeting with
      | greeting =>
        refine ⟨?_, rfl⟩
        have hNext : ((s.setTasks .application []).call .application (.onConnect x)
            [.connected x]).tasks .application = [.callback (.onConnect x), .connected x] := by
          simp [DedicatedClient.call, DedicatedClient.setTasks, DedicatedClient.notify]
        rw [hNext]
        exact .greeting .greeted hNot
  | @connected x rest hTasks =>
    rw [hTasks] at h
    cases h with
    | connecting hConnecting => cases hConnecting
    | greeting hGreeting hNot =>
      cases hGreeting with
      | returning =>
        refine ⟨?_, rfl⟩
        show Shape _ gone ((s.setTasks .application []).tasks .application)
        rw [DedicatedClient.setTasks_tasks]
        exact .idle fun hYes => absurd hYes hNot
  | @stop rest hTasks =>
    rw [hTasks] at h
    cases h with
    | connecting hConnecting => cases hConnecting
    | greeting hGreeting => cases hGreeting
    | stopping =>
      refine ⟨?_, rfl⟩
      show Shape _ gone ((s.setTasks .application [.join]).tasks .application)
      rw [DedicatedClient.setTasks_tasks]
      exact .joining
  | @join rest hTasks =>
    rw [hTasks] at h
    cases h with
    | connecting hConnecting => cases hConnecting
    | greeting hGreeting => cases hGreeting
    | joining =>
      refine ⟨?_, rfl⟩
      show Shape _ gone ((s.setTasks .application []).tasks .application)
      rw [DedicatedClient.setTasks_tasks]
      exact .idle fun _ => rfl
  | poll => exact ⟨h.aside rfl id, rfl⟩
  | @pop message q hIdle _ =>
    rw [hIdle] at h
    have hNext : (DedicatedClient.call { s with incoming := q } .application (.onMessage message)
        []).tasks .application = [.callback (.onMessage message)] := by
      simp [DedicatedClient.call, DedicatedClient.setTasks, DedicatedClient.notify, hIdle]
    refine ⟨?_, rfl⟩
    rw [hNext]
    cases h with
    | idle hGone => exact .called hGone
    | connecting hConnecting => cases hConnecting
    | greeting hGreeting => cases hGreeting

/-! ## Runs -/

/-- Between the calls `main` knows that it has no connection after `Disconnect`. -/
theorem Sound.rests (h : Sound m) (hRests : m.resting = true) :
    m.client.tasks .application = [] ∧ (m.Gone → m.client.connection = none) := by
  have hTasks := (resting_iff.mp hRests).1
  have hShape := h.shape
  rw [hTasks] at hShape
  cases hShape with
  | idle hGone => exact ⟨hTasks, hGone⟩
  | connecting hConnecting => cases hConnecting
  | greeting hGreeting => cases hGreeting

/-- A step of `main` with no call of the client in progress after it. -/
theorem sound_idle (hRunning : m.client.terminated = false)
    (hTasks : m.client.tasks .application = []) (hGone : m.Gone → m.client.connection = none)
    (hPosition : m.position ≠ .connect) : Sound m :=
  ⟨hRunning, hTasks.symm ▸ .idle hGone, fun hStart => absurd hStart hPosition⟩

/-- **Every step of `main` keeps the invariant.** -/
theorem Sound.step {event : Event} (h : Sound m) (hJoinable : m.client.Joinable)
    (hStep : m.step event = some m') : Sound m' := by
  cases step_cases hStep with
  | connect hRests hPosition hClient =>
    obtain ⟨hTasks, hNone, -, hCalls⟩ := h.starting hPosition
    cases DedicatedClient.act_cases (act_of_step hClient) with
    | reconnect hConnected =>
      rw [DedicatedClient.isConnected, hNone] at hConnected
      cases hConnected
    | connect =>
      refine ⟨h.running, ?_, fun hStart => by cases hStart⟩
      simp only [DedicatedClient.setTasks_tasks, hTasks]
      refine .connecting .resolving (hJoinable.joined hNone) hNone ?_
      rintro (hMem | hDone)
      · rw [hCalls] at hMem
        cases hMem
      · cases hDone
  | look hRests hPosition =>
    obtain ⟨hTasks, hGone⟩ := h.rests hRests
    refine sound_idle h.running hTasks (fun hYes => hGone (hYes.imp_right ?_)) (by simp)
    exact fun hDone => by cases hDone
  | ended hRests hPosition =>
    obtain ⟨hTasks, hGone⟩ := h.rests hRests
    refine sound_idle h.running hTasks (fun hYes => hGone (hYes.imp_right ?_)) (by simp)
    exact fun hDone => by cases hDone
  | skip hRests hPosition =>
    obtain ⟨hTasks, hGone⟩ := h.rests hRests
    refine sound_idle h.running hTasks (fun hYes => hGone (hYes.imp_right ?_)) (by simp)
    exact fun hDone => by cases hDone
  | @press now call rest action client hRests hPosition _ hAction hClient =>
    obtain ⟨hTasks, hGone⟩ := h.rests hRests
    obtain ⟨rfl, rfl⟩ | ⟨hOther, message, rfl⟩ := Call.action_cases hAction
    · obtain ⟨hShape, hSame⟩ := disconnect_shape hTasks (act_of_step hClient)
        (Gone { m with client := client, position := .keys rest, calls := m.calls ++ [.disconnect] })
      exact ⟨hSame.trans h.running, hShape, fun hStart => by cases hStart⟩
    · have hAside := aside_send (act_of_step hClient)
      refine sound_idle (hAside.terminated.trans h.running) (hAside.tasks.trans hTasks) ?_ (by simp)
      rintro (hMem | hDone)
      · have hBefore : .disconnect ∈ m.calls := by
          rcases List.mem_append.mp hMem with hOld | hNew
          · exact hOld
          · exact absurd (List.mem_singleton.mp hNew).symm hOther
        exact hAside.connection.trans (hGone (.inl hBefore))
      · cases hDone
  | @poll client hRests hPosition hClient =>
    obtain ⟨hTasks, hGone⟩ := h.rests hRests
    cases DedicatedClient.next_cases (DedicatedClient.next_of_step hClient) with
    | poll =>
      refine sound_idle h.running hTasks (fun hYes => hGone (hYes.imp_right ?_)) (by simp)
      exact fun hDone => by cases hDone
  | @disconnect client hRests hPosition hClient =>
    obtain ⟨hTasks, -⟩ := h.rests hRests
    obtain ⟨hShape, hSame⟩ := disconnect_shape hTasks (act_of_step hClient)
      (Gone { m with client := client, position := .done })
    exact ⟨hSame.trans h.running, hShape, fun hStart => by cases hStart⟩
  | @client event client hLets hClient =>
    have hTurn := DedicatedClient.turn_of_step hClient
    obtain ⟨hShape, hSame⟩ := h.shape.step hTurn
      (fun action hEvent => by rw [hEvent] at hLets; exact hLets)
      (fun hEvent => by rw [hEvent] at hLets; exact hLets)
      (fun hEvent => by rw [hEvent] at hLets; exact hLets)
    refine ⟨hSame.trans h.running, hShape, fun hStart => ?_⟩
    obtain ⟨hTasks, hNone, hPoll, hCalls⟩ := h.starting hStart
    have hNothing : ∀ {tasks : List DedicatedClient.Task} {task : DedicatedClient.Task},
        m.client.tasks .application ≠ task :: tasks := by
      intro tasks task hSome
      rw [hTasks] at hSome
      cases hSome
    cases hTurn with
    | aside hAside =>
      exact ⟨hAside.tasks.trans hTasks, hAside.connection.trans hNone, hAside.poll.trans hPoll,
        hCalls⟩
    | app => exact hLets.elim
    | deny hSome | throw hSome | threw hSome | leave hSome | create hSome | start hSome
    | greet hSome | connected hSome | stop hSome | join hSome => exact absurd hSome hNothing
    | poll hNot hPolled =>
      -- nobody polls before `Connect` is called
      cases Polling.step_cases hPolled with
      | call => exact hLets.elim
      | wake hOther | test hOther | pop hOther =>
        rw [hPoll] at hOther
        cases hOther
    | pop _ hPolled =>
      cases Polling.step_cases hPolled with
      | pop hOther =>
        rw [hPoll] at hOther
        cases hOther

/-- What holds at the end of `main`, and before it. -/
structure Returns (m : Main) : Prop where
  /-- `std::terminate` has not been called. -/
  running : m.client.terminated = false
  /-- No thread is left, and nothing can run on one, when `main` has returned. -/
  done : m.position = .done → m.resting = true →
    m.client.connection = none ∧ m.client.Peaceful

theorem sound_of_reach {ok : Main → Event → Prop} (h : Reach system ok m) :
    Sound m ∧ m.client.Joinable := by
  refine h.invariant (I := fun m => Sound m ∧ m.client.Joinable) ?_ ?_
  · rintro _ rfl
    exact ⟨sound_init, DedicatedClient.joinable_init⟩
  · rintro m event m' ⟨hSound, hJoinable⟩ _ hStep
    refine ⟨hSound.step hJoinable hStep, ?_⟩
    cases step_cases hStep with
    | connect _ _ hClient | press _ _ _ _ hClient | poll _ _ hClient | disconnect _ _ hClient
    | client _ hClient => exact hJoinable.next (DedicatedClient.next_of_step hClient)
    | look | ended | skip => exact hJoinable

/-- **`main` returns in peace**: in every run of the program no thread of the client is replaced
while it is joinable, and when `main` has returned the client has neither a connection nor a
thread. -/
theorem returns_of_reach {ok : Main → Event → Prop} (h : Reach system ok m) : Returns m := by
  obtain ⟨hSound, hJoinable⟩ := sound_of_reach h
  refine ⟨hSound.running, fun hDone hRests => ?_⟩
  have hNone := (hSound.rests hRests).2 (.inr hDone)
  exact ⟨hNone, hJoinable.peaceful hNone⟩

/-! ## The keys -/

/-- The calls of an iteration that sees these keys after those. -/
def rises (old new : Keys) : List Call := Call.all.filter fun call => new call.key && !old call.key

/-- The calls for a sequence of states of the keys. -/
def presses (old : Keys) : List Keys → List Call
  | [] => []
  | keys :: rest => rises old keys ++ presses keys rest

/-- What was seen with the window in the foreground. -/
def seen (m : Main) : List Keys := m.frames.filterMap id

/-- The calls that the iteration in progress is still to make. -/
def pending (m : Main) : List Call :=
  match m.position with
  | .keys calls => calls.filter m.down
  | .connect | .loop | .disconnect | .done => []

theorem presses_append (old : Keys) (keys : List Keys) (last : Keys) :
    presses old (keys ++ [last]) = presses old keys ++ rises (keys.getLastD old) last := by
  induction keys generalizing old with
  | nil => exact List.append_nil _
  | cons first keys ih =>
    rw [List.cons_append, presses, ih, presses, List.append_assoc]
    cases keys <;> rfl

/-- The keys are those of the last iteration in the foreground, and the calls are made for those
that went down. -/
structure Typed (m : Main) : Prop where
  keys : m.pKeys = m.seen.getLastD fun _ => false
  old : (∀ calls, m.position ≠ .keys calls) → m.pOldKeys = m.pKeys
  calls : m.calls ++ m.pending = presses (fun _ => false) m.seen

theorem typed_init : Typed {} := ⟨rfl, fun _ => rfl, rfl⟩

/-- **Every step of `main` keeps to the keys.** -/
theorem Typed.step {event : Event} (h : Typed m) (hStep : m.step event = some m') : Typed m' := by
  have hQuiet : (∀ calls, m.position ≠ .keys calls) → m.pending = [] := by
    intro hPosition
    cases hWhere : m.position with
    | keys calls => exact absurd hWhere (hPosition calls)
    | connect | loop | disconnect | done => simp only [pending, hWhere]
  cases step_cases hStep with
  | connect _ hPosition | ended _ hPosition | disconnect _ hPosition =>
    have hNot : ∀ calls, m.position ≠ .keys calls := by
      intro calls hKeys
      rw [hPosition] at hKeys
      cases hKeys
    have hCalls := h.calls
    rw [hQuiet hNot] at hCalls
    exact ⟨h.keys, fun _ => h.old hNot, hCalls⟩
  | @look shown _ hPosition _ =>
    have hNot : ∀ calls, m.position ≠ .keys calls := by
      intro calls hKeys
      rw [hPosition] at hKeys
      cases hKeys
    have hOld := h.old hNot
    have hCalls := h.calls
    rw [hQuiet hNot, List.append_nil] at hCalls
    cases shown with
    | none =>
      -- nothing was seen, and nothing has gone down
      have hSeen : ({ m with
          pKeys := m.pKeys
          position := .keys Call.all
          frames := m.frames ++ [none] } : Main).seen = m.seen := by
        simp [seen]
      refine ⟨?_, fun hNever => absurd rfl (hNever Call.all), ?_⟩
      · rw [Option.getD_none, hSeen]
        exact h.keys
      · rw [Option.getD_none, hSeen, ← hCalls]
        simp [pending, down, hOld]
    | some keys =>
      have hSeen : ({ m with
          pKeys := keys
          position := .keys Call.all
          frames := m.frames ++ [some keys] } : Main).seen = m.seen ++ [keys] := by
        simp [seen]
      refine ⟨?_, fun hNever => absurd rfl (hNever Call.all), ?_⟩
      · rw [Option.getD_some, hSeen, List.getLastD_concat]
      · rw [Option.getD_some, hSeen, presses_append, ← h.keys, ← hCalls, ← hOld]
        rfl
  | @press now call rest action client _ hPosition hDown _ _ =>
    have hCalls := h.calls
    refine ⟨h.keys, fun hNever => absurd rfl (hNever rest), ?_⟩
    simp only [pending, hPosition] at hCalls
    rw [List.filter_cons_of_pos hDown, List.append_cons] at hCalls
    exact hCalls
  | @skip now call rest _ hPosition hUp =>
    have hCalls := h.calls
    refine ⟨h.keys, fun hNever => absurd rfl (hNever rest), ?_⟩
    simp only [pending, hPosition] at hCalls
    rw [List.filter_cons_of_neg (by rw [hUp]; exact Bool.false_ne_true)] at hCalls
    exact hCalls
  | poll _ hPosition =>
    have hCalls := h.calls
    simp only [pending, hPosition] at hCalls
    exact ⟨h.keys, fun _ => rfl, hCalls⟩
  | client => exact ⟨h.keys, h.old, h.calls⟩

/-- **A key makes one call each time it goes down**: in every run of the program the calls made
for the keys, with those that the iteration in progress is still to make, are those of the
keys that went down from one iteration to the next, in order, where the iterations with the
window in the background count for nothing. -/
theorem presses_of_reach {ok : Main → Event → Prop} (h : Reach system ok m) :
    m.calls ++ m.pending = presses (fun _ => false) m.seen := by
  have hTyped : Typed m := by
    refine h.invariant (I := Typed) ?_ fun _ _ _ hTyped _ hStep => hTyped.step hStep
    rintro _ rfl
    exact typed_init
  exact hTyped.calls

/-- One key is down. -/
def only (key : Key) : Keys := fun k => k == key

/-- The first key is held for two iterations, the window goes to the background, and the third
key ends the program. -/
def session : List Event :=
  let connects : List DedicatedClient.Event :=
    [.create, .leave .application, .start true true, .run .application, .leave .application,
      .run .application, .enter]
  let leaves : List DedicatedClient.Event := [.run .application, .finish, .restart, .run .application]
  let iteration (seen : Option Keys) : List Event :=
    [.look seen, .press 0, .press 0, .press 0, .poll, .client (.poll .test)]
  [[.connect], connects.map .client, iteration (some (only .one)), iteration (some (only .one)),
    iteration none, [.look (some (only .three)), .press 0, .press 0, .press 0], leaves.map .client,
    [.poll, .client (.poll .test), .look none, .disconnect]].flatten

theorem exists_session : ∃ m, Reach system Free m ∧ m.calls = [.pingServer, .disconnect] ∧
    m.frames.length = 4 ∧ m.pending = [] ∧ m.position = .done ∧ m.resting = true := by
  obtain ⟨m, hReach, hEnd⟩ := Reach.exists_of_free (M := system) rfl session
    (fun m => decide (m.calls = [.pingServer, .disconnect] ∧ m.frames.length = 4 ∧
      m.pending = [] ∧ m.position = .done ∧ m.resting = true)) (by decide)
  exact ⟨m, hReach, of_decide_eq_true hEnd⟩

theorem presses_session : ∃ m, Reach system Free m ∧ m.frames.length = 4 ∧
    presses (fun _ => false) m.seen = [.pingServer, .disconnect] := by
  obtain ⟨m, hReach, hCalls, hFrames, hPending, -, -⟩ := exists_session
  have hPresses := presses_of_reach hReach
  rw [hPending, List.append_nil] at hPresses
  exact ⟨m, hReach, hFrames, hPresses.symm.trans hCalls⟩

theorem returns_session : ∃ m, Reach system Free m ∧ m.calls ≠ [] ∧ m.client.connection = none ∧
    m.client.Peaceful := by
  obtain ⟨m, hReach, hCalls, -, -, hDone, hRests⟩ := exists_session
  refine ⟨m, hReach, by rw [hCalls]; simp, (returns_of_reach hReach).done hDone hRests⟩

end Main

end Client

end MinecraftNetwork
