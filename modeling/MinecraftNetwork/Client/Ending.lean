import MinecraftNetwork.Client.Main

/-!
# The third key ends the program

Once `main` has called `Disconnect` and the context is stopped, `main` comes to its end. The
context thread finishes the handler it is in, whose messages `PollMessages` still hands over,
and nobody puts more into the queue after the join; then `IsConnected` is false, and the loop
ends. The measure `left` bounds the steps of all of them together, in any order
(`ended_of_reach`). What can keep `main` from its end is a message that `OnMessage` cannot
read, which aborts the process.
-/

namespace MinecraftNetwork

open Runs

namespace DedicatedClient

variable {s s' : DedicatedClient}

/-- A member function goes on: each of its effects may put a message into the queue. -/
theorem queue_advance (s : DedicatedClient) (x : Nat) (effects : List Effect) :
    (((s.advance x effects).tasks .context).map Task.weight).sum +
        (s.advance x effects).incoming.incomingMessages.length <
      ((s.tasks .context).map Task.weight).sum + s.incoming.incomingMessages.length +
        (2 * effects.length + 2) := by
  induction effects generalizing s with
  | nil =>
    show _ < _ + _ + (2 * 0 + 2)
    rw [advance]
    omega
  | cons effect effects ih =>
    have hGoes : ∀ t : DedicatedClient, t.tasks = s.tasks →
        t.incoming.incomingMessages.length ≤ s.incoming.incomingMessages.length + 1 →
        (((t.advance x effects).tasks .context).map Task.weight).sum +
            (t.advance x effects).incoming.incomingMessages.length <
          ((s.tasks .context).map Task.weight).sum + s.incoming.incomingMessages.length +
            (2 * (effect :: effects).length + 2) := by
      intro t hTasks hQueue
      have hRest := ih t
      rw [hTasks] at hRest
      rw [List.length_cons]
      omega
    have hVerdict : ∀ c : Callback, ((((s.setObject x ((s.objects x).perform effect)).call .context c
        [.resume x effects]).tasks .context).map Task.weight).sum + s.incoming.incomingMessages.length <
        ((s.tasks .context).map Task.weight).sum + s.incoming.incomingMessages.length +
          (2 * (effect :: effects).length + 2) := by
      intro c
      simp only [call, notify, setObject, setTasks, Function.update_self, List.cons_append,
        List.nil_append, List.map_cons, List.sum_cons, Task.weight, List.length_cons]
      omega
    cases effect with
    | onValidate | onInvalidate => exact hVerdict _
    | disconnect => exact hGoes _ rfl (Nat.le_succ _)
    | emplaceBack tagged m =>
      refine hGoes { s.setObject x _ with incoming := _ } rfl ?_
      show (s.incoming.incomingMessages ++ [m]).length ≤ _
      rw [List.length_append, List.length_singleton]
    | asyncConnect | asyncRead | asyncWrite | postClose | emptyDeque =>
      exact hGoes _ rfl (Nat.le_succ _)

/-- A callback of the application is no matter of the context thread. -/
theorem leaving_call (s : DedicatedClient) (c : Callback) :
    (s.call .application c []).leaving = s.leaving := by
  simp [leaving, call, setTasks, notify]

end DedicatedClient

/-- How far `PollMessages` is from its end, the queue apart. -/
def Poll.rank : Poll → Nat
  | .idle | .waiting _ => 0
  | .testing _ => 2
  | .popping _ => 1

namespace Client

/-- How far `main` is from its end once the client has no connection. -/
def Position.rank : Position → Nat
  | .connect | .done => 0
  | .disconnect => 1
  | .loop => 2
  | .keys calls => calls.length + 5

namespace Main

/-- What is left to do. -/
def left (m : Main) : Nat :=
  4 * m.client.leaving + 3 * m.client.incoming.incomingMessages.length +
    (m.client.tasks .application).length + m.client.incoming.poll.rank + m.position.rank

/-- A step of `main`, of the call it is in, or of the context thread on its way to its end. -/
def Proceeds (_ : Main) : Event → Prop
  | .client (.run .application) | .client (.leave .application) | .client (.poll _) => True
  | .client event => event.leaves = true
  | .connect | .look _ | .press _ | .poll | .disconnect => True

/-- Any other step. -/
def Stays (m : Main) (event : Event) : Prop := ¬ m.Proceeds event

/-- `main` has come to `std::cin.get()`, no call of the client is in progress, and the client has
neither a connection nor a thread. -/
structure Returned (m : Main) : Prop where
  position : m.position = .done
  rests : m.resting = true
  connection : m.client.connection = none
  peaceful : m.client.Peaceful

/-- `main` is in the join of `Disconnect`, or has no connection any more. -/
structure Closing (m : Main) : Prop where
  joinable : m.client.Joinable
  running : m.client.terminated = false
  queue : m.client.incoming.Sound
  awake : ∀ messageCount, m.client.incoming.poll ≠ .waiting messageCount
  position : m.position ≠ .connect
  way : m.client.tasks .application = [.join] ∨ m.client.connection = none ∧
    (m.client.tasks .application = [] ∨
      ∃ message, m.client.tasks .application = [.callback (.onMessage message)])

variable {m m' : Main}

/-- Without a connection. -/
theorem Closing.rests (h : Closing m) (hRests : m.resting = true) :
    m.client.tasks .application = [] ∧ m.client.incoming.poll = .idle ∧
      m.client.connection = none := by
  obtain ⟨hTasks, hPoll⟩ := resting_iff.mp hRests
  obtain hJoin | ⟨hNone, -⟩ := h.way
  · rw [hTasks] at hJoin
    cases hJoin
  · exact ⟨hTasks, hPoll, hNone⟩

/-- A call of `main` without a connection does nothing. -/
theorem act_nothing {s s' : DedicatedClient} {now : UInt64} {call : Call}
    {action : DedicatedClient.Action} (hAction : call.action now = .ok action)
    (hNone : s.connection = none) (hStep : s.act .application action = some s') :
    s'.tasks .application = s.tasks .application ∧ s'.leaving = s.leaving ∧
      s'.incoming = s.incoming ∧ s'.connection = none ∧ s'.terminated = s.terminated := by
  obtain ⟨-, rfl⟩ | ⟨-, message, rfl⟩ := Call.action_cases hAction
  · cases DedicatedClient.act_cases hStep with
    | disconnect =>
      have hSame : s.disconnect .application [] =
          s.setTasks .application (s.tasks .application) := by
        rw [DedicatedClient.disconnect, hNone]
        rfl
      rw [hSame]
      refine ⟨DedicatedClient.setTasks_tasks .., ?_, rfl, hNone, rfl⟩
      rw [DedicatedClient.leaving, DedicatedClient.setTasks_context]
      rfl
  · cases DedicatedClient.act_cases hStep with
    | send hOwn =>
      rw [hNone] at hOwn
      cases hOwn
    | sendNothing => exact ⟨rfl, rfl, rfl, hNone, rfl⟩

/-- A step of `main` itself. -/
theorem Closing.own (h : Closing m) {client : DedicatedClient} {position : Position}
    {pKeys pOldKeys : Keys} {frames : List (Option Keys)} {calls : List Call}
    (hRests : m.resting = true) (hTasks : client.tasks .application = m.client.tasks .application)
    (hLeaving : client.leaving = m.client.leaving)
    (hQueue : client.incoming.incomingMessages = m.client.incoming.incomingMessages)
    (hSound : client.incoming.Sound) (hConnection : client.connection = none)
    (hTerminated : client.terminated = m.client.terminated) (hJoinable : client.Joinable)
    (hAwake : ∀ messageCount, client.incoming.poll ≠ .waiting messageCount)
    (hPosition : position ≠ .connect)
    (hRank : client.incoming.poll.rank + position.rank < m.position.rank) :
    Closing { client, position, pKeys, pOldKeys, frames, calls } ∧
      left { client, position, pKeys, pOldKeys, frames, calls } < left m := by
  obtain ⟨hNoTasks, hPoll, hNone⟩ := h.rests hRests
  refine ⟨⟨hJoinable, hTerminated.trans h.running, hSound, hAwake, hPosition,
    .inr ⟨hConnection, .inl (hTasks.trans hNoTasks)⟩⟩, ?_⟩
  have hIdle : m.client.incoming.poll.rank = 0 := by
    rw [hPoll]
    rfl
  simp only [left, hTasks, hLeaving, hQueue, hIdle]
  omega

/-- A call of `main`, which does nothing without a connection. -/
theorem Closing.calls (h : Closing m) {now : UInt64} {call : Call} {action : DedicatedClient.Action}
    {client : DedicatedClient} {position : Position} {calls : List Call} (hRests : m.resting = true)
    (hAction : call.action now = .ok action)
    (hClient : m.client.step (.app .application action) = some client)
    (hPosition : position ≠ .connect) (hRank : position.rank < m.position.rank) :
    Closing { m with client := client, position := position, calls := calls } ∧
      left { m with client := client, position := position, calls := calls } < left m := by
  obtain ⟨-, hPoll, hNone⟩ := h.rests hRests
  have hJoinable := h.joinable.next (DedicatedClient.next_of_step hClient)
  obtain ⟨hTasks, hLeaving, hIncoming, hConnection, hTerminated⟩ :=
    act_nothing hAction hNone (act_of_step hClient)
  refine h.own hRests hTasks hLeaving (by rw [hIncoming]) ?_ hConnection hTerminated hJoinable ?_
    hPosition ?_
  · rw [hIncoming]
    exact h.queue
  · rw [hIncoming]
    exact h.awake
  · rw [hIncoming, hPoll]
    show 0 + position.rank < _
    omega

/-- No handler is taken any more. -/
theorem Closing.busy (h : Closing m) : m.client.isReady = false := by
  rw [Bool.eq_false_iff]
  intro hReady
  have hThread := DedicatedClient.isReady_running hReady
  obtain hJoin | ⟨hNone, -⟩ := h.way
  · have hStopped := h.joinable.stopped (by rw [hJoin]; rfl) (by rw [hThread]; rfl)
    simp [DedicatedClient.isReady, hStopped] at hReady
  · rw [h.joinable.joined hNone] at hThread
    cases hThread

/-- The context thread goes on to its end while `main` joins it. -/
theorem Closing.context (h : Closing m) {event : DedicatedClient.Event} {client : DedicatedClient}
    (hLeaves : event.leaves = true) (hStep : m.client.step event = some client) :
    Closing { m with client := client } ∧ left { m with client := client } < left m := by
  obtain hJoin | ⟨hNone, -⟩ := h.way
  · have hJoining : m.client.Joining := ⟨h.joinable, h.running, by rw [hJoin]; rfl⟩
    obtain ⟨⟨hJoinable, hRunning, -⟩, hLess⟩ := hJoining.leaves hLeaves hStep
    -- what else changes is the queue, by the messages of the handler that goes on
    have hRest : client.tasks .application = m.client.tasks .application ∧
        client.incoming.poll = m.client.incoming.poll ∧ client.incoming.Sound ∧
          4 * client.leaving + 3 * client.incoming.incomingMessages.length <
            4 * m.client.leaving + 3 * m.client.incoming.incomingMessages.length := by
      cases DedicatedClient.next_cases (DedicatedClient.next_of_step hStep) with
      | app | deny | throwMake | throwAllow | throwGreet | create | start | greet | connected | stop
      | join | pop | poll | complete | closeSocket | runOut | transfer => cases hLeaves
      | @leave t c rest hTasks =>
        cases t with
        | application => cases hLeaves
        | context =>
          refine ⟨DedicatedClient.setTasks_application .., rfl, h.queue, ?_⟩
          show _ + 3 * m.client.incoming.incomingMessages.length < _
          omega
      | @resume x effects rest hTasks =>
        have hAside := DedicatedClient.aside_advance (m.client.setTasks .context rest) x effects
        have hQueue := DedicatedClient.queue_advance (m.client.setTasks .context rest) x effects
        have hThread : ((m.client.setTasks .context rest).advance x effects).contextThread =
            m.client.contextThread :=
          (DedicatedClient.beside_advance (m.client.setTasks .context rest) x effects).contextThread
        refine ⟨hAside.tasks.trans (DedicatedClient.setTasks_application ..), hAside.poll,
          hAside.queue h.queue, ?_⟩
        rw [DedicatedClient.setTasks_tasks] at hQueue
        simp only [DedicatedClient.leaving, hTasks, hThread, List.map_cons, List.sum_cons,
          DedicatedClient.Task.weight] at hLess ⊢
        have hSame : (m.client.setTasks .context rest).incoming = m.client.incoming := rfl
        rw [hSame] at hQueue
        omega
      | enter | finish | restart =>
        refine ⟨rfl, rfl, h.queue, ?_⟩
        show _ + 3 * m.client.incoming.incomingMessages.length < _
        omega
    obtain ⟨hTasks, hPoll, hSound, hLower⟩ := hRest
    refine ⟨⟨hJoinable, hRunning, hSound, ?_, h.position, .inl (hTasks.trans hJoin)⟩, ?_⟩
    · rw [hPoll]
      exact h.awake
    · simp only [left, hTasks, hPoll]
      omega
  · have hSilent := (h.joinable.peaceful hNone).silent event
    cases event with
    | run t | leave t =>
      cases t with
      | application => cases hLeaves
      | context =>
        rw [hSilent rfl] at hStep
        cases hStep
    | enter | finish | restart =>
      rw [hSilent rfl] at hStep
      cases hStep
    | app | deny | throw | create | start | poll | complete | closeSocket | runOut | transfer =>
      cases hLeaves

/-- The join returns. -/
theorem Closing.run (h : Closing m) {client : DedicatedClient}
    (hStep : m.client.step (.run .application) = some client) :
    Closing { m with client := client } ∧ left { m with client := client } < left m := by
  have hNext := DedicatedClient.next_of_step hStep
  have hJoinable := h.joinable.next hNext
  have hHead : ∀ {task : DedicatedClient.Task} {rest : List DedicatedClient.Task},
      m.client.tasks .application = task :: rest → task = .join ∧ rest = [] ∨
        ∃ message, task = .callback (.onMessage message) := by
    intro task rest hTasks
    obtain hJoin | ⟨-, hNothing | ⟨message, hCalled⟩⟩ := h.way
    · rw [hTasks] at hJoin
      exact .inl (List.cons.inj hJoin)
    · rw [hTasks] at hNothing
      cases hNothing
    · rw [hTasks] at hCalled
      exact .inr ⟨message, (List.cons.inj hCalled).1⟩
  cases DedicatedClient.next_cases hNext with
  | greet hTasks | connected hTasks | stop hTasks =>
    obtain ⟨hJoin, -⟩ | ⟨message, hCalled⟩ := hHead hTasks
    · cases hJoin
    · cases hCalled
  | @join rest hTasks hEnded =>
    obtain ⟨-, rfl⟩ | ⟨message, hCalled⟩ := hHead hTasks
    · have hGone : (m.client.setTasks .application []).tasks .application = [] :=
        DedicatedClient.setTasks_tasks ..
      refine ⟨⟨hJoinable, h.running, h.queue, h.awake, h.position, .inr ⟨rfl, .inl hGone⟩⟩, ?_⟩
      have hContext := DedicatedClient.setTasks_context m.client []
      simp only [left, DedicatedClient.leaving, hContext, hTasks, hGone,
        DedicatedClient.ContextThread.rank]
      show _ + 3 * m.client.incoming.incomingMessages.length + [].length +
        m.client.incoming.poll.rank + _ < _
      rw [List.length_nil, List.length_singleton]
      omega
    · cases hCalled

/-- `OnMessage` returns. -/
theorem Closing.leave (h : Closing m) {client : DedicatedClient}
    (hStep : m.client.step (.leave .application) = some client) :
    Closing { m with client := client } ∧ left { m with client := client } < left m := by
  have hNext := DedicatedClient.next_of_step hStep
  have hJoinable := h.joinable.next hNext
  cases DedicatedClient.next_cases hNext with
  | @leave _ c rest hTasks =>
    obtain hJoin | ⟨hNone, hNothing | ⟨message, hCalled⟩⟩ := h.way
    · rw [hTasks] at hJoin
      cases hJoin
    · rw [hTasks] at hNothing
      cases hNothing
    · rw [hTasks] at hCalled
      obtain ⟨-, rfl⟩ := List.cons.inj hCalled
      have hGone : (m.client.setTasks .application []).tasks .application = [] :=
        DedicatedClient.setTasks_tasks ..
      refine ⟨⟨hJoinable, h.running, h.queue, h.awake, h.position, .inr ⟨hNone, .inl hGone⟩⟩, ?_⟩
      have hContext := DedicatedClient.setTasks_context m.client []
      simp only [left, DedicatedClient.leaving, hContext, hTasks, hGone]
      show _ + 3 * m.client.incoming.incomingMessages.length + [].length +
        m.client.incoming.poll.rank + _ < _
      rw [List.length_nil, List.length_singleton]
      show 4 * (_ + m.client.contextThread.rank) + _ + _ + _ + _ < _
      omega

/-- `PollMessages` goes on with the messages that are left. -/
theorem Closing.poll (h : Closing m) {event : PollEvent} {client : DedicatedClient}
    (hLets : m.Lets (.poll event)) (hStep : m.client.step (.poll event) = some client) :
    Closing { m with client := client } ∧ left { m with client := client } < left m := by
  have hNext := DedicatedClient.next_of_step hStep
  have hJoinable := h.joinable.next hNext
  have hNone : m.client.tasks .application = [] → m.client.connection = none := by
    intro hIdle
    obtain hJoin | ⟨hNone, -⟩ := h.way
    · rw [hIdle] at hJoin
      cases hJoin
    · exact hNone
  cases DedicatedClient.next_cases hNext with
  | @poll _ q hIdle hNot hPoll =>
    have hSound := (h.queue.step hPoll).1
    have hWay : ∀ client : DedicatedClient, client.tasks = m.client.tasks →
        client.connection = m.client.connection → client.tasks .application = [.join] ∨
          client.connection = none ∧ (client.tasks .application = [] ∨
            ∃ message, client.tasks .application = [.callback (.onMessage message)]) := by
      intro client hTasks hConnection
      exact .inr ⟨hConnection.trans (hNone hIdle), .inl (by rw [hTasks, hIdle])⟩
    cases Polling.step_cases hPoll with
    | call => exact hLets.elim
    | pop => exact absurd rfl hNot
    | wake hWaiting => exact absurd hWaiting (h.awake _)
    | @test n hTesting =>
      refine ⟨⟨hJoinable, h.running, hSound, fun k hk => ?_, h.position, hWay _ rfl rfl⟩, ?_⟩
      · simp only at hk
        split at hk <;> cases hk
      · have hRank : (if n ≠ 0 ∧ !m.client.incoming.incomingMessages.isEmpty then
            Poll.popping (n - 1) else .idle).rank < m.client.incoming.poll.rank := by
          rw [hTesting]
          split
          · show 1 < 2
            omega
          · show 0 < 2
            omega
        simp only [left]
        show 4 * m.client.leaving + _ + _ + _ + _ < _
        omega
  | @pop message rest q hIdle hQueue hPop =>
    have hSound := (h.queue.step hPop).1
    cases Polling.step_cases hPop with
    | @pop n first others hPopping hFront =>
      have hCalled : (DedicatedClient.call { m.client with
            incoming := { m.client.incoming with
              incomingMessages := others
              poll := .testing n
              processed := m.client.incoming.processed ++ [first] } } .application
          (.onMessage message) []).tasks .application = [.callback (.onMessage message)] := by
        simp [DedicatedClient.call, DedicatedClient.setTasks, DedicatedClient.notify, hIdle]
      refine ⟨⟨hJoinable, h.running, hSound, (fun k hk => by cases hk), h.position,
        .inr ⟨hNone hIdle, .inr ⟨message, hCalled⟩⟩⟩, ?_⟩
      have hLeaving := DedicatedClient.leaving_call { m.client with
        incoming := { m.client.incoming with
          incomingMessages := others
          poll := .testing n
          processed := m.client.incoming.processed ++ [first] } } (.onMessage message)
      have hLength : m.client.incoming.incomingMessages.length = others.length + 1 := by
        rw [hFront, List.length_cons]
      have hRank : m.client.incoming.poll.rank = 1 := by
        rw [hPopping]
        rfl
      simp only [left, hLeaving, hCalled, hIdle, hLength, hRank, List.length_singleton,
        List.length_nil]
      show 4 * m.client.leaving + 3 * others.length + 1 + 2 + _ < _
      omega

/-- **Every step towards the end is one less that is left.** -/
theorem Closing.proceeds {event : Event} (h : Closing m) (hProceeds : m.Proceeds event)
    (hStep : m.step event = some m') : Closing m' ∧ m'.left < m.left := by
  cases step_cases hStep with
  | connect _ hPosition => exact absurd hPosition h.position
  | look hRests _ hConnected =>
    obtain ⟨-, -, hNone⟩ := h.rests hRests
    rw [DedicatedClient.isConnected, hNone] at hConnected
    cases hConnected
  | ended hRests hPosition =>
    obtain ⟨-, hPoll, hNone⟩ := h.rests hRests
    refine h.own hRests rfl rfl rfl h.queue hNone rfl h.joinable h.awake (by simp) ?_
    rw [hPoll, hPosition]
    show 0 + 1 < 2
    omega
  | @skip now call rest hRests hPosition _ =>
    obtain ⟨-, hPoll, hNone⟩ := h.rests hRests
    refine h.own hRests rfl rfl rfl h.queue hNone rfl h.joinable h.awake (by simp) ?_
    rw [hPoll, hPosition]
    show 0 + (rest.length + 5) < rest.length + 1 + 5
    omega
  | @press now call rest action client hRests hPosition _ hAction hClient =>
    refine h.calls hRests hAction hClient (by simp) ?_
    rw [hPosition]
    show rest.length + 5 < rest.length + 1 + 5
    omega
  | poll hRests hPosition hClient =>
    obtain ⟨-, -, hNone⟩ := h.rests hRests
    have hNext := DedicatedClient.next_of_step hClient
    have hJoinable := h.joinable.next hNext
    cases DedicatedClient.next_cases hNext with
    | poll _ _ hPoll =>
      have hSound := (h.queue.step hPoll).1
      cases Polling.step_cases hPoll with
      | call =>
        refine h.own hRests rfl rfl rfl hSound hNone rfl hJoinable (fun n hn => ?_) (by simp) ?_
        · cases hn
        · rw [hPosition]
          show 2 + 2 < 0 + 5
          omega
  | disconnect hRests hPosition hClient =>
    have hAction : Call.disconnect.action 0 = .ok .disconnect := rfl
    refine h.calls hRests hAction hClient (by simp) ?_
    rw [hPosition]
    show 0 < 1
    omega
  | @client event client hLets hClient =>
    cases event with
    | run t =>
      cases t with
      | application => exact h.run hClient
      | context => exact h.context rfl hClient
    | leave t =>
      cases t with
      | application => exact h.leave hClient
      | context => exact h.context rfl hClient
    | poll event => exact h.poll hLets hClient
    | enter | finish | restart => exact h.context rfl hClient
    | app | deny => exact hLets.elim
    | throw | create | start | complete | closeSocket | runOut | transfer => cases hProceeds

/-- Nothing else takes part: the other steps are those of the network. -/
theorem Closing.stays {event : Event} (h : Closing m) (hStays : m.Stays event)
    (hStep : m.step event = some m') : Closing m' ∧ m'.left ≤ m.left := by
  have hHead : ∀ {task : DedicatedClient.Task} {rest : List DedicatedClient.Task},
      m.client.tasks .application = task :: rest → task = .join ∨
        ∃ message, task = .callback (.onMessage message) := by
    intro task rest hTasks
    obtain hJoin | ⟨-, hNothing | ⟨message, hCalled⟩⟩ := h.way
    · rw [hTasks] at hJoin
      exact .inl (List.cons.inj hJoin).1
    · rw [hTasks] at hNothing
      cases hNothing
    · rw [hTasks] at hCalled
      exact .inr ⟨message, (List.cons.inj hCalled).1⟩
  cases step_cases hStep with
  | connect | look | ended | skip | press | poll | disconnect => exact absurd trivial hStays
  | @client event client hLets hClient =>
    have hNext := DedicatedClient.next_of_step hClient
    have hJoinable := h.joinable.next hNext
    have hBusy := h.busy
    cases DedicatedClient.next_cases hNext with
    | app | deny => exact hLets.elim
    | throwMake hTasks | create hTasks | start hTasks =>
      obtain hJoin | ⟨message, hCalled⟩ := hHead hTasks
      · cases hJoin
      · cases hCalled
    | throwAllow hTasks | throwGreet hTasks =>
      obtain hJoin | ⟨message, hCalled⟩ := hHead hTasks
      · cases hJoin
      · cases hCalled
    | complete hReady | closeSocket hReady | runOut hReady =>
      rw [hBusy] at hReady
      cases hReady
    | transfer =>
      exact ⟨⟨hJoinable, h.running, h.queue, h.awake, h.position, h.way⟩, Nat.le_refl _⟩
    | @leave t =>
      cases t with
      | application | context => exact absurd (by trivial) hStays
    | resume | greet | connected | stop | join | pop | poll | enter | finish | restart =>
      exact absurd (by trivial) hStays

/-! ## The end -/

/-- Without a connection the calls of `main` can be made. -/
theorem exists_action {s : DedicatedClient} (hRunning : s.terminated = false)
    (hTasks : s.tasks .application = []) (hPoll : s.incoming.poll = .idle)
    (hNone : s.connection = none) (call : Call) : ∃ action client,
      call.action 0 = .ok action ∧ s.step (.app .application action) = some client := by
  have hApplication : s.inApplication .application = true := by
    simp [DedicatedClient.inApplication, hTasks, hPoll]
  have hSend : ∀ message, s.step (.app .application (.send message)) = some s := by
    intro message
    simp [DedicatedClient.step, DedicatedClient.next, hRunning, hApplication, DedicatedClient.act,
      hNone]
  cases call with
  | pingServer =>
    rw [Call.action, Relay.pingServer_eq]
    exact ⟨_, _, rfl, hSend _⟩
  | messageOtherClients => exact ⟨_, _, rfl, hSend _⟩
  | disconnect =>
    refine ⟨.disconnect, s.disconnect .application [], rfl, ?_⟩
    simp [DedicatedClient.step, DedicatedClient.next, hRunning, hApplication, DedicatedClient.act]

/-- **When nothing more can be done, `main` has returned**, unless the process was aborted. -/
theorem Closing.returned (h : Closing m) (hRest : AtRest system Proceeds m) :
    Returned m ∨ m.aborted = true := by
  by_cases hAborted : m.aborted = true
  · exact .inr hAborted
  left
  have hClient : ∀ event, m.Lets event → m.Proceeds (.client event) →
      m.client.step event = none := by
    intro event hLets hProceeds
    have hNone : m.step (.client event) = none := hRest _ hProceeds
    rw [Main.step, if_neg hAborted] at hNone
    simp only [if_pos hLets] at hNone
    exact Option.map_eq_none_iff.mp hNone
  obtain hJoin | ⟨hNone, hTasks | ⟨message, hCalled⟩⟩ := h.way
  · have hJoining : m.client.Joining := ⟨h.joinable, h.running, by rw [hJoin]; rfl⟩
    have hContext : AtRest DedicatedClient.system DedicatedClient.Leaves m.client := by
      intro event hLeaves
      cases event with
      | run t | leave t =>
        cases t with
        | application => cases hLeaves
        | context => exact hClient _ trivial rfl
      | enter | finish | restart => exact hClient _ trivial rfl
      | app | deny | throw | create | start | poll | complete | closeSocket | runOut | transfer =>
        cases hLeaves
    obtain ⟨t, hLeft, -⟩ := hJoining.left hContext
    rw [hClient (.run .application) trivial trivial] at hLeft
    cases hLeft
  · cases hPoll : m.client.incoming.poll with
    | waiting n => exact absurd hPoll (h.awake n)
    | testing n =>
      have hTest := hClient (.poll .test) trivial trivial
      simp [DedicatedClient.step, h.running, DedicatedClient.next, hTasks, Polling.step,
        hPoll] at hTest
    | popping n =>
      obtain ⟨first, rest, hQueue⟩ := List.exists_cons_of_ne_nil (h.queue.front n hPoll)
      have hPop := hClient (.poll .pop) trivial trivial
      simp [DedicatedClient.step, h.running, DedicatedClient.next, hTasks, Polling.step,
        hPoll, hQueue] at hPop
    | idle =>
      have hRests : m.resting = true := resting_iff.mpr ⟨hTasks, hPoll⟩
      have hOwn : ∀ event, m.Proceeds event → (∀ e, event ≠ .client e) → m.next event = none := by
        intro event hProceeds hNot
        have hNothing : m.step event = none := hRest _ hProceeds
        cases event with
        | client e => exact absurd rfl (hNot e)
        | connect | look | press | poll | disconnect =>
          simpa [Main.step, hAborted, hRests] using hNothing
      cases hPosition : m.position with
      | connect => exact absurd hPosition h.position
      | done => exact ⟨hPosition, hRests, hNone, h.joinable.peaceful hNone⟩
      | loop =>
        have hLook := hOwn (.look none) trivial (by simp)
        simp only [next, hPosition] at hLook
        split at hLook <;> cases hLook
      | disconnect =>
        obtain ⟨action, client, hAction, hStep⟩ :=
          exists_action h.running hTasks hPoll hNone .disconnect
        cases hAction
        have hLast := hOwn .disconnect trivial (by simp)
        simp only [next, hPosition, hStep] at hLast
        cases hLast
      | keys calls =>
        cases calls with
        | nil =>
          have hCall := hOwn .poll trivial (by simp)
          simp [next, hPosition, DedicatedClient.step, h.running, DedicatedClient.next, hTasks,
            Polling.step, hPoll] at hCall
        | cons call rest =>
          obtain ⟨action, client, hAction, hStep⟩ :=
            exists_action h.running hTasks hPoll hNone call
          have hPress := hOwn (.press 0) trivial (by simp)
          simp only [next, hPosition, hAction, hStep] at hPress
          split at hPress <;> cases hPress
  · have hLeave := hClient (.leave .application) trivial trivial
    simp [DedicatedClient.step, h.running, DedicatedClient.next, hCalled] at hLeave

theorem converges :
    Converges system Proceeds Stays Closing left fun m => Returned m ∨ m.aborted = true :=
  ⟨Closing.proceeds, Closing.stays, Closing.returned⟩

/-! ## Runs -/

/-- `PollMessages` does not wait, and pops what it has found. -/
structure Polled (client : DedicatedClient) : Prop where
  queue : client.incoming.Sound
  awake : ∀ messageCount, client.incoming.poll ≠ .waiting messageCount

theorem Polled.same {s s' : DedicatedClient} (h : Polled s) (hSame : s'.incoming = s.incoming) :
    Polled s' := by
  refine ⟨?_, ?_⟩
  · rw [hSame]
    exact h.queue
  · rw [hSame]
    exact h.awake

theorem Polled.step {event : Event} (h : Polled m.client) (hStep : m.step event = some m') :
    Polled m'.client := by
  cases step_cases hStep with
  | look | ended | skip => exact h
  | connect _ _ hClient | press _ _ _ _ hClient | disconnect _ _ hClient =>
    exact h.same (DedicatedClient.incoming_act (act_of_step hClient))
  | poll _ _ hClient =>
    cases DedicatedClient.next_cases (DedicatedClient.next_of_step hClient) with
    | poll _ _ hPoll =>
      have hSound := (h.queue.step hPoll).1
      cases Polling.step_cases hPoll with
      | call => exact ⟨hSound, fun n hn => by cases hn⟩
  | client hLets hClient =>
    have hTurn := DedicatedClient.turn_of_step hClient
    cases hTurn with
    | aside hAside =>
      refine ⟨hAside.queue h.queue, ?_⟩
      rw [hAside.poll]
      exact h.awake
    | app => exact hLets.elim
    | start => exact h.same (DedicatedClient.incoming_start _ _ _ _ _)
    | leave | deny | throw | threw | create | greet | connected | stop | join => exact h.same rfl
    | poll hNot hPoll =>
      refine ⟨(h.queue.step hPoll).1, ?_⟩
      cases Polling.step_cases hPoll with
      | call => exact hLets.elim
      | wake hWaiting => exact absurd hWaiting (h.awake _)
      | test =>
        intro n hn
        simp only at hn
        split at hn <;> cases hn
      | pop => exact absurd rfl hNot
    | pop _ hPop =>
      refine ⟨(h.queue.step hPop).1, ?_⟩
      cases Polling.step_cases hPop with
      | pop => exact fun n hn => by cases hn

theorem polled_of_reach {ok : Main → Event → Prop} (h : Reach system ok m) : Polled m.client := by
  refine h.invariant (I := fun m => Polled m.client) ?_ fun _ _ _ hPolled _ hStep =>
    hPolled.step hStep
  rintro _ rfl
  exact ⟨⟨rfl, fun n hn => by cases hn⟩, fun n hn => by cases hn⟩

/-- `main` has called `Disconnect`, and `m_Context.stop()` has been called. -/
theorem closing_of_reach {ok : Main → Event → Prop} (h : Reach system ok m) (hGone : m.Gone)
    (hStopped : .stop ∉ m.client.tasks .application) : Closing m := by
  obtain ⟨⟨hRunning, hShape, hStarting⟩, hJoinable⟩ := sound_of_reach h
  obtain ⟨hQueue, hAwake⟩ := polled_of_reach h
  refine ⟨hJoinable, hRunning, hQueue, hAwake, fun hStart => ?_, ?_⟩
  · rcases hGone with hCalled | hDone
    · rw [(hStarting hStart).calls] at hCalled
      cases hCalled
    · rw [hStart] at hDone
      cases hDone
  · generalize m.client.tasks .application = tasks at hShape hStopped
    cases hShape with
    | idle hNone => exact .inr ⟨hNone hGone, .inl rfl⟩
    | called hNone => exact .inr ⟨hNone hGone, .inr ⟨_, rfl⟩⟩
    | connecting _ _ _ hNot | greeting _ hNot => exact absurd hGone hNot
    | stopping => exact absurd List.mem_cons_self hStopped
    | joining => exact .inl rfl

/-- **The third key ends the program**: from every state in which `main` has called `Disconnect`
and the context is stopped, the steps of `main`, of its calls and of the context thread are
bounded, whatever the network does, and when they are done `main` has returned, with
neither a connection nor a thread left, or has been aborted by a message that `OnMessage` cannot
read; and they can always be done. -/
theorem ended_of_reach {ok : Main → Event → Prop} (h : Reach system ok m) (hGone : m.Gone)
    (hStopped : .stop ∉ m.client.tasks .application) :
    (∀ n m', Works system Proceeds Stays n m m' → n + m'.left ≤ m.left ∧
      (AtRest system Proceeds m' → Returned m' ∨ m'.aborted = true)) ∧
    ∃ n m', Works system Proceeds Stays n m m' ∧ AtRest system Proceeds m' ∧
      (Returned m' ∨ m'.aborted = true) := by
  have hClosing := closing_of_reach h hGone hStopped
  exact ⟨fun n m' hRun => ⟨(converges.bound hClosing hRun).2, converges.rest hClosing hRun⟩,
    converges.exists_rest hClosing⟩

/-- The third key is pressed while `OnValidate` is running on the context thread. -/
theorem ended_validated : ∃ m, Reach system Free m ∧ m.calls = [.disconnect] ∧
    m.client.tasks .context ≠ [] ∧ ∃ n m', Works system Proceeds Stays n m m' ∧
      AtRest system Proceeds m' ∧ (Returned m' ∨ m'.aborted = true) := by
  obtain ⟨m, hReach, hEnd⟩ := Reach.exists_of_free (M := system) rfl
    ([[.connect], ([.create, .leave .application, .start true true, .run .application,
      .leave .application, .run .application, .enter] : List DedicatedClient.Event).map .client,
      DedicatedClient.handshake.map .client,
      [.look (some (only .three)), .press 0, .press 0, .press 0, .client (.run .application)]].flatten)
    (fun m => decide (m.calls = [.disconnect] ∧ m.client.tasks .context ≠ [] ∧
      .stop ∉ m.client.tasks .application)) (by decide)
  obtain ⟨hCalls, hContext, hStopped⟩ := of_decide_eq_true hEnd
  have hGone : m.Gone := .inl (by rw [hCalls]; exact List.mem_singleton_self _)
  exact ⟨m, hReach, hCalls, hContext, (ended_of_reach hReach hGone hStopped).2⟩

/-- **A message can keep `main` from its end**: the server sends a ping without a body, which is
polled after the third key. -/
theorem aborted_emptyPing : ∃ m, Reach system Free m ∧ m.calls = [.disconnect] ∧
    m.client.connection = none ∧ m.aborted = true := by
  obtain ⟨m, hReach, hEnd⟩ := Reach.exists_of_free (M := system) rfl
    ([[.connect], ([.create, .leave .application, .start true true, .run .application,
      .leave .application, .run .application, .enter] : List DedicatedClient.Event).map .client,
      DedicatedClient.handshake.map .client,
      ([.leave .context, .run .context, .complete 0 (.read .header (MessageHeader.bytes { id := 0 }))] :
        List DedicatedClient.Event).map .client,
      [.look (some (only .three)), .press 0, .press 0, .press 0],
      ([.run .application, .finish, .restart, .run .application] :
        List DedicatedClient.Event).map .client,
      [.poll, .client (.poll .test), .client (.poll .pop)]].flatten)
    (fun m => decide (m.calls = [.disconnect] ∧ m.client.connection = none ∧ m.aborted = true))
    (by decide)
  exact ⟨m, hReach, of_decide_eq_true hEnd⟩

end Main

end Client

end MinecraftNetwork
