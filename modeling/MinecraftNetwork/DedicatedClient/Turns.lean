import MinecraftNetwork.DedicatedClient.Leaving

/-!
# The calls of the application, part by part

A call of the application is a stack of tasks on its thread. A step of the client is the next
part of the call in progress, or leaves the stack, `m_pConnection` and the process as they
are (`turn_of_step`).
-/

namespace MinecraftNetwork

open Runs

namespace DedicatedClient

variable {s s' : DedicatedClient}

/-- A step beside the calls of the application. -/
structure Aside (s s' : DedicatedClient) : Prop where
  tasks : s'.tasks .application = s.tasks .application
  connection : s'.connection = s.connection
  terminated : s'.terminated = s.terminated
  thread : s.contextThread = .none → s'.contextThread = .none
  poll : s'.incoming.poll = s.incoming.poll
  queue : s.incoming.Sound → s'.incoming.Sound

/-- What a step does to the calls of the application: nothing, or its next part. -/
inductive Turn (s : DedicatedClient) : Event → DedicatedClient → Prop
  | aside {event : Event} {s' : DedicatedClient} (hAside : Aside s s') : Turn s event s'
  | app {action : Action} {s' : DedicatedClient} (hApplication : s.inApplication .application = true)
      (hAct : s.act .application action = some s') : Turn s (.app .application action) s'
  | leave {c : Callback} {rest : List Task} (hTasks : s.tasks .application = .callback c :: rest) :
      Turn s (.leave .application) (s.setTasks .application rest)
  | deny {x y : Nat} {rest : List Task}
      (hTasks : s.tasks .application = .callback (.allowConnection x) :: .start y :: rest) :
      Turn s .deny ((s.setTasks .application rest).notify (.failed (some x)))
  | throw {rest : List Task} (hTasks : s.tasks .application = .connect :: rest) :
      Turn s .throw ((s.setTasks .application rest).notify (.failed none))
  | threw {c : Callback} {task : Task} {x : Nat} {rest : List Task}
      (hTasks : s.tasks .application = .callback c :: task :: rest) :
      Turn s .throw ((s.setTasks .application rest).notify (.failed (some x)))
  | create {rest : List Task} (hTasks : s.tasks .application = .connect :: rest) :
      Turn s .create (s.create rest)
  | start {x : Nat} {opened spawned : Bool} {rest : List Task}
      (hTasks : s.tasks .application = .start x :: rest) :
      Turn s (.start opened spawned) (s.start x opened spawned rest)
  | greet {x : Nat} {rest : List Task} (hTasks : s.tasks .application = .greet x :: rest) :
      Turn s (.run .application)
        ((s.setTasks .application rest).call .application (.onConnect x) [.connected x])
  | connected {x : Nat} {rest : List Task} (hTasks : s.tasks .application = .connected x :: rest) :
      Turn s (.run .application) ((s.setTasks .application rest).notify (.connected x))
  | stop {rest : List Task} (hTasks : s.tasks .application = .stop :: rest) :
      Turn s (.run .application) { s.setTasks .application rest with stopped := true }
  | join {rest : List Task} (hTasks : s.tasks .application = .join :: rest) :
      Turn s (.run .application)
        { s.setTasks .application rest with contextThread := .none, connection := none }
  | poll {event : PollEvent} {q : Polling Message} (hNot : event ≠ .pop)
      (hPoll : s.incoming.step event = some q) : Turn s (.poll event) { s with incoming := q }
  | pop {message : Message} {q : Polling Message} (hIdle : s.tasks .application = [])
      (hPop : s.incoming.step .pop = some q) :
      Turn s (.poll .pop) (call { s with incoming := q } .application (.onMessage message) [])

theorem incoming_advance (s : DedicatedClient) (x : Nat) (effects : List Effect) :
    (s.advance x effects).incoming.poll = s.incoming.poll ∧
      (s.incoming.Sound → (s.advance x effects).incoming.Sound) := by
  induction effects generalizing s with
  | nil => exact ⟨rfl, id⟩
  | cons effect effects ih =>
    cases effect with
    | onValidate | onInvalidate => exact ⟨rfl, id⟩
    | disconnect => exact ih (s.setObject x _).disconnectSocket
    | emplaceBack tagged m =>
      obtain ⟨hPoll, hSound⟩ := ih { s.setObject x _ with incoming := _ }
      exact ⟨hPoll, fun hs => hSound (hs.emplaceBack m)⟩
    | asyncConnect | asyncRead | asyncWrite | postClose | emptyDeque => exact ih (s.setObject x _)

theorem aside_advance (s : DedicatedClient) (x : Nat) (effects : List Effect) :
    Aside s (s.advance x effects) := by
  obtain ⟨done, tail, -, hAdvanced⟩ := advanced_advance s x effects
  have hBeside := beside_advance s x effects
  exact ⟨hAdvanced.application, hBeside.connection, terminated_advance s x effects,
    fun hNone => hBeside.contextThread.trans hNone, (incoming_advance s x effects).1,
    (incoming_advance s x effects).2⟩

theorem Aside.trans {s₁ : DedicatedClient} (h : Aside s s₁) (h' : Aside s₁ s') : Aside s s' :=
  ⟨h'.tasks.trans h.tasks, h'.connection.trans h.connection, h'.terminated.trans h.terminated,
    fun hNone => h'.thread (h.thread hNone), h'.poll.trans h.poll,
    fun hs => h'.queue (h.queue hs)⟩

theorem incoming_act {t : Thread} {action : Action} (h : s.act t action = some s') :
    s'.incoming = s.incoming := by
  have hFrom : ∀ x, (s.disconnectFrom x).incoming = s.incoming := by
    intro x
    unfold disconnectFrom
    simp only
    split <;> rfl
  have hDisconnect : ∀ rest, (s.disconnect .application rest).incoming = s.incoming := by
    intro rest
    unfold disconnect
    split
    · exact hFrom _
    · rfl
  cases act_cases h with
  | disconnectFrom => exact hFrom _
  | reconnect | disconnect => exact hDisconnect _
  | connect | send | sendNothing | sendTo | keep | drop => rfl

theorem incoming_start (s : DedicatedClient) (x : Nat) (opened spawned : Bool) (rest : List Task) :
    (s.start x opened spawned rest).incoming = s.incoming := by
  cases spawned with
  | false => rfl
  | true =>
    simp only [start, if_true, assign]
    split <;> rfl

theorem aside_act {action : Action} (h : s.act .context action = some s') : Aside s s' := by
  obtain ⟨hTasks, hTerminated⟩ := act_context h
  have hBeside := beside_act h
  refine ⟨by rw [hTasks], hBeside.connection, hTerminated,
    fun hNone => hBeside.contextThread.trans hNone, ?_, ?_⟩
  · rw [incoming_act h]
  · rw [incoming_act h]
    exact id

theorem turn_of_step {event : Event} (h : s.step event = some s') : Turn s event s' := by
  have hNext := next_of_step h
  cases next_cases hNext with
  | @app t action _ hApplication hAct =>
    cases t with
    | application => exact .app hApplication hAct
    | context => exact .aside (aside_act hAct)
  | @leave t c rest hTasks =>
    cases t with
    | application => exact .leave hTasks
    | context => exact .aside ⟨by simp [setTasks], rfl, rfl, id, rfl, id⟩
  | deny hTasks => exact .deny hTasks
  | throwMake hTasks => exact .throw hTasks
  | throwAllow hTasks | throwGreet hTasks => exact .threw hTasks
  | create hTasks => exact .create hTasks
  | start hTasks => exact .start hTasks
  | @resume x effects rest _ =>
    have hPop : Aside s (s.setTasks .context rest) := ⟨by simp [setTasks], rfl, rfl, id, rfl, id⟩
    exact .aside (hPop.trans (aside_advance _ x effects))
  | greet hTasks => exact .greet hTasks
  | connected hTasks => exact .connected hTasks
  | stop hTasks => exact .stop hTasks
  | join hTasks _ => exact .join hTasks
  | pop hIdle _ hPop => exact .pop hIdle hPop
  | @complete x c e effects =>
    have hStore : Aside s (s.setObject x e) := ⟨rfl, rfl, rfl, id, rfl, id⟩
    exact .aside (hStore.trans (aside_advance _ x effects))
  | enter hThread | finish hThread | restart hThread =>
    refine .aside ⟨rfl, rfl, rfl, fun hNone => ?_, rfl, id⟩
    rw [hThread] at hNone
    cases hNone
  | poll _ hNot hPoll => exact .poll hNot hPoll
  | closeSocket | runOut | transfer => exact .aside ⟨rfl, rfl, rfl, id, rfl, id⟩

end DedicatedClient

end MinecraftNetwork
