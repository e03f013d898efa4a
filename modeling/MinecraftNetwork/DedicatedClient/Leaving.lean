import MinecraftNetwork.DedicatedClient.Failure
import MinecraftNetwork.Foundations.Convergence

/-!
# `Disconnect` returns, and leaves nothing running

`DedicatedClient::Disconnect` stops the context and joins its thread. That the join comes to
an end is a property of the whole client: when the thread that calls it has come to the join,
the context is stopped or its thread has left `run`, so that the thread takes no further
handler; what is left of the handler in progress, and the end of the thread, are boundedly
many steps, and none of them waits for the thread that joins (`disconnect_returns`).

While `m_pConnection` is null the client is at rest (`peaceful_of_reach`): there is no context
thread, and what may still be pending in the context is not run before the next `Connect`.
-/

namespace MinecraftNetwork

open Runs

namespace DedicatedClient

/-- The thread is in `run`, or on its way there. -/
def ContextThread.runs : ContextThread → Bool
  | .starting _ | .running => true
  | .none | .returned | .finished => false

/-- A task that the context thread may have. -/
def Task.isHandler : Task → Bool
  | .callback _ | .resume _ _ => true
  | .connect | .start _ | .greet _ | .connected _ | .stop | .join => false

/-- What stands above a task: the join comes right after `stop`. -/
def Task.Above (task : Task) : Task → Prop
  | .join => task = .stop
  | .callback _ | .resume _ _ | .connect | .start _ | .greet _ | .connected _ | .stop => True

/-- The invariant of the threads. -/
structure Joinable (s : DedicatedClient) : Prop where
  linked : (s.tasks .application).IsChain Task.Above
  stopped : (s.tasks .application).head? = some .join → s.contextThread.runs = true →
    s.stopped = true
  handlers : ∀ task ∈ s.tasks .context, task.isHandler = true
  idle : s.contextThread ≠ .running → s.tasks .context = []
  joined : s.connection = none → s.contextThread = .none

variable {s s' : DedicatedClient}

/-! ## Steps that keep the invariant -/

theorem setTasks_context (s : DedicatedClient) (tasks : List Task) :
    (s.setTasks .application tasks).tasks .context = s.tasks .context := by
  simp [setTasks]

theorem setTasks_application (s : DedicatedClient) (tasks : List Task) :
    (s.setTasks .context tasks).tasks .application = s.tasks .application := by
  simp [setTasks]

/-- The context thread, the flag and `m_pConnection` stay as they are. -/
structure Apart (s s' : DedicatedClient) : Prop where
  contextThread : s'.contextThread = s.contextThread
  stopped : s'.stopped = s.stopped
  connection : s'.connection = s.connection

theorem Beside.apart (h : Beside s s') : Apart s s' := ⟨h.contextThread, h.stopped, h.connection⟩

theorem above_of_ne (task : Task) {under : Task} (h : under ≠ .join) : task.Above under := by
  cases under with
  | join => exact absurd rfl h
  | callback | resume | connect | start | greet | connected | stop => trivial

/-- Tasks without a join are put on top of others. -/
theorem linked_append {new rest : List Task} (hNew : ∀ task ∈ new, task ≠ .join)
    (hRest : rest.IsChain Task.Above) (hHead : rest.head? ≠ some .join) :
    (new ++ rest).IsChain Task.Above ∧ (new ++ rest).head? ≠ some .join := by
  induction new with
  | nil => exact ⟨hRest, hHead⟩
  | cons task new ih =>
    obtain ⟨hLinked, hTop⟩ := ih fun t ht => hNew t (List.mem_cons_of_mem _ ht)
    refine ⟨List.isChain_cons.mpr ⟨fun under hUnder => ?_, hLinked⟩, ?_⟩
    · apply above_of_ne
      rintro rfl
      exact hTop hUnder
    · simpa using hNew task List.mem_cons_self

/-- What stands below a task other than `stop` is not a join. -/
theorem head_below {task : Task} {rest : List Task} (h : (task :: rest).IsChain Task.Above)
    (hTask : task ≠ .stop) : rest.IsChain Task.Above ∧ rest.head? ≠ some .join := by
  obtain ⟨hAbove, hRest⟩ := List.isChain_cons.mp h
  exact ⟨hRest, fun hJoin => hTask (hAbove .join hJoin)⟩

/-- The thread of the application exchanges tasks that are not joins. -/
theorem Joinable.application (h : Joinable s) (new rest : List Task)
    (hRest : rest.IsChain Task.Above ∧ rest.head? ≠ some .join)
    (hNew : ∀ task ∈ new, task ≠ .join) (hTasks : s'.tasks .application = new ++ rest)
    (hContext : s'.tasks .context = s.tasks .context)
    (hThread : s'.contextThread = s.contextThread)
    (hConnection : s'.connection = none → s.connection = none) : Joinable s' := by
  obtain ⟨hLinked, hHead⟩ := linked_append hNew hRest.1 hRest.2
  rw [← hTasks] at hLinked hHead
  refine ⟨hLinked, fun hJoin => absurd hJoin hHead, ?_, ?_, fun hNone => ?_⟩
  · rw [hContext]
    exact h.handlers
  · rw [hContext, hThread]
    exact h.idle
  · rw [hThread]
    exact h.joined (hConnection hNone)

/-- A step leaves the threads alone. -/
theorem Joinable.aside (h : Joinable s) (hTasks : s'.tasks = s.tasks) (hApart : Apart s s') :
    Joinable s' := by
  refine ⟨?_, ?_, ?_, ?_, ?_⟩
  · rw [hTasks]
    exact h.linked
  · rw [hTasks, hApart.contextThread, hApart.stopped]
    exact h.stopped
  · rw [hTasks]
    exact h.handlers
  · rw [hTasks, hApart.contextThread]
    exact h.idle
  · rw [hApart.connection, hApart.contextThread]
    exact h.joined

/-- The thread of the context exchanges its tasks. -/
theorem Joinable.context (h : Joinable s) (hApplication : s'.tasks .application = s.tasks .application)
    (hApart : Apart s s') (hHandlers : ∀ task ∈ s'.tasks .context, task.isHandler = true)
    (hRunning : s.contextThread = .running ∨ s'.tasks .context = []) : Joinable s' := by
  refine ⟨?_, ?_, hHandlers, ?_, ?_⟩
  · rw [hApplication]
    exact h.linked
  · rw [hApplication, hApart.contextThread, hApart.stopped]
    exact h.stopped
  · rw [hApart.contextThread]
    exact fun hNot => hRunning.resolve_left hNot
  · rw [hApart.connection, hApart.contextThread]
    exact h.joined

/-- The application is in a callback, or does nothing. -/
theorem Joinable.top (h : Joinable s) (hApplication : s.inApplication .application = true) :
    (s.tasks .application).IsChain Task.Above ∧ (s.tasks .application).head? ≠ some .join := by
  refine ⟨h.linked, ?_⟩
  unfold inApplication at hApplication
  split at hApplication
  · rename_i hTasks
    rw [hTasks]
    simp
  · rename_i hTasks
    rw [hTasks]
    simp
  · cases hApplication

/-- A member function of a connection goes on, up to its next callback. -/
theorem Joinable.advance (h : Joinable s) {before : DedicatedClient} {x : Nat} (effects : List Effect)
    (hApart : Apart s before) (hApplication : before.tasks .application = s.tasks .application)
    (hHandlers : ∀ task ∈ before.tasks .context, task.isHandler = true)
    (hRunning : s.contextThread = .running) : Joinable (before.advance x effects) := by
  obtain ⟨done, tail, -, hAdvanced⟩ := advanced_advance before x effects
  have hBeside := beside_advance before x effects
  refine h.context (hAdvanced.application.trans hApplication) ⟨?_, ?_, ?_⟩ ?_ (.inl hRunning)
  · exact hBeside.contextThread.trans hApart.contextThread
  · exact hBeside.stopped.trans hApart.stopped
  · exact hBeside.connection.trans hApart.connection
  · obtain ⟨-, hSame⟩ | ⟨-, c, hCalls⟩ := hAdvanced.context
    · rw [hSame]
      exact hHandlers
    · rw [hCalls]
      intro task hMem
      rcases List.mem_cons.mp hMem with rfl | hMem
      · rfl
      · rcases List.mem_cons.mp hMem with rfl | hMem
        · rfl
        · exact hHandlers task hMem

theorem Joinable.disconnect (h : Joinable s) {rest : List Task}
    (hApplication : s.inApplication .application = true) (hRest : ∀ task ∈ rest, task ≠ .join) :
    Joinable (s.disconnect .application rest) := by
  obtain ⟨hLinked, hHead⟩ := linked_append hRest (h.top hApplication).1 (h.top hApplication).2
  cases hOwn : s.connection with
  | none =>
    simp only [DedicatedClient.disconnect, hOwn]
    exact h.application _ _ (h.top hApplication) hRest (setTasks_tasks ..) (setTasks_context ..) rfl id
  | some x =>
    have hBeside := beside_disconnectFrom s x
    have hTasks := (disconnectFrom_eq s x).2.1
    have hJoin : (Task.join :: (rest ++ s.tasks .application)).IsChain Task.Above := by
      refine List.isChain_cons.mpr ⟨fun under hUnder => above_of_ne _ ?_, hLinked⟩
      rintro rfl
      exact hHead hUnder
    simp only [DedicatedClient.disconnect, hOwn]
    constructor
    · rw [setTasks_tasks, hTasks]
      exact List.isChain_cons.mpr ⟨fun under hUnder => by cases hUnder; rfl, hJoin⟩
    · rw [setTasks_tasks]
      exact fun hTop => by cases hTop
    · rw [setTasks_context, hTasks]
      exact h.handlers
    · rw [setTasks_context, hTasks]
      exact fun hNot => h.idle fun hRunning => hNot (hBeside.contextThread.trans hRunning)
    · intro hNone
      have hSame : s.connection = none := hBeside.connection.symm.trans hNone
      rw [hOwn] at hSame
      cases hSame

theorem Joinable.act {t : Thread} {action : Action} (h : Joinable s)
    (hApplication : s.inApplication t = true) (hStep : s.act t action = some s') : Joinable s' := by
  have hApart := (beside_act hStep).apart
  cases act_cases hStep with
  | connect =>
    exact h.application [.connect] _ (h.top hApplication) (by simp) (setTasks_tasks ..)
      (setTasks_context ..) rfl id
  | reconnect => exact h.disconnect hApplication (by simp)
  | disconnect => exact h.disconnect hApplication (by simp)
  | sendNothing => exact h
  | disconnectFrom => exact h.aside (disconnectFrom_eq s _).2.1 hApart
  | send | sendTo | keep | drop => exact h.aside rfl hApart

/-- **A step keeps the invariant of the threads.** -/
theorem Joinable.next {event : Event} (h : Joinable s) (hStep : s.next event = some s') :
    Joinable s' := by
  cases next_cases hStep with
  | app hApplication hAct => exact h.act hApplication hAct
  | @leave t c rest hTasks =>
    cases t with
    | application =>
      have hBelow := head_below (hTasks ▸ h.linked) (by simp)
      exact h.application [] _ hBelow (by simp) (by simp [setTasks]) (by simp [setTasks])
        rfl id
    | context =>
      have hRunning : s.contextThread = .running := by
        by_contra hNot
        rw [h.idle hNot] at hTasks
        cases hTasks
      refine h.context (by simp [setTasks]) (beside_setTasks s _ _).apart ?_ (.inl hRunning)
      intro task hMem
      refine h.handlers task ?_
      rw [setTasks_tasks] at hMem
      rw [hTasks]
      exact List.mem_cons_of_mem _ hMem
  | deny hTasks | throwAllow hTasks | throwGreet hTasks =>
    have hBelow := head_below (head_below (hTasks ▸ h.linked) (by simp)).1 (by simp)
    exact h.application [] _ hBelow (by simp) (by simp [setTasks, notify])
      (by simp [setTasks, notify]) rfl id
  | throwMake hTasks =>
    have hBelow := head_below (hTasks ▸ h.linked) (by simp)
    exact h.application [] _ hBelow (by simp) (by simp [setTasks, notify])
      (by simp [setTasks, notify]) rfl id
  | @create rest hTasks =>
    have hBelow := head_below (hTasks ▸ h.linked) (by simp)
    refine h.application [.callback (.allowConnection s.allocated), .start s.allocated] _
      hBelow (by simp) ?_ ?_ rfl id
    · simp [DedicatedClient.create, DedicatedClient.call, setTasks, setObject, notify]
    · simp [DedicatedClient.create, DedicatedClient.call, setTasks, setObject, notify]
  | @start x opened spawned rest hTasks =>
    have hBelow := head_below (hTasks ▸ h.linked) (by simp)
    obtain ⟨-, hContext, hApplication, hConnection, -⟩ := start_frame s x opened spawned rest
    have hHead : (s.start x opened spawned rest).tasks .application = [.greet x] ++ rest ∨
        (s.start x opened spawned rest).tasks .application = [] ++ rest := hApplication
    have hChain : ((s.start x opened spawned rest).tasks .application).IsChain Task.Above ∧
        ((s.start x opened spawned rest).tasks .application).head? ≠ some .join := by
      rcases hHead with hGreet | hNone
      · rw [hGreet]
        exact linked_append (by simp) hBelow.1 hBelow.2
      · rw [hNone]
        exact hBelow
    refine ⟨hChain.1, fun hJoin => absurd hJoin hChain.2, ?_, fun hNot => ?_, fun hNone => ?_⟩
    · rw [hContext]
      exact h.handlers
    · rw [hContext]
      refine h.idle fun hRunning => hNot ?_
      -- the thread that is running is not replaced
      cases spawned with
      | false => exact hRunning
      | true =>
        simp only [DedicatedClient.start, if_true, assign]
        rw [show ((s.setTasks .application rest).store x opened).contextThread = .running from
          hRunning]
        exact hRunning
    · rw [hConnection] at hNone
      cases hNone
  | @resume x effects rest hTasks =>
    have hRunning : s.contextThread = .running := by
      by_contra hNot
      rw [h.idle hNot] at hTasks
      cases hTasks
    refine h.advance effects (beside_setTasks s .context rest).apart (by simp [setTasks]) ?_ hRunning
    intro task hMem
    refine h.handlers task ?_
    rw [setTasks_tasks] at hMem
    rw [hTasks]
    exact List.mem_cons_of_mem _ hMem
  | @greet x rest hTasks =>
    have hBelow := head_below (hTasks ▸ h.linked) (by simp)
    refine h.application [.callback (.onConnect x), .connected x] _ hBelow (by simp) ?_ ?_
      rfl id
    · simp [DedicatedClient.call, setTasks, notify]
    · simp [DedicatedClient.call, setTasks, notify]
  | connected hTasks =>
    have hBelow := head_below (hTasks ▸ h.linked) (by simp)
    exact h.application [] _ hBelow (by simp) (by simp [setTasks, notify])
      (by simp [setTasks, notify]) rfl id
  | @stop rest hTasks =>
    have hBelow := (List.isChain_cons.mp (hTasks ▸ h.linked)).2
    have hContext := setTasks_context s rest
    refine ⟨?_, fun _ _ => rfl, ?_, ?_, h.joined⟩
    · rwa [← setTasks_tasks s .application rest] at hBelow
    · exact hContext ▸ h.handlers
    · exact hContext ▸ h.idle
  | @join rest hTasks hEnded =>
    have hBelow := head_below (hTasks ▸ h.linked) (by simp)
    have hIdle : s.tasks .context = [] := by
      apply h.idle
      rcases hEnded with hEnded | hEnded <;> simp [hEnded]
    have hContext := setTasks_context s rest
    refine ⟨?_, fun _ hRuns => (Bool.false_ne_true hRuns).elim, ?_, ?_, fun _ => rfl⟩
    · have hLinked := hBelow.1
      rwa [← setTasks_tasks s .application rest] at hLinked
    · exact hContext ▸ h.handlers
    · exact fun _ => hContext.trans hIdle
  | @pop m rest q hIdle _ _ =>
    refine h.application [.callback (.onMessage m)] [] (by simp) (by simp) ?_ ?_
      rfl id
    · simp [DedicatedClient.call, setTasks, notify, hIdle]
    · simp [DedicatedClient.call, setTasks, notify]
  | enter hThread =>
    refine ⟨h.linked, fun hJoin _ => ?_, h.handlers, fun _ => h.idle (by simp [hThread]), fun hNone => ?_⟩
    · have hStopped := h.stopped hJoin (by rw [hThread]; rfl)
      simp [enter, hStopped]
    · rw [h.joined hNone] at hThread
      cases hThread
  | @complete x c e effects hReady _ _ =>
    exact h.advance effects ⟨rfl, rfl, rfl⟩ rfl h.handlers
      (isReady_running hReady)
  | finish hThread _ hIdle =>
    refine ⟨h.linked, fun _ hRuns => (Bool.false_ne_true hRuns).elim, h.handlers, fun _ => hIdle, fun hNone => ?_⟩
    rw [h.joined hNone] at hThread
    cases hThread
  | restart hThread =>
    refine ⟨h.linked, fun _ hRuns => (Bool.false_ne_true hRuns).elim, h.handlers, fun _ => h.idle (by simp [hThread]),
      fun hNone => ?_⟩
    rw [h.joined hNone] at hThread
    cases hThread
  | runOut hReady =>
    exact ⟨h.linked, fun _ _ => rfl, h.handlers, h.idle, h.joined⟩
  | poll | closeSocket | transfer =>
    exact ⟨h.linked, h.stopped, h.handlers, h.idle, h.joined⟩

theorem joinable_init : Joinable {} :=
  ⟨.nil, fun hJoin => (by cases hJoin), fun task hMem => (by cases hMem), fun _ => rfl,
    fun _ => rfl⟩

theorem joinable_of_reach {ok : DedicatedClient → Event → Prop} (h : Reach system ok s) :
    Joinable s := by
  refine h.invariant (I := Joinable) ?_ fun s event t hJoinable _ hStep =>
    hJoinable.next (next_of_step hStep)
  rintro _ rfl
  exact joinable_init

/-! ## The end of the context thread -/

/-- A step of the context thread other than to take a handler. -/
def Event.leaves : Event → Bool
  | .run .context | .leave .context | .enter | .finish | .restart => true
  | .run .application | .leave .application | .app _ _ | .deny | .throw | .create | .start _ _
  | .poll _ | .complete _ _ | .closeSocket | .runOut | .transfer _ _ _ => false

/-- The work of the context thread while another joins it. -/
def Leaves (_ : DedicatedClient) (event : Event) : Prop := event.leaves = true

/-- Anything else but the end of the join. -/
def Waits (_ : DedicatedClient) (event : Event) : Prop :=
  event.leaves = false ∧ event ≠ .run .application

def Task.weight : Task → Nat
  | .callback _ => 1
  | .resume _ effects => 2 * effects.length + 2
  | .connect | .start _ | .greet _ | .connected _ | .stop | .join => 0

def ContextThread.rank : ContextThread → Nat
  | .none | .finished => 0
  | .returned => 1
  | .running => 2
  | .starting _ => 3

/-- What the context thread has still to do before it is at its end. -/
def leaving (s : DedicatedClient) : Nat :=
  ((s.tasks .context).map Task.weight).sum + s.contextThread.rank

/-- The thread of the application has come to the join. -/
structure Joining (s : DedicatedClient) : Prop where
  joinable : Joinable s
  running : s.terminated = false
  head : (s.tasks .application).head? = some .join

/-- The join returns, and there is no connection. -/
def Left (s : DedicatedClient) : Prop :=
  ∃ t, s.step (.run .application) = some t ∧ t.connection = none ∧ t.contextThread = .none

theorem next_of_joining (h : Joining s) (event : Event) : s.step event = s.next event := by
  rw [step, h.running]
  rfl

/-- A member function goes on: it does at least one thing, and may come to a callback. -/
theorem weight_advance (s : DedicatedClient) (x : Nat) (effects : List Effect) :
    (((s.advance x effects).tasks .context).map Task.weight).sum <
      ((s.tasks .context).map Task.weight).sum + (2 * effects.length + 2) := by
  obtain ⟨done, tail, rfl, hAdvanced⟩ := advanced_advance s x effects
  obtain ⟨-, hSame⟩ | ⟨hSome, c, hCalls⟩ := hAdvanced.context
  · rw [hSame]
    omega
  · have hDone : 0 < done.length := by
      apply List.length_pos_iff.mpr
      rintro rfl
      exact hSome rfl
    rw [hCalls, List.length_append]
    simp only [List.map_cons, List.sum_cons, Task.weight]
    omega

theorem terminated_advance (s : DedicatedClient) (x : Nat) (effects : List Effect) :
    (s.advance x effects).terminated = s.terminated := by
  induction effects generalizing s with
  | nil => rfl
  | cons effect effects ih =>
    cases effect with
    | onValidate | onInvalidate => rfl
    | disconnect => exact ih (s.setObject x _).disconnectSocket
    | emplaceBack tagged m => exact ih { s.setObject x _ with incoming := _ }
    | asyncConnect | asyncRead | asyncWrite | postClose | emptyDeque => exact ih (s.setObject x _)

/-- **The context thread comes nearer to its end** with each of its steps. -/
theorem Joining.leaves {event : Event} (h : Joining s) (hLeaves : Leaves s event)
    (hStep : s.step event = some s') : Joining s' ∧ s'.leaving < s.leaving := by
  have hNext := next_of_step hStep
  have hJoinable := h.joinable.next hNext
  cases next_cases hNext with
  | app | deny | throwMake | throwAllow | throwGreet | create | start | greet | connected | stop
  | join | pop | poll | complete | closeSocket | runOut | transfer => cases hLeaves
  | @leave t c rest hTasks =>
    cases t with
    | application => cases hLeaves
    | context =>
      refine ⟨⟨hJoinable, h.running, ?_⟩, ?_⟩
      · rw [setTasks_application]
        exact h.head
      · simp only [leaving, setTasks_tasks, hTasks, List.map_cons, List.sum_cons, Task.weight]
        show _ + s.contextThread.rank < _
        omega
  | @resume x effects rest hTasks =>
    have hWeight := weight_advance (s.setTasks .context rest) x effects
    have hBeside := beside_advance (s.setTasks .context rest) x effects
    obtain ⟨done, tail, -, hAdvanced⟩ := advanced_advance (s.setTasks .context rest) x effects
    refine ⟨⟨hJoinable, ?_, ?_⟩, ?_⟩
    · rw [terminated_advance]
      exact h.running
    · rw [hAdvanced.application, setTasks_application]
      exact h.head
    · rw [setTasks_tasks] at hWeight
      have hThread : ((s.setTasks .context rest).advance x effects).contextThread = s.contextThread :=
        hBeside.contextThread
      simp only [leaving, hTasks, hThread, List.map_cons, List.sum_cons, Task.weight]
      omega
  | @enter x hThread =>
    refine ⟨⟨hJoinable, h.running, h.head⟩, ?_⟩
    simp only [leaving, hThread, enter, notify, ContextThread.rank]
    omega
  | finish hThread hStopped hIdle =>
    refine ⟨⟨hJoinable, h.running, h.head⟩, ?_⟩
    simp only [leaving, hThread, ContextThread.rank]
    omega
  | restart hThread =>
    refine ⟨⟨hJoinable, h.running, h.head⟩, ?_⟩
    simp only [leaving, hThread, ContextThread.rank]
    omega

/-- The application, on the context thread, leaves both threads where they are. -/
theorem act_context {action : Action} (hStep : s.act .context action = some s') :
    s'.tasks = s.tasks ∧ s'.terminated = s.terminated := by
  cases act_cases hStep with
  | disconnectFrom =>
    refine ⟨(disconnectFrom_eq s _).2.1, ?_⟩
    unfold DedicatedClient.disconnectFrom
    simp only
    split <;> rfl
  | send | sendNothing | sendTo | keep | drop => exact ⟨rfl, rfl⟩

/-- Nobody takes the thread away from its end, and no handler is taken. -/
theorem Joining.waits {event : Event} (h : Joining s) (hWaits : Waits s event)
    (hStep : s.step event = some s') : Joining s' ∧ s'.leaving ≤ s.leaving := by
  obtain ⟨hNot, hOther⟩ := hWaits
  have hNext := next_of_step hStep
  have hJoinable := h.joinable.next hNext
  have hHead := h.head
  have hBusy : s.isReady = false := by
    rw [Bool.eq_false_iff]
    intro hReady
    have hRunning := isReady_running hReady
    have hStopped := h.joinable.stopped hHead (by rw [hRunning]; rfl)
    simp [isReady, hStopped] at hReady
  cases next_cases hNext with
  | @app t action _ hApplication hAct =>
    cases t with
    | application =>
      refine absurd hHead ?_
      exact (h.joinable.top hApplication).2
    | context =>
      obtain ⟨hTasks, hTerminated⟩ := act_context hAct
      have hThread := (beside_act hAct).contextThread
      refine ⟨⟨hJoinable, hTerminated.trans h.running, by rw [hTasks]; exact hHead⟩, ?_⟩
      rw [leaving, hTasks, hThread, leaving]
  | @leave t c rest hTasks =>
    cases t with
    | application =>
      rw [hTasks] at hHead
      cases hHead
    | context => cases hNot
  | deny hTasks | throwMake hTasks | throwAllow hTasks | throwGreet hTasks | create hTasks
  | start hTasks =>
    rw [hTasks] at hHead
    cases hHead
  | greet | connected | stop | join => exact absurd rfl hOther
  | resume | enter | finish | restart => cases hNot
  | pop hIdle | poll hIdle =>
    rw [hIdle] at hHead
    cases hHead
  | complete hReady | closeSocket hReady | runOut hReady =>
    rw [hBusy] at hReady
    cases hReady
  | transfer => exact ⟨⟨hJoinable, h.running, hHead⟩, Nat.le_refl _⟩

/-- **When the context thread can do no more, the join returns.** -/
theorem Joining.left (h : Joining s) (hRest : AtRest system Leaves s) : Left s := by
  have hNone : ∀ event, event.leaves = true → s.next event = none := by
    intro event hLeaves
    rw [← next_of_joining h]
    exact hRest event hLeaves
  have hEnded : s.contextThread = .none ∨ s.contextThread = .finished := by
    cases hThread : s.contextThread with
    | none => exact .inl rfl
    | finished => exact .inr rfl
    | starting x =>
      have hEnter := hNone .enter rfl
      simp [next, hThread] at hEnter
    | returned =>
      have hRestart := hNone .restart rfl
      simp [next, hThread] at hRestart
    | running =>
      have hStopped := h.joinable.stopped h.head (by rw [hThread]; rfl)
      cases hTasks : s.tasks .context with
      | nil =>
        have hFinish := hNone .finish rfl
        simp [next, hThread, hStopped, hTasks] at hFinish
      | cons task rest =>
        have hHandler := h.joinable.handlers task (by rw [hTasks]; exact List.mem_cons_self)
        cases task with
        | callback c =>
          have hLeave := hNone (.leave .context) rfl
          simp [next, hTasks] at hLeave
        | resume x effects =>
          have hRun := hNone (.run .context) rfl
          simp [next, hTasks] at hRun
        | connect | start | greet | connected | stop | join => cases hHandler
  obtain ⟨rest, hTasks⟩ : ∃ rest, s.tasks .application = .join :: rest :=
    List.head?_eq_some_iff.mp h.head
  refine ⟨{ s.setTasks .application rest with contextThread := .none, connection := none }, ?_,
    rfl, rfl⟩
  rw [next_of_joining h]
  simp only [next, hTasks, if_pos hEnded]

theorem converges : Converges system Leaves Waits Joining leaving Left :=
  ⟨Joining.leaves, Joining.waits, Joining.left⟩

/-- **`Disconnect` returns**: from every state in which the application waits for the context
thread, the steps the thread has still to take are bounded, whatever else happens meanwhile,
and when it has taken them the join returns; and it can always take them. A callback on that
thread that throws, or that calls `Connect` or `Disconnect`, has no step here. -/
theorem disconnect_returns {ok : DedicatedClient → Event → Prop} (h : Reach system ok s)
    (hRunning : s.terminated = false) (hHead : (s.tasks .application).head? = some .join) :
    (∀ n t, Works system Leaves Waits n s t → n + t.leaving ≤ s.leaving ∧
      (AtRest system Leaves t → Left t)) ∧
    ∃ n t, Works system Leaves Waits n s t ∧ AtRest system Leaves t ∧ Left t := by
  have hJoining : Joining s := ⟨joinable_of_reach h, hRunning, hHead⟩
  exact ⟨fun n t hRun => ⟨(converges.bound hJoining hRun).2, converges.rest hJoining hRun⟩,
    converges.exists_rest hJoining⟩

/-- `Disconnect` is called while `OnValidate` is running on the context thread. -/
theorem disconnect_returns_validated : ∃ s, Reach system Free s ∧
    s.tasks .context = [.callback (.onValidate 0), .resume 0 [.asyncRead .header 8]] ∧
      ∃ n t, Works system Leaves Waits n s t ∧ AtRest system Leaves t ∧ Left t := by
  obtain ⟨s, hReach, hEnd⟩ := Reach.exists_of_free (M := system) rfl
    (connecting ++ handshake ++ [.run .application, .leave .application, .run .application,
      .app .application .disconnect, .run .application])
    (fun s => decide (s.terminated = false ∧ (s.tasks .application).head? = some .join ∧
      s.tasks .context = [.callback (.onValidate 0), .resume 0 [.asyncRead .header 8]])) (by decide)
  obtain ⟨hRunning, hHead, hContext⟩ := of_decide_eq_true hEnd
  exact ⟨s, hReach, hContext, (disconnect_returns hReach hRunning hHead).2⟩

/-! ## Without a connection -/

/-- What the context thread does. -/
def Event.onContext : Event → Bool
  | .run .context | .leave .context | .app .context _ | .enter | .complete _ _ | .closeSocket
  | .runOut | .finish | .restart => true
  | .run .application | .leave .application | .app .application _ | .deny | .throw | .create
  | .start _ _ | .poll _ | .transfer _ _ _ => false

/-- There is no context thread, and nothing runs on it. -/
structure Peaceful (s : DedicatedClient) : Prop where
  thread : s.contextThread = .none
  silent : ∀ event, event.onContext = true → s.step event = none
  notConnected : s.isConnected = false

theorem Joinable.peaceful (h : Joinable s) (hNone : s.connection = none) : Peaceful s := by
  have hThread := h.joined hNone
  have hIdle := h.idle (by rw [hThread]; simp)
  refine ⟨hThread, fun event hContext => ?_, ?_⟩
  · have hNext : s.next event = none := by
      cases event with
      | run t | leave t =>
        cases t with
        | application => cases hContext
        | context => simp [DedicatedClient.next, hIdle]
      | app t action =>
        cases t with
        | application => cases hContext
        | context => simp [DedicatedClient.next, inApplication, hIdle]
      | enter | finish | restart => simp [DedicatedClient.next, hThread]
      | complete | closeSocket | runOut => simp [DedicatedClient.next, isReady, hThread]
      | deny | throw | create | start | poll | transfer => cases hContext
    rw [DedicatedClient.step, hNext, ite_self]
  · rw [isConnected, hNone]
    rfl

/-- **While `m_pConnection` is null no handler and no callback of the context runs**, though
handlers of former connections may still be pending. -/
theorem peaceful_of_reach {ok : DedicatedClient → Event → Prop} (h : Reach system ok s)
    (hNone : s.connection = none) : Peaceful s :=
  (joinable_of_reach h).peaceful hNone

/-- The connect of the connection that was given up is still pending. -/
theorem peaceful_disconnected : ∃ s, Reach system Free s ∧ s.hasWork = true ∧ Peaceful s := by
  obtain ⟨s, hReach, hEnd⟩ := Reach.exists_of_free (M := system) rfl
    (.app .application .connect :: connects ++ [.app .application .disconnect, .run .application,
      .finish, .restart, .run .application])
    (fun s => decide (s.connection = none ∧ s.hasWork = true)) (by decide)
  obtain ⟨hNone, hWork⟩ := of_decide_eq_true hEnd
  exact ⟨s, hReach, hWork, peaceful_of_reach hReach hNone⟩

end DedicatedClient

end MinecraftNetwork
