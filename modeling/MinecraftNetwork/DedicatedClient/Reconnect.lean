import MinecraftNetwork.DedicatedClient.Handlers

/-!
# Connecting again

`Disconnect` stops the context whether its thread is in `run` or not. After a refused
connection the thread has already left `run` and called `restart`, so the flag stays set, and
the thread of the next connection returns from `run` at once (`connected_and_stopped`). What
the code relies on is that `stop` finds the thread between its entry into `run` and its
`restart`, and that `Connect` stores a connection only when the last one was given up
(`Timely`). Then every connection finds its context running. That the context then executes
the handlers of the connection needs more: those of an earlier one must not be left to it
(`Quiet`). With both, the client can connect again (`reconnects_of_reach`).
-/

namespace MinecraftNetwork

open Runs

namespace DedicatedClient

/-- When `Connect` has returned true, its thread was moved into an `m_ContextThread` that was
not joinable, and found the context not stopped, with something to do; and what the context
executes are handlers of the connection of `m_pConnection`, every one that it takes up. -/
structure Reconnects (s : DedicatedClient) : Prop where
  assigned : ∀ x, .connected x ∈ s.log →
    ∀ joinable, .assigned x joinable ∈ s.log → joinable = false
  entered : ∀ x, .connected x ∈ s.log →
    ∀ stopped hasWork, .entered x stopped hasWork ∈ s.log → stopped = false ∧ hasWork = true
  handlers : OwnHandlers s
  executed : ∀ x c, s.Takes x c → (s.step (.complete x c)).isSome = true

/-- The step is `m_Context.stop()` in `Disconnect`. -/
def stops (s : DedicatedClient) (event : Event) : Prop :=
  event = .run .application ∧ (s.tasks .application).head? = some .stop

/-- The promise: `stop` comes while the context thread is between its entry into `run` and
its `restart`, and a new connection is stored when there is none. -/
def Timely (s : DedicatedClient) (event : Event) : Prop :=
  (s.stops event → s.contextThread = .running ∨ s.contextThread = .returned) ∧
    (event.stores = true → s.connection = none)

/-- The promise: the context thread is stopped in time, and no handler is left behind. -/
def Orderly (s : DedicatedClient) (event : Event) : Prop := Timely s event ∧ Quiet s event

instance (s : DedicatedClient) (event : Event) : Decidable (s.stops event) :=
  inferInstanceAs (Decidable (_ ∧ _))

instance (s : DedicatedClient) (event : Event) : Decidable (s.Timely event) :=
  inferInstanceAs (Decidable ((s.stops event → _) ∧ (_ → _)))

instance (s : DedicatedClient) (event : Event) : Decidable (s.Orderly event) :=
  inferInstanceAs (Decidable (_ ∧ _))

/-! ## Parts of a step that leave the thread alone -/

/-- The context thread, the flag and `m_pConnection` are left alone, and what has been started
is still pending. -/
structure Beside (s s' : DedicatedClient) : Prop where
  contextThread : s'.contextThread = s.contextThread
  stopped : s'.stopped = s.stopped
  connection : s'.connection = s.connection
  allocated : s'.allocated = s.allocated
  connecting : ∀ x, (s.objects x).connecting = true → (s'.objects x).connecting = true
  log : ∀ n ∈ s'.log, n ∈ s.log ∨ ∃ c, n = .call c

section

variable (s : DedicatedClient)

theorem beside_refl : Beside s s := ⟨rfl, rfl, rfl, rfl, fun _ h => h, fun _ h => .inl h⟩

theorem Beside.trans {s₁ s₂ s₃ : DedicatedClient} (h : Beside s₁ s₂) (h' : Beside s₂ s₃) :
    Beside s₁ s₃ := by
  refine ⟨h'.contextThread.trans h.contextThread, h'.stopped.trans h.stopped,
    h'.connection.trans h.connection, h'.allocated.trans h.allocated,
    fun x hx => h'.connecting x (h.connecting x hx), fun n hMem => ?_⟩
  rcases h'.log n hMem with hMiddle | hCall
  · exact h.log n hMiddle
  · exact .inr hCall

theorem beside_setTasks (t : Thread) (tasks : List Task) : Beside s (s.setTasks t tasks) :=
  ⟨rfl, rfl, rfl, rfl, fun _ h => h, fun _ h => .inl h⟩

theorem beside_setObject {x : Nat} {e : Endpoint}
    (h : (s.objects x).connecting = true → e.connecting = true) : Beside s (s.setObject x e) := by
  refine ⟨rfl, rfl, rfl, rfl, fun y hy => ?_, fun _ h => .inl h⟩
  by_cases hSame : y = x
  · subst hSame
    simpa [setObject] using h hy
  · simpa [setObject, hSame] using hy

theorem beside_call (t : Thread) (c : Callback) (rest : List Task) : Beside s (s.call t c rest) := by
  refine ⟨rfl, rfl, rfl, rfl, fun _ h => h, fun n hMem => ?_⟩
  rcases List.mem_append.mp hMem with hOld | hNew
  · exact .inl hOld
  · exact .inr ⟨c, List.mem_singleton.mp hNew⟩

theorem beside_disconnectSocket : Beside s s.disconnectSocket :=
  ⟨rfl, rfl, rfl, rfl, fun _ h => h, fun _ h => .inl h⟩

theorem beside_disconnectFrom (x : Nat) : Beside s (s.disconnectFrom x) := by
  have hObject := beside_setObject s (x := x) (e := (s.objects x).disconnect) fun h => h
  simp only [disconnectFrom]
  split
  · exact hObject.trans (beside_disconnectSocket _)
  · exact hObject

theorem beside_disconnect (t : Thread) (rest : List Task) : Beside s (s.disconnect t rest) := by
  simp only [disconnect]
  split
  · exact (beside_disconnectFrom s _).trans (beside_setTasks _ _ _)
  · exact beside_setTasks s _ _

theorem beside_advance (x : Nat) (effects : List Effect) : Beside s (s.advance x effects) := by
  induction effects generalizing s with
  | nil => exact beside_refl s
  | cons effect effects ih =>
    have hObject := beside_setObject s (x := x) (e := (s.objects x).perform effect) fun h => by
      rw [show (s.objects x).perform effect = (s.objects x).performAll [effect] from rfl]
      simp [h]
    cases effect with
    | onValidate | onInvalidate => exact hObject.trans (beside_call _ _ _ _)
    | disconnect => exact (hObject.trans (beside_disconnectSocket _)).trans (ih _)
    | emplaceBack tagged m =>
      have hQueue : Beside s { s.setObject x ((s.objects x).perform (.emplaceBack tagged m)) with
          incoming := s.incoming.emplaceBack m } :=
        ⟨hObject.contextThread, hObject.stopped, hObject.connection, hObject.allocated,
          hObject.connecting, hObject.log⟩
      exact hQueue.trans (ih _)
    | asyncConnect | asyncRead | asyncWrite | postClose | emptyDeque => exact hObject.trans (ih _)

theorem beside_act {s s' : DedicatedClient} {t : Thread} {action : Action}
    (h : s.act t action = some s') : Beside s s' := by
  cases act_cases h with
  | connect => exact beside_setTasks s _ _
  | reconnect | disconnect => exact beside_disconnect s _ _
  | send | sendTo => exact beside_setObject s fun h => h
  | sendNothing => exact beside_refl s
  | @disconnectFrom _ x => exact beside_disconnectFrom s x
  | keep | drop => exact ⟨rfl, rfl, rfl, rfl, fun _ h => h, fun _ h => .inl h⟩

end

/-! ## The invariant -/

/-- The notice is not of a thread that came too early or too late. -/
def Notice.isTimely : Notice → Prop
  | .assigned _ joinable => joinable = false
  | .entered _ stopped hasWork => stopped = false ∧ hasWork = true
  | .call _ | .started _ _ | .connected _ | .failed _ => True

/-- The flag is set only while the thread is in `run` or about to call `restart`, there is no
thread without a connection, and a thread that has started finds its connection connecting. -/
structure Ready (s : DedicatedClient) : Prop where
  stopped : s.stopped = true → s.contextThread = .running ∨ s.contextThread = .returned
  joined : s.connection = none → s.contextThread = .none
  starting : ∀ x, s.contextThread = .starting x →
    x < s.allocated ∧ (s.objects x).connecting = true
  log : ∀ n ∈ s.log, n.isTimely

section

variable {s s' : DedicatedClient}

theorem Ready.beside (h : Ready s) (hBeside : Beside s s') : Ready s' := by
  refine ⟨?_, ?_, ?_, fun n hMem => ?_⟩
  · rw [hBeside.stopped, hBeside.contextThread]
    exact h.stopped
  · rw [hBeside.connection, hBeside.contextThread]
    exact h.joined
  · rw [hBeside.contextThread, hBeside.allocated]
    exact fun x hx => (h.starting x hx).imp_right (hBeside.connecting x)
  · rcases hBeside.log n hMem with hOld | ⟨c, rfl⟩
    · exact h.log n hOld
    · trivial

theorem Ready.notify {n : Notice} (h : Ready s) (hTimely : n.isTimely) : Ready (s.notify n) := by
  refine ⟨h.stopped, h.joined, h.starting, fun n' hMem => ?_⟩
  rcases List.mem_append.mp hMem with hOld | hNew
  · exact h.log n' hOld
  · rw [List.mem_singleton.mp hNew]
    exact hTimely

theorem Ready.create {rest : List Task} (h : Ready s) : Ready (s.create rest) := by
  refine Ready.beside (s := { (s.setTasks .application rest).setObject s.allocated
    (.create .dedicatedClient false) with allocated := s.allocated + 1 }) ?_ (beside_call _ _ _ _)
  refine ⟨h.stopped, h.joined, fun x hx => ?_, h.log⟩
  obtain ⟨hLess, hConnecting⟩ := h.starting x hx
  refine ⟨Nat.lt_succ_of_lt hLess, ?_⟩
  change (Function.update s.objects s.allocated _ x).connecting = true
  rw [Function.update_of_ne (Nat.ne_of_lt hLess)]
  exact hConnecting

/-- A connection is stored when there is none, so there is no thread either. -/
theorem Ready.start {x : Nat} {opened spawned : Bool} {rest : List Task} (h : Ready s)
    (hSound : Sound s) (hTasks : s.tasks .application = .start x :: rest)
    (hNone : s.connection = none) : Ready (s.start x opened spawned rest) := by
  have hThread := h.joined hNone
  have hFlag : s.stopped = false := by
    by_contra hYes
    rcases h.stopped (by simpa using hYes) with hRuns | hRuns <;>
    · rw [hThread] at hRuns
      cases hRuns
  obtain ⟨hLess, -⟩ := hSound.fresh x (by simp [starts, hTasks, Task.start?])
  obtain ⟨-, -, -, hConnecting⟩ := (hSound.objects x).connectToServer opened
  have hLog : ∀ n ∈ ((s.setTasks .application rest).store x opened).log, n.isTimely := by
    intro n hMem
    rcases List.mem_append.mp hMem with hOld | hNew
    · exact h.log n hOld
    · rw [List.mem_singleton.mp hNew]
      trivial
  simp only [DedicatedClient.start]
  split
  · have hNow : ((s.setTasks .application rest).store x opened).contextThread = .none := hThread
    rw [assign, hNow]
    refine ⟨fun hYes => ?_, fun hNot => ?_, fun y hy => ?_, fun n hMem => ?_⟩
    · exact absurd (hFlag.symm.trans hYes) (by decide)
    · cases hNot
    · obtain rfl : x = y := ContextThread.starting.inj hy
      refine ⟨hLess, ?_⟩
      simpa [store, DedicatedClient.notify, setObject, setTasks] using hConnecting
    · rcases List.mem_append.mp hMem with hOld | hNew
      · exact hLog n hOld
      · rw [List.mem_singleton.mp hNew]
        rfl
  · refine Ready.notify ?_ trivial
    refine ⟨h.stopped, fun hNot => ?_, fun y hy => ?_, hLog⟩
    · cases hNot
    · exact absurd (hThread.symm.trans hy) (by simp)

/-- The thread of a connection finds `async_connect` pending. -/
theorem Ready.hasWork {x : Nat} (h : Ready s) (hStarting : s.contextThread = .starting x) :
    s.hasWork = true := by
  obtain ⟨hLess, hConnecting⟩ := h.starting x hStarting
  simp only [DedicatedClient.hasWork, Bool.or_eq_true, List.any_eq_true]
  exact .inr ⟨x, List.mem_range.mpr hLess, by simp [Endpoint.hasWork, hConnecting]⟩

theorem Ready.enter {x : Nat} (h : Ready s) (hStarting : s.contextThread = .starting x) :
    Ready (s.enter x) := by
  have hWork := h.hasWork hStarting
  have hFlag : s.stopped = false := by
    by_contra hYes
    rcases h.stopped (by simpa using hYes) with hRuns | hRuns <;>
    · rw [hStarting] at hRuns
      cases hRuns
  have hLog := (h.notify (n := .entered x s.stopped s.hasWork) ⟨hFlag, hWork⟩).log
  refine ⟨fun _ => .inl rfl, fun hNone => ?_, fun y hy => ?_, hLog⟩
  · have hThread := h.joined hNone
    rw [hStarting] at hThread
    cases hThread
  · cases hy

theorem isReady_running (h : s.isReady = true) : s.contextThread = .running := by
  simp only [isReady, Bool.and_eq_true, beq_iff_eq] at h
  exact h.1.1

/-- A handler runs while the thread is in `run`. -/
theorem Ready.setObject (h : Ready s) (hReady : s.isReady = true) (x : Nat) (e : Endpoint) :
    Ready (s.setObject x e) := by
  refine ⟨h.stopped, h.joined, fun y hy => ?_, h.log⟩
  exact absurd ((isReady_running hReady).symm.trans hy) (by simp)

/-- **A step that keeps the promise leaves the client ready for the next connection.** -/
theorem Ready.next {event : Event} (h : Ready s) (hSound : Sound s) (hOk : Timely s event)
    (hStep : s.next event = some s') : Ready s' := by
  cases next_cases hStep with
  | app _ hAct => exact h.beside (beside_act hAct)
  | leave => exact h.beside (beside_setTasks s _ _)
  | deny | throwMake | throwAllow | throwGreet | connected =>
    exact (h.beside (beside_setTasks s _ _)).notify trivial
  | create => exact h.create
  | start hTasks => exact h.start hSound hTasks (hOk.2 rfl)
  | resume => exact h.beside ((beside_setTasks s _ _).trans (beside_advance _ _ _))
  | greet => exact h.beside ((beside_setTasks s _ _).trans (beside_call _ _ _ _))
  | stop hTasks => exact ⟨fun _ => hOk.1 ⟨rfl, by rw [hTasks]; rfl⟩, h.joined, h.starting, h.log⟩
  | join _ hEnded =>
    refine ⟨fun hYes => ?_, fun _ => rfl, fun y hy => ?_, h.log⟩
    · rcases h.stopped hYes with hRuns | hRuns <;>
      · rw [hRuns] at hEnded
        rcases hEnded with hNever | hNever <;> cases hNever
    · cases hy
  | @pop m rest q =>
    refine Ready.beside (s := { s with incoming := q }) ?_ (beside_call _ _ _ _)
    exact ⟨h.stopped, h.joined, h.starting, h.log⟩
  | poll | closeSocket => exact ⟨h.stopped, h.joined, h.starting, h.log⟩
  | enter hStarting => exact h.enter hStarting
  | complete hReady => exact (h.setObject hReady _ _).beside (beside_advance _ _ _)
  | runOut hReady =>
    have hThread := isReady_running hReady
    exact ⟨fun _ => .inl hThread, h.joined, h.starting, h.log⟩
  | finish hRunning =>
    refine ⟨fun _ => .inr rfl, fun hNone => ?_, fun y hy => ?_, h.log⟩
    · exact absurd ((h.joined hNone).symm.trans hRunning) (by simp)
    · cases hy
  | restart hReturned =>
    refine ⟨fun hNever => ?_, fun hNone => ?_, fun y hy => ?_, h.log⟩
    · cases hNever
    · exact absurd ((h.joined hNone).symm.trans hReturned) (by simp)
    · cases hy
  | transfer _ hTransfer =>
    obtain ⟨-, -, -, -, hSame, -⟩ := Endpoint.transfer_frame hTransfer
    exact h.beside (beside_setObject s fun hYes => hSame.trans hYes)

theorem Ready.reconnects (h : Ready s) (hOwn : OwnHandlers s) : Reconnects s :=
  ⟨fun _ _ _ hMem => h.log _ hMem, fun _ _ _ _ hMem => h.log _ hMem, hOwn,
    fun _ _ hTakes => hOwn.step hTakes⟩

end

/-! ## Runs -/

/-- **In a run that keeps the promise, every `Connect` that returns true has a context that
executes the handlers of its connection.** -/
theorem reconnects_of_reach {s : DedicatedClient} (h : Reach system Orderly s) : Reconnects s := by
  have hBoth : Sound s ∧ Ready s := by
    refine h.invariant (I := fun s => Sound s ∧ Ready s) ?_ ?_
    · rintro _ rfl
      refine ⟨sound_init, fun hNever => ?_, fun _ => rfl, fun x hx => ?_, fun n hMem => ?_⟩
      · cases hNever
      · cases hx
      · cases hMem
    · rintro s event s' ⟨hSound, hReady⟩ hOk hStep
      have hNext := next_of_step hStep
      exact ⟨hSound.next hNext, hReady.next hSound hOk.1 hNext⟩
  exact hBoth.2.reconnects (owned_of_reach (h.mono fun _ _ hOk => hOk.2)).ownHandlers

/-- The connection is refused, and the next one finds its context running, with no handler of
the first. -/
theorem reconnects_refusedAndAgain : ∃ s, Reach system Orderly s ∧ .connected 1 ∈ s.log ∧
    .entered 1 false true ∈ s.log ∧ s.Takes 1 .connected ∧ Reconnects s := by
  obtain ⟨s, hReach, hEnd⟩ := Reach.exists_of_checked (M := system) Orderly rfl refusedAndAgain
    (fun s => decide (.connected 1 ∈ s.log ∧ .entered 1 false true ∈ s.log ∧
      s.Takes 1 .connected)) (by decide)
  obtain ⟨hConnected, hEntered, hTakes⟩ := of_decide_eq_true hEnd
  exact ⟨s, hReach, hConnected, hEntered, hTakes, reconnects_of_reach hReach⟩

/-! ## A context that stays stopped -/

/-- No server is listening, and the application tries again when one is. -/
def triesAgain : List Event :=
  .app .application .connect :: connects ++ [.complete 0 .connectFailed, .closeSocket, .runOut,
    .finish, .restart, .app .application .connect, .run .application, .run .application] ++ connects

/-- **`Connect` returns true, and its thread finds the context stopped.** -/
theorem connected_and_stopped : ∃ s, Reach system Free s ∧ .connected 1 ∈ s.log ∧
    .entered 1 true true ∈ s.log ∧ ¬ Reconnects s := by
  obtain ⟨s, hReach, hEnd⟩ := Reach.exists_of_free (M := system) rfl triesAgain
    (fun s => s.log.contains (.connected 1) && s.log.contains (.entered 1 true true)) (by decide)
  rw [Bool.and_eq_true] at hEnd
  have hConnected := List.contains_iff_mem.mp hEnd.1
  have hEntered := List.contains_iff_mem.mp hEnd.2
  refine ⟨s, hReach, hConnected, hEntered, fun hReconnects => ?_⟩
  have hNever := (hReconnects.entered 1 hConnected true true hEntered).1
  cases hNever

end DedicatedClient

end MinecraftNetwork
