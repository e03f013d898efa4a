import MinecraftNetwork.Foundations.Runs

/-!
# `Start` and `Stop`

`Start` begins an accept, whose handler begins the next one, and a thread that runs the
handlers of the context. `Stop` sets the flag of the context and joins the thread, which
clears the flag when `run` has returned. So `Stop` ends the thread and not the chain of
accepts, and a `Stop` that finds no thread leaves the flag set: the next `Start` then has
two accepts outstanding (`started_again`), or a thread that runs nothing
(`started_stopped`). The handler of an accept asks the socket for its `remote_endpoint`, which
throws when the peer has reset the connection already: the exception leaves `run`, and the
process is terminated with no accept outstanding (`accept_thrown`).

One thread calls `Start` and `Stop`, one after the other. What is printed is left out.
-/

namespace MinecraftNetwork

open Runs

namespace Lifecycle

/-- `m_ContextThread`: not joinable, or how far its function has come. -/
inductive ContextThread
  | none
  /-- Before `m_Context.run()`. -/
  | spawned
  | running
  /-- Before `m_Context.restart()`. -/
  | returned
  | ended
  deriving DecidableEq, Repr

/-- Where the thread is that calls `Start` and `Stop`. -/
inductive Caller
  | idle
  /-- In `Start`, after `WaitForClientConnection`. -/
  | starting
  /-- In `Stop`, after `m_Context.stop()`. -/
  | stopping
  deriving DecidableEq, Repr

/-- How the last call has ended. -/
inductive Outcome
  /-- `Start` has returned true. -/
  | started
  /-- `Start` has returned false. -/
  | failed
  | stopped
  deriving DecidableEq, Repr

end Lifecycle

open Lifecycle in
/-- The accepts, the context and its thread, of one `DedicatedServer`. -/
structure Lifecycle where
  /-- `m_Context.stopped()` -/
  stopped : Bool := false
  /-- The accepts that are outstanding on `m_Acceptor`. -/
  accepts : Nat := 0
  /-- The handler of an accept is executing. -/
  handling : Bool := false
  contextThread : ContextThread := .none
  caller : Caller := .idle
  last : Option Outcome := none
  /-- `std::terminate` has been called: a joinable thread was assigned to, or an exception has
  left the function of the thread. -/
  terminated : Bool := false
  deriving DecidableEq, Repr

namespace Lifecycle

inductive Event
  /-- `Start` calls `WaitForClientConnection`, or fails there. -/
  | start
  | startFails
  /-- `Start` makes the thread and assigns it, or fails to make it. -/
  | spawn
  | spawnFails
  /-- `Stop` calls `m_Context.stop()`. -/
  | stop
  /-- `Stop` joins the thread if it is joinable, and returns. -/
  | join
  /-- The thread calls `m_Context.run()`. -/
  | run
  /-- An accept completes, and its handler is executed. -/
  | accept
  /-- The handler has begun the next accept, and returns. -/
  | accepted
  /-- `remote_endpoint`, `make_shared` or a callback throws in the handler. -/
  | acceptThrows
  /-- `m_Context.run()` returns. -/
  | leave
  /-- `m_Context.restart()`, the end of the thread. -/
  | restart
  deriving DecidableEq, Repr

def step (s : Lifecycle) (event : Event) : Option Lifecycle :=
  if s.terminated then none else
  match event with
  | .start =>
    if s.caller = .idle then some { s with accepts := s.accepts + 1, caller := .starting } else none
  | .startFails => if s.caller = .idle then some { s with last := some .failed } else none
  | .spawn =>
    if s.caller = .starting then
      some (if s.contextThread = .none then
        { s with contextThread := .spawned, caller := .idle, last := some .started }
      else { s with terminated := true })
    else none
  | .spawnFails =>
    if s.caller = .starting then some { s with caller := .idle, last := some .failed } else none
  | .stop =>
    if s.caller = .idle then some { s with stopped := true, caller := .stopping } else none
  | .join =>
    if s.caller = .stopping ∧ (s.contextThread = .none ∨ s.contextThread = .ended) then
      some { s with contextThread := .none, caller := .idle, last := some .stopped }
    else none
  | .run =>
    if s.contextThread = .spawned then
      -- without outstanding work `run` stops the context itself
      some (if s.accepts = 0 then { s with contextThread := .returned, stopped := true }
        else if s.stopped then { s with contextThread := .returned }
        else { s with contextThread := .running })
    else none
  | .accept =>
    if s.contextThread = .running ∧ s.stopped = false ∧ s.handling = false ∧ 0 < s.accepts then
      some { s with accepts := s.accepts - 1, handling := true }
    else none
  | .accepted =>
    if s.handling then some { s with accepts := s.accepts + 1, handling := false } else none
  | .acceptThrows => if s.handling then some { s with terminated := true } else none
  | .leave =>
    if s.contextThread = .running ∧ s.handling = false ∧ (s.stopped = true ∨ s.accepts = 0) then
      some { s with contextThread := .returned, stopped := true }
    else none
  | .restart =>
    if s.contextThread = .returned then some { s with contextThread := .ended, stopped := false }
    else none

def system : System Lifecycle Event where
  init s := s = {}
  step := step

/-- The accepts that are outstanding, and the one whose handler is executing. -/
def chain (s : Lifecycle) : Nat := s.accepts + s.handling.toNat

/-- What a server that is started and stopped is to be. -/
structure Serves (s : Lifecycle) : Prop where
  /-- `Start` has returned true: the thread executes handlers, of one accept. -/
  started : s.caller = .idle → s.last = some .started →
    s.stopped = false ∧ (s.contextThread = .spawned ∨ s.contextThread = .running) ∧ s.chain = 1
  /-- No `Start` has assigned a joinable `m_ContextThread`, and no handler has thrown. -/
  assigned : s.terminated = false
  /-- `Stop` has returned: no handler is executing. -/
  stopped : s.caller = .idle → s.last = some .stopped → s.handling = false

/-- `Start` begins an accept only when none is outstanding, the context is not stopped and
there is no thread; and nothing that the handler of an accept calls throws. -/
def Fresh (s : Lifecycle) : Event → Prop
  | .start => s.chain = 0 ∧ s.stopped = false ∧ s.contextThread = .none
  | .acceptThrows => False
  | .startFails | .spawn | .spawnFails | .stop | .join | .run | .accept | .accepted | .leave
  | .restart => True

instance (s : Lifecycle) (event : Event) : Decidable (s.Fresh event) :=
  match event with
  | .start => inferInstanceAs (Decidable (_ ∧ _ ∧ _))
  | .acceptThrows => inferInstanceAs (Decidable False)
  | .startFails | .spawn | .spawnFails | .stop | .join | .run | .accept | .accepted | .leave
  | .restart => inferInstanceAs (Decidable True)

/-! ## The invariant -/

/-- The accepts, the thread and the flag of a server that is started once. -/
structure Coupled (s : Lifecycle) : Prop where
  assigned : s.terminated = false
  handling : s.handling = true → s.contextThread = .running
  starting : s.caller = .starting →
    s.contextThread = .none ∧ s.accepts = 1 ∧ s.stopped = false
  chain : s.contextThread ≠ .none → s.chain = 1
  serving : s.contextThread = .spawned ∨ s.contextThread = .running → s.caller ≠ .stopping →
    s.stopped = false
  ended : s.contextThread = .returned ∨ s.contextThread = .ended → s.caller = .stopping
  started : s.caller = .idle → s.last = some .started →
    s.contextThread = .spawned ∨ s.contextThread = .running
  stopped : s.caller = .idle → s.last = some .stopped → s.contextThread = .none

variable {s s' : Lifecycle}

theorem coupled_init : Coupled {} := by
  refine ⟨rfl, ?_, ?_, ?_, ?_, ?_, ?_, ?_⟩ <;> simp

/-- Before the handler of the accept executes, the accept is outstanding. -/
theorem Coupled.accepts (h : Coupled s) (hThread : s.contextThread ≠ .none)
    (hIdle : s.handling = false) : s.accepts = 1 := by
  have hChain := h.chain hThread
  rw [Lifecycle.chain, hIdle] at hChain
  exact hChain

/-- A thread that finds the context stopped is about to be joined. -/
theorem Coupled.stopping (h : Coupled s)
    (hThread : s.contextThread = .spawned ∨ s.contextThread = .running) (hStopped : s.stopped = true) :
    s.caller = .stopping := by
  by_contra hNot
  rw [h.serving hThread hNot] at hStopped
  cases hStopped

/-- While there is a thread, no `Start` is in progress and no `Stop` has just returned. -/
theorem Coupled.busy (h : Coupled s) (hThread : s.contextThread ≠ .none) :
    s.caller ≠ .starting ∧ (s.caller = .idle → s.last ≠ some .stopped) :=
  ⟨fun hCaller => hThread (h.starting hCaller).1,
    fun hCaller hLast => hThread (h.stopped hCaller hLast)⟩

/-- No handler executes when the thread is not in `run`. -/
theorem Coupled.resting (h : Coupled s) (hThread : s.contextThread ≠ .running) :
    s.handling = false := by
  by_contra hNot
  exact hThread (h.handling (by simpa using hNot))

/-- A step of the caller. -/
theorem Coupled.call {event : Event} (h : Coupled s) (hOk : Fresh s event)
    (hStep : s.step event = some s')
    (hEvent : event = .start ∨ event = .startFails ∨ event = .spawn ∨ event = .spawnFails ∨
      event = .stop ∨ event = .join) : Coupled s' := by
  have hAlive := h.assigned
  rcases hEvent with rfl | rfl | rfl | rfl | rfl | rfl
  · -- `Start` begins with nothing outstanding
    obtain ⟨hChain, hStopped, hThread⟩ := hOk
    have hNone : s.accepts = 0 := (Nat.add_eq_zero_iff.mp hChain).1
    simp only [step, hAlive, Bool.false_eq_true, if_false] at hStep
    split at hStep <;> cases hStep
    refine ⟨rfl, h.handling, fun _ => ⟨hThread, ?_, hStopped⟩, fun hSome => absurd hThread hSome,
      ?_, ?_, ?_, ?_⟩ <;> simp [hThread, hNone]
  · simp only [step, hAlive, Bool.false_eq_true, if_false] at hStep
    split at hStep <;> cases hStep
    exact ⟨rfl, h.handling, h.starting, h.chain, h.serving, h.ended, by simp, by simp⟩
  · simp only [step, hAlive, Bool.false_eq_true, if_false] at hStep
    split at hStep <;> cases hStep
    rename_i hStarting
    obtain ⟨hThread, hOne, hStopped⟩ := h.starting hStarting
    have hIdle := h.resting (by simp [hThread])
    rw [if_pos hThread]
    refine ⟨rfl, ?_, ?_, fun _ => ?_, fun _ _ => hStopped, ?_, ?_, ?_⟩ <;>
      simp [hIdle, hOne, Lifecycle.chain]
  · simp only [step, hAlive, Bool.false_eq_true, if_false] at hStep
    split at hStep <;> cases hStep
    rename_i hStarting
    obtain ⟨hThread, -, hStopped⟩ := h.starting hStarting
    refine ⟨rfl, h.handling, ?_, h.chain, fun _ _ => hStopped, ?_, ?_, ?_⟩ <;> simp [hThread]
  · simp only [step, hAlive, Bool.false_eq_true, if_false] at hStep
    split at hStep <;> cases hStep
    refine ⟨rfl, h.handling, ?_, h.chain, ?_, ?_, ?_, ?_⟩ <;> simp
  · simp only [step, hAlive, Bool.false_eq_true, if_false] at hStep
    split at hStep <;> cases hStep
    rename_i hJoin
    have hIdle : s.handling = false := by
      rcases hJoin.2 with hThread | hThread
      all_goals exact h.resting (by simp [hThread])
    refine ⟨rfl, ?_, ?_, ?_, ?_, ?_, ?_, ?_⟩ <;> simp [hIdle]

/-- A step of the thread of the context. -/
theorem Coupled.thread {event : Event} (h : Coupled s) (hStep : s.step event = some s')
    (hEvent : event = .run ∨ event = .accept ∨ event = .accepted ∨ event = .leave ∨
      event = .restart) : Coupled s' := by
  have hAlive := h.assigned
  rcases hEvent with rfl | rfl | rfl | rfl | rfl
  · simp only [step, hAlive, Bool.false_eq_true, if_false] at hStep
    split at hStep <;> cases hStep
    rename_i hSpawned
    have hIdle := h.resting (by simp [hSpawned])
    have hOne := h.accepts (by simp [hSpawned]) hIdle
    obtain ⟨hStarting, hLast⟩ := h.busy (by simp [hSpawned])
    rw [if_neg (by omega)]
    split
    · rename_i hStopped
      have hCaller := h.stopping (.inl hSpawned) hStopped
      refine ⟨rfl, ?_, ?_, ?_, ?_, ?_, ?_, ?_⟩ <;> simp [hIdle, hCaller, hOne, Lifecycle.chain]
    · rename_i hGoing
      refine ⟨rfl, ?_, ?_, ?_, ?_, ?_, ?_, fun hCaller hThis => absurd hThis (hLast hCaller)⟩ <;>
        simp [hIdle, hOne, hStarting, hGoing, Lifecycle.chain]
  · simp only [step, hAlive, Bool.false_eq_true, if_false] at hStep
    split at hStep <;> cases hStep
    rename_i hCan
    obtain ⟨hRunning, hStopped, hIdle, -⟩ := hCan
    have hOne := h.accepts (by simp [hRunning]) hIdle
    obtain ⟨hStarting, hLast⟩ := h.busy (by simp [hRunning])
    refine ⟨rfl, ?_, ?_, ?_, ?_, ?_, ?_, fun hCaller hThis => absurd hThis (hLast hCaller)⟩ <;>
      simp [hRunning, hStopped, hOne, hStarting, Lifecycle.chain]
  · simp only [step, hAlive, Bool.false_eq_true, if_false] at hStep
    split at hStep <;> cases hStep
    rename_i hHandling
    have hRunning := h.handling hHandling
    have hChain := h.chain (by simp [hRunning])
    rw [Lifecycle.chain, hHandling] at hChain
    have hNone : s.accepts = 0 := Nat.succ.inj hChain
    obtain ⟨hStarting, hLast⟩ := h.busy (by simp [hRunning])
    refine ⟨rfl, ?_, ?_, ?_, h.serving, ?_, ?_, fun hCaller hThis => absurd hThis (hLast hCaller)⟩ <;>
      simp [hRunning, hNone, hStarting, Lifecycle.chain]
  · simp only [step, hAlive, Bool.false_eq_true, if_false] at hStep
    split at hStep <;> cases hStep
    rename_i hCan
    obtain ⟨hRunning, hIdle, hEnd⟩ := hCan
    have hOne := h.accepts (by simp [hRunning]) hIdle
    have hStopped : s.stopped = true := hEnd.resolve_right (by omega)
    have hCaller := h.stopping (.inr hRunning) hStopped
    refine ⟨rfl, ?_, ?_, ?_, ?_, ?_, ?_, ?_⟩ <;> simp [hIdle, hCaller, hOne, Lifecycle.chain]
  · simp only [step, hAlive, Bool.false_eq_true, if_false] at hStep
    split at hStep <;> cases hStep
    rename_i hReturned
    have hIdle := h.resting (by simp [hReturned])
    have hOne := h.accepts (by simp [hReturned]) hIdle
    have hCaller := h.ended (.inl hReturned)
    refine ⟨rfl, ?_, ?_, ?_, ?_, ?_, ?_, ?_⟩ <;> simp [hIdle, hCaller, hOne, Lifecycle.chain]

/-- **Every step of a server that is started once keeps the accepts, the thread and the flag
together.** -/
theorem Coupled.step {event : Event} (h : Coupled s) (hOk : Fresh s event)
    (hStep : s.step event = some s') : Coupled s' := by
  cases event with
  | start | startFails | spawn | spawnFails | stop | join => exact h.call hOk hStep (by simp)
  | run | accept | accepted | leave | restart => exact h.thread hStep (by simp)
  | acceptThrows => exact hOk.elim

/-- **A server that is started before anything else serves, until it is stopped.** -/
theorem serves_of_reach (h : Reach system Fresh s) : Serves s := by
  have hCoupled : Coupled s := by
    refine h.invariant (I := Coupled) ?_ fun _ _ _ hCoupled hOk hStep => hCoupled.step hOk hStep
    rintro _ rfl
    exact coupled_init
  refine ⟨fun hCaller hLast => ?_, hCoupled.assigned, fun hCaller hLast => ?_⟩
  · have hThread := hCoupled.started hCaller hLast
    have hSome : s.contextThread ≠ .none := by
      rcases hThread with hThread | hThread
      all_goals simp [hThread]
    exact ⟨hCoupled.serving hThread (by simp [hCaller]), hThread, hCoupled.chain hSome⟩
  · exact hCoupled.resting (by simp [hCoupled.stopped hCaller hLast])

/-- A server that is started and stopped, while a client is accepted. -/
def servedOnce : List Event :=
  [.start, .spawn, .run, .accept, .stop, .accepted, .leave, .restart, .join]

theorem serves_of_servedOnce : ∃ s, Reach system Fresh s ∧ s.last = some .stopped ∧ Serves s := by
  obtain ⟨s, hReach, hEnd⟩ := Reach.exists_of_checked (M := system) Fresh rfl servedOnce
    (fun s => s.last == some .stopped) (by decide)
  exact ⟨s, hReach, beq_iff_eq.mp hEnd, serves_of_reach hReach⟩

/-! ## Other orders of the calls -/

/-- `Start`, `Stop` and `Start`: two accepts are outstanding. -/
theorem started_again : ∃ s, Reach system Free s ∧ s.caller = .idle ∧ s.last = some .started ∧
    s.accepts = 2 ∧ ¬ Serves s := by
  obtain ⟨s, hReach, hEnd⟩ := Reach.exists_of_free (M := system) rfl
    [.start, .spawn, .run, .stop, .leave, .restart, .join, .start, .spawn]
    (fun s => s.caller == .idle && s.last == some .started && s.accepts == 2) (by decide)
  simp only [Bool.and_eq_true, beq_iff_eq] at hEnd
  obtain ⟨⟨hCaller, hLast⟩, hTwo⟩ := hEnd
  refine ⟨s, hReach, hCaller, hLast, hTwo, fun hServes => ?_⟩
  have hChain := (hServes.started hCaller hLast).2.2
  rw [chain] at hChain
  omega

/-- `Stop` and `Start`: the thread finds the context stopped and runs nothing. -/
theorem started_stopped : ∃ s, Reach system Free s ∧ s.caller = .idle ∧ s.last = some .started ∧
    s.contextThread = .ended := by
  obtain ⟨s, hReach, hEnd⟩ := Reach.exists_of_free (M := system) rfl
    [.stop, .join, .start, .spawn, .run, .restart]
    (fun s => s.caller == .idle && s.last == some .started && s.contextThread == .ended) (by decide)
  simp only [Bool.and_eq_true, beq_iff_eq] at hEnd
  exact ⟨s, hReach, hEnd.1.1, hEnd.1.2, hEnd.2⟩

/-- `Start`, and a peer that resets its connection before the handler of its accept runs. -/
theorem accept_thrown : ∃ s, Reach system Free s ∧ s.caller = .idle ∧ s.last = some .started ∧
    s.terminated = true ∧ s.accepts = 0 := by
  obtain ⟨s, hReach, hEnd⟩ := Reach.exists_of_free (M := system) rfl
    [.start, .spawn, .run, .accept, .acceptThrows]
    (fun s => s.caller == .idle && s.last == some .started && s.terminated && s.accepts == 0)
    (by decide)
  simp only [Bool.and_eq_true, beq_iff_eq] at hEnd
  exact ⟨s, hReach, hEnd.1.1.1, hEnd.1.1.2, hEnd.1.2, hEnd.2⟩

end Lifecycle

end MinecraftNetwork
