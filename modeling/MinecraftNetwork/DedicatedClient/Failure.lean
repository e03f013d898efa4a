import MinecraftNetwork.DedicatedClient.Courtesy
import MinecraftNetwork.DedicatedClient.Reconnect

/-!
# A failed `Connect`

The `try` block of `Connect` stores the new connection in `m_pConnection`, starts
`async_connect` and starts the thread before its last throwing steps, and the `catch` block
only prints. Where the failure comes before the connection is stored, nothing is left of the
attempt but what `AllowConnection` has done itself; where the thread cannot be constructed the
client stays connected (`failed_and_connected`); where `OnConnect` throws, something is left
unless `OnConnect` has undone it. `Undone` says which states a failure finds undone, for each
point at which `Connect` can fail (`left_disconnected_iff`).
-/

namespace MinecraftNetwork

open Runs

namespace Endpoint

/-- A lambda is pending, or a frame is being written. -/
def hasMessages (e : Endpoint) : Bool :=
  !e.posted.isEmpty || !(e.writing .header).isEmpty || !(e.writing .body).isEmpty

/-- A chain that waits for nothing leaves the messages. -/
theorem Waits.hasWork {e : Endpoint} (h : e.Waits none) : e.hasWork = e.hasMessages := by
  have hReading : e.reading = [] := h.reading
  have hConnecting : e.connecting = false := by simpa using h.connecting
  have hNone : ∀ op, op.sendsFrame = false → e.writing op = [] := fun op hOp =>
    List.eq_nil_of_length_eq_zero (by simpa [outstanding] using h.writing op hOp)
  simp [Endpoint.hasWork, hasMessages, hReading, hConnecting, hNone .validation1 rfl,
    hNone .validation2 rfl, hNone .validation3 rfl, hNone .validation4 rfl, Bool.or_assoc]

/-- What a chain waits for is pending. -/
theorem Stage.hasWork {s : Start} {e : Endpoint} {k : MinecraftNetwork.Pending} (hWaits : e.Waits (some k))
    (hStage : Stage s (some k) e.dialogue) : e.hasWork = true := by
  cases k with
  | connect =>
    have hConnecting : e.connecting = true := hWaits.connecting
    simp [Endpoint.hasWork, hConnecting]
  | read op n =>
    have hReading : e.reading = [(op, n)] := hWaits.reading
    simp [Endpoint.hasWork, hReading]
  | write op =>
    obtain ⟨bytes, rest, hWriting⟩ := hWaits.writing_cons hStage.write_handshake
    cases op <;> simp [Endpoint.hasWork, hWriting]

/-- Nothing is pending of a client's connection when its chain has stopped and no message is
left. -/
theorem InStage.idle_iff {opened : Bool} {e : Endpoint} (h : InStage (.client opened) e) :
    e.hasWork = false ↔ e.ended = true ∧ e.hasMessages = false := by
  obtain ⟨k, hWaits, hStage⟩ := h
  cases k with
  | none =>
    have hEnded : e.ended = true := by
      change e.dialogue.ended = true
      cases hStage with
      | rejected _ _ _ _ _ hEnded => exact hEnded
      | broken _ hAfter => rw [hAfter]
    rw [hWaits.hasWork]
    exact ⟨fun hNone => ⟨hEnded, hNone⟩, fun hBoth => hBoth.2⟩
  | some k =>
    have hWork := hStage.hasWork hWaits
    refine ⟨fun hNone => ?_, fun hBoth => ?_⟩
    · rw [hWork] at hNone
      cases hNone
    · have hPending : some k = none := hStage.ended_none hBoth.1
      cases hPending

end Endpoint

namespace DedicatedClient

/-! ## The points of failure -/

/-- Where `Connect` fails, with the connection of the attempt. -/
inductive FailurePoint
  /-- The resolver or `make_shared` throws. -/
  | make
  /-- `AllowConnection` returns false or throws. -/
  | allow (x : Nat)
  /-- The thread cannot be constructed. -/
  | spawn (x : Nat)
  /-- `OnConnect` throws. -/
  | greet (x : Nat)
  deriving DecidableEq, Repr

def FailurePoint.attempt : FailurePoint → Option Nat
  | .make => none
  | .allow x | .spawn x | .greet x => some x

/-- The step makes the innermost `Connect` return false. -/
def failsAt (s : DedicatedClient) : Event → Option FailurePoint
  | .deny =>
    match s.tasks .application with
    | .callback (.allowConnection _) :: .start x :: _ => some (.allow x)
    | _ => none
  | .throw =>
    match s.tasks .application with
    | .connect :: _ => some .make
    | .callback (.allowConnection _) :: .start x :: _ => some (.allow x)
    | .callback (.onConnect x) :: .connected _ :: _ => some (.greet x)
    | _ => none
  | .start _ false =>
    match s.tasks .application with
    | .start x :: _ => some (.spawn x)
    | _ => none
  | _ => none

/-- What the callers of a failed `Connect` may rely on. -/
structure LeftDisconnected (s : DedicatedClient) (attempt : Option Nat) : Prop where
  notConnected : s.isConnected = false
  notHeld : ∀ x ∈ attempt, s.connection ≠ some x
  noHandler : ∀ x ∈ attempt, s.busy x = false

/-- The state that a failure finds has nothing of the attempt that the `catch` block would have
to undo. Before the connection is stored this is what `AllowConnection` may have done: it has
connected on its own account, or given the new connection a message. After it has been stored
`OnConnect` must have disconnected, and the connection must have failed before. -/
def Undone (s : DedicatedClient) : FailurePoint → Prop
  | .make => True
  | .allow x => s.isConnected = false ∧ (s.objects x).hasMessages = false
  | .spawn _ => False
  | .greet x => s.isConnected = false ∧ s.connection ≠ some x ∧
      (s.tasks .context).any (Task.resumes x) = false ∧ (s.objects x).ended = true ∧
        (s.objects x).hasMessages = false

/-! ## The stack of the application -/

/-- Only `Connect` calls `AllowConnection` and `OnConnect`, and only after a `Disconnect` it
waits for something. -/
def Task.Over (task : Task) : Task → Prop
  | .connect => task = .join
  | .start x => task = .callback (.allowConnection x)
  | .connected x => task = .callback (.onConnect x)
  | .greet _ => False
  | .callback _ | .resume _ _ | .stop | .join => True

/-- What lies under a task that nobody waits for may lie under any. -/
theorem Task.Over.change {task under : Task} (other : Task) (h : task.Over under)
    (hJoin : task ≠ .join) (hCallback : ∀ c, task ≠ .callback c) : other.Over under := by
  cases under with
  | connect => exact absurd h hJoin
  | start | connected => exact absurd h (hCallback _)
  | greet => exact h.elim
  | callback | resume | stop | join => trivial

/-- The tasks of the application lie on each other as `Connect` and `Disconnect` put them. -/
structure Stacked (s : DedicatedClient) : Prop where
  linked : (s.tasks .application).IsChain Task.Over
  idle : (s.tasks .application).head? = some .connect → s.isConnected = false
  greeting : ∀ x, (s.tasks .application).head? = some (.greet x) → s.connection = some x

section

variable {s s' : DedicatedClient}

theorem isConnected_congr (hConnection : s'.connection = s.connection)
    (hOpen : ∀ x, (s'.objects x).connection.isOpen = (s.objects x).connection.isOpen) :
    s'.isConnected = s.isConnected := by
  simp only [isConnected, hConnection, Connection.isConnected, hOpen]

/-- The application and `m_pConnection` are left alone. -/
theorem Stacked.aside (h : Stacked s) (hTasks : s'.tasks .application = s.tasks .application)
    (hConnection : s'.connection = s.connection)
    (hOpen : ∀ x, (s'.objects x).connection.isOpen = (s.objects x).connection.isOpen) :
    Stacked s' := by
  refine ⟨?_, ?_, ?_⟩ <;> rw [hTasks]
  · exact h.linked
  · rw [isConnected_congr hConnection hOpen]
    exact h.idle
  · rw [hConnection]
    exact h.greeting

/-- The tasks above `rest` are done. -/
theorem Stacked.pop (h : Stacked s) (above : List Task) {task : Task} {rest : List Task}
    (hTasks : s.tasks .application = above ++ task :: rest)
    (hTasks' : s'.tasks .application = rest) (hJoin : task = .join → s'.isConnected = false) :
    Stacked s' := by
  have hLinked := h.linked
  rw [hTasks] at hLinked
  obtain ⟨hOver, hRest⟩ := List.isChain_cons.mp hLinked.right_of_append
  refine ⟨?_, fun hHead => ?_, fun x hHead => ?_⟩ <;> rw [hTasks'] at *
  · exact hRest
  · exact hJoin (hOver _ hHead)
  · exact (hOver _ hHead).elim

/-- A task is put on those it returns to. -/
theorem stacked_push {task : Task} {rest : List Task}
    (hTasks' : s'.tasks .application = task :: rest) (hLinked : (task :: rest).IsChain Task.Over)
    (hIdle : task = .connect → s'.isConnected = false)
    (hGreeting : ∀ x, task = .greet x → s'.connection = some x) : Stacked s' := by
  refine ⟨?_, fun hHead => ?_, fun x hHead => ?_⟩ <;> rw [hTasks'] at *
  · exact hLinked
  · exact hIdle (Option.some.inj hHead)
  · exact hGreeting x (Option.some.inj hHead)

/-- Where the application is running nothing waits for the task on top. -/
theorem over_inApplication (h : s.inApplication .application = true) (task : Task) :
    ∀ under ∈ (s.tasks .application).head?, task.Over under := by
  intro under hHead
  simp only [inApplication] at h
  split at h
  · rename_i hTasks
    rw [hTasks] at hHead
    obtain rfl := Option.some.inj hHead
    trivial
  · rename_i hTasks
    rw [hTasks] at hHead
    cases hHead
  · cases h

/-- A connection with the same socket is stored. -/
theorem update_open {objects : Nat → Endpoint} {x : Nat} {e : Endpoint}
    (h : e.connection.isOpen = (objects x).connection.isOpen) (y : Nat) :
    (Function.update objects x e y).connection.isOpen = (objects y).connection.isOpen := by
  by_cases hSame : y = x
  · subst hSame
    rw [Function.update_self, h]
  · rw [Function.update_of_ne hSame]

/-- `Disconnect()`, of a `Connect` or not. -/
theorem Stacked.disconnect (h : Stacked s) {rest : List Task}
    (hApplication : s.inApplication .application = true)
    (hRest : rest = [] ∨ rest = [.connect] ∧ s.isConnected = true) :
    Stacked (s.disconnect .application rest) := by
  have hUnder := over_inApplication hApplication
  simp only [DedicatedClient.disconnect]
  split
  · rename_i x _
    obtain ⟨-, hTasks, -⟩ := s.disconnectFrom_eq x
    have hStack : ((s.disconnectFrom x).setTasks .application
        (.stop :: .join :: (rest ++ (s.disconnectFrom x).tasks .application))).tasks .application =
          .stop :: .join :: (rest ++ s.tasks .application) := by
      rw [hTasks, setTasks_tasks]
    refine stacked_push hStack ?_ (by simp) (by simp)
    refine List.isChain_cons.mpr ⟨by simp [Task.Over], List.isChain_cons.mpr ?_⟩
    rcases hRest with rfl | ⟨rfl, -⟩
    · exact ⟨hUnder .join, h.linked⟩
    · exact ⟨by simp [Task.Over], List.isChain_cons.mpr ⟨hUnder .connect, h.linked⟩⟩
  · rename_i hNone
    rcases hRest with rfl | ⟨-, hConnected⟩
    · exact h.aside (setTasks_tasks ..) rfl fun _ => rfl
    · simp [isConnected, hNone] at hConnected

theorem Stacked.act {t : Thread} {action : Action} (h : Stacked s)
    (hApplication : s.inApplication t = true) (hStep : s.act t action = some s') : Stacked s' := by
  cases act_cases hStep with
  | connect hNot =>
    refine stacked_push (setTasks_tasks ..)
      (List.isChain_cons.mpr ⟨over_inApplication hApplication _, h.linked⟩) (fun _ => ?_) (by simp)
    exact Bool.eq_false_iff.mpr hNot
  | reconnect hConnected => exact h.disconnect hApplication (.inr ⟨rfl, hConnected⟩)
  | disconnect => exact h.disconnect hApplication (.inl rfl)
  | send | sendTo => exact h.aside rfl rfl (update_open rfl)
  | sendNothing => exact h
  | @disconnectFrom _ x =>
    obtain ⟨hObjects, hTasks, -, hConnection, -⟩ := s.disconnectFrom_eq x
    refine h.aside (by rw [hTasks]) hConnection ?_
    rw [hObjects]
    exact update_open rfl
  | keep | drop => exact h.aside rfl rfl fun _ => rfl

/-- A handler, or the rest of one, up to its next callback. -/
theorem Stacked.advanced (h : Stacked s) {before : DedicatedClient} {x : Nat}
    {done tail : List Effect} (hAdvanced : Advanced before x done tail s')
    (hTasks : before.tasks .application = s.tasks .application)
    (hConnection : before.connection = s.connection)
    (hOpen : ∀ y, (before.objects y).connection.isOpen = (s.objects y).connection.isOpen) :
    Stacked s' := by
  refine h.aside (hAdvanced.application.trans hTasks) (hAdvanced.connection.trans hConnection)
    fun y => ?_
  rw [hAdvanced.objects, ← hOpen]
  exact update_open (by rw [Endpoint.performAll_connection]) y

/-- `Connect` from the construction of the thread to the call of `OnConnect`. -/
theorem Stacked.greet (h : Stacked s) {x : Nat} {rest : List Task}
    (hTasks : s.tasks .application = .greet x :: rest) :
    Stacked ((s.setTasks .application rest).call .application (.onConnect x) [.connected x]) := by
  have hLinked := h.linked
  rw [hTasks] at hLinked
  obtain ⟨hOver, hRest⟩ := List.isChain_cons.mp hLinked
  have hTasks' : ((s.setTasks .application rest).call .application (.onConnect x)
      [.connected x]).tasks .application = .callback (.onConnect x) :: .connected x :: rest := by
    simp [call, DedicatedClient.notify, setTasks]
  refine stacked_push hTasks' ?_ (by simp) (by simp)
  refine List.isChain_cons.mpr ⟨by simp [Task.Over], List.isChain_cons.mpr ⟨?_, hRest⟩⟩
  exact fun under hHead => (hOver under hHead).change _ (by simp) (by simp)

/-- `Connect` from `make_shared` to the call of `AllowConnection`. -/
theorem Stacked.create (h : Stacked s) {rest : List Task}
    (hTasks : s.tasks .application = .connect :: rest) : Stacked (s.create rest) := by
  have hLinked := h.linked
  rw [hTasks] at hLinked
  obtain ⟨hOver, hRest⟩ := List.isChain_cons.mp hLinked
  have hTasks' : (s.create rest).tasks .application =
      .callback (.allowConnection s.allocated) :: .start s.allocated :: rest := by
    simp [DedicatedClient.create, call, DedicatedClient.notify, setTasks, setObject]
  refine stacked_push hTasks' ?_ (by simp) (by simp)
  refine List.isChain_cons.mpr ⟨by simp [Task.Over], List.isChain_cons.mpr ⟨?_, hRest⟩⟩
  exact fun under hHead => (hOver under hHead).change _ (by simp) (by simp)

theorem Stacked.start {x : Nat} {rest : List Task} (opened spawned : Bool) (h : Stacked s)
    (hTasks : s.tasks .application = .start x :: rest) :
    Stacked (s.start x opened spawned rest) := by
  have hLinked := h.linked
  rw [hTasks] at hLinked
  obtain ⟨hOver, hRest⟩ := List.isChain_cons.mp hLinked
  obtain ⟨-, -, hTasks', hStored, -⟩ := start_frame s x opened spawned rest
  rcases hTasks' with hGreet | hFailed
  · refine stacked_push hGreet (List.isChain_cons.mpr ⟨?_, hRest⟩) (by simp) fun y hSame => ?_
    · exact fun under hHead => (hOver under hHead).change _ (by simp) (by simp)
    · rw [hStored, Task.greet.inj hSame]
  · exact h.pop [] hTasks hFailed (by simp)

theorem Stacked.next {event : Event} (h : Stacked s) (hSound : Sound s)
    (hStep : s.next event = some s') : Stacked s' := by
  cases next_cases hStep with
  | app hApplication hAct => exact h.act hApplication hAct
  | @leave t c rest hTasks =>
    cases t with
    | context => exact h.aside rfl rfl fun _ => rfl
    | application => exact h.pop [] hTasks (s.setTasks_tasks .application rest) (by simp)
  | @deny x y rest hTasks | @throwAllow x y rest hTasks =>
    exact h.pop [.callback (.allowConnection x)] hTasks (s.setTasks_tasks .application rest) (by simp)
  | @throwMake rest hTasks | @connected _ rest hTasks | @stop rest hTasks =>
    exact h.pop [] hTasks (s.setTasks_tasks .application rest) (by simp)
  | @throwGreet x y rest hTasks =>
    exact h.pop [.callback (.onConnect x)] hTasks (s.setTasks_tasks .application rest) (by simp)
  | create hTasks => exact h.create hTasks
  | start hTasks => exact h.start _ _ hTasks
  | @resume x effects rest hTasks =>
    obtain ⟨done, tail, rfl, hAdvanced⟩ := advanced_advance (s.setTasks .context rest) x effects
    exact h.advanced hAdvanced rfl rfl fun _ => rfl
  | greet hTasks => exact h.greet hTasks
  | @join rest hTasks =>
    exact h.pop [] hTasks (s.setTasks_tasks .application rest) fun _ => rfl
  | @pop m rest q hIdle =>
    have hTasks' : (({ s with incoming := q } : DedicatedClient).call .application (.onMessage m)
        []).tasks .application = [.callback (.onMessage m)] := by
      simp [call, DedicatedClient.notify, setTasks, hIdle]
    exact stacked_push hTasks' (List.isChain_singleton _) (by simp) (by simp)
  | @complete x c e effects _ _ hHandle =>
    obtain ⟨-, hSame, -⟩ := (hSound.objects x).handle hHandle
    obtain ⟨done, tail, rfl, hAdvanced⟩ := advanced_advance (s.setObject x e) x effects
    exact h.advanced hAdvanced rfl rfl (update_open hSame.isOpen)
  | poll | enter | closeSocket | runOut | finish | restart => exact h.aside rfl rfl fun _ => rfl
  | transfer _ hTransfer =>
    exact h.aside rfl rfl (update_open (by rw [(Endpoint.transfer_frame hTransfer).1]))

/-! ## The connections that `Connect` has stored -/

/-- A connection keeps its owner. -/
theorem Change.owner {x : Nat} (h : Change s s' x) (hSound : Sound s) (hHeard : Heard s)
    (hOwner : (s.objects x).connection.hasConnectable = true) :
    (s'.objects x).connection.hasConnectable = true := by
  rw [← endpoint_connection] at hOwner ⊢
  cases h with
  | same hSame =>
    rw [hSame]
    exact hOwner
  | moved action hMove => rw [Endpoint.step_hasConnectable hMove, hOwner]
  | create hNew hObject =>
    subst hNew
    rw [endpoint_connection, hHeard.new] at hOwner
    cases hOwner
  | start opened hMem hObject =>
    rw [endpoint_connection, hSound.unowned hMem] at hOwner
    cases hOwner

/-- A connection that has been stored has its owner, and is in its handshake or behind it while
`Connect` calls `OnConnect`. -/
structure Staged (s : DedicatedClient) : Prop where
  stored : ∀ x, s.connection = some x → (s.objects x).connection.hasConnectable = true
  stages : ∀ x, s.greets x → (s.objects x).connection.hasConnectable = true ∧
    ∃ opened, Endpoint.InStage (.client opened) (s.endpoint x)

/-- Nothing lies on the call of `OnConnect` that `Connect` is about to make. -/
theorem greet_head {tasks : List Task} {x : Nat} (hLinked : tasks.IsChain Task.Over)
    (hMem : .greet x ∈ tasks) : tasks.head? = some (.greet x) := by
  induction tasks with
  | nil => cases hMem
  | cons task rest ih =>
    obtain ⟨hOver, hRest⟩ := List.isChain_cons.mp hLinked
    rcases List.mem_cons.mp hMem with rfl | hLater
    · rfl
    · exact (hOver _ (ih hRest hLater)).elim

/-- Somebody owns a connection while `Connect` calls `OnConnect`. -/
theorem Stacked.owner (h : Stacked s) {x : Nat} (hGreets : s.greets x) : x ∈ s.owners := by
  rcases hGreets with hGreet | hCall
  · have hStored := h.greeting x (greet_head h.linked hGreet)
    simp [owners, hStored]
  · have hRef : x ∈ (s.tasks .application).flatMap Task.refs :=
      List.mem_flatMap.mpr ⟨_, hCall, by simp [Task.refs, Callback.refs]⟩
    simp [owners, hRef]

/-- A step that stores no connection. -/
theorem Staged.keep (h : Staged s) (hStacked : Stacked s) (hSound : Sound s) (hHeard : Heard s)
    (hChange : ∀ x, Change s s' x) (hConnection : ∀ x, s'.connection = some x → s.connection = some x)
    (hGreets : ∀ x, s'.greets x → s.greets x) : Staged s' := by
  refine ⟨fun x hSome => (hChange x).owner hSound hHeard (h.stored x (hConnection x hSome)),
    fun x hNew => ?_⟩
  obtain ⟨hOwner, opened, hStage⟩ := h.stages x (hGreets x hNew)
  refine ⟨(hChange x).owner hSound hHeard hOwner, opened, ?_⟩
  cases hChange x with
  | same hSame =>
    rw [hSame]
    exact hStage
  | moved action hMove => exact hStage.step hMove
  | create hFresh =>
    subst hFresh
    rw [hHeard.new] at hOwner
    cases hOwner
  | start opened hMem =>
    rw [hSound.unowned hMem] at hOwner
    cases hOwner

theorem Staged.step {event : Event} (h : Staged s) (hStacked : Stacked s) (hSound : Sound s)
    (hHeard : Heard s) (hSteps : Steps s s' event) : Staged s' := by
  have hChange := hSteps.change hSound
  cases hSteps with
  | idle hCalm | outside action hCalm =>
    exact h.keep hStacked hSound hHeard hChange hCalm.connection hCalm.greets
  | @handler x c e effects hEvent hReady hHandle hNext =>
    obtain ⟨done, tail, rfl, hAdvanced⟩ := advanced_advance (s.setObject x e) x effects
    rw [← hNext] at hAdvanced
    refine h.keep hStacked hSound hHeard hChange (fun y hSome => ?_) fun y hGreets => ?_
    · rw [hAdvanced.connection] at hSome
      exact hSome
    · rw [greets, hAdvanced.application] at hGreets
      exact hGreets
  | @resume x effects rest hTasks hNext =>
    obtain ⟨done, tail, rfl, hAdvanced⟩ := advanced_advance (s.setTasks .context rest) x effects
    rw [← hNext] at hAdvanced
    refine h.keep hStacked hSound hHeard hChange (fun y hSome => ?_) fun y hGreets => ?_
    · rw [hAdvanced.connection] at hSome
      exact hSome
    · rw [greets, hAdvanced.application] at hGreets
      exact hGreets
  | @create rest hTasks hNext =>
    subst hNext
    refine h.keep hStacked hSound hHeard hChange (fun _ hSome => hSome) fun x hGreets => ?_
    rw [greets, hTasks]
    simpa [greets, DedicatedClient.create, call, DedicatedClient.notify, setTasks, setObject]
      using hGreets
  | @greet x rest hTasks hNext =>
    subst hNext
    refine h.keep hStacked hSound hHeard hChange (fun _ hSome => hSome) fun y hGreets => ?_
    rw [greets, hTasks]
    simp only [greets, call, DedicatedClient.notify, setTasks, Function.update_self,
      List.mem_cons, List.mem_append, List.not_mem_nil, or_false, reduceCtorEq, false_or,
      Task.callback.injEq, Callback.onConnect.injEq, Task.greet.injEq] at hGreets ⊢
    tauto
  | @start x opened spawned rest hTasks hNext =>
    subst hNext
    have hMem : .start x ∈ s.tasks .application := by
      rw [hTasks]
      exact List.mem_cons_self
    have hRest := (hHeard.unknown (hSound.unowned hMem)).2
    obtain ⟨e, he, hStage, hOwner, -⟩ := hHeard.connectToServer opened hSound hMem
    obtain ⟨hObjects, hContext, hTasks', hStored, -⟩ := start_frame s x opened spawned rest
    generalize s.start x opened spawned rest = s' at *
    have hThis : s'.objects x = e := by rw [hObjects, Function.update_self, he]
    have hEndpoint : s'.endpoint x = s'.objects x := by
      rw [endpoint, DedicatedClient.rest, hContext]
      exact congrArg (Endpoint.performAll _) hRest
    refine ⟨fun y hSome => ?_, fun y hGreets => ?_⟩
    · rw [hStored] at hSome
      obtain rfl := Option.some.inj hSome
      rw [hThis]
      exact hOwner
    · by_cases hSame : y = x
      · subst hSame
        rw [hEndpoint, hThis]
        exact ⟨hOwner, opened, hStage⟩
      · have hOld : s.greets y := by
          rw [greets, hTasks]
          rw [greets] at hGreets
          rcases hTasks' with hTasks' | hTasks' <;> rw [hTasks'] at hGreets <;>
            simpa [hSame] using hGreets
        obtain ⟨hOwner', opened', hStage'⟩ := h.stages y hOld
        have hObject : s'.objects y = s.objects y := by
          rw [hObjects, Function.update_of_ne hSame]
        have hSameEndpoint : s'.endpoint y = s.endpoint y := by
          rw [endpoint, endpoint, hObject, DedicatedClient.rest, hContext, DedicatedClient.rest]
        rw [hObject, hSameEndpoint]
        exact ⟨hOwner', opened', hStage'⟩

end

theorem invariants_of_reach {ok : DedicatedClient → Event → Prop} {s : DedicatedClient}
    (h : Reach system ok s) : Stacked s ∧ Staged s := by
  induction h with
  | init hInit =>
    cases hInit
    refine ⟨⟨.nil, by simp, by simp⟩, ⟨by simp, fun x hGreets => ?_⟩⟩
    simp [greets] at hGreets
  | @step s s' event prior _ hStep ih =>
    obtain ⟨hSound, hHeard⟩ := heard_of_reach prior
    obtain ⟨hStacked, hStaged⟩ := ih
    have hNext := next_of_step hStep
    exact ⟨hStacked.next hSound hNext,
      hStaged.step hStacked hSound hHeard (steps_of_next hNext)⟩

/-! ## What a failed `Connect` leaves -/

section

variable {s s' : DedicatedClient}

theorem resumes_iff (s : DedicatedClient) (x : Nat) :
    (s.tasks .context).any (Task.resumes x) = false ↔
      ∀ effects, .resume x effects ∉ s.tasks .context := by
  rw [List.any_eq_false]
  constructor
  · exact fun hNone effects hMem => hNone _ hMem (by simp [Task.resumes])
  · intro hNone task hMem hYes
    cases task with
    | resume y effects =>
      obtain rfl : y = x := by simpa [Task.resumes] using hYes
      exact hNone effects hMem
    | callback | connect | start | greet | connected | stop | join => cases hYes

/-- A new connection has nothing pending but messages. -/
theorem Heard.busy_new (h : Heard s) {x : Nat}
    (hNot : (s.objects x).connection.hasConnectable = false) :
    s.busy x = (s.objects x).hasMessages := by
  obtain ⟨hVerdicts, hRest⟩ := h.unknown hNot
  have hAlive := h.alive x
  rw [endpoint, hRest] at hAlive
  have hWork : (s.objects x).hasWork = (s.objects x).hasMessages := by
    cases hAlive with
    | created hWaits => exact hWaits.hasWork
    | admitted _ hOwner =>
      rw [Endpoint.performAll_connection, hNot] at hOwner
      cases hOwner
  have hResumes : (s.tasks .context).any (Task.resumes x) = false :=
    (resumes_iff s x).mpr fun effects hMem => h.paused x effects hMem hVerdicts
  rw [busy, hWork, hResumes, Bool.or_false]

/-- Nothing is pending or running of a connection whose chain has stopped, but messages. -/
theorem Staged.busy_iff (h : Staged s) {x : Nat} (hGreets : s.greets x) :
    s.busy x = false ↔ (s.tasks .context).any (Task.resumes x) = false ∧
      (s.objects x).ended = true ∧ (s.objects x).hasMessages = false := by
  obtain ⟨-, opened, hStage⟩ := h.stages x hGreets
  rw [busy, Bool.or_eq_false_iff, and_comm]
  refine and_congr_right fun hResumes => ?_
  have hRest : s.rest x = [] := rest_unresumed ((resumes_iff s x).mp hResumes)
  rw [endpoint, hRest] at hStage
  exact hStage.idle_iff

theorem leftDisconnected_some (s : DedicatedClient) (x : Nat) : LeftDisconnected s (some x) ↔
    s.isConnected = false ∧ s.connection ≠ some x ∧ s.busy x = false := by
  constructor
  · exact fun h => ⟨h.notConnected, h.notHeld x rfl, h.noHandler x rfl⟩
  · rintro ⟨hNotConnected, hNotHeld, hNoHandler⟩
    exact ⟨hNotConnected, by simpa using hNotHeld, by simpa using hNoHandler⟩

/-- A failure in `AllowConnection` comes before the connection is stored. -/
theorem left_refused (hSound : Sound s) (hHeard : Heard s) (hStaged : Staged s) {x y : Nat}
    {rest : List Task}
    (hTasks : s.tasks .application = .callback (.allowConnection y) :: .start x :: rest)
    (p : Option Nat) : LeftDisconnected ((s.setTasks .application rest).notify (.failed p)) (some x) ↔
      s.Undone (.allow x) := by
  have hNot := hSound.unowned (x := x) (by simp [hTasks])
  have hNotStored : s.connection ≠ some x := by
    intro hStored
    have hOwner := hStaged.stored x hStored
    rw [hNot] at hOwner
    cases hOwner
  rw [leftDisconnected_some]
  change s.isConnected = false ∧ s.connection ≠ some x ∧ s.busy x = false ↔ _
  rw [hHeard.busy_new hNot]
  exact ⟨fun h => ⟨h.1, h.2.2⟩, fun h => ⟨h.1, hNotStored, h.2⟩⟩

/-- A failure in `OnConnect` finds the connection stored and its chain under way. -/
theorem left_thrown (hStaged : Staged s) {x y : Nat} {rest : List Task}
    (hTasks : s.tasks .application = .callback (.onConnect x) :: .connected y :: rest)
    (p : Option Nat) : LeftDisconnected ((s.setTasks .application rest).notify (.failed p)) (some x) ↔
      s.Undone (.greet x) := by
  have hGreets : s.greets x := .inr (by simp [hTasks])
  rw [leftDisconnected_some]
  change s.isConnected = false ∧ s.connection ≠ some x ∧ s.busy x = false ↔ _
  rw [hStaged.busy_iff hGreets]
  rfl

/-- **A failed `Connect` leaves the client disconnected** if and only if its state has nothing
to undo. -/
theorem left_disconnected_iff {event : Event} {point : FailurePoint} (h : Reach system Free s)
    (hFails : s.failsAt event = some point) (hStep : s.step event = some s') :
    LeftDisconnected s' point.attempt ↔ s.Undone point := by
  obtain ⟨hSound, hHeard⟩ := heard_of_reach h
  obtain ⟨hStacked, hStaged⟩ := invariants_of_reach h
  cases next_cases (next_of_step hStep) with
  | deny hTasks =>
    simp only [failsAt, hTasks, Option.some.injEq] at hFails
    subst hFails
    exact left_refused hSound hHeard hStaged hTasks _
  | throwMake hTasks =>
    simp only [failsAt, hTasks, Option.some.injEq] at hFails
    subst hFails
    refine ⟨fun _ => trivial, fun _ => ⟨hStacked.idle ?_, by simp [FailurePoint.attempt],
      by simp [FailurePoint.attempt]⟩⟩
    rw [hTasks]
    rfl
  | throwAllow hTasks =>
    simp only [failsAt, hTasks, Option.some.injEq] at hFails
    subst hFails
    exact left_refused hSound hHeard hStaged hTasks _
  | throwGreet hTasks =>
    simp only [failsAt, hTasks, Option.some.injEq] at hFails
    subst hFails
    exact left_thrown hStaged hTasks _
  | @start x opened spawned rest hTasks =>
    cases spawned with
    | true => cases hFails
    | false =>
      simp only [failsAt, hTasks, Option.some.injEq] at hFails
      subst hFails
      obtain ⟨-, -, -, hStored, -⟩ := start_frame s x opened false rest
      exact ⟨fun hLeft => hLeft.notHeld x rfl hStored, fun hUndone => hUndone.elim⟩
  | app | leave | create | resume | greet | connected | stop | join | pop | poll | enter | complete
  | closeSocket | runOut | finish | restart | transfer => cases hFails

end

/-- `AllowConnection` refuses the connection. -/
theorem left_disconnected_denied : ∃ s s', Reach system Free s ∧
    s.failsAt .deny = some (.allow 0) ∧ s.step .deny = some s' ∧ LeftDisconnected s' (some 0) := by
  obtain ⟨s, hReach, hEnd⟩ := Reach.exists_of_free (M := system) rfl
    [.app .application .connect, .create]
    (fun s => s.failsAt .deny == some (.allow 0) && (s.step .deny).isSome && !s.isConnected &&
      !(s.objects 0).hasMessages) (by decide)
  simp only [Bool.and_eq_true, beq_iff_eq, Bool.not_eq_true'] at hEnd
  obtain ⟨⟨⟨hFails, hSome⟩, hConnected⟩, hMessages⟩ := hEnd
  obtain ⟨s', hStep⟩ := Option.isSome_iff_exists.mp hSome
  exact ⟨s, s', hReach, hFails, hStep,
    (left_disconnected_iff hReach hFails hStep).mpr ⟨hConnected, hMessages⟩⟩

/-- **The thread cannot be constructed**: `Connect` returns false and the client is connected. -/
theorem failed_and_connected : ∃ s s', Reach system Free s ∧
    s.failsAt (.start true false) = some (.spawn 0) ∧ s.step (.start true false) = some s' ∧
      s'.isConnected = true ∧ s'.connection = some 0 ∧ s'.busy 0 = true ∧
      ¬ LeftDisconnected s' (some 0) := by
  obtain ⟨s, hReach, hEnd⟩ := Reach.exists_of_free (M := system) rfl
    [.app .application .connect, .create, .leave .application]
    (fun s => s.failsAt (.start true false) == some (.spawn 0) &&
      (s.step (.start true false)).any fun s' =>
        s'.isConnected && s'.connection == some 0 && s'.busy 0) (by decide)
  simp only [Bool.and_eq_true, beq_iff_eq, Option.any_eq_true_iff_get] at hEnd
  obtain ⟨hFails, hSome, ⟨hConnected, hStored⟩, hBusy⟩ := hEnd
  refine ⟨s, _, hReach, hFails, (Option.some_get hSome).symm, hConnected, hStored, hBusy,
    fun hLeft => ?_⟩
  rw [hLeft.notConnected] at hConnected
  cases hConnected

end DedicatedClient

end MinecraftNetwork
