import MinecraftNetwork.DedicatedClient.Objects

/-!
# Handlers of an earlier connection

`Disconnect` stops the context and gives `m_pConnection` up with the handlers of the
connection still queued, and the thread of the next connection takes them up, on a connection
that has been destroyed (`stale_handler`). A handler belongs to the connection of `m_pConnection` in every run in
which nothing of a connection is pending when it is given up, and in which only the
connection of `m_pConnection` is given messages (`ownHandlers_of_reach`).
-/

namespace MinecraftNetwork

open Runs

namespace DedicatedClient

/-- The task is the rest of a handler of the connection. -/
def Task.resumes (x : Nat) : Task → Bool
  | .resume y _ => y == x
  | .callback _ | .connect | .start _ | .greet _ | .connected _ | .stop | .join => false

/-- A handler of the connection is pending, or running. -/
def busy (s : DedicatedClient) (x : Nat) : Bool :=
  (s.objects x).hasWork || (s.tasks .context).any (Task.resumes x)

/-- The context thread may take up the handler next, whether its connection is alive or not. -/
def Takes (s : DedicatedClient) (x : Nat) (c : Completion) : Prop :=
  s.terminated = false ∧ s.isReady = true ∧ ((s.objects x).handle c).isSome = true

instance (s : DedicatedClient) (x : Nat) (c : Completion) : Decidable (s.Takes x c) :=
  inferInstanceAs (Decidable (_ ∧ _ ∧ _))

/-- Every handler that runs belongs to the connection of `m_pConnection`. -/
structure OwnHandlers (s : DedicatedClient) : Prop where
  runs : ∀ x c, s.Takes x c → s.connection = some x
  resumes : ∀ x effects rest, s.tasks .context = .resume x effects :: rest → s.connection = some x

/-- The step stores a new connection in `m_pConnection`. -/
def Event.stores : Event → Bool
  | .start _ _ => true
  | .app _ _ | .leave _ | .deny | .throw | .create | .run _ | .poll _ | .enter | .complete _ _
  | .closeSocket | .runOut | .finish | .restart | .transfer _ _ _ => false

/-- The step changes `m_pConnection`: `Disconnect` resets it, or `Connect` stores another. -/
def givesUp (s : DedicatedClient) (event : Event) : Prop :=
  (event = .run .application ∧ (s.tasks .application).head? = some .join) ∨ event.stores = true

/-- The connection that a step calls `Send` of, through a pointer the application has. -/
def Event.sendsTo : Event → Option Nat
  | .app _ (.sendTo x _) => some x
  | _ => none

/-- The promise: when `m_pConnection` is changed no handler of its connection is pending or
running, and `Connection::Send` is called of the connection of `m_pConnection`. -/
def Quiet (s : DedicatedClient) (event : Event) : Prop :=
  (s.givesUp event → ∀ x ∈ s.connection, s.busy x = false) ∧
    ∀ x ∈ event.sendsTo, s.connection = some x

instance (s : DedicatedClient) (event : Event) : Decidable (s.givesUp event) :=
  inferInstanceAs (Decidable (_ ∨ _))

instance (s : DedicatedClient) (event : Event) : Decidable (s.Quiet event) :=
  inferInstanceAs (Decidable ((s.givesUp event → _) ∧ _))

end DedicatedClient

/-! ## What is pending of a connection -/

namespace Endpoint

theorem hasWork_of_pending {e : Endpoint} (h : e.HasPending) : e.hasWork = true := by
  rcases h with hConnecting | hReading | ⟨op, hWriting⟩ | hPosted
  · simp [hasWork, hConnecting]
  · simp [hasWork, hReading]
  · cases op <;> simp [hasWork, hWriting]
  · simp [hasWork, hPosted]

end Endpoint

namespace DedicatedClient

theorem Held.hasWork_disconnect {e : Endpoint} (h : Held e) : e.disconnect.hasWork = e.hasWork := by
  have hSame : e.disconnect = e := by
    simp only [Endpoint.disconnect, Connection.disconnect_post h.connectable, List.append_nil]
  rw [hSame]

/-! ## Parts of a step that give work to the connection of `m_pConnection` only -/

/-- `m_pConnection` is left alone, and what is pending is so already or belongs to it. -/
structure Tidy (s s' : DedicatedClient) : Prop where
  connection : s'.connection = s.connection
  busy : ∀ x, s'.busy x = true → s.busy x = true ∨ s.connection = some x

/-- What is pending or running belongs to the connection of `m_pConnection`. -/
def Owned (s : DedicatedClient) : Prop := ∀ x, s.busy x = true → s.connection = some x

section

variable (s : DedicatedClient)

theorem Owned.tidy {s s' : DedicatedClient} (h : Owned s) (hTidy : Tidy s s') : Owned s' := by
  intro x hBusy
  rw [hTidy.connection]
  exact (hTidy.busy x hBusy).elim (h x) id

theorem Tidy.trans {s₁ s₂ s₃ : DedicatedClient} (h : Tidy s₁ s₂) (h' : Tidy s₂ s₃) :
    Tidy s₁ s₃ := by
  refine ⟨h'.connection.trans h.connection, fun x hBusy => ?_⟩
  rcases h'.busy x hBusy with hMiddle | hOwn
  · exact h.busy x hMiddle
  · right
    rw [← h.connection]
    exact hOwn

theorem tidy_refl : Tidy s s := ⟨rfl, fun _ h => .inl h⟩

/-- Only the rests of handlers count among the tasks. -/
theorem tidy_setTasks {t : Thread} {tasks : List Task}
    (h : ∀ x, tasks.any (Task.resumes x) = true →
      (s.tasks t).any (Task.resumes x) = true ∨ s.connection = some x) :
    Tidy s (s.setTasks t tasks) := by
  refine ⟨rfl, fun x hBusy => ?_⟩
  simp only [busy, Bool.or_eq_true] at hBusy ⊢
  rcases hBusy with hWork | hResumes
  · exact .inl (.inl hWork)
  · cases t with
    | application => exact .inl (.inr hResumes)
    | context => exact (h x hResumes).imp_left .inr

/-- A thread exchanges its first tasks. -/
theorem tidy_exchange (old new : List Task) {t : Thread} {rest : List Task}
    (hTasks : s.tasks t = old ++ rest)
    (hNew : ∀ x, new.any (Task.resumes x) = true → s.connection = some x) :
    Tidy s (s.setTasks t (new ++ rest)) := by
  refine tidy_setTasks s fun x hResumes => ?_
  rw [List.any_append, Bool.or_eq_true] at hResumes
  rcases hResumes with hResumes | hResumes
  · exact .inr (hNew x hResumes)
  · left
    rw [hTasks, List.any_append, hResumes, Bool.or_true]

theorem tidy_setObject {x : Nat} {e : Endpoint}
    (h : e.hasWork = true → s.busy x = true ∨ s.connection = some x) :
    Tidy s (s.setObject x e) := by
  refine ⟨rfl, fun y hBusy => ?_⟩
  by_cases hSame : y = x
  · subst hSame
    simp only [busy, setObject, Function.update_self, Bool.or_eq_true] at hBusy ⊢
    rcases hBusy with hWork | hResumes
    · exact (h hWork).imp_left fun hBusy => by simpa [busy] using hBusy
    · exact .inl (.inr hResumes)
  · left
    simpa [busy, setObject, hSame] using hBusy

theorem tidy_call (t : Thread) (c : Callback) {rest : List Task}
    (h : ∀ x, rest.any (Task.resumes x) = true → s.connection = some x) :
    Tidy s (s.call t c rest) := by
  have hTasks := tidy_exchange s [] (.callback c :: rest) (t := t) rfl h
  exact ⟨hTasks.connection, hTasks.busy⟩

theorem tidy_disconnectFrom {x : Nat} (hHeld : Held (s.objects x)) :
    Tidy s (s.disconnectFrom x) := by
  have hObject : Tidy s (s.setObject x (s.objects x).disconnect) := by
    refine tidy_setObject s fun hWork => .inl ?_
    rw [hHeld.hasWork_disconnect] at hWork
    simp [busy, hWork]
  simp only [disconnectFrom]
  split
  · exact ⟨hObject.connection, hObject.busy⟩
  · exact hObject

theorem tidy_disconnect (hHeld : ∀ x, Held (s.objects x)) (t : Thread) {rest : List Task}
    (h : ∀ x, rest.any (Task.resumes x) = false) : Tidy s (s.disconnect t rest) := by
  have hNone : ∀ {s' : DedicatedClient} x, rest.any (Task.resumes x) = true →
      s'.connection = some x := by
    intro s' x hYes
    rw [h x] at hYes
    cases hYes
  simp only [disconnect]
  split
  · rename_i x _
    refine (tidy_disconnectFrom s (hHeld x)).trans ?_
    exact tidy_exchange _ [] (.stop :: .join :: rest) rfl hNone
  · exact tidy_exchange s [] rest rfl hNone

/-- A handler of the connection of `m_pConnection` goes on. -/
theorem tidy_advance {x : Nat} (hOwn : s.connection = some x) (effects : List Effect) :
    Tidy s (s.advance x effects) := by
  induction effects generalizing s with
  | nil => exact tidy_refl s
  | cons effect effects ih =>
    have hObject := tidy_setObject s (x := x) (e := (s.objects x).perform effect)
      fun _ => .inr hOwn
    have hResume : ∀ y, [Task.resume x effects].any (Task.resumes y) = true →
        s.connection = some y := by
      intro y hYes
      simp only [List.any_cons, List.any_nil, Bool.or_false, Task.resumes, beq_iff_eq] at hYes
      rw [← hYes]
      exact hOwn
    cases effect with
    | onValidate | onInvalidate => exact hObject.trans (tidy_call _ _ _ hResume)
    | disconnect =>
      have hSocket : Tidy s (s.setObject x ((s.objects x).perform .disconnect)).disconnectSocket :=
        ⟨hObject.connection, hObject.busy⟩
      exact hSocket.trans (ih _ hOwn)
    | emplaceBack tagged m =>
      have hQueue : Tidy s { s.setObject x ((s.objects x).perform (.emplaceBack tagged m)) with
          incoming := s.incoming.emplaceBack m } := ⟨hObject.connection, hObject.busy⟩
      exact hQueue.trans (ih _ hOwn)
    | asyncConnect | asyncRead | asyncWrite | postClose | emptyDeque =>
      exact hObject.trans (ih _ hOwn)

end

/-! ## Steps -/

section

variable {s s' : DedicatedClient}

theorem tidy_act {t : Thread} {action : Action} (hHeld : ∀ x, Held (s.objects x))
    (hSends : ∀ x ∈ (Event.app t action).sendsTo, s.connection = some x)
    (hStep : s.act t action = some s') : Tidy s s' := by
  cases act_cases hStep with
  | connect => exact tidy_exchange s [] [.connect] rfl (by simp [Task.resumes])
  | reconnect => exact tidy_disconnect s hHeld .application (by simp [Task.resumes])
  | disconnect => exact tidy_disconnect s hHeld .application (by simp)
  | send hOwn => exact tidy_setObject s fun _ => .inr hOwn
  | sendNothing => exact tidy_refl s
  | sendTo => exact tidy_setObject s fun _ => .inr (hSends _ rfl)
  | @disconnectFrom _ x => exact tidy_disconnectFrom s (hHeld x)
  | keep | drop => exact ⟨rfl, fun _ h => .inl h⟩

theorem tidy_create {rest : List Task} (hTasks : s.tasks .application = .connect :: rest) :
    Tidy s (s.create rest) := by
  have hPop := tidy_exchange s [.connect] [] hTasks (by simp)
  have hObject : Tidy (s.setTasks .application rest) ((s.setTasks .application rest).setObject
      s.allocated (.create .dedicatedClient false)) := by
    refine tidy_setObject _ fun hWork => ?_
    simp [Endpoint.create, Endpoint.hasWork] at hWork
  have hAllocated : Tidy s { (s.setTasks .application rest).setObject s.allocated
      (.create .dedicatedClient false) with allocated := s.allocated + 1 } :=
    ⟨(hPop.trans hObject).connection, (hPop.trans hObject).busy⟩
  exact hAllocated.trans (tidy_call _ _ _ (by simp [Task.resumes]))

theorem busy_congr {x : Nat} (hObject : s'.objects x = s.objects x)
    (hTasks : s'.tasks .context = s.tasks .context) : s'.busy x = s.busy x := by
  simp only [busy, hObject, hTasks]

/-- `Connect` stores its connection, and leaves the others alone. -/
theorem start_stores (x : Nat) (opened spawned : Bool) (rest : List Task) :
    (s.start x opened spawned rest).connection = some x ∧
      ∀ y, y ≠ x → (s.start x opened spawned rest).busy y = s.busy y := by
  have hStore : ∀ y, y ≠ x → ((s.setTasks .application rest).store x opened).busy y = s.busy y :=
    fun y hNe => busy_congr (Function.update_of_ne hNe _ _) rfl
  simp only [DedicatedClient.start]
  split
  · simp only [assign]
    split
    · exact ⟨rfl, fun y hNe => (busy_congr rfl rfl).trans (hStore y hNe)⟩
    all_goals exact ⟨rfl, hStore⟩
  · exact ⟨rfl, hStore⟩

/-- When `m_pConnection` is changed nothing is pending or running. -/
theorem Owned.idle {event : Event} (h : Owned s) (hOk : Quiet s event) (hGives : s.givesUp event) :
    ∀ x, s.busy x = false := by
  intro x
  by_contra hBusy
  have hYes : s.busy x = true := by simpa using hBusy
  exact hBusy (hOk.1 hGives x (h x hYes))

/-- A handler that runs belongs to the connection of `m_pConnection`. -/
theorem Owned.handler (h : Owned s) {x : Nat} {c : Completion} {result : Endpoint × List Effect}
    (hHandle : (s.objects x).handle c = some result) : s.connection = some x := by
  refine h x ?_
  simp [busy, Endpoint.hasWork_of_pending (Endpoint.pending_of_handle hHandle)]

/-- **A step that keeps the promise leaves what is pending to the connection of
`m_pConnection`.** -/
theorem Owned.next {event : Event} (h : Owned s) (hHeld : ∀ x, Held (s.objects x))
    (hOk : Quiet s event) (hStep : s.next event = some s') : Owned s' := by
  cases next_cases hStep with
  | app _ hAct => exact h.tidy (tidy_act hHeld hOk.2 hAct)
  | @leave t c rest hTasks => exact h.tidy (tidy_exchange s [.callback c] [] hTasks (by simp))
  | @deny x y rest hTasks | @throwAllow x y rest hTasks =>
    have hPop := tidy_exchange s [.callback (.allowConnection x), .start y] [] hTasks (by simp)
    exact h.tidy ⟨hPop.connection, hPop.busy⟩
  | throwMake hTasks =>
    have hPop := tidy_exchange s [.connect] [] hTasks (by simp)
    exact h.tidy ⟨hPop.connection, hPop.busy⟩
  | @throwGreet x y rest hTasks =>
    have hPop := tidy_exchange s [.callback (.onConnect x), .connected y] [] hTasks (by simp)
    exact h.tidy ⟨hPop.connection, hPop.busy⟩
  | create hTasks => exact h.tidy (tidy_create hTasks)
  | @start x opened spawned rest hTasks =>
    obtain ⟨hConnection, hOthers⟩ := start_stores (s := s) x opened spawned rest
    have hIdle := h.idle hOk (.inr rfl)
    intro y hBusy
    by_cases hSame : y = x
    · rw [hConnection, hSame]
    · rw [hOthers y hSame, hIdle y] at hBusy
      cases hBusy
  | @resume x effects rest hTasks =>
    have hOwn : s.connection = some x := by
      refine h x ?_
      simp [busy, hTasks, Task.resumes]
    refine h.tidy ((tidy_exchange s [.resume x effects] [] hTasks (by simp)).trans ?_)
    exact tidy_advance (s.setTasks .context rest) hOwn effects
  | @greet x rest hTasks =>
    have hPop := tidy_exchange s [.greet x] [] hTasks (by simp)
    exact h.tidy (hPop.trans (tidy_call _ _ _ (by simp [Task.resumes])))
  | @connected x rest hTasks =>
    have hPop := tidy_exchange s [.connected x] [] hTasks (by simp)
    exact h.tidy ⟨hPop.connection, hPop.busy⟩
  | stop hTasks =>
    have hPop := tidy_exchange s [.stop] [] hTasks (by simp)
    exact h.tidy ⟨hPop.connection, hPop.busy⟩
  | join hTasks =>
    have hIdle := h.idle hOk (.inl ⟨rfl, by rw [hTasks]; rfl⟩)
    intro x hBusy
    have hSame : s.busy x = true := hBusy
    rw [hIdle x] at hSame
    cases hSame
  | @pop m rest q =>
    have hQueue : Tidy s { s with incoming := q } := ⟨rfl, fun _ h => .inl h⟩
    exact h.tidy (hQueue.trans (tidy_call _ _ _ (by simp)))
  | poll | enter | closeSocket | runOut | finish | restart => exact h.tidy ⟨rfl, fun _ h => .inl h⟩
  | @complete x c e effects _ _ hHandle =>
    have hOwn := h.handler hHandle
    have hObject : Tidy s (s.setObject x e) := tidy_setObject s fun _ => .inr hOwn
    exact h.tidy (hObject.trans (tidy_advance (s.setObject x e) hOwn effects))
  | transfer _ hTransfer =>
    refine h.tidy (tidy_setObject s fun _ => .inl ?_)
    simp [busy, Endpoint.hasWork_of_pending (Endpoint.pending_of_transfer hTransfer)]

theorem Owned.ownHandlers (h : Owned s) : OwnHandlers s := by
  refine ⟨fun x c hTakes => ?_, fun x effects rest hTasks => h x ?_⟩
  · obtain ⟨result, hHandle⟩ := Option.isSome_iff_exists.mp hTakes.2.2
    exact h.handler hHandle
  · simp [busy, hTasks, Task.resumes]

theorem takes_of_step {x : Nat} {c : Completion} (h : s.step (.complete x c) = some s') :
    s.Takes x c := by
  cases next_cases (next_of_step h) with
  | complete hReady _ hHandle =>
    refine ⟨?_, hReady, Option.isSome_of_eq_some hHandle⟩
    by_contra hEnded
    simp [DedicatedClient.step, hEnded] at h

/-- The context thread runs every handler that it may take up. -/
theorem OwnHandlers.step (h : OwnHandlers s) {x : Nat} {c : Completion} (hTakes : s.Takes x c) :
    (s.step (.complete x c)).isSome = true := by
  obtain ⟨hRunning, hReady, hHandle⟩ := hTakes
  have hOwned : x ∈ s.owners := by simp [owners, h.runs x c ⟨hRunning, hReady, hHandle⟩]
  simp [DedicatedClient.step, next, hRunning, hReady, hOwned, hHandle]

end

/-! ## Runs -/

theorem owned_of_reach {s : DedicatedClient} (h : Reach system Quiet s) : Owned s := by
  have hBoth : Sound s ∧ Owned s := by
    refine h.invariant (I := fun s => Sound s ∧ Owned s) ?_ ?_
    · rintro _ rfl
      refine ⟨sound_init, fun x hBusy => ?_⟩
      simp [busy, Endpoint.create, Endpoint.hasWork] at hBusy
    · rintro s event s' ⟨hSound, hOwned⟩ hOk hStep
      have hNext := next_of_step hStep
      exact ⟨hSound.next hNext, hOwned.next hSound.objects hOk hNext⟩
  exact hBoth.2

/-- **In a run that keeps the promise, every handler that runs belongs to the connection of
`m_pConnection`.** -/
theorem ownHandlers_of_reach {s : DedicatedClient} (h : Reach system Quiet s) : OwnHandlers s :=
  (owned_of_reach h).ownHandlers

/-- A `Connect`, as far as the entry of its thread into `run`. -/
def connects : List Event :=
  [.create, .leave .application, .start true true, .run .application, .leave .application,
    .run .application, .enter]

/-- The connection is refused, and the client disconnects and connects again. -/
def refusedAndAgain : List Event :=
  .app .application .connect :: connects ++ [.complete 0 .connectFailed, .closeSocket,
    .app .application .disconnect, .run .application, .finish, .restart, .run .application,
    .app .application .connect] ++ connects

theorem ownHandlers_refusedAndAgain : ∃ s, Reach system Quiet s ∧ s.connection = some 1 ∧
    s.busy 1 = true ∧ OwnHandlers s := by
  obtain ⟨s, hReach, hEnd⟩ := Reach.exists_of_checked (M := system) Quiet rfl refusedAndAgain
    (fun s => s.connection == some 1 && s.busy 1) (by decide)
  rw [Bool.and_eq_true, beq_iff_eq] at hEnd
  exact ⟨s, hReach, hEnd.1, hEnd.2, ownHandlers_of_reach hReach⟩

/-- The client disconnects while its context runs, and connects again. -/
def again : List Event :=
  .app .application .connect :: connects ++ [.app .application .disconnect, .run .application,
    .finish, .restart, .run .application, .app .application .connect] ++ connects

/-- **The context takes up a handler of an earlier connection**: the client disconnects while
it connects, and the thread of the next connection finds what the destroyed socket has left. -/
theorem stale_handler : ∃ s, Reach system Free s ∧ s.connection = some 1 ∧ 0 ∉ s.owners ∧
    s.Takes 0 .connectFailed ∧ ¬ OwnHandlers s := by
  obtain ⟨s, hReach, hEnd⟩ := Reach.exists_of_free (M := system) rfl again
    (fun s => decide (s.connection = some 1 ∧ 0 ∉ s.owners ∧ s.Takes 0 .connectFailed)) (by decide)
  obtain ⟨hConnection, hNobody, hTakes⟩ := of_decide_eq_true hEnd
  refine ⟨s, hReach, hConnection, hNobody, hTakes, fun hOwn => ?_⟩
  have hNever := hOwn.runs 0 _ hTakes
  rw [hConnection] at hNever
  cases hNever

end DedicatedClient

end MinecraftNetwork
