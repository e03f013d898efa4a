import MinecraftNetwork.DedicatedServer.Sending
import MinecraftNetwork.Endpoint.Reading

/-!
# The context thread and the incoming messages

A message in `m_IncomingMessages` has been read by the connection it is tagged with
(`enqueued_step`). Nothing but a call of `Connection::Disconnect` posts a lambda that closes
a socket (`unclosed_step`). A step that is not taken by the polling thread leaves its stack
and the processed messages alone, and registers a client, erases one, or leaves `m_Clients`
alone (`background_step`).
-/

namespace MinecraftNetwork

open Runs

namespace Endpoint

/-- What has been read and what has left stays so. -/
theorem step_history {e e' : Endpoint} {event : Event} (h : e.step event = some e') :
    e.history <+: e'.history ∧ e.wire <+: e'.wire := by
  cases event with
  | send m | disconnect =>
    cases h
    exact ⟨List.prefix_rfl, List.prefix_rfl⟩
  | transfer op n =>
    obtain ⟨-, -, -, hHistory, -⟩ := transfer_frame h
    refine ⟨by rw [hHistory], ?_⟩
    simp only [Endpoint.step, Endpoint.transfer] at h
    split at h
    · cases h
      exact List.prefix_append _ _
    · cases h
  | complete c =>
    simp only [Endpoint.step, Option.map_eq_some_iff] at h
    obtain ⟨⟨e₁, effects⟩, hHandle, rfl⟩ := h
    obtain ⟨-, hWire, hHistory⟩ := handle_keeps hHandle
    rw [performAll_history, performAll_wire, hWire, hHistory]
    exact ⟨List.prefix_append _ _, List.prefix_rfl⟩

theorem received_mono {e e' : Endpoint} (h : e.history <+: e'.history) :
    e.received <+: e'.received := h.filterMap _

theorem completed_mono {e e' : Endpoint} (h : e.history <+: e'.history)
    (hCompleted : e.completed = true) : e'.completed = true := by
  obtain ⟨effect, hMem, hCompletes⟩ := List.any_eq_true.mp hCompleted
  exact List.any_eq_true.mpr ⟨effect, (h.filter _).subset hMem, hCompletes⟩

end Endpoint

namespace DedicatedServer

variable {s s' : DedicatedServer}

/-- A member function of a connection puts the messages of some of its effects into the
queue. -/
theorem enqueued_advance (s : DedicatedServer) (x : Nat) (effects : List Effect) :
    (s.incoming.Sound → (s.advance x effects).incoming.Sound) ∧
      ∀ p ∈ (s.advance x effects).incoming.enqueued, p ∈ s.incoming.enqueued ∨
        p.1 = x ∧ ∃ effect ∈ effects, effect.message? = some p.2 := by
  induction effects generalizing s with
  | nil => exact ⟨id, fun p hp => .inl hp⟩
  | cons effect effects ih =>
    have hOn : ∀ s₀ : DedicatedServer, s₀.incoming = s.incoming →
        (s.incoming.Sound → (s₀.advance x effects).incoming.Sound) ∧
          ∀ p ∈ (s₀.advance x effects).incoming.enqueued, p ∈ s.incoming.enqueued ∨
            p.1 = x ∧ ∃ e ∈ effect :: effects, e.message? = some p.2 := by
      intro s₀ hSame
      obtain ⟨hSound, hNew⟩ := ih s₀
      rw [hSame] at hSound hNew
      refine ⟨hSound, fun p hp => ?_⟩
      rcases hNew p hp with hOld | ⟨hx, e, he, hMessage⟩
      · exact .inl hOld
      · exact .inr ⟨hx, e, List.mem_cons_of_mem _ he, hMessage⟩
    cases effect with
    | onValidate | onInvalidate | disconnect => exact ⟨id, fun p hp => .inl hp⟩
    | emplaceBack tagged m =>
      obtain ⟨hSound, hNew⟩ := ih ((s.setObject x ((s.objects x).perform _)).enqueue x m)
      refine ⟨fun h => hSound (h.emplaceBack _), fun p hp => ?_⟩
      rcases hNew p hp with hOld | ⟨hx, e, he, hMessage⟩
      · rcases List.mem_append.mp hOld with hBefore | hThis
        · exact .inl hBefore
        · rw [List.mem_singleton.mp hThis]
          exact .inr ⟨rfl, _, List.mem_cons_self, rfl⟩
      · exact .inr ⟨hx, e, List.mem_cons_of_mem _ he, hMessage⟩
    | asyncConnect | asyncRead | asyncWrite | postClose | emptyDeque => exact hOn _ rfl

/-- What a running member function puts into the queue is what its connection has read. -/
theorem received_advance (s : DedicatedServer) (x : Nat) (effects : List Effect) {p : Nat × Message}
    (h : p ∈ (s.advance x effects).incoming.enqueued) :
    p ∈ s.incoming.enqueued ∨ p.2 ∈ ((s.advance x effects).endpoint p.1).received := by
  rcases (enqueued_advance s x effects).2 p h with hOld | ⟨hx, effect, hMem, hMessage⟩
  · exact .inl hOld
  · right
    rw [hx, endpoint_advance, Function.update_self]
    refine List.mem_filterMap.mpr ⟨effect, ?_, hMessage⟩
    rw [Endpoint.performAll_history]
    exact List.mem_append_right _ (List.mem_append_left _ hMem)

/-- **A message that a step puts into the queue has been read by its connection.** -/
theorem enqueued_step {event : Event} (h : s.step event = some s') (hSound : s.incoming.Sound) :
    s'.incoming.Sound ∧ ∀ p ∈ s'.incoming.enqueued,
      p ∈ s.incoming.enqueued ∨ p.2 ∈ (s'.endpoint p.1).received := by
  have hSame : ∀ s₀ : DedicatedServer, s₀.incoming = s.incoming → s₀.incoming.Sound ∧
      ∀ p ∈ s₀.incoming.enqueued, p ∈ s.incoming.enqueued ∨ p.2 ∈ (s₀.endpoint p.1).received := by
    intro s₀ hKept
    rw [hKept]
    exact ⟨hSound, fun p hp => .inl hp⟩
  cases step_cases h with
  | @complete x c e effects =>
    exact ⟨(enqueued_advance (s.setObject x e) x effects).1 hSound,
      fun p hp => received_advance (s.setObject x e) x effects hp⟩
  | @resume x effects rest =>
    exact ⟨(enqueued_advance (s.setTasks .context rest) x effects).1 hSound,
      fun p hp => received_advance (s.setTasks .context rest) x effects hp⟩
  | iterate _ hIterate =>
    cases iterate_cases hIterate with
    | finish | next =>
      split
      · exact hSame _ rfl
      · exact hSame _ rfl
    | remove => exact hSame _ rfl
  | pop _ _ hPoll | poll _ _ hPoll =>
    obtain ⟨hNext, hEnqueued⟩ := hSound.step hPoll
    refine ⟨hNext, fun p hp => .inl ?_⟩
    rw [← hEnqueued]
    exact hp
  | app _ hAct => cases act_cases hAct <;> exact hSame _ rfl
  | transfer | accept | leave | allow | deny | erase | reset | release => exact hSame _ rfl

/-! ## Admitted connections -/

/-- What a step leaves of an admitted connection. -/
structure Keeps (s s' : DedicatedServer) (x : Nat) : Prop where
  hasConnectable : (s'.objects x).connection.hasConnectable = true
  id : (s'.objects x).connection.id = (s.objects x).connection.id
  history : (s.endpoint x).history <+: (s'.endpoint x).history

/-- An admitted connection has been allocated, and `AllowConnection` is not asked about it
again. -/
theorem Framed.admitted (h : Framed s) {x : Nat}
    (hOwner : (s.objects x).connection.hasConnectable = true) :
    x < s.allocated ∧ x ∉ s.openings := by
  constructor
  · by_contra hNot
    have hNew := h.fresh x (Nat.le_of_not_lt hNot)
    rw [← endpoint_connection, hNew] at hOwner
    cases hOwner
  · intro hOpening
    obtain ⟨-, ⟨lambdas, hLambdas⟩, -⟩ := h.sound.opening x hOpening
    rw [hLambdas] at hOwner
    cases hOwner

theorem Framed.keeps {event : Event} (h : Framed s) (hStep : s.step event = some s') {x : Nat}
    (hOwner : (s.objects x).connection.hasConnectable = true) : Keeps s s' x := by
  obtain ⟨hAllocated, hNot⟩ := h.admitted hOwner
  have hAllow : ∀ now rest, event = .allow now →
      s.tasks .context ≠ .callback (.allowConnection x) :: rest := by
    rintro now rest - hTasks
    exact hNot (mem_openings hTasks)
  have hId := h.sound.id_step hStep (fun _ => Nat.ne_of_lt hAllocated) hAllow
  rw [← endpoint_connection] at hOwner
  cases h.sound.change hStep x with
  | same hSame =>
    refine ⟨?_, hId, by rw [hSame]⟩
    rw [← endpoint_connection, hSame, hOwner]
  | handler _ _ hMove | outside _ _ hMove =>
    refine ⟨?_, hId, (Endpoint.step_history hMove).1⟩
    rw [← endpoint_connection, Endpoint.step_hasConnectable hMove, hOwner]
  | create _ hFresh => exact absurd hFresh (Nat.ne_of_lt hAllocated)
  | register hEvent hTasks => exact absurd hTasks (hAllow _ _ hEvent)

/-! ## Who closes a socket -/

/-- **Only a call of `Connection::Disconnect` closes the socket of an admitted connection.** -/
theorem unclosed_step {event : Event} {x : Nat} (hSound : Sound s) (h : s.step event = some s')
    (hOwner : ∀ c, event = .complete x c → (s.objects x).connection.hasConnectable = true)
    (hNot : ∀ t, event ≠ .app t (.disconnect x)) (hBefore : .close ∉ (s.objects x).posted) :
    .close ∉ (s'.objects x).posted := by
  cases touch_step h x with
  | same _ hSame => rwa [hSame]
  | given _ hSend =>
    rw [hSend, Endpoint.send, List.mem_append]
    simpa using hBefore
  | called hEvent => exact absurd hEvent (hNot _)
  | network _ hTransfer => rwa [(Endpoint.transfer_frame hTransfer).2.2.1]
  | @handler c e effects done hEvent hHandle hDone hNext =>
    have hPosts := Endpoint.handle_post (fun _ => hOwner c hEvent) hHandle
    have hNone : done.filterMap Effect.post? = [] :=
      List.prefix_nil.mp (hPosts ▸ hDone.filterMap _)
    rw [hNext, Endpoint.performAll_posted, hNone, List.append_nil]
    exact fun hMem => hBefore (Endpoint.handle_posted hHandle hMem)
  | @resume effects _ hRest hNext =>
    have hPosts := hSound.posts x
    have hNone : effects.filterMap Effect.post? = [] :=
      List.prefix_nil.mp (hPosts ▸ hRest.filterMap _)
    rw [hNext, Endpoint.performAll_posted, hNone, List.append_nil]
    exact hBefore
  | accept _ _ hNext =>
    rw [hNext]
    exact List.not_mem_nil
  | @allow now _ hNext =>
    have hNone : ((s.objects x).connection.connectToClient now s.nextClientID).2.filterMap
        Effect.post? = [] := by
      unfold Connection.connectToClient
      split
      · split
        · exact Connection.writeValidation_post _ _ _ _
        · rfl
      · rfl
    rw [hNext, Endpoint.run, Endpoint.performAll_posted, hNone, List.append_nil]
    exact hBefore

/-! ## The steps of the context thread -/

end DedicatedServer

/-- A loop over `m_Clients` in `MessageAll`. -/
def Task.isLoop : Task → Bool
  | .messageAll _ _ _ _ _ | .reset _ _ => true
  | .callback _ | .resume _ _ | .erase _ | .release _ => false

namespace DedicatedServer

variable {s s' : DedicatedServer}

/-- A step that is not taken by the polling thread, and not by the application. -/
def Event.isBackground : Event → Bool
  | .accept | .complete _ _ | .transfer _ _ _ | .allow _ | .deny => true
  | .leave t | .run t => t == .context
  | .app _ _ | .poll _ => false

/-- The context thread is in no loop over `m_Clients`. -/
def Loopless (s : DedicatedServer) : Prop := ∀ task ∈ s.tasks .context, task.isLoop = false

/-- What a step in the background does to `m_Clients`. -/
inductive Registers (s s' : DedicatedServer) (event : Event) : Prop
  | same (hClients : s'.clients = s.clients)
  | allow {now : UInt64} {x : Nat} {rest : List Task} (hEvent : event = .allow now)
      (hTasks : s.tasks .context = .callback (.allowConnection x) :: rest)
      (hClients : s'.clients = s.clients ++ [some x])
  | erase {p : Option Nat} {rest : List Task} (hEvent : event = .run .context)
      (hTasks : s.tasks .context = .erase p :: rest)
      (hClients : s'.clients = s.clients.filter fun q => q ≠ none ∧ q ≠ p)

structure Background (s s' : DedicatedServer) (event : Event) : Prop where
  polling : s'.tasks .polling = s.tasks .polling
  processed : s'.incoming.processed = s.incoming.processed
  loopless : s'.Loopless
  registers : Registers s s' event

theorem background_advance (s₀ : DedicatedServer) (x : Nat) (effects : List Effect)
    (hPolling : s₀.tasks .polling = s.tasks .polling)
    (hProcessed : s₀.incoming.processed = s.incoming.processed) (hLoopless : s₀.Loopless) :
    ((s₀.advance x effects).tasks .polling = s.tasks .polling ∧
      (s₀.advance x effects).incoming.processed = s.incoming.processed) ∧
        (s₀.advance x effects).Loopless := by
  induction effects generalizing s₀ with
  | nil => exact ⟨⟨hPolling, hProcessed⟩, hLoopless⟩
  | cons effect effects ih =>
    have hCall : ∀ (c : Callback) (tasks : List Task), (∀ task ∈ tasks, task.isLoop = false) →
        ((s₀.setObject x ((s₀.objects x).perform effect)).call .context c tasks).Loopless := by
      intro c tasks hTasks task hMem
      simp only [call, setTasks, setObject, Function.update_self, List.mem_cons,
        List.mem_append] at hMem
      rcases hMem with rfl | hMem | hMem
      · rfl
      · exact hTasks task hMem
      · exact hLoopless task hMem
    cases effect with
    | onValidate | onInvalidate | disconnect =>
      exact ⟨⟨hPolling, hProcessed⟩, hCall _ _ (by simp [Task.isLoop])⟩
    | emplaceBack tagged m => exact ih (enqueue (s₀.setObject x _) x m) hPolling hProcessed hLoopless
    | asyncConnect | asyncRead | asyncWrite | postClose | emptyDeque =>
      exact ih (s₀.setObject x _) hPolling hProcessed hLoopless

/-- **What the polling thread sees of a step in the background.** -/
theorem background_step {event : Event} (h : s.step event = some s')
    (hBackground : event.isBackground = true) (hLoopless : s.Loopless) : Background s s' event := by
  have hTail : ∀ {task rest}, s.tasks .context = task :: rest →
      ∀ task ∈ rest, task.isLoop = false := fun hTasks task hMem =>
    hLoopless task (by rw [hTasks]; exact List.mem_cons_of_mem _ hMem)
  cases step_cases h with
  | app | pop | poll => cases hBackground
  | accept hIdle =>
    refine ⟨rfl, rfl, fun task hMem => ?_, .same rfl⟩
    simp only [call, setTasks, setObject, Function.update_self, hIdle, List.append_nil,
      List.mem_singleton] at hMem
    rw [hMem]
    rfl
  | @complete x c e effects =>
    obtain ⟨⟨hPolling, hProcessed⟩, hNext⟩ :=
      background_advance (s := s) (s.setObject x e) x effects rfl rfl hLoopless
    exact ⟨hPolling, hProcessed, hNext, .same (advance_frame (s.setObject x e) x effects).1⟩
  | transfer => exact ⟨rfl, rfl, hLoopless, .same rfl⟩
  | @allow now x rest hTasks =>
    refine ⟨rfl, rfl, fun task hMem => ?_, .allow rfl hTasks rfl⟩
    simp only [register, call, setTasks, setObject, Function.update_self, List.nil_append,
      List.mem_cons] at hMem
    rcases hMem with rfl | hMem
    · rfl
    · exact hTail hTasks task hMem
  | deny hTasks =>
    refine ⟨rfl, rfl, fun task hMem => hTail hTasks task ?_, .same rfl⟩
    simpa [setTasks] using hMem
  | @leave t c rest hTasks =>
    obtain rfl : t = .context := by simpa [Event.isBackground] using hBackground
    refine ⟨rfl, rfl, fun task hMem => hTail hTasks task ?_, .same rfl⟩
    simpa [setTasks] using hMem
  | @resume x effects rest hTasks =>
    have hRest : (s.setTasks .context rest).Loopless := by
      intro task hMem
      exact hTail hTasks task (by simpa [setTasks] using hMem)
    obtain ⟨⟨hPolling, hProcessed⟩, hNext⟩ :=
      background_advance (s := s) (s.setTasks .context rest) x effects rfl rfl hRest
    exact ⟨hPolling, hProcessed, hNext,
      .same (advance_frame (s.setTasks .context rest) x effects).1⟩
  | @erase t p rest hTasks =>
    obtain rfl : t = .context := by simpa [Event.isBackground] using hBackground
    refine ⟨rfl, rfl, fun task hMem => hTail hTasks task ?_, .erase rfl hTasks rfl⟩
    simpa [setTasks] using hMem
  | @iterate t _ _ _ _ _ _ _ hTasks | @reset t _ _ _ hTasks =>
    obtain rfl : t = .context := by simpa [Event.isBackground] using hBackground
    have hNot := hLoopless _ (by rw [hTasks]; exact List.mem_cons_self)
    cases hNot
  | @release t p rest hTasks =>
    obtain rfl : t = .context := by simpa [Event.isBackground] using hBackground
    refine ⟨rfl, rfl, fun task hMem => hTail hTasks task ?_, .same rfl⟩
    simpa [setTasks] using hMem

end DedicatedServer

end MinecraftNetwork
