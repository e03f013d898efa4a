import MinecraftNetwork.DedicatedServer.Clients
import MinecraftNetwork.DedicatedServer.Sending

/-!
# Pending handlers and the owners of their connections

The handlers of a connection hold a raw `this`. When an operation fails, or the application
calls `Disconnect`, the connection is taken out of `m_Clients` whatever else is pending: a
lambda of `Send`, an operation of the other chain (`handler_outlives_connection`).

`Spares` says how the application and the peers have to behave. A connection of which the
application keeps a copy of the pointer has an owner whatever happens to it. One without a
copy is given messages only while it is in service, its chain ends when everything is
written, and it is not disconnected before. Then it is at rest when it leaves `m_Clients`
(`Spared`), and every pending handler belongs to a connection that has an owner
(`owned_of_pending`).
-/

namespace MinecraftNetwork

open Runs

namespace Endpoint

/-- The handshake and read chain has stopped or was never begun, the write chain has nothing
to write or has failed, and no lambda is posted. -/
def Resting (e : Endpoint) : Prop :=
  (e.ended = true ∨ e.connection.hasConnectable = false) ∧
    (e.connection.outgoingMessages = [] ∨ e.writeFailed = true) ∧ e.posted = []

/-- Everything given to `Send` is written, and no lambda is posted. -/
def Drained (e : Endpoint) : Prop := e.connection.outgoingMessages = [] ∧ e.posted = []

instance (e : Endpoint) : Decidable e.Resting :=
  inferInstanceAs (Decidable ((_ ∨ _) ∧ (_ ∨ _) ∧ _))

instance (e : Endpoint) : Decidable e.Drained := inferInstanceAs (Decidable (_ ∧ _))

end Endpoint

namespace DedicatedServer

/-- The connection is in service: it is registered, is not being removed, and its chain goes
on. -/
def Serves (s : DedicatedServer) (x : Nat) : Prop :=
  some x ∈ s.clients ∧ ¬ s.Leaving x ∧ (s.objects x).ended = false

/-- The connections whose chain ends with a step, and the one that `AllowConnection` denies. -/
def quits (s : DedicatedServer) : Event → List Nat
  | .complete x c => if c.ends (s.objects x).connection then [x] else []
  | .deny => s.openings
  | .app _ _ | .accept | .transfer _ _ _ | .leave _ | .allow _ | .run _ | .poll _ => []

/-- The step posts a lambda of the connection: a message is given to `Send`, or `Disconnect`
finds no owner to call. -/
def posts (s : DedicatedServer) (x : Nat) : Event → Bool
  | .app _ (.disconnect y) => y == x && (s.objects x).connection.disconnect.contains .postClose
  | event => s.gives x event != []

/-- The copy that the application destroys. -/
def Event.forgets : Event → List Nat
  | .app _ (.drop x) => [x]
  | _ => []

/-- The promise, about the connections of which the application keeps no copy. -/
structure Spares (s : DedicatedServer) (event : Event) : Prop where
  /-- An operation of the chain fails, or the peer is rejected or denied, when everything is
  written. -/
  quits : ∀ x ∈ s.quits event, x ∈ s.kept ∨ (s.objects x).Drained
  /-- Messages are sent while the connection is asked about or in service. -/
  posts : ∀ x ∈ s.owners, s.posts x event = true → x ∈ s.kept ∨ x ∈ s.openings ∨ s.Serves x
  /-- A connection is disconnected when its chain has stopped. -/
  disconnects : ∀ p ∈ s.disconnects event, ∀ x ∈ p, x ∈ s.kept ∨ s.Stopped event x
  /-- The last copy is destroyed while the connection is asked about or in service, or when
  its operations have come to their end. -/
  forgets : ∀ x ∈ event.forgets,
    2 ≤ s.kept.count x ∨ x ∈ s.openings ∨ s.Serves x ∨ (s.objects x).Resting
  /-- `MessageAll` resets the entry that it has found dead. -/
  inPlace : s.InPlace event

instance (s : DedicatedServer) (x : Nat) : Decidable (s.Serves x) :=
  inferInstanceAs (Decidable (_ ∧ ¬ _ ∧ _))

instance (s : DedicatedServer) (event : Event) : Decidable (s.InPlace event) :=
  inferInstanceAs (Decidable (∀ r ∈ s.resets event, _))

instance (s : DedicatedServer) (event : Event) : Decidable (s.Spares event) :=
  decidable_of_iff ((∀ x ∈ s.quits event, x ∈ s.kept ∨ (s.objects x).Drained) ∧
      (∀ x ∈ s.owners, s.posts x event = true → x ∈ s.kept ∨ x ∈ s.openings ∨ s.Serves x) ∧
      (∀ p ∈ s.disconnects event, ∀ x ∈ p, x ∈ s.kept ∨ s.Stopped event x) ∧
      (∀ x ∈ event.forgets,
        2 ≤ s.kept.count x ∨ x ∈ s.openings ∨ s.Serves x ∨ (s.objects x).Resting) ∧
      s.InPlace event)
    ⟨fun ⟨hQuits, hPosts, hDisconnects, hForgets, hPlace⟩ =>
      ⟨hQuits, hPosts, hDisconnects, hForgets, hPlace⟩,
      fun ⟨hQuits, hPosts, hDisconnects, hForgets, hPlace⟩ =>
      ⟨hQuits, hPosts, hDisconnects, hForgets, hPlace⟩⟩

end DedicatedServer

/-! ## A connection at rest -/

theorem Endpoint.resting_performAll {e : Endpoint} {effects : List Effect}
    (hPosts : effects.filterMap Effect.post? = []) :
    (e.performAll effects).Resting ↔ e.Resting := by
  simp [Resting, hPosts]

/-- The chain of a connection that has written everything ends. -/
theorem Endpoint.resting_of_ends {e e' : Endpoint} {effects : List Effect} {c : Completion}
    (h : e.handle c = some (e', effects)) (hEnds : c.ends e.connection = true)
    (hDrained : e.Drained) : e'.Resting := by
  have hMain : c.isMain = true := by
    cases c with
    | connectFailed | read | readFailed => rfl
    | writeFailed op => simpa [Completion.ends, Completion.isMain] using hEnds
    | connected | written | lambda => cases hEnds
  obtain ⟨-, hQueue, -, hPosted, -⟩ := handle_main hMain h
  refine ⟨.inl ?_, .inl (hQueue.trans hDrained.1), hPosted.trans hDrained.2⟩
  rw [handle_ended h, hEnds, Bool.or_true]

namespace DedicatedServer

theorem Alive.not_pending {e : Endpoint} (h : Alive e) (hResting : e.Resting) : ¬ e.HasPending := by
  obtain ⟨hEnds, hQueue, hPosted⟩ := hResting
  have hChain : ∃ done, e.WriteChain done := by
    cases h <;> assumption
  have hWaits : e.Waits none := by
    cases h with
    | created hStage _ _ =>
      obtain ⟨k, hWaits, hStage⟩ := hStage
      rwa [hStage.created_none] at hWaits
    | admitted hStage hOwner _ =>
      obtain ⟨k, hWaits, hStage⟩ := hStage
      have hEnded : e.ended = true := by simpa [hOwner] using hEnds
      rwa [hStage.ended_none hEnded] at hWaits
  obtain ⟨done, hChain⟩ := hChain
  have hFrames : e.outstanding .header = 0 ∧ e.outstanding .body = 0 := by
    cases hChain.state with
    | idle _ _ _ hHeader hBody | failed _ _ _ hHeader hBody => exact ⟨hHeader, hBody⟩
    | header hNext hSound | body hNext hSound => simp [hNext, hSound] at hQueue
  have hNone : ∀ op, e.writing op = [] := by
    intro op
    refine List.eq_nil_of_length_eq_zero ?_
    cases op with
    | header => exact hFrames.1
    | body => exact hFrames.2
    | validation1 | validation2 | validation3 | validation4 => exact hWaits.writing _ rfl
  rintro (hConnecting | hReading | ⟨op, hWriting⟩ | hLambda)
  · rw [hWaits.connecting] at hConnecting
    cases hConnecting
  · exact hReading hWaits.reading
  · exact hWriting (hNone op)
  · exact hLambda hPosted

/-- Only a connection that was admitted has a chain that can end. -/
theorem Alive.admitted_of_ends {e e' : Endpoint} {effects : List Effect} {c : Completion}
    (h : Alive e) (hHandle : e.handle c = some (e', effects))
    (hEnds : c.ends e.connection = true) : e.connection.hasConnectable = true := by
  cases h with
  | admitted _ hOwner _ => exact hOwner
  | created hStage _ _ =>
    obtain ⟨k, hWaits, hStage⟩ := hStage
    rw [hStage.created_none] at hWaits
    have hMain : c.isMain = true := by
      cases c with
      | connectFailed | read | readFailed => rfl
      | writeFailed op => simpa [Completion.ends, Completion.isMain] using hEnds
      | connected | written | lambda => cases hEnds
    obtain ⟨hPending, -⟩ := hWaits.handle hMain hHandle
    cases c with
    | lambda => cases hMain
    | _ => cases hPending

section

variable {s s' : DedicatedServer} {event : Event} {x : Nat}

theorem Sound.not_pending (h : Sound s) (hResting : (s.objects x).Resting) :
    ¬ (s.objects x).HasPending := by
  intro hPending
  refine (h.alive x).not_pending ?_ (Endpoint.pending_performAll hPending _)
  exact (Endpoint.resting_performAll (h.posts x)).mpr hResting

/-- A connection that is asked about has not stopped. -/
theorem Sound.opening_goes (h : Sound s) (hx : x ∈ s.openings) : (s.objects x).ended = false := by
  obtain ⟨-, ⟨lambdas, hLambdas⟩, -⟩ := h.opening x hx
  rw [hLambdas]
  rfl

/-! ## The pointers in a step -/

theorem leaving_iff : s.Leaving x ↔ ∃ t, ∃ task ∈ s.removals t, task.removes x = true := by
  have hRemoval : ∀ task : Task, task.removes x = true → task.isRemoval = true := by
    intro task hRemoves
    cases task with
    | erase | reset => rfl
    | callback | resume | messageAll | release => cases hRemoves
  constructor
  · rintro ⟨task, hMem, hRemoves⟩
    rcases List.mem_append.mp hMem with hHere | hHere
    · exact ⟨.context, task, List.mem_filter.mpr ⟨hHere, hRemoval task hRemoves⟩, hRemoves⟩
    · exact ⟨.polling, task, List.mem_filter.mpr ⟨hHere, hRemoval task hRemoves⟩, hRemoves⟩
  · rintro ⟨t, task, hMem, hRemoves⟩
    exact leaving_of_mem task (List.mem_filter.mp hMem).1 hRemoves

/-- A copy stays, unless the application destroys it. -/
theorem kept_step (h : s.step event = some s') (hKept : x ∈ s.kept) :
    x ∈ s'.kept ∨ ∃ t, event = .app t (.drop x) ∧ s.kept.count x ≤ 1 ∧
      s' = { s with kept := s.kept.erase x } := by
  cases step_cases h with
  | complete =>
    rw [(advance_frame _ _ _).2.1]
    exact .inl hKept
  | resume =>
    rw [(advance_frame _ _ _).2.1]
    exact .inl hKept
  | @app t action _ _ hAct =>
    cases act_cases hAct with
    | keep => exact .inl (List.mem_append_left _ hKept)
    | @drop y =>
      by_cases hSame : x = y
      · subst hSame
        by_cases hMore : 2 ≤ s.kept.count x
        · left
          have hLeft : 0 < (s.kept.erase x).count x := by
            rw [List.count_erase_self]
            omega
          exact List.count_pos_iff.mp hLeft
        · exact .inr ⟨t, rfl, by omega, rfl⟩
      · exact .inl ((List.mem_erase_of_ne hSame).mpr hKept)
    | send | disconnect | disconnectSilent | messageNone | messageOne | messageDead | messageAll =>
      exact .inl hKept
  | iterate _ hIterate =>
    left
    cases iterate_cases hIterate with
    | finish | next => split <;> exact hKept
    | remove => exact hKept
  | accept | transfer | leave | allow | deny | erase | reset | release | pop | poll =>
    exact .inl hKept

/-- A connection that is asked about is registered or denied. -/
theorem opening_step (h : s.step event = some s') (hx : x ∈ s.openings) :
    x ∈ s'.openings ∨ some x ∈ s'.clients ∨ event = .deny := by
  have hBusy : s.tasks .context ≠ [] := by
    intro hIdle
    rw [openings, hIdle] at hx
    cases hx
  cases steps_of_step h with
  | idle _ hQuiet | outside _ _ _ _ hQuiet =>
    left
    rwa [hQuiet.openings]
  | handler _ hIdle | accept _ hIdle => exact absurd hIdle hBusy
  | @resume y effects rest _ hTasks _ hNext =>
    obtain ⟨-, -, -, -, hSame⟩ := advance_frame (s.setTasks .context rest) y effects
    left
    rw [hNext, hSame]
    simpa [openings, setTasks, hTasks, Task.opening?, List.filterMap_cons] using hx
  | @allow now y rest _ hTasks hNext =>
    rw [openings_cons hTasks] at hx
    rw [hNext, openings_register]
    rcases List.mem_cons.mp hx with rfl | hRest
    · exact .inr (.inl (List.mem_append_right _ (List.mem_singleton_self _)))
    · exact .inl hRest
  | deny hEvent => exact .inr (.inr hEvent)

/-- A client stays, unless it is being removed. -/
theorem client_step (hSound : Sound s) (h : s.step event = some s') (hPlace : s.InPlace event)
    (hClient : some x ∈ s.clients) : some x ∈ s'.clients ∨ s.Leaving x := by
  cases entry_of_step hSound h with
  | idle _ hClients | disconnect _ _ _ hClients | messageAll _ _ hClients | next _ _ hClients
  | remove _ _ _ hClients =>
    left
    rwa [hClients]
  | allow _ _ hNext =>
    left
    rw [hNext]
    exact List.mem_append_left _ hClient
  | @erase t p below hBefore _ hClients =>
    by_cases hThis : p = some x
    · exact .inr (leaving_iff.mpr ⟨t, .erase p, by simp [hBefore], by simp [Task.removes, hThis]⟩)
    · left
      rw [hClients]
      exact List.mem_filter.mpr ⟨hClient, by simp [Ne.symm hThis]⟩
  | @reset t position p below hBefore _ hClients _ hResets =>
    by_cases hThis : p = some x
    · exact .inr (leaving_iff.mpr
        ⟨t, .reset position p, by simp [hBefore], by simp [Task.removes, hThis]⟩)
    · left
      obtain ⟨i, hi⟩ := List.mem_iff_getElem?.mp hClient
      have hOther : position ≠ i := by
        rintro rfl
        have hEntry : s.clients[position]? = some p := hPlace _ hResets
        rw [hi] at hEntry
        exact hThis (Option.some.inj hEntry).symm
      rw [hClients]
      exact List.mem_iff_getElem?.mpr ⟨i, (List.getElem?_set_ne hOther).trans hi⟩
  | finish _ _ hClients =>
    left
    rw [hClients]
    split
    · exact List.mem_filter.mpr ⟨hClient, by simp⟩
    · exact hClient

/-- A removal begins with a call of `OnDisconnect`. -/
theorem leaving_step (hSound : Sound s) (h : s.step event = some s') (hLeaving : s'.Leaving x) :
    s.Leaving x ∨ some x ∈ s.disconnects event ∧ x ∈ s.owners ∧ x ∉ s.openings := by
  obtain ⟨t', task, hMem, hRemoves⟩ := leaving_iff.mp hLeaving
  have hOn : ∀ {t : Thread} {below : List Task} (new : List Task), below ⊆ s.removals t →
      s'.removals = Function.update s.removals t (new ++ below) →
      (∀ task ∈ new, task.removes x = true → some x ∈ s.disconnects event ∧ x ∈ s.owners ∧
        x ∉ s.openings) →
      s.Leaving x ∨ some x ∈ s.disconnects event ∧ x ∈ s.owners ∧ x ∉ s.openings := by
    intro t below new hBelow hRemovals hNew
    rw [hRemovals] at hMem
    by_cases hThread : t' = t
    · subst hThread
      rw [Function.update_self] at hMem
      rcases List.mem_append.mp hMem with hThis | hOld
      · exact .inr (hNew task hThis hRemoves)
      · exact .inl (leaving_iff.mpr ⟨_, task, hBelow hOld, hRemoves⟩)
    · rw [Function.update_of_ne hThread] at hMem
      exact .inl (leaving_iff.mpr ⟨_, task, hMem, hRemoves⟩)
  have hSame : s'.removals = s.removals → s.Leaving x := by
    intro hRemovals
    rw [hRemovals] at hMem
    exact leaving_iff.mpr ⟨_, task, hMem, hRemoves⟩
  have hTail : ∀ {t : Thread} {task : Task} {below : List Task},
      s.removals t = task :: below → below ⊆ s.removals t := by
    intro t task below hBefore
    rw [hBefore]
    exact List.subset_cons_self _ _
  cases entry_of_step hSound h with
  | idle _ _ hRemovals => exact .inl (hSame hRemovals)
  | @allow now y rest _ hTasks hNext =>
    refine .inl (hSame ?_)
    rw [hNext]
    refine removals_kept [.callback (.allowConnection y)] [.callback (.onConnect y)] hTasks ?_ rfl rfl
    simp [register, call, setTasks, setObject]
  | @disconnect t p _ hOwned _ _ hRemovals hCalls =>
    refine hOn [.erase p] (List.Subset.refl _) hRemovals fun task hMem hThis => ?_
    rw [List.mem_singleton.mp hMem] at hThis
    obtain rfl : p = some x := by simpa [Task.removes] using hThis
    exact ⟨hCalls, hOwned x rfl⟩
  | messageAll _ _ _ hRemovals =>
    refine hOn [_] (List.Subset.refl _) hRemovals fun task hMem hThis => ?_
    rw [List.mem_singleton.mp hMem] at hThis
    cases hThis
  | next hBefore _ _ hRemovals =>
    refine hOn [_] (hTail hBefore) hRemovals fun task hMem hThis => ?_
    rw [List.mem_singleton.mp hMem] at hThis
    cases hThis
  | @remove t m ignored position stop clientsRemoved below p hBefore _ _ _ hRemovals hCalls hOwned =>
    refine hOn [.reset position p, .messageAll m ignored (position + 1) stop true]
      (hTail hBefore) hRemovals fun task hMem hThis => ?_
    rcases List.mem_cons.mp hMem with rfl | hMem
    · obtain rfl : p = some x := by simpa [Task.removes] using hThis
      exact ⟨hCalls, hOwned x rfl⟩
    · rw [List.mem_singleton.mp hMem] at hThis
      cases hThis
  | erase hBefore _ _ hRemovals | reset hBefore _ _ hRemovals | finish hBefore _ _ hRemovals =>
    exact hOn [] (hTail hBefore) hRemovals (by simp)

/-! ## The operations in a step -/

/-- A chain ends in a handler. -/
theorem ended_step (h : s.step event = some s') (hEnded : (s'.objects x).ended = true) :
    (s.objects x).ended = true ∨
      ∃ c, event = .complete x c ∧ c.ends (s.objects x).connection = true := by
  cases touch_step h x with
  | same _ hSame =>
    rw [hSame] at hEnded
    exact .inl hEnded
  | given _ hSend =>
    rw [hSend] at hEnded
    exact .inl hEnded
  | called _ hCall =>
    rw [hCall] at hEnded
    exact .inl hEnded
  | network _ hTransfer =>
    obtain ⟨-, -, -, -, -, -, -, hSame, -⟩ := Endpoint.transfer_frame hTransfer
    exact .inl (hSame.symm.trans hEnded)
  | @handler c _ _ _ hEvent hHandle _ hNext =>
    rw [hNext, Endpoint.performAll_ended, Endpoint.handle_ended hHandle, Bool.or_eq_true] at hEnded
    exact hEnded.imp_right fun hEnds => ⟨c, hEvent, hEnds⟩
  | resume _ _ hNext =>
    rw [hNext, Endpoint.performAll_ended] at hEnded
    exact .inl hEnded
  | accept _ _ hNext =>
    rw [hNext] at hEnded
    cases hEnded
  | allow _ hNext =>
    rw [hNext, Endpoint.run, Endpoint.performAll_ended] at hEnded
    exact .inl hEnded

theorem posts_of_gives (h : s.gives x event ≠ []) : s.posts x event = true := by
  unfold posts
  split
  · exact absurd rfl h
  · simpa using h

/-- A lambda is posted on a connection that has an owner. -/
theorem Framed.owned_of_posts (h : Framed s) (hStep : s.step event = some s')
    (hPosts : s.posts x event = true) : x ∈ s.owners := by
  unfold posts at hPosts
  split at hPosts
  · rename_i t y
    rw [Bool.and_eq_true, beq_iff_eq] at hPosts
    obtain ⟨rfl, -⟩ := hPosts
    cases step_cases hStep with
    | app _ hAct =>
      cases act_cases hAct with
      | disconnect hOwned | disconnectSilent hOwned => exact hOwned
  · have hGives : s.gives x event ≠ [] := by simpa using hPosts
    have hAccept : event = .accept → x ≠ s.allocated := by
      rintro rfl
      exact absurd rfl hGives
    obtain ⟨⟨new, k, hSent, -, hNew⟩, -, -⟩ := h.moves hStep x
    rw [sent_step hStep hAccept, List.append_cancel_left_eq] at hSent
    exact hNew (hSent ▸ hGives)

/-- A connection at rest stays so until a lambda is posted, or it is admitted. -/
theorem resting_step (hSound : Sound s) (h : s.step event = some s')
    (hResting : (s.objects x).Resting) :
    (s'.objects x).Resting ∨ s.posts x event = true ∨ x ∈ s.openings := by
  cases touch_step h x with
  | same _ hSame =>
    left
    rwa [hSame]
  | given hGives => exact .inr (.inl (posts_of_gives (by simp [hGives])))
  | called hEvent hCall =>
    by_cases hPosts : .postClose ∈ (s.objects x).connection.disconnect
    · right
      left
      rw [hEvent]
      simp [posts, hPosts]
    · left
      have hNone : (s.objects x).connection.disconnect.filterMap Effect.post? = [] := by
        rw [List.filterMap_eq_nil_iff]
        intro effect hMem
        cases effect with
        | postClose => exact absurd hMem hPosts
        | _ => rfl
      rw [hCall]
      refine ⟨hResting.1, hResting.2.1, ?_⟩
      simp [Endpoint.disconnect, hNone, hResting.2.2]
  | network _ hTransfer =>
    exact absurd (Endpoint.pending_of_transfer hTransfer) (hSound.not_pending hResting)
  | handler _ hHandle =>
    exact absurd (Endpoint.pending_of_handle hHandle) (hSound.not_pending hResting)
  | @resume effects _ hRest hNext =>
    left
    rw [hNext, Endpoint.resting_performAll]
    · exact hResting
    · have hPosts := hSound.posts x
      rw [List.filterMap_eq_nil_iff] at hPosts ⊢
      exact fun effect hMem => hPosts effect (hRest.subset hMem)
  | accept _ _ hNext =>
    left
    rw [hNext]
    exact ⟨.inr rfl, .inl rfl, rfl⟩
  | @allow now hEvent =>
    subst hEvent
    cases step_cases h with
    | @allow _ y rest hTasks =>
      by_cases hSame : x = y
      · subst hSame
        exact .inr (.inr (mem_openings hTasks))
      · left
        have hObject : (s.register y now rest).objects x = s.objects x :=
          Function.update_of_ne hSame ..
        rwa [hObject]

/-- In a step that keeps the promise, a connection at rest of which no copy is kept stays so,
unless it is asked about or in service. -/
theorem Spares.resting_step (hOk : s.Spares event) (hFramed : Framed s)
    (hStep : s.step event = some s') (hKept : x ∉ s.kept) (hResting : (s.objects x).Resting) :
    (s'.objects x).Resting ∨ x ∈ s.openings ∨ s.Serves x := by
  rcases DedicatedServer.resting_step hFramed.sound hStep hResting with hStill | hPosts | hx
  · exact .inl hStill
  · have hOwned := hFramed.owned_of_posts hStep hPosts
    exact .inr ((hOk.posts x hOwned hPosts).resolve_left hKept)
  · exact .inr (.inl hx)

theorem Serves.not_parted (h : s.Serves x) : ¬ (s.Leaving x ∨ (s.objects x).ended = true) := by
  obtain ⟨-, hStays, hGoes⟩ := h
  rintro (hLeaving | hEnded)
  · exact hStays hLeaving
  · rw [hGoes] at hEnded
    cases hEnded

/-- A chain that ends when everything is written leaves its connection at rest. -/
theorem resting_of_quits {c : Completion} (hSound : Sound s)
    (h : s.step (.complete x c) = some s') (hEnds : c.ends (s.objects x).connection = true)
    (hDrained : (s.objects x).Drained) : (s'.objects x).Resting := by
  cases step_cases h with
  | @complete _ _ e effects hIdle _ hHandle =>
    have hAlive : Alive (s.objects x) := by
      have hThis := hSound.alive x
      rwa [endpoint, rest_idle hIdle] at hThis
    have hOwner := hAlive.admitted_of_ends hHandle hEnds
    obtain ⟨done, hDone, hObjects⟩ := objects_advance (s.setObject x e) x effects
    have hObject : ((s.setObject x e).advance x effects).objects x = e.performAll done := by
      rw [hObjects, Function.update_self]
      exact congrArg (Endpoint.performAll · done) (Function.update_self ..)
    rw [hObject, Endpoint.resting_performAll]
    · exact Endpoint.resting_of_ends hHandle hEnds hDrained
    · have hPosts := Endpoint.handle_post (fun _ => hOwner) hHandle
      rw [List.filterMap_eq_nil_iff] at hPosts ⊢
      exact fun effect hMem => hPosts effect (hDone.subset hMem)

/-! ## The owners of a run -/

/-- A connection without a copy of its pointer is asked about or registered until it is at
rest, and at rest when it has stopped or is being removed. -/
structure Spared (s : DedicatedServer) : Prop where
  held : ∀ x, x ∈ s.kept ∨ x ∈ s.openings ∨ some x ∈ s.clients ∨ (s.objects x).Resting
  parted : ∀ x, s.Leaving x ∨ (s.objects x).ended = true → x ∈ s.kept ∨ (s.objects x).Resting
  leaving : ∀ x, s.Leaving x → x < s.allocated ∧ x ∉ s.openings

/-- A connection that has stopped or is being removed is not asked about. -/
theorem Spared.parted_away (h : Spared s) (hSound : Sound s)
    (hParted : s.Leaving x ∨ (s.objects x).ended = true) : x ∉ s.openings := by
  intro hOpening
  rcases hParted with hLeaving | hEnded
  · exact (h.leaving x hLeaving).2 hOpening
  · rw [hSound.opening_goes hOpening] at hEnded
    cases hEnded

/-- A connection of which no copy is kept after a step. -/
theorem Spared.held_step (h : Spared s) (hFramed : Framed s) (hOk : s.Spares event)
    (hStep : s.step event = some s') : ∀ x, x ∈ s'.kept ∨ x ∈ s'.openings ∨
      some x ∈ s'.clients ∨ (s'.objects x).Resting := by
  intro x
  by_cases hKept : x ∈ s.kept
  · rcases kept_step hStep hKept with hStill | ⟨t, rfl, hLast, rfl⟩
    · exact .inl hStill
    · -- the last copy is destroyed
      rcases hOk.forgets x (List.mem_singleton_self x) with hMore | hOpening | hServes | hResting
      · omega
      · exact .inr (.inl hOpening)
      · exact .inr (.inr (.inl hServes.1))
      · exact .inr (.inr (.inr hResting))
  have hClient : some x ∈ s.clients → ¬ s.Leaving x → some x ∈ s'.clients := fun hThis hNot =>
    (client_step hFramed.sound hStep hOk.inPlace hThis).resolve_right hNot
  have hOpening : x ∈ s.openings →
      x ∈ s'.openings ∨ some x ∈ s'.clients ∨ (s'.objects x).Resting := by
    intro hx
    rcases opening_step hStep hx with hStill | hNow | rfl
    · exact .inl hStill
    · exact .inr (.inl hNow)
    · obtain ⟨hQueue, hPosted⟩ := (hOk.quits x hx).resolve_left hKept
      cases step_cases hStep
      exact .inr (.inr ⟨.inr (hFramed.sound.fresh hx).2, .inl hQueue, hPosted⟩)
  have hRest : (s.objects x).Resting →
      x ∈ s'.openings ∨ some x ∈ s'.clients ∨ (s'.objects x).Resting := by
    intro hResting
    rcases hOk.resting_step hFramed hStep hKept hResting with hStill | hx | hServes
    · exact .inr (.inr hStill)
    · exact hOpening hx
    · exact .inr (.inl (hClient hServes.1 hServes.2.1))
  right
  rcases (h.held x).resolve_left hKept with hx | hThis | hResting
  · exact hOpening hx
  · by_cases hLeaving : s.Leaving x
    · exact hRest ((h.parted x (.inl hLeaving)).resolve_left hKept)
    · exact .inr (.inl (hClient hThis hLeaving))
  · exact hRest hResting

/-- A connection that has stopped or is being removed after a step. -/
theorem Spared.parted_step (h : Spared s) (hFramed : Framed s) (hOk : s.Spares event)
    (hStep : s.step event = some s') {x : Nat} (hParted : s'.Leaving x ∨ (s'.objects x).ended = true) :
    x ∈ s'.kept ∨ (s'.objects x).Resting := by
  have hSound := hFramed.sound
  by_cases hKept : x ∈ s.kept
  · rcases kept_step hStep hKept with hStill | ⟨t, rfl, hLast, rfl⟩
    · exact .inl hStill
    · rcases hOk.forgets x (List.mem_singleton_self x) with hMore | hOpening | hServes | hResting
      · omega
      · exact absurd hOpening (h.parted_away hSound hParted)
      · exact absurd hParted hServes.not_parted
      · exact .inr hResting
  right
  -- the connection was parted from before, or its chain ends in this step
  have hBegins : (s.Leaving x ∨ (s.objects x).ended = true) ∨
      ∃ c, event = .complete x c ∧ c.ends (s.objects x).connection = true := by
    rcases hParted with hLeaving | hEnded
    · rcases leaving_step hSound hStep hLeaving with hBefore | ⟨hCalls, -⟩
      · exact .inl (.inl hBefore)
      · have hStopped := (hOk.disconnects _ hCalls x rfl).resolve_left hKept
        rcases hStopped with hEnded | hNow
        · exact .inl (.inr hEnded)
        · cases event with
          | complete y c =>
            obtain ⟨rfl, hEnds⟩ := hNow
            exact .inr ⟨c, rfl, hEnds⟩
          | _ => exact hNow.elim
    · exact (ended_step hStep hEnded).imp_left .inr
  rcases hBegins with hBefore | ⟨c, rfl, hEnds⟩
  · have hAway := h.parted_away hSound hBefore
    have hResting := (h.parted x hBefore).resolve_left hKept
    rcases hOk.resting_step hFramed hStep hKept hResting with hStill | hOpening | hServes
    · exact hStill
    · exact absurd hOpening hAway
    · exact absurd hBefore hServes.not_parted
  · have hDrained := (hOk.quits x (by simp [quits, hEnds])).resolve_left hKept
    exact resting_of_quits hSound hStep hEnds hDrained

theorem Spared.leaving_away (h : Spared s) (hFramed : Framed s) (hStep : s.step event = some s')
    {x : Nat} (hLeaving : s'.Leaving x) : x < s'.allocated ∧ x ∉ s'.openings := by
  have hBefore : x < s.allocated ∧ x ∉ s.openings := by
    rcases leaving_step hFramed.sound hStep hLeaving with hBefore | ⟨-, hOwned, hAway⟩
    · exact h.leaving x hBefore
    · exact ⟨hFramed.allocated x hOwned, hAway⟩
  refine ⟨Nat.lt_of_lt_of_le hBefore.1 (allocated_step hStep).1, fun hOpening => ?_⟩
  rcases openings_step hStep hOpening with hOld | ⟨-, rfl⟩
  · exact hBefore.2 hOld
  · exact Nat.lt_irrefl _ hBefore.1

/-- **Every step that keeps the promise leaves the connections without a copy in service or at
rest.** -/
theorem Spared.step (h : Spared s) (hFramed : Framed s) (hOk : s.Spares event)
    (hStep : s.step event = some s') : Spared s' :=
  ⟨h.held_step hFramed hOk hStep, fun _ hParted => h.parted_step hFramed hOk hStep hParted,
    fun _ hLeaving => h.leaving_away hFramed hStep hLeaving⟩

theorem spared_init : Spared {} := by
  refine ⟨fun x => .inr (.inr (.inr ⟨.inr rfl, .inl rfl, rfl⟩)), ?_, ?_⟩
  · exact fun x _ => .inr ⟨.inr rfl, .inl rfl, rfl⟩
  · rintro x ⟨task, hMem, -⟩
    cases hMem

/-- A connection with a pending handler has an owner. -/
theorem Spared.owned (h : Spared s) (hSound : Sound s) (hPending : (s.objects x).HasPending) :
    x ∈ s.owners := by
  rcases h.held x with hKept | hOpening | hClient | hResting
  · exact mem_owners.mpr (.inr (.inr (.inl hKept)))
  · exact owned_of_opening hOpening
  · exact owned_of_client hClient
  · exact absurd hPending (hSound.not_pending hResting)

end

/-- **In a run that keeps the promise, every pending handler belongs to a connection that has
an owner.** -/
theorem owned_of_pending {s : DedicatedServer} (h : Reach system Spares s) (x : Nat)
    (hPending : (s.objects x).HasPending) : x ∈ s.owners := by
  have hBoth : Framed s ∧ Spared s := by
    refine h.invariant (I := fun s => Framed s ∧ Spared s) ?_ ?_
    · rintro _ rfl
      exact ⟨framed_init, spared_init⟩
    · rintro s event s' ⟨hFramed, hSpared⟩ hOk hStep
      exact ⟨hFramed.step hStep, hSpared.step hFramed hOk hStep⟩
  exact hBoth.2.owned hBoth.1.sound hPending

/-- The first client resets its connection when the message of `OnConnect` is written. The
application keeps a copy of the second one, sends a message and disconnects. -/
def writtenAndKept : List Event :=
  [.accept, .allow 0, .app .context (.send 0 (Message.new none)), .leave .context,
    .complete 0 .lambda, .transfer 0 .header headerSize, .complete 0 (.written .header),
    .complete 0 (.writeFailed .validation1), .leave .context, .run .context, .run .context,
    .accept, .allow 0, .app .context (.keep 1), .app .context (.send 1 (Message.new none)),
    .app .context (.disconnect 1), .leave .context, .run .context, .leave .context]

theorem owned_of_writtenAndKept : ∃ s, Reach system Spares s ∧ 0 ∉ s.owners ∧
    (s.objects 0).sent = [Message.new none] ∧ some 1 ∉ s.clients ∧ (s.objects 1).HasPending ∧
      1 ∈ s.owners := by
  obtain ⟨s, hReach, hEnd⟩ := Reach.exists_of_checked (M := system) Spares rfl writtenAndKept
    (fun s => decide (0 ∉ s.owners ∧ (s.objects 0).sent = [Message.new none] ∧
      some 1 ∉ s.clients ∧ (s.objects 1).posted ≠ [])) (by decide)
  obtain ⟨hLost, hSent, hErased, hPosted⟩ := of_decide_eq_true hEnd
  have hPending : (s.objects 1).HasPending := .inr (.inr (.inr hPosted))
  exact ⟨s, hReach, hLost, hSent, hErased, hPending, owned_of_pending hReach 1 hPending⟩

/-! ## A connection that does not last -/

/-- `OnConnect` sends a message, and the write of the challenge fails. -/
def resetByPeer : List Event :=
  [.accept, .allow 0, .app .context (.send 0 (Message.new none)), .leave .context,
    .complete 0 (.writeFailed .validation1), .leave .context, .run .context]

/-- **A handler outlives its connection**: the lambda of `Send` is still posted when the
connection is taken out of `m_Clients`. -/
theorem handler_outlives_connection : ∃ s, Reach system Free s ∧
    (s.objects 0).HasPending ∧ 0 ∉ s.owners := by
  obtain ⟨s, hReach, hEnd⟩ := Reach.exists_of_free (M := system) rfl resetByPeer
    (fun s => (s.objects 0).posted != [] && !s.owners.contains 0) (by decide)
  simp only [Bool.and_eq_true, bne_iff_ne, Bool.not_eq_true', List.contains_eq_mem,
    decide_eq_false_iff_not] at hEnd
  exact ⟨s, hReach, .inr (.inr (.inr hEnd.1)), hEnd.2⟩

end DedicatedServer

end MinecraftNetwork
