import MinecraftNetwork.DedicatedServer.Identifiers
import MinecraftNetwork.Endpoint.Written

/-!
# What a step of the server sends

`gives` lists the messages that a step gives to `Send` on a connection: one for a call of
the application, or for an iteration of `MessageAll`. `Framed` adds to the invariants of the
connections what the write chain has written, and `Moves` says what a step does to the
messages that wait on a connection and to its socket.
-/

namespace MinecraftNetwork

open Runs

/-! ## What is sent, and when a socket is closed -/

namespace Endpoint

/-- Only the lambda of `Disconnect` closes a socket. -/
theorem handle_closes {e e' : Endpoint} {effects : List Effect} {c : Completion}
    (h : e.handle c = some (e', effects)) (hOpen : e.connection.isOpen = true)
    (hClosed : e'.connection.isOpen = false) : c = .lambda ∧ e.posted.head? = some .close := by
  rcases handle_sameSocket h with hSame | ⟨hLambda, hClose, -⟩
  · rw [hSame.isOpen, hOpen] at hClosed
    cases hClosed
  · exact ⟨hLambda, hClose⟩

end Endpoint

namespace DedicatedServer

variable {s s' : DedicatedServer}

@[simp] theorem endpoint_sent (s : DedicatedServer) (x : Nat) :
    (s.endpoint x).sent = (s.objects x).sent := Endpoint.performAll_sent _ _

@[simp] theorem endpoint_waiting (s : DedicatedServer) (x : Nat) :
    (s.endpoint x).waiting = (s.objects x).waiting := Endpoint.performAll_waiting _ _

@[simp] theorem endpoint_writeFailed (s : DedicatedServer) (x : Nat) :
    (s.endpoint x).writeFailed = (s.objects x).writeFailed := Endpoint.performAll_writeFailed _ _

/-- A member function of a connection performs its effects up to its next callback. -/
theorem objects_advance (s : DedicatedServer) (x : Nat) (effects : List Effect) :
    ∃ done, done <+: effects ∧ (s.advance x effects).objects =
      Function.update s.objects x ((s.objects x).performAll done) := by
  induction effects generalizing s with
  | nil => exact ⟨[], List.nil_prefix, (Function.update_eq_self x s.objects).symm⟩
  | cons effect effects ih =>
    have hHere : (s.setObject x ((s.objects x).perform effect)).objects x =
        (s.objects x).perform effect := Function.update_self ..
    have hStop : ∃ done, done <+: effect :: effects ∧
        (s.setObject x ((s.objects x).perform effect)).objects =
          Function.update s.objects x ((s.objects x).performAll done) :=
      ⟨[effect], ⟨effects, rfl⟩, rfl⟩
    have hOn : ∀ s₀ : DedicatedServer,
        s₀.objects = (s.setObject x ((s.objects x).perform effect)).objects →
        ∃ done, done <+: effect :: effects ∧ (s₀.advance x effects).objects =
          Function.update s.objects x ((s.objects x).performAll done) := by
      intro s₀ hSame
      obtain ⟨done, hDone, hObjects⟩ := ih s₀
      refine ⟨effect :: done, (List.cons_prefix_cons).mpr ⟨rfl, hDone⟩, ?_⟩
      rw [hObjects, hSame, hHere]
      simp only [setObject, Function.update_idem]
      rfl
    cases effect with
    | onValidate | onInvalidate | disconnect => exact hStop
    | emplaceBack | asyncConnect | asyncRead | asyncWrite | postClose | emptyDeque =>
      exact hOn _ rfl

/-- The messages a step gives to `Send` on a connection. -/
def gives (s : DedicatedServer) (x : Nat) : Event → List Message
  | .app _ (.send y m) => if y = x then [m] else []
  | .app _ (.messageOne p m) => if p = some x ∧ s.isConnected x = true then [m] else []
  | .run t =>
    match s.tasks t with
    | .messageAll m ignored position stop _ :: _ =>
      if position ≠ stop ∧ s.clients[position]? = some (some x) ∧ s.isConnected x = true ∧
        some x ≠ ignored then [m] else []
    | .callback _ :: _ | .resume _ _ :: _ | .erase _ :: _ | .reset _ _ :: _ | .release _ :: _
    | [] => []
  | .app _ (.disconnect _) | .app _ (.messageAll _ _) | .app _ (.keep _) | .app _ (.drop _)
  | .accept | .complete _ _ | .transfer _ _ _ | .leave _ | .allow _ | .deny | .poll _ => []

/-- What a step makes of a connection. -/
inductive Touch (s : DedicatedServer) (event : Event) (x : Nat) (e : Endpoint) : Prop
  | same (hNone : s.gives x event = []) (hSame : e = s.objects x)
  | given {m : Message} (hGives : s.gives x event = [m]) (hSend : e = (s.objects x).send m)
  | called {t : Thread} (hEvent : event = .app t (.disconnect x))
      (hCall : e = (s.objects x).disconnect)
  | network {op : WriteOp} {n : Nat} (hEvent : event = .transfer x op n)
      (hTransfer : (s.objects x).transfer op n = some e)
  | handler {c : Completion} {e₁ : Endpoint} {effects done : List Effect}
      (hEvent : event = .complete x c) (hHandle : (s.objects x).handle c = some (e₁, effects))
      (hDone : done <+: effects) (hNext : e = e₁.performAll done)
  | resume {effects : List Effect} (hNone : s.gives x event = []) (hRest : effects <+: s.rest x)
      (hNext : e = (s.objects x).performAll effects)
  | accept (hEvent : event = .accept) (hFresh : x = s.allocated)
      (hNext : e = Endpoint.create .dedicatedServer true)
  | allow {now : UInt64} (hEvent : event = .allow now)
      (hNext : e = (s.objects x).run
        ((s.objects x).connection.connectToClient now s.nextClientID))

/-- A step that sends a message on a connection. -/
theorem touch_send {event : Event} {y : Nat} {m : Message}
    (hGives : ∀ x, s.gives x event = if y = x then [m] else []) (x : Nat) :
    Touch s event x ((s.setObject y ((s.objects y).send m)).objects x) := by
  by_cases hSame : y = x
  · subst hSame
    refine .given (m := m) ?_ (Function.update_self ..)
    rw [hGives, if_pos rfl]
  · refine .same ?_ (Function.update_of_ne (Ne.symm hSame) ..)
    rw [hGives, if_neg hSame]

theorem touch_act {t : Thread} {action : Action} (h : s.act t action = some s') (x : Nat) :
    Touch s (.app t action) x (s'.objects x) := by
  cases act_cases h with
  | send => exact touch_send (fun _ => rfl) x
  | @disconnect y | @disconnectSilent y =>
    by_cases hSame : x = y
    · subst hSame
      exact .called rfl (Function.update_self ..)
    · exact .same rfl (Function.update_of_ne hSame ..)
  | messageNone => exact .same rfl rfl
  | @messageOne y m _ hConnected =>
    refine touch_send (fun z => ?_) x
    by_cases hSame : y = z
    · subst hSame
      simp [gives, hConnected]
    · simp [gives, hSame]
  | @messageDead y m _ hDead =>
    refine .same ?_ rfl
    rw [gives, if_neg]
    rintro ⟨hSame, hConnected⟩
    cases hSame
    exact hDead hConnected
  | messageAll | keep | drop => exact .same rfl rfl

theorem touch_iterate {t : Thread} {m : Message} {ignored : Option Nat} {position stop : Nat}
    {clientsRemoved : Bool} {tail : List Task}
    (hTasks : s.tasks t = .messageAll m ignored position stop clientsRemoved :: tail)
    (h : s.iterate t m ignored position stop clientsRemoved tail = some s') (x : Nat) :
    Touch s (.run t) x (s'.objects x) := by
  have hGives : s.gives x (.run t) =
      if position ≠ stop ∧ s.clients[position]? = some (some x) ∧ s.isConnected x = true ∧
        some x ≠ ignored then [m] else [] := by
    rw [gives, hTasks]
  have hNone : (¬ (position ≠ stop ∧ s.clients[position]? = some (some x) ∧
      s.isConnected x = true ∧ some x ≠ ignored)) → s'.objects x = s.objects x →
      Touch s (.run t) x (s'.objects x) := by
    intro hNot hSame
    refine .same ?_ hSame
    rw [hGives, if_neg hNot]
  cases iterate_cases h with
  | finish hEnd =>
    refine hNone (fun hAll => hAll.1 hEnd) ?_
    split <;> rfl
  | @next y hMore hEntry hConnected =>
    by_cases hServed : y = x ∧ some y ≠ ignored
    · obtain ⟨rfl, hIgnored⟩ := hServed
      refine .given (m := m) ?_ ?_
      · rw [hGives, if_pos ⟨hMore, hEntry, hConnected, hIgnored⟩]
      · rw [if_pos hIgnored]
        exact Function.update_self ..
    · refine hNone ?_ ?_
      · rintro ⟨-, hThis, -, hIgnored⟩
        rw [hEntry] at hThis
        cases hThis
        exact hServed ⟨rfl, hIgnored⟩
      · split
        · rename_i hIgnored
          refine Function.update_of_ne ?_ ..
          rintro rfl
          exact hServed ⟨rfl, hIgnored⟩
        · rfl
  | @remove p hMore hEntry hDead =>
    refine hNone ?_ rfl
    rintro ⟨-, hThis, hConnected, -⟩
    rw [hEntry] at hThis
    exact hDead x (Option.some.inj hThis) hConnected

/-- **What a step can make of a connection.** -/
theorem touch_step {event : Event} (h : s.step event = some s') (x : Nat) :
    Touch s event x (s'.objects x) := by
  cases step_cases h with
  | accept =>
    by_cases hSame : x = s.allocated
    · refine .accept rfl hSame ?_
      simp [call, setTasks, setObject, hSame]
    · refine .same rfl ?_
      simp [call, setTasks, setObject, hSame]
  | @complete y c e effects _ _ hHandle =>
    obtain ⟨done, hDone, hObjects⟩ := objects_advance (s.setObject y e) y effects
    rw [hObjects]
    by_cases hSame : x = y
    · subst hSame
      refine .handler rfl hHandle hDone ?_
      simp [setObject]
    · refine .same rfl ?_
      simp [setObject, hSame]
  | @transfer y op n e _ hTransfer =>
    by_cases hSame : x = y
    · subst hSame
      refine .network rfl ?_
      rw [hTransfer]
      exact congrArg some (Function.update_self (f := s.objects) ..).symm
    · exact .same rfl (Function.update_of_ne hSame ..)
  | app _ hAct => exact touch_act hAct x
  | @allow now y rest =>
    by_cases hSame : x = y
    · subst hSame
      exact .allow rfl (Function.update_self ..)
    · exact .same rfl (Function.update_of_ne hSame ..)
  | @resume y effects rest hTasks =>
    obtain ⟨done, hDone, hObjects⟩ := objects_advance (s.setTasks .context rest) y effects
    rw [hObjects]
    by_cases hSame : x = y
    · subst hSame
      refine .resume (by rw [gives, hTasks]) (hDone.trans ?_) (Function.update_self ..)
      simp [DedicatedServer.rest, hTasks, Task.rest]
    · exact .same (by rw [gives, hTasks]) (Function.update_of_ne hSame ..)
  | iterate hTasks hIterate => exact touch_iterate hTasks hIterate x
  | erase hTasks | reset hTasks | release hTasks => exact .same (by rw [gives, hTasks]) rfl
  | leave | deny | pop | poll => exact .same rfl rfl

/-- **What a step sends on a connection.** -/
theorem sent_step {event : Event} (h : s.step event = some s') {x : Nat}
    (hAccept : event = .accept → x ≠ s.allocated) :
    (s'.objects x).sent = (s.objects x).sent ++ s.gives x event := by
  have hKept : (s'.objects x).sent = (s.objects x).sent → s.gives x event = [] →
      (s'.objects x).sent = (s.objects x).sent ++ s.gives x event := by
    intro hSame hNone
    rw [hSame, hNone, List.append_nil]
  cases touch_step h x with
  | same hNone hSame => exact hKept (by rw [hSame]) hNone
  | given hGives hSend =>
    rw [hGives, hSend]
    rfl
  | called hEvent hCall =>
    subst hEvent
    exact hKept (by rw [hCall]; rfl) rfl
  | network hEvent hTransfer =>
    subst hEvent
    exact hKept (Endpoint.transfer_frame hTransfer).2.1 rfl
  | handler hEvent hHandle _ hNext =>
    subst hEvent
    refine hKept ?_ rfl
    rw [hNext, Endpoint.performAll_sent, (Endpoint.handle_keeps hHandle).1]
  | resume hNone _ hNext => exact hKept (by rw [hNext, Endpoint.performAll_sent]) hNone
  | accept hEvent hFresh => exact absurd hFresh (hAccept hEvent)
  | allow hEvent hNext =>
    subst hEvent
    refine hKept ?_ rfl
    rw [hNext, Endpoint.run, Endpoint.performAll_sent]

/-! ## The connections of a run and their messages -/

/-- The part of the invariant that holds in every run of the server. -/
structure Framed (s : DedicatedServer) : Prop where
  sound : Sound s
  allocated : Allocated s
  /-- A connection that is not allocated yet is as its constructor will leave it. -/
  fresh : ∀ x, s.allocated ≤ x → s.endpoint x = Endpoint.create .dedicatedServer true
  frames : ∀ x, (s.endpoint x).Fronted ∧ (s.endpoint x).Passed

theorem Alive.writeChain {e : Endpoint} (h : Alive e) : ∃ done, e.WriteChain done := by
  cases h with
  | created _ _ hChain | admitted _ _ hChain => exact hChain

theorem allocated_step {event : Event} (h : s.step event = some s') :
    s.allocated ≤ s'.allocated ∧ (event = .accept → s'.allocated = s.allocated + 1) := by
  by_cases hAllow : ∃ now, event = .allow now
  · obtain ⟨now, rfl⟩ := hAllow
    cases step_cases h
    exact ⟨Nat.le_refl _, fun hAccept => by cases hAccept⟩
  · push Not at hAllow
    refine ⟨(allowed_step h hAllow).allocated, ?_⟩
    rintro rfl
    cases step_cases h
    rfl

theorem Framed.step {event : Event} (h : Framed s) (hStep : s.step event = some s') :
    Framed s' := by
  obtain ⟨hLe, hAccept⟩ := allocated_step hStep
  refine ⟨h.sound.step hStep, h.allocated.step hStep, fun x hx => ?_, fun x => ?_⟩
  · have hBefore := h.fresh x (Nat.le_trans hLe hx)
    have hUnowned : x ∉ s.owners := fun hOwned =>
      absurd (h.allocated x hOwned) (Nat.not_lt.mpr (Nat.le_trans hLe hx))
    cases h.sound.change hStep x with
    | same hSame => rw [hSame, hBefore]
    | handler _ hOwned | outside hOwned => exact absurd hOwned hUnowned
    | create _ _ hCreate => exact hCreate
    | register _ hTasks =>
      apply absurd _ hUnowned
      simp [owners, hTasks, Task.refs, Callback.refs]
  · obtain ⟨hFronted, hPassed⟩ := h.frames x
    obtain ⟨done, hChain⟩ := (h.sound.alive x).writeChain
    cases h.sound.change hStep x with
    | same hSame =>
      rw [hSame]
      exact ⟨hFronted, hPassed⟩
    | handler _ _ hMove | outside _ _ hMove =>
      exact ⟨hFronted.step hChain hMove, hPassed.step hChain hMove⟩
    | create _ _ hCreate =>
      rw [hCreate]
      exact ⟨Endpoint.Fronted.start [] (.created .dedicatedServer true),
        Endpoint.Passed.start [] (.created .dedicatedServer true)⟩
    | register _ _ hRegister =>
      rw [hRegister]
      exact ⟨Endpoint.Fronted.start _ _, Endpoint.Passed.start _ _⟩

theorem framed_init : Framed {} := by
  refine ⟨sound_init, allocated_init, fun x _ => rfl, fun x => ?_⟩
  exact ⟨Endpoint.Fronted.start [] (.created .dedicatedServer true),
    Endpoint.Passed.start [] (.created .dedicatedServer true)⟩

/-- The connection whose socket a step closes. -/
def closings (s : DedicatedServer) : Event → List Nat
  | .complete x .lambda => if (s.objects x).posted.head? = some .close then [x] else []
  | .complete _ _ | .app _ _ | .accept | .transfer _ _ _ | .leave _ | .allow _ | .deny | .run _
  | .poll _ => []

/-- What a step does to the messages and to the socket of a connection. -/
structure Moves (s s' : DedicatedServer) (event : Event) (x : Nat) : Prop where
  messages : ∃ new k, (s'.objects x).sent = (s.objects x).sent ++ new ∧
    (s'.objects x).waiting = ((s.objects x).waiting ++ new).drop k ∧
      (new ≠ [] → x ∈ s.owners)
  closes : s.isConnected x = true → s'.isConnected x = false → x ∈ s.closings event
  failed : (s.objects x).writeFailed = true → (s'.objects x).writeFailed = true

/-- A step that gives a connection nothing to send, and does not touch its socket. -/
theorem moves_of_same {event : Event} {x : Nat}
    (hSent : (s'.objects x).sent = (s.objects x).sent)
    (hWaiting : (s'.objects x).waiting = (s.objects x).waiting)
    (hOpen : s'.isConnected x = s.isConnected x)
    (hFailed : (s'.objects x).writeFailed = (s.objects x).writeFailed) : Moves s s' event x := by
  refine ⟨⟨[], 0, ?_, ?_, fun hNew => absurd rfl hNew⟩, fun hBefore hAfter => ?_, fun hBefore => ?_⟩
  · rw [hSent, List.append_nil]
  · rw [hWaiting, List.append_nil, List.drop_zero]
  · rw [hOpen, hBefore] at hAfter
    cases hAfter
  · rw [hFailed]
    exact hBefore

/-- `ConnectToClient` neither sends nor closes. -/
theorem moves_register {now : UInt64} {x : Nat} {rest : List Task}
    (hTasks : s.tasks .context = .callback (.allowConnection x) :: rest)
    (h : s.step (.allow now) = some s') : Moves s s' (.allow now) x := by
  simp only [step, hTasks] at h
  cases h
  have hObject : ((s.register x now rest).objects x) =
      (s.objects x).run ((s.objects x).connection.connectToClient now s.nextClientID) :=
    Function.update_self ..
  have hConnection : ∀ c : Connection,
      (c.connectToClient now s.nextClientID).1.outgoingMessages = c.outgoingMessages ∧
        (c.connectToClient now s.nextClientID).1.isOpen = c.isOpen := by
    intro c
    unfold Connection.connectToClient
    split
    · split <;> exact ⟨rfl, rfl⟩
    · exact ⟨rfl, rfl⟩
  obtain ⟨hQueue, hOpen⟩ := hConnection (s.objects x).connection
  apply moves_of_same
  · rw [hObject, Endpoint.run, Endpoint.performAll_sent]
  · rw [hObject, Endpoint.run, Endpoint.performAll_waiting, Endpoint.waiting, hQueue,
      Endpoint.waiting]
  · rw [isConnected, hObject, Endpoint.run, Endpoint.performAll_connection]
    exact hOpen
  · rw [hObject, Endpoint.run, Endpoint.performAll_writeFailed]

/-- **What a step of the server does to the messages and to the socket of a connection.** -/
theorem Framed.moves {event : Event} (h : Framed s) (hStep : s.step event = some s') (x : Nat) :
    Moves s s' event x := by
  obtain ⟨done, hChain⟩ := (h.sound.alive x).writeChain
  cases h.sound.change hStep x with
  | same hSame =>
    apply moves_of_same
    · rw [← endpoint_sent, hSame, endpoint_sent]
    · rw [← endpoint_waiting, hSame, endpoint_waiting]
    · rw [isConnected, ← endpoint_connection, hSame, endpoint_connection]
      rfl
    · rw [← endpoint_writeFailed, hSame, endpoint_writeFailed]
  | @handler c hEvent hOwned hMove =>
    obtain ⟨new, k, hSent, hWaiting⟩ := hChain.waiting_step hMove
    simp only [Endpoint.step, Option.map_eq_some_iff] at hMove
    obtain ⟨⟨e, effects⟩, hHandle, hEnd⟩ := hMove
    have hNone : new = [] := by
      rw [← hEnd, Endpoint.performAll_sent, (Endpoint.handle_keeps hHandle).1] at hSent
      exact List.append_right_eq_self.mp hSent.symm
    have hPosted : (s.endpoint x).posted = (s.objects x).posted := by
      rw [endpoint, Endpoint.performAll_posted, h.sound.posts, List.append_nil]
    have hConnection : (s'.objects x).connection = e.connection := by
      rw [← endpoint_connection, ← hEnd, Endpoint.performAll_connection]
    simp only [endpoint_sent, endpoint_waiting] at hSent hWaiting
    refine ⟨⟨new, k, hSent, hWaiting, fun hNew => absurd hNone hNew⟩, fun hOpen hClosed => ?_,
      fun hFailed => ?_⟩
    · rw [isConnected, Connection.isConnected, ← endpoint_connection] at hOpen
      rw [isConnected, Connection.isConnected, hConnection] at hClosed
      obtain ⟨rfl, hHead⟩ := Endpoint.handle_closes hHandle hOpen hClosed
      rw [hPosted] at hHead
      simp [closings, hEvent, hHead]
    · rw [← endpoint_writeFailed, ← hEnd, Endpoint.performAll_writeFailed]
      exact Endpoint.handle_writeFailed (by rwa [endpoint_writeFailed]) hHandle
  | @outside action hOwned hOutside hMove =>
    obtain ⟨new, k, hSent, hWaiting⟩ := hChain.waiting_step hMove
    have hFrame := Endpoint.outside_frame hOutside hMove
    have hConnection := hFrame.connection
    have hFailed := hFrame.writeFailed
    simp only [endpoint_sent, endpoint_waiting, endpoint_connection, endpoint_writeFailed]
      at hSent hWaiting hConnection hFailed
    have hOpen : s'.isConnected x = s.isConnected x := congrArg Connection.isConnected hConnection
    refine ⟨⟨new, k, hSent, hWaiting, fun _ => hOwned⟩, fun hBefore hAfter => ?_,
      fun hBefore => hFailed.trans hBefore⟩
    rw [hOpen, hBefore] at hAfter
    cases hAfter
  | create hEvent hFresh hCreate =>
    have hBefore := h.fresh x hFresh.ge
    apply moves_of_same
    · rw [← endpoint_sent, ← endpoint_sent, hCreate, hBefore]
    · rw [← endpoint_waiting, ← endpoint_waiting, hCreate, hBefore]
    · rw [isConnected, isConnected, ← endpoint_connection, ← endpoint_connection, hCreate, hBefore]
    · rw [← endpoint_writeFailed, ← endpoint_writeFailed, hCreate, hBefore]
  | register hEvent hTasks =>
    subst hEvent
    exact moves_register hTasks hStep

end DedicatedServer

end MinecraftNetwork
