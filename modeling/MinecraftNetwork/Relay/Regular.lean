import MinecraftNetwork.Relay.Basic
import MinecraftNetwork.DedicatedServer.Incoming

/-!
# The server of a relay

The polling thread of the server is in `PollMessages`, in `OnMessage` or in the `MessageAll`
that `OnMessage` has called (`Polls`), and nobody closes a socket, so `MessageAll` finds every
client connected and takes no other branch than the one that sends. `Turn` lists the steps of
the polling thread, and `Regular` is the invariant: the server sends on connections whose
handshake is complete, and what its headers announce.
-/

namespace MinecraftNetwork

open Runs LittleEndian

/-- The header of a relayed message is the one that `operator<<` leaves. -/
theorem Message.push_uint64 {m m' : Message} {id : UInt64}
    (h : m.push (.ofUInt64 id) = .ok m') : m' = Relay.relayed id m := by
  obtain ⟨hBody, hHeader⟩ := Message.push_ok h
  have hSize : UInt32.ofNat (m.header.size.toNat + 8) = m.header.size + 8 := by
    rw [UInt32.ofNat_add, UInt32.ofNat_toNat]
    rfl
  have hData : (Data.ofUInt64 id).size = 8 := length_encode64 id
  rw [hData, hSize] at hHeader
  obtain ⟨header, body⟩ := m'
  simp only at hBody hHeader
  rw [hBody, hHeader]
  rfl

namespace Relay

variable {s : Relay} {server : DedicatedServer} {event : DedicatedServer.Event}

theorem relayed_announces {id : UInt64} {m : Message} (h : m.Announces)
    (hFits : m.body.length + 8 < 2 ^ 32) : (relayed id m).Announces := by
  unfold Message.Announces at h ⊢
  simp only [relayed, List.length_append, length_encode64, UInt32.toNat_add]
  rw [h]
  exact Nat.mod_eq_of_lt hFits

/-! ## What `OnMessage` calls -/

theorem reply_call {action : Action} (h : s.reply = .ok (some action)) :
    ∃ y m rest, s.server.tasks .polling = .callback (.onMessage y m) :: rest ∧
      s.answered = false ∧
        (m.header.id = MessageType.clientPingServer.id ∧ action = .send y m ∨
          m.header.id = MessageType.clientMessageOtherClients.id ∧
            action = .messageAll (relayed (s.server.objects y).connection.id m) (some y)) := by
  unfold reply at h
  split at h
  · rename_i y m rest hTasks
    refine ⟨y, m, rest, hTasks, ?_⟩
    split at h
    · cases h
    · rename_i hAnswered
      refine ⟨by simpa using hAnswered, ?_⟩
      unfold Server.onMessage at h
      split at h
      · rename_i hPing
        cases h
        exact .inl ⟨hPing, rfl⟩
      · split at h
        · rename_i hOther
          cases hPush : m.push (.ofUInt64 (s.server.objects y).connection.id) with
          | error failure =>
            rw [hPush] at h
            cases h
          | ok m' =>
            rw [hPush] at h
            cases h
            exact .inr ⟨hOther, by rw [Message.push_uint64 hPush]⟩
        · cases h
  · cases h

theorem reply_return {y : Nat} {m : Message} {rest : List Task} (h : s.reply = .ok none)
    (hTasks : s.server.tasks .polling = .callback (.onMessage y m) :: rest) :
    s.answered = true ∨ ∀ x, s.forClient x (y, m) = none := by
  unfold reply at h
  rw [hTasks] at h
  simp only at h
  split at h
  · exact .inl ‹_›
  · right
    intro x
    unfold Server.onMessage at h
    split at h
    · cases h
    · rename_i hPing
      split at h
      · cases hPush : m.push (.ofUInt64 (s.server.objects y).connection.id) with
        | error failure =>
          rw [hPush] at h
          cases h
        | ok m' =>
          rw [hPush] at h
          cases h
      · rename_i hOther
        rw [forClient, if_neg hPing, if_neg hOther]

/-! ## The polling thread -/

/-- The stack of the polling thread. -/
inductive Polls (server : DedicatedServer) (answered : Bool) : List Task → Prop
  | idle : Polls server answered []
  | ending {p : Option Nat} : Polls server answered [.release p]
  | called {y : Nat} {m : Message} (hProcessed : (y, m) ∈ server.incoming.processed) :
      Polls server answered [.callback (.onMessage y m), .release (some y)]
  | relaying {y : Nat} {m : Message} {position stop : Nat}
      (hProcessed : (y, m) ∈ server.incoming.processed)
      (hId : m.header.id = MessageType.clientMessageOtherClients.id) (hAnswered : answered = true)
      (hAnnounces : (relayed (server.objects y).connection.id m).Announces)
      (hPosition : position ≤ stop) (hStop : server.clients.length ≤ stop)
      (hClients : position ≠ stop → server.clients.length = stop)
      (hCompleted : ∀ x, some x ∈ server.clients → (server.endpoint x).completed = true) :
      Polls server answered [.messageAll (relayed (server.objects y).connection.id m) (some y)
        position stop false, .callback (.onMessage y m), .release (some y)]

/-- A connection of the server, before it is admitted and from then on. -/
inductive Made (e : Endpoint) : Prop
  | created (hNew : e = Endpoint.create .dedicatedServer true)
  | admitted {now id : UInt64} (hOwner : e.connection.hasConnectable = true)
      (hOperational : Endpoint.Operational (.server now id) e) (hLate : Endpoint.Late e)

/-- The invariant of the server. -/
structure Regular (server : DedicatedServer) (answered : Bool) : Prop where
  framed : server.Framed
  made : ∀ x, Made (server.endpoint x)
  incoming : server.incoming.Sound
  read : ∀ p ∈ server.incoming.enqueued, p.2 ∈ (server.endpoint p.1).received
  unclosed : ∀ x, .close ∉ (server.objects x).posted
  connected : ∀ x, server.isConnected x = true
  loopless : server.Loopless
  clients : ∀ q ∈ server.clients,
    ∃ x, q = some x ∧ (server.objects x).connection.hasConnectable = true
  nodup : server.clients.Nodup
  polls : Polls server answered (server.tasks .polling)

/-- The clients are connections that have been admitted. -/
theorem Regular.client {answered : Bool} (h : Regular server answered) {x : Nat}
    (hMem : some x ∈ server.clients) : (server.objects x).connection.hasConnectable = true := by
  obtain ⟨y, hSame, hOwner⟩ := h.clients _ hMem
  rwa [Option.some.inj hSame]

/-- The polling thread has other tasks, and neither the clients nor the processed messages
change. -/
structure Rests (server server' : DedicatedServer) (tasks : List Task) : Prop where
  tasks : server'.tasks = Function.update server.tasks .polling tasks
  processed : server'.incoming.processed = server.incoming.processed
  clients : server'.clients = server.clients

/-- A step of the server, as its polling thread sees it. -/
inductive Turn (s : Relay) (event : DedicatedServer.Event) (server : DedicatedServer) : Prop
  | background (hBackground : event.isBackground = true)
  | poll {event' : PollEvent} (hEvent : event = .poll event') (hIdle : s.server.tasks .polling = [])
      (hRests : Rests s.server server [])
  | pop {y : Nat} {m : Message} (hEvent : event = .poll .pop)
      (hIdle : s.server.tasks .polling = [])
      (hTasks : server.tasks = Function.update s.server.tasks .polling
        [.callback (.onMessage y m), .release (some y)])
      (hProcessed : server.incoming.processed = s.processed ++ [(y, m)])
      (hClients : server.clients = s.server.clients)
  | reply {y : Nat} {m : Message} {rest : List Task} (hEvent : event = .app .polling (.send y m))
      (hBefore : s.server.tasks .polling = .callback (.onMessage y m) :: rest)
      (hAnswered : s.answered = false) (hId : m.header.id = MessageType.clientPingServer.id)
      (hRests : Rests s.server server (.callback (.onMessage y m) :: rest))
  | relay {y : Nat} {m : Message} {rest : List Task}
      (hEvent : event = .app .polling
        (.messageAll (relayed (s.server.objects y).connection.id m) (some y)))
      (hBefore : s.server.tasks .polling = .callback (.onMessage y m) :: rest)
      (hAnswered : s.answered = false)
      (hId : m.header.id = MessageType.clientMessageOtherClients.id)
      (hRests : Rests s.server server
        (.messageAll (relayed (s.server.objects y).connection.id m) (some y) 0
          s.server.clients.length false :: .callback (.onMessage y m) :: rest))
  | leave {c : Callback} {rest : List Task} (hEvent : event = .leave .polling)
      (hBefore : s.server.tasks .polling = .callback c :: rest)
      (hReply : s.reply = .ok none) (hRests : Rests s.server server rest)
  | release {p : Option Nat} {rest : List Task} (hEvent : event = .run .polling)
      (hBefore : s.server.tasks .polling = .release p :: rest)
      (hRests : Rests s.server server rest)
  | next {m : Message} {ignored : Option Nat} {position stop x : Nat} {rest : List Task}
      (hEvent : event = .run .polling) (hMore : position ≠ stop)
      (hBefore : s.server.tasks .polling = .messageAll m ignored position stop false :: rest)
      (hEntry : s.server.clients[position]? = some (some x))
      (hRests : Rests s.server server (.messageAll m ignored (position + 1) stop false :: rest))
  | finish {m : Message} {ignored : Option Nat} {position : Nat} {rest : List Task}
      (hEvent : event = .run .polling)
      (hBefore : s.server.tasks .polling = .messageAll m ignored position position false :: rest)
      (hRests : Rests s.server server rest)

theorem Regular.turn (h : Regular s.server s.answered) (hPerforms : s.Performs event)
    (hStep : s.server.step event = some server) : Turn s event server := by
  cases event with
  | accept | complete | transfer | allow => exact .background rfl
  | deny => exact hPerforms.elim
  | app t action =>
    obtain ⟨rfl, hReply⟩ := hPerforms
    obtain ⟨y, m, rest, hTasks, hAnswered, hCall⟩ := reply_call hReply
    have hHere : Function.update s.server.tasks .polling (.callback (.onMessage y m) :: rest) =
        s.server.tasks := by
      rw [← hTasks, Function.update_eq_self]
    cases DedicatedServer.step_cases hStep with
    | app _ hAct =>
      rcases hCall with ⟨hId, rfl⟩ | ⟨hId, rfl⟩
      · cases DedicatedServer.act_cases hAct with
        | send => exact .reply rfl hTasks hAnswered hId ⟨hHere.symm, rfl, rfl⟩
      · cases DedicatedServer.act_cases hAct with
        | messageAll =>
          refine .relay rfl hTasks hAnswered hId ⟨?_, rfl, rfl⟩
          rw [← hTasks]
          rfl
  | leave t =>
    cases t with
    | context => exact .background rfl
    | polling =>
      cases DedicatedServer.step_cases hStep with
      | leave hTasks => exact .leave rfl hTasks hPerforms ⟨rfl, rfl, rfl⟩
  | run t =>
    cases t with
    | context => exact .background rfl
    | polling =>
      have hPolls := h.polls
      cases DedicatedServer.step_cases hStep with
      | erase hTasks | reset hTasks =>
        rw [hTasks] at hPolls
        cases hPolls
      | @iterate _ m ignored position stop clientsRemoved rest _ hTasks hIterate =>
        rw [hTasks] at hPolls
        cases DedicatedServer.iterate_cases hIterate with
        | finish hEnd =>
          subst hEnd
          cases hPolls
          exact .finish rfl hTasks ⟨rfl, rfl, rfl⟩
        | next hMore hEntry =>
          cases hPolls
          refine .next rfl hMore hTasks hEntry ?_
          split <;> exact ⟨rfl, rfl, rfl⟩
        | remove hMore hEntry hDead =>
          obtain ⟨x, hSome, -⟩ := h.clients _ (List.mem_of_getElem? hEntry)
          exact absurd (h.connected x) (hDead x hSome)
      | release hTasks => exact .release rfl hTasks ⟨rfl, rfl, rfl⟩
  | poll event' =>
    cases DedicatedServer.step_cases hStep with
    | @pop y m rest _ hIdle hQueue hPop =>
      rcases Polling.step_processed hPop with ⟨hNot, -⟩ | ⟨-, hProcessed⟩
      · exact absurd rfl hNot
      · refine .pop (y := y) (m := m) rfl hIdle ?_ (hProcessed _ _ hQueue) rfl
        simp [DedicatedServer.call, DedicatedServer.setTasks, hIdle]
    | poll hIdle hNot hPoll =>
      have hHere : Function.update s.server.tasks .polling [] = s.server.tasks := by
        rw [← hIdle, Function.update_eq_self]
      rcases Polling.step_processed hPoll with ⟨-, hProcessed⟩ | ⟨hPop, -⟩
      · exact .poll rfl hIdle ⟨hHere.symm, hProcessed, rfl⟩
      · exact absurd hPop hNot

/-! ## What the server sends -/

/-- A message in the queue has been read by an admitted connection. -/
theorem Regular.enqueued {answered : Bool} (h : Regular server answered) {p : Nat × Message}
    (hMem : p ∈ server.incoming.enqueued) :
    (server.objects p.1).connection.hasConnectable = true ∧
      (server.endpoint p.1).completed = true ∧ p.2.Announces := by
  have hReceived := h.read p hMem
  cases h.made p.1 with
  | created hNew =>
    rw [hNew] at hReceived
    cases hReceived
  | admitted hOwner hOperational _ =>
    rw [DedicatedServer.endpoint_connection] at hOwner
    exact ⟨hOwner, hOperational.orderly.stage.received hReceived⟩

theorem Regular.processed {answered : Bool} (h : Regular server answered) {p : Nat × Message}
    (hMem : p ∈ server.incoming.processed) : p ∈ server.incoming.enqueued := by
  rw [← h.incoming.queue]
  exact List.mem_append_left _ hMem

theorem Regular.keeps {answered : Bool} (h : Regular server answered)
    {server' : DedicatedServer} (hStep : server.step event = some server') {p : Nat × Message}
    (hMem : p ∈ server.incoming.processed) : DedicatedServer.Keeps server server' p.1 :=
  h.framed.keeps hStep (h.enqueued (h.processed hMem)).1

/-- **The server sends after the handshake, and what its headers announce.** -/
theorem Regular.given (h : Regular s.server s.answered) (hPerforms : s.Performs event) {x : Nat}
    {m : Message} (hGives : m ∈ s.server.gives x event) :
    (s.server.endpoint x).completed = true ∧ m.Announces := by
  have hPolls := h.polls
  cases event with
  | app t action =>
    obtain ⟨rfl, hReply⟩ := hPerforms
    obtain ⟨y, m', rest, hTasks, -, hCall⟩ := reply_call hReply
    rcases hCall with ⟨-, rfl⟩ | ⟨-, rfl⟩
    · rw [DedicatedServer.gives] at hGives
      split at hGives
      · rename_i hSame
        subst hSame
        rw [List.mem_singleton.mp hGives]
        rw [hTasks] at hPolls
        cases hPolls with
        | called hProcessed => exact (h.enqueued (h.processed hProcessed)).2
      · cases hGives
    · cases hGives
  | run t =>
    rw [DedicatedServer.gives] at hGives
    split at hGives
    · rename_i hTasks
      split at hGives
      · rename_i hServes
        rw [List.mem_singleton.mp hGives]
        cases t with
        | context =>
          have hNot := h.loopless _ (by rw [hTasks]; exact List.mem_cons_self)
          cases hNot
        | polling =>
          rw [hTasks] at hPolls
          cases hPolls with
          | relaying _ _ _ hAnnounces _ _ _ hCompleted =>
            exact ⟨hCompleted x (List.mem_of_getElem? hServes.2.1), hAnnounces⟩
      · cases hGives
    all_goals cases hGives
  | accept | complete | transfer | leave | allow | deny | poll => cases hGives

/-! ## A step of the server -/

theorem handle_create (c : Completion) :
    (Endpoint.create .dedicatedServer true).handle c = none := by
  cases c <;> simp [Endpoint.create, Endpoint.handle]

/-- A handler runs on an admitted connection. -/
theorem Regular.completes {answered : Bool} (h : Regular server answered) {x : Nat}
    {c : Completion} {server' : DedicatedServer}
    (hStep : server.step (.complete x c) = some server') :
    (server.objects x).connection.hasConnectable = true := by
  cases DedicatedServer.step_cases hStep with
  | complete hIdle _ hHandle =>
    have hWhole : server.endpoint x = server.objects x := by
      rw [DedicatedServer.endpoint, DedicatedServer.rest_idle hIdle]
      rfl
    cases h.made x with
    | created hNew =>
      rw [← hWhole, hNew, handle_create] at hHandle
      cases hHandle
    | admitted hOwner => rwa [DedicatedServer.endpoint_connection] at hOwner

theorem Regular.unclosed_step {answered : Bool} (h : Regular server answered)
    {server' : DedicatedServer} (hStep : server.step event = some server')
    (hNot : ∀ t x, event ≠ .app t (.disconnect x)) (x : Nat) :
    .close ∉ (server'.objects x).posted := by
  refine DedicatedServer.unclosed_step h.framed.sound hStep ?_ (fun t => hNot t x) (h.unclosed x)
  rintro c rfl
  exact h.completes hStep

/-- `OnMessage` of the server does not call `Disconnect`. -/
theorem performs_disconnect (hPerforms : s.Performs event) (t : Thread) (x : Nat) :
    event ≠ .app t (.disconnect x) := by
  rintro rfl
  obtain ⟨y, m, rest, -, -, ⟨-, hCall⟩ | ⟨-, hCall⟩⟩ := reply_call hPerforms.2 <;> cases hCall

theorem Regular.made_step (h : Regular s.server s.answered) (hPerforms : s.Performs event)
    (hStep : s.server.step event = some server) (x : Nat) : Made (server.endpoint x) := by
  have hUnclosed := h.unclosed_step hStep (performs_disconnect hPerforms) x
  have hPosted : (server.endpoint x).posted = (server.objects x).posted := by
    rw [DedicatedServer.endpoint, Endpoint.performAll_posted,
      (h.framed.step hStep).sound.posts, List.append_nil]
  have hSent : (event = .accept → x ≠ s.server.allocated) →
      (server.endpoint x).sent = (s.server.endpoint x).sent ++ s.server.gives x event := by
    intro hAccept
    rw [DedicatedServer.endpoint_sent, DedicatedServer.endpoint_sent]
    exact DedicatedServer.sent_step hStep hAccept
  cases h.framed.sound.change hStep x with
  | same hSame =>
    rw [hSame]
    exact h.made x
  | create _ _ hCreate => exact .created hCreate
  | @register now id lambdas rest hEvent hTasks hRegister =>
    have hOpening := DedicatedServer.mem_openings hTasks
    have hNone : (server.endpoint x).sent = [] := by
      cases h.made x with
      | created hNew =>
        rw [hSent (by simp [hEvent]), hNew, hEvent]
        rfl
      | admitted hOwner =>
        rw [DedicatedServer.endpoint_connection] at hOwner
        exact absurd hOpening (h.framed.admitted hOwner).2
    have hOperational : Endpoint.Operational (.server now id) (server.endpoint x) := by
      rw [hRegister]
      exact Endpoint.Operational.start lambdas _
    refine .admitted ?_ hOperational ⟨fun hSome => absurd hNone hSome, ?_⟩
    · rw [hRegister]
      rfl
    · rw [hNone]
      simp
  | handler _ _ hMove =>
    cases h.made x with
    | created hNew =>
      rw [hNew, Endpoint.step, handle_create] at hMove
      cases hMove
    | admitted hOwner hOperational hLate =>
      refine .admitted ((Endpoint.step_hasConnectable hMove).trans hOwner)
        (hOperational.step (hLate.lateLambda hOperational.orderly.chain _) hMove)
        (hLate.step hOperational.orderly.stage (by exact trivial) hMove)
  | @outside action hOwned hOutside hMove =>
    have hGiven : ∀ m, action = .send m →
        (s.server.endpoint x).completed = true ∧ m.Announces := by
      rintro m rfl
      have hFresh : event = .accept → x ≠ s.server.allocated := fun _ =>
        Nat.ne_of_lt (h.framed.allocated x hOwned)
      refine h.given hPerforms ?_
      have hAppend := hSent hFresh
      rw [← Option.some.inj hMove] at hAppend
      rw [← List.append_cancel_left hAppend]
      exact List.mem_singleton_self m
    cases h.made x with
    | created hNew =>
      rw [hNew] at hMove hGiven
      cases action with
      | send m =>
        obtain ⟨hNot, -⟩ := hGiven m rfl
        cases hNot
      | disconnect =>
        rw [← hPosted, ← Option.some.inj hMove] at hUnclosed
        exact absurd (List.mem_singleton_self _) hUnclosed
      | transfer op n => cases hMove
      | complete c => exact absurd rfl (hOutside c)
    | admitted hOwner hOperational hLate =>
      refine .admitted ((Endpoint.step_hasConnectable hMove).trans hOwner)
        (hOperational.step (hLate.lateLambda hOperational.orderly.chain _) hMove)
        (hLate.step hOperational.orderly.stage ?_ hMove)
      cases action with
      | send m => exact hGiven m rfl
      | disconnect | transfer | complete => trivial

theorem Regular.connected_step {answered : Bool} (h : Regular server answered)
    {server' : DedicatedServer} (hStep : server.step event = some server') (x : Nat) :
    server'.isConnected x = true := by
  by_contra hNot
  have hCloses := (h.framed.moves hStep x).closes (h.connected x) (by simpa using hNot)
  cases event with
  | complete y c =>
    cases c with
    | lambda =>
      rw [DedicatedServer.closings] at hCloses
      split at hCloses
      · rename_i hHead
        rw [List.mem_singleton.mp hCloses] at hNot
        exact h.unclosed y (List.mem_of_mem_head? hHead)
      · cases hCloses
    | connected | connectFailed | read | readFailed | written | writeFailed => cases hCloses
  | app | accept | transfer | leave | allow | deny | run | poll => cases hCloses

/-- What the polling thread does leaves the context thread and the clients alone. -/
theorem Turn.quiet (h : Turn s event server) : event.isBackground = true ∨
    server.tasks .context = s.server.tasks .context ∧ server.clients = s.server.clients := by
  have hRest : ∀ {tasks}, Rests s.server server tasks →
      server.tasks .context = s.server.tasks .context ∧ server.clients = s.server.clients := by
    intro tasks hRests
    exact ⟨by rw [hRests.tasks]; rfl, hRests.clients⟩
  cases h with
  | background hBackground => exact .inl hBackground
  | pop _ _ hTasks _ hClients => exact .inr ⟨by rw [hTasks]; rfl, hClients⟩
  | poll _ _ hRests | reply _ _ _ _ hRests | relay _ _ _ _ hRests | leave _ _ _ hRests
  | release _ _ hRests | next _ _ _ _ hRests | finish _ _ hRests => exact .inr (hRest hRests)

theorem Regular.clients_step (h : Regular s.server s.answered) (hTurn : Turn s event server)
    (hStep : s.server.step event = some server) :
    server.Loopless ∧ server.clients.Nodup ∧ ∀ q ∈ server.clients,
      ∃ x, q = some x ∧ (server.objects x).connection.hasConnectable = true := by
  have hKept : ∀ q ∈ s.server.clients,
      ∃ x, q = some x ∧ (server.objects x).connection.hasConnectable = true := by
    intro q hMem
    obtain ⟨x, rfl, hOwner⟩ := h.clients q hMem
    exact ⟨x, rfl, (h.framed.keeps hStep hOwner).hasConnectable⟩
  rcases hTurn.quiet with hBackground | ⟨hContext, hClients⟩
  · obtain ⟨-, -, hLoopless, hRegisters⟩ :=
      DedicatedServer.background_step hStep hBackground h.loopless
    refine ⟨hLoopless, ?_⟩
    cases hRegisters with
    | same hClients =>
      rw [hClients]
      exact ⟨h.nodup, hKept⟩
    | @allow now x rest hEvent hTasks hClients =>
      have hOpening := DedicatedServer.mem_openings hTasks
      have hNew : some x ∉ s.server.clients := by
        intro hMem
        exact (h.framed.admitted (h.client hMem)).2 hOpening
      rw [hClients]
      refine ⟨?_, fun q hMem => ?_⟩
      · rw [List.nodup_append]
        refine ⟨h.nodup, List.nodup_singleton _, ?_⟩
        rintro q hMem q' hMem' rfl
        rw [List.mem_singleton.mp hMem'] at hMem
        exact hNew hMem
      · rcases List.mem_append.mp hMem with hOld | hLast
        · exact hKept q hOld
        · refine ⟨x, List.mem_singleton.mp hLast, ?_⟩
          obtain ⟨-, ⟨lambdas, hLambdas⟩, -⟩ := h.framed.sound.opening x hOpening
          subst hEvent
          simp only [DedicatedServer.step, hTasks, Option.some.injEq] at hStep
          rw [← hStep]
          simp only [DedicatedServer.register, DedicatedServer.call, DedicatedServer.setTasks,
            DedicatedServer.setObject, Function.update_self, hLambdas]
          rfl
    | erase _ _ hClients =>
      rw [hClients]
      exact ⟨h.nodup.filter _, fun q hMem => hKept q (List.mem_of_mem_filter hMem)⟩
  · rw [hClients, DedicatedServer.Loopless, hContext]
    exact ⟨h.loopless, h.nodup, hKept⟩

/-- While `MessageAll` iterates, no client comes, and in a careful run none goes. -/
theorem relaying_clients {p : Nat × Message} {m : Message} {ignored : Option Nat}
    {position stop : Nat} {clientsRemoved : Bool} {rest : List Task}
    (hOk : s.Careful (.server event)) (hRegisters : DedicatedServer.Registers s.server server event)
    (hTasks : s.server.tasks .polling = .messageAll m ignored position stop clientsRemoved :: rest)
    (hMem : p ∈ s.processed)
    (hId : p.2.header.id = MessageType.clientMessageOtherClients.id) :
    server.clients = s.server.clients ∨
      position = stop ∧ ∃ f, server.clients = s.server.clients.filter f := by
  cases hRegisters with
  | same hClients => exact .inl hClients
  | allow hEvent =>
    subst hEvent
    exact absurd hId (hOk.validated p hMem)
  | erase hEvent hErase hClients =>
    subst hEvent
    have hEnd : s.iterating = false := hOk.cautious (by rw [erases, hErase])
    simp only [iterating, hTasks, bne_eq_false_iff_eq] at hEnd
    exact .inr ⟨hEnd, _, hClients⟩

theorem Regular.polls_background (h : Regular s.server s.answered)
    (hOk : s.Careful (.server event)) (hBackground : event.isBackground = true)
    (hStep : s.server.step event = some server) :
    Polls server s.answered (server.tasks .polling) := by
  obtain ⟨hPolling, hProcessed, -, hRegisters⟩ :=
    DedicatedServer.background_step hStep hBackground h.loopless
  have hPolls := h.polls
  rw [hPolling]
  cases hTasks : s.server.tasks .polling with
  | nil => exact .idle
  | cons task rest =>
    rw [hTasks] at hPolls
    cases hPolls with
    | ending => exact .ending
    | called hMem => exact .called (hProcessed ▸ hMem)
    | @relaying y m position stop hMem hId hAnswered hAnnounces hPosition hStop hClients
        hCompleted =>
      have hSame := (h.keeps hStep hMem).id
      have hNext : server.clients.length ≤ stop ∧ (position ≠ stop → server.clients.length = stop) ∧
          ∀ x, some x ∈ server.clients → some x ∈ s.server.clients := by
        rcases relaying_clients hOk hRegisters hTasks hMem hId with hClients' | ⟨hEnd, f, hClients'⟩
        · rw [hClients']
          exact ⟨hStop, hClients, fun _ hMem => hMem⟩
        · rw [hClients']
          exact ⟨(List.length_filter_le _ _).trans hStop, fun hMore => absurd hEnd hMore,
            fun _ hMem => List.mem_of_mem_filter hMem⟩
      rw [← hSame]
      refine .relaying (hProcessed ▸ hMem) hId hAnswered (hSame ▸ hAnnounces) hPosition hNext.1
        hNext.2.1 fun x hClient => ?_
      have hBefore := hNext.2.2 x hClient
      exact Endpoint.completed_mono (h.framed.keeps hStep (h.client hBefore)).history
        (hCompleted x hBefore)

theorem Regular.polls_step (h : Regular s.server s.answered) (hOk : s.Careful (.server event))
    (hTurn : Turn s event server) (hStep : s.server.step event = some server) :
    Polls server (s.answeredAfter event) (server.tasks .polling) := by
  have hPolls := h.polls
  have hTasks : ∀ {tasks}, Rests s.server server tasks → server.tasks .polling = tasks := by
    intro tasks hRests
    rw [hRests.tasks, Function.update_self]
  cases hTurn with
  | background hBackground =>
    have hAnswered : s.answeredAfter event = s.answered := by
      cases event with
      | app | poll => cases hBackground
      | accept | complete | transfer | leave | allow | deny | run => rfl
    rw [hAnswered]
    exact h.polls_background hOk hBackground hStep
  | poll _ _ hRests =>
    rw [hTasks hRests]
    exact .idle
  | pop _ _ hNext hProcessed =>
    rw [hNext, Function.update_self]
    refine .called ?_
    rw [hProcessed]
    exact List.mem_append_right _ (List.mem_singleton_self _)
  | reply hEvent hBefore _ _ hRests =>
    rw [hBefore] at hPolls
    rw [hTasks hRests]
    cases hPolls with
    | called hMem => exact .called (hRests.processed ▸ hMem)
  | @relay y m rest hEvent hBefore _ hId hRests =>
    subst hEvent
    obtain ⟨hCompleted, hFits, -⟩ := hOk
    have hRoom : m.body.length + 8 < 2 ^ 32 := hFits m (by simp [running, hBefore])
    rw [hBefore] at hPolls
    rw [hTasks hRests]
    cases hPolls with
    | called hMem =>
      have hSame := (h.keeps hStep hMem).id
      obtain ⟨-, -, hAnnounces⟩ := h.enqueued (h.processed hMem)
      rw [← hSame]
      refine .relaying (hRests.processed ▸ hMem) hId rfl (relayed_announces hAnnounces hRoom)
        (Nat.zero_le _) (by rw [hRests.clients]) (fun _ => by rw [hRests.clients]) ?_
      intro x hClient
      rw [hRests.clients] at hClient
      refine Endpoint.completed_mono (h.framed.keeps hStep (h.client hClient)).history ?_
      refine Endpoint.completed_mono (e := s.server.objects x) ?_
        (hCompleted x (List.mem_filterMap.mpr ⟨_, hClient, rfl⟩))
      rw [DedicatedServer.endpoint, Endpoint.performAll_history]
      exact List.prefix_append _ _
  | leave _ hBefore _ hRests =>
    rw [hBefore] at hPolls
    rw [hTasks hRests]
    cases hPolls with
    | called => exact .ending
  | release _ hBefore hRests =>
    rw [hBefore] at hPolls
    rw [hTasks hRests]
    cases hPolls with
    | ending => exact .idle
  | next hEvent hMore hBefore _ hRests =>
    subst hEvent
    rw [hBefore] at hPolls
    rw [hTasks hRests]
    cases hPolls with
    | relaying hMem hId hAnswered hAnnounces hPosition hStop hClients hCompleted =>
      have hSame := (h.keeps hStep hMem).id
      rw [← hSame] at hAnnounces ⊢
      refine .relaying (hRests.processed ▸ hMem) hId hAnswered hAnnounces (by omega)
        (by rw [hRests.clients]; exact hStop) (fun _ => by rw [hRests.clients]; exact hClients hMore)
        fun x hClient => ?_
      rw [hRests.clients] at hClient
      exact Endpoint.completed_mono (h.framed.keeps hStep (h.client hClient)).history
        (hCompleted x hClient)
  | finish _ hBefore hRests =>
    rw [hBefore] at hPolls
    rw [hTasks hRests]
    cases hPolls with
    | relaying hMem => exact .called (hRests.processed ▸ hMem)

/-- **A careful step keeps the invariant of the server.** -/
theorem Regular.step (h : Regular s.server s.answered) (hOk : s.Careful (.server event))
    (hPerforms : s.Performs event) (hStep : s.server.step event = some server) :
    Regular server (s.answeredAfter event) := by
  have hTurn := h.turn hPerforms hStep
  obtain ⟨hIncoming, hEnqueued⟩ := DedicatedServer.enqueued_step hStep h.incoming
  obtain ⟨hLoopless, hNodup, hClients⟩ := h.clients_step hTurn hStep
  refine ⟨h.framed.step hStep, h.made_step hPerforms hStep, hIncoming, fun p hMem => ?_,
    h.unclosed_step hStep (performs_disconnect hPerforms), h.connected_step hStep, hLoopless,
    hClients, hNodup, h.polls_step hOk hTurn hStep⟩
  rcases hEnqueued p hMem with hOld | hNew
  · have hKeeps := h.framed.keeps hStep (h.enqueued hOld).1
    exact (Endpoint.received_mono hKeeps.history).subset (h.read p hOld)
  · exact hNew

theorem regular_init : Regular {} false := by
  refine ⟨DedicatedServer.framed_init, fun x => .created rfl, ⟨rfl, fun _ h => by cases h⟩, ?_, ?_,
    fun x => rfl, ?_, ?_, List.nodup_nil, .idle⟩
  · exact fun p hMem => by cases hMem
  · exact fun x => List.not_mem_nil
  · exact fun task hMem => by cases hMem
  · exact fun q hMem => by cases hMem

end Relay

end MinecraftNetwork
