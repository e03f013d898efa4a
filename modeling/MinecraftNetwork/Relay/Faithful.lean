import MinecraftNetwork.Relay.Links

/-!
# A faithful relay

`pending` is what the running `OnMessage` of the server has still to give to `Send` on a
connection. What has been given and what is pending are together the messages that the
client is to decode (`Conveyed`), from the moment in which `OnMessage` is called. So an
honest client decodes the right messages (`faithful_of_reach`). A connection that is given up
has no handler pending (`DedicatedServer.Spared`).

The identifier is appended with `operator<<`, which cuts `header.size` to 32 bits. Where the
body of a message is so long that the size wraps around, the header announces less than the
body, and the rest of the body is read as frames that the sender has made up.
-/

namespace MinecraftNetwork

open Runs LittleEndian

namespace Relay

variable {s : Relay} {server : DedicatedServer} {event : DedicatedServer.Event} {x : Nat}

/-- What the running `OnMessage` of the server has still to give to `Send` on a connection. -/
def pending (s : Relay) (x : Nat) : List Message :=
  match s.server.tasks .polling with
  | .callback (.onMessage y m) :: _ => if s.answered then [] else (s.forClient x (y, m)).toList
  | .messageAll m ignored position _ _ :: _ =>
    if some x ∈ s.server.clients.drop position ∧ some x ≠ ignored then [m] else []
  | _ => []

/-- What has been given to `Send` on a connection. -/
def given (s : Relay) (x : Nat) : List Message := (s.server.objects x).sent ++ s.pending x

structure Conveyed (s : Relay) (x : Nat) : Prop where
  ordered : (s.given x).Sublist (s.expected x)
  all : some x ∈ s.server.clients → s.given x = s.expected x

/-! ## A step of the server -/

theorem Regular.sent_step (h : Regular s.server s.answered)
    (hStep : s.server.step event = some server) (x : Nat) :
    (server.objects x).sent = (s.server.objects x).sent ++ s.server.gives x event := by
  by_cases hNew : event = .accept ∧ x = s.server.allocated
  · obtain ⟨rfl, rfl⟩ := hNew
    have hFresh := h.framed.fresh _ (Nat.le_refl s.server.allocated)
    have hBefore : (s.server.objects s.server.allocated).sent = [] := by
      rw [← DedicatedServer.endpoint_sent, hFresh]
      rfl
    cases DedicatedServer.touch_step hStep s.server.allocated with
    | same _ hSame =>
      rw [hSame]
      exact (List.append_nil _).symm
    | accept _ _ hNext =>
      rw [hNext, hBefore]
      rfl
    | given hGives => cases hGives
    | called hEvent | network hEvent | handler hEvent | allow hEvent => cases hEvent
    | resume _ _ hNext =>
      rw [hNext, Endpoint.performAll_sent]
      exact (List.append_nil _).symm
  · exact DedicatedServer.sent_step hStep fun hAccept hSame => hNew ⟨hAccept, hSame⟩

/-- The identifier of a sender does not change. -/
theorem Regular.forClient_step (h : Regular s.server s.answered)
    (hStep : s.server.step event = some server) (answered : Bool) {p : Nat × Message}
    (hMem : p ∈ s.processed) (x : Nat) :
    forClient { s with server := server, answered := answered } x p = s.forClient x p := by
  have hId : (server.objects p.1).connection.id = (s.server.objects p.1).connection.id :=
    (h.keeps hStep hMem).id
  unfold forClient
  rw [hId]

theorem Regular.expected_step (h : Regular s.server s.answered)
    (hStep : s.server.step event = some server) (answered : Bool) {l : List (Nat × Message)}
    (hProcessed : server.incoming.processed = s.processed ++ l) (x : Nat) :
    expected { s with server := server, answered := answered } x = s.expected x ++
      l.filterMap (forClient { s with server := server, answered := answered } x) := by
  have hSame : s.processed.filterMap (forClient { s with server := server, answered := answered } x) =
      s.expected x :=
    List.filterMap_congr fun p hMem => h.forClient_step hStep answered hMem x
  rw [← hSame, ← List.filterMap_append, ← hProcessed]
  rfl

/-- Until it is called, nothing is expected of a client. -/
theorem Regular.expected_opening (h : Regular s.server s.answered)
    (hx : x ∈ s.server.openings)
    (hNone : ∀ p ∈ s.processed, p.2.header.id ≠ MessageType.clientMessageOtherClients.id) :
    s.expected x = [] := by
  rw [expected, List.filterMap_eq_nil_iff]
  intro p hMem
  have hOther : p.1 ≠ x := by
    rintro rfl
    exact (h.framed.admitted (h.enqueued (h.processed hMem)).1).2 hx
  rw [forClient, if_neg hOther, if_neg (hNone p hMem), ite_self]

/-- A step that gives to `Send` what was pending. -/
theorem Conveyed.of (h : Conveyed s x) (hRegular : Regular s.server s.answered)
    (hStep : s.server.step event = some server) {answered : Bool}
    (hProcessed : server.incoming.processed = s.processed)
    (hClients : server.clients = s.server.clients)
    (hPending : s.server.gives x event ++
      pending { s with server := server, answered := answered } x = s.pending x) :
    Conveyed { s with server := server, answered := answered } x := by
  have hExpected := hRegular.expected_step hStep answered (l := [])
    (by rw [hProcessed, List.append_nil]) x
  have hGiven : given { s with server := server, answered := answered } x = s.given x := by
    rw [given, hRegular.sent_step hStep, List.append_assoc, hPending, given]
  rw [List.filterMap_nil, List.append_nil] at hExpected
  refine ⟨?_, fun hMem => ?_⟩
  · rw [hGiven, hExpected]
    exact h.ordered
  · rw [hGiven, hExpected]
    exact h.all (hClients ▸ hMem)

theorem gives_background (hBackground : event.isBackground = true)
    (hLoopless : server.Loopless) (x : Nat) : server.gives x event = [] := by
  cases event with
  | app | poll => cases hBackground
  | accept | complete | transfer | leave | allow | deny => rfl
  | run t =>
    obtain rfl : t = .context := by
      simpa [DedicatedServer.Event.isBackground] using hBackground
    rw [DedicatedServer.gives]
    split
    · rename_i hTasks
      have hNot := hLoopless _ (by rw [hTasks]; exact List.mem_cons_self)
      cases hNot
    all_goals rfl

/-- A step in the background changes nothing of what is pending. -/
theorem Regular.pending_background (h : Regular s.server s.answered)
    (hOk : s.Careful (.server event)) (hBackground : event.isBackground = true)
    (hStep : s.server.step event = some server) (x : Nat) :
    pending { s with server := server, answered := s.answered } x = s.pending x := by
  obtain ⟨hPolling, -, -, hRegisters⟩ :=
    DedicatedServer.background_step hStep hBackground h.loopless
  have hPolls := h.polls
  simp only [pending, hPolling]
  cases hTasks : s.server.tasks .polling with
  | nil => rfl
  | cons task rest =>
    rw [hTasks] at hPolls
    cases hPolls with
    | ending => rfl
    | called hMem =>
      have hSame := h.forClient_step hStep s.answered hMem x
      simp only
      rw [hSame]
    | @relaying y m position stop hMem hId _ _ _ hStop hClients _ =>
      rcases relaying_clients hOk hRegisters hTasks hMem hId with hSame | ⟨hEnd, f, hSame⟩
      · simp only [hSame]
      · subst hEnd
        have hLength : server.clients.length ≤ position := by
          rw [hSame]
          exact (List.length_filter_le _ _).trans hStop
        have hBoth : server.clients.drop position = s.server.clients.drop position := by
          rw [List.drop_eq_nil_of_le hLength, List.drop_eq_nil_of_le hStop]
        simp only [hBoth]

theorem Conveyed.background (h : Conveyed s x) (hRegular : Regular s.server s.answered)
    (hOk : s.Careful (.server event)) (hBackground : event.isBackground = true)
    (hStep : s.server.step event = some server) :
    Conveyed { s with server := server, answered := s.answered } x := by
  obtain ⟨-, hProcessed, -, hRegisters⟩ :=
    DedicatedServer.background_step hStep hBackground hRegular.loopless
  have hExpected := hRegular.expected_step hStep s.answered (l := [])
    (by rw [hProcessed, List.append_nil, processed]) x
  have hGiven : given { s with server := server, answered := s.answered } x = s.given x := by
    rw [given, hRegular.sent_step hStep, gives_background hBackground hRegular.loopless,
      hRegular.pending_background hOk hBackground hStep, List.append_nil, given]
  rw [List.filterMap_nil, List.append_nil] at hExpected
  have hBefore : some x ∈ s.server.clients →
      given { s with server := server, answered := s.answered } x =
        expected { s with server := server, answered := s.answered } x := by
    intro hMem
    rw [hGiven, hExpected]
    exact h.all hMem
  refine ⟨?_, fun hMem => ?_⟩
  · rw [hGiven, hExpected]
    exact h.ordered
  · change some x ∈ server.clients at hMem
    cases hRegisters with
    | same hSame =>
      rw [hSame] at hMem
      exact hBefore hMem
    | erase _ _ hSame =>
      rw [hSame] at hMem
      exact hBefore (List.mem_of_mem_filter hMem)
    | @allow now y rest hEvent hTasks hSame =>
      rw [hSame] at hMem
      rcases List.mem_append.mp hMem with hOld | hNew
      · exact hBefore hOld
      · obtain rfl := Option.some.inj (List.mem_singleton.mp hNew)
        subst hEvent
        have hNone := hRegular.expected_opening (DedicatedServer.mem_openings hTasks) hOk.validated
        have hOrdered := h.ordered
        rw [hNone] at hOrdered hExpected
        rw [hGiven, hExpected]
        exact List.sublist_nil.mp hOrdered

theorem pending_relaying {m : Message} {ignored : Option Nat} {position stop : Nat}
    {clientsRemoved : Bool} {rest : List Task}
    (hTasks : s.server.tasks .polling = .messageAll m ignored position stop clientsRemoved :: rest)
    (x : Nat) : s.pending x =
      if some x ∈ s.server.clients.drop position ∧ some x ≠ ignored then [m] else [] := by
  rw [pending, hTasks]

theorem pending_called {y : Nat} {m : Message} {rest : List Task}
    (hTasks : s.server.tasks .polling = .callback (.onMessage y m) :: rest)
    (hAnswered : s.answered = false) (x : Nat) : s.pending x = (s.forClient x (y, m)).toList := by
  simp [pending, hTasks, hAnswered]

theorem pending_answered {y : Nat} {m : Message} {rest : List Task}
    (hTasks : s.server.tasks .polling = .callback (.onMessage y m) :: rest)
    (hAnswered : s.answered = true) (x : Nat) : s.pending x = [] := by
  simp [pending, hTasks, hAnswered]

theorem forClient_ping {p : Nat × Message}
    (hId : p.2.header.id = MessageType.clientPingServer.id) (x : Nat) :
    s.forClient x p = if p.1 = x then some p.2 else none := if_pos hId

theorem forClient_other {p : Nat × Message}
    (hId : p.2.header.id = MessageType.clientMessageOtherClients.id) (x : Nat) : s.forClient x p =
      if p.1 = x then none else some (relayed (s.server.objects p.1).connection.id p.2) := by
  have hPing : p.2.header.id ≠ MessageType.clientPingServer.id := by
    rw [hId]
    decide
  rw [forClient, if_neg hPing, if_pos hId]

/-- Nothing is pending outside `OnMessage`. -/
theorem pending_nil {tasks : List Task} (hTasks : s.server.tasks .polling = tasks)
    (hNone : tasks = [] ∨ ∃ p rest, tasks = .release p :: rest) (x : Nat) : s.pending x = [] := by
  rw [pending, hTasks]
  rcases hNone with rfl | ⟨p, rest, rfl⟩ <;> rfl

/-- One iteration of `MessageAll` sends to the client at its position. -/
theorem pending_next {clients : List (Option Nat)} {position y : Nat} (hNodup : clients.Nodup)
    (hEntry : clients[position]? = some (some y)) (m : Message) (ignored : Option Nat) :
    (if some x ∈ clients.drop position ∧ some x ≠ ignored then [m] else []) =
      (if clients[position]? = some (some x) ∧ some x ≠ ignored then [m] else []) ++
        if some x ∈ clients.drop (position + 1) ∧ some x ≠ ignored then [m] else [] := by
  obtain ⟨hBound, hGet⟩ := List.getElem?_eq_some_iff.mp hEntry
  have hSplit : clients.drop position = some y :: clients.drop (position + 1) := by
    rw [List.drop_eq_getElem_cons hBound, hGet]
  have hOnce : some y ∉ clients.drop (position + 1) := by
    have hRest := hNodup.sublist (List.drop_sublist position clients)
    rw [hSplit] at hRest
    exact (List.nodup_cons.mp hRest).1
  rw [hSplit, hEntry]
  by_cases hSame : x = y
  · subst hSame
    simp [hOnce]
  · have hOther : some x ≠ some y := fun hBoth => hSame (Option.some.inj hBoth)
    simp [hOther, Ne.symm hSame]

/-- **A careful step keeps what a client is to decode.** -/
theorem Conveyed.step (h : Conveyed s x) (hRegular : Regular s.server s.answered)
    (hOk : s.Careful (.server event)) (hTurn : Turn s event server)
    (hStep : s.server.step event = some server) :
    Conveyed { s with server := server, answered := s.answeredAfter event } x := by
  have hTasks : ∀ {tasks}, Rests s.server server tasks → server.tasks .polling = tasks := by
    intro tasks hRests
    rw [hRests.tasks, Function.update_self]
  have hPolls := hRegular.polls
  cases hTurn with
  | background hBackground =>
    have hAnswered : s.answeredAfter event = s.answered := by
      cases event with
      | app | poll => cases hBackground
      | accept | complete | transfer | leave | allow | deny | run => rfl
    rw [hAnswered]
    exact h.background hRegular hOk hBackground hStep
  | poll hEvent hIdle hRests =>
    subst hEvent
    refine h.of hRegular hStep hRests.processed hRests.clients ?_
    rw [pending_nil hIdle (.inl rfl), pending_nil (hTasks hRests) (.inl rfl)]
    rfl
  | @pop y m hEvent hIdle hNext hProcessed hClients =>
    subst hEvent
    have hExpected := hRegular.expected_step hStep false hProcessed x
    have hPending := pending_called (s := { s with server := server, answered := false })
      (hNext ▸ Function.update_self ..) rfl x
    have hGiven : given { s with server := server, answered := false } x = s.given x ++
        [(y, m)].filterMap (forClient { s with server := server, answered := false } x) := by
      rw [given, hRegular.sent_step hStep, hPending, given, pending_nil hIdle (.inl rfl)]
      cases hFor : forClient { s with server := server, answered := false } x (y, m) <;>
        simp [DedicatedServer.gives, hFor]
    refine ⟨?_, fun hMem => ?_⟩
    · rw [answeredAfter, hGiven, hExpected]
      exact h.ordered.append (List.Sublist.refl _)
    · rw [answeredAfter, hGiven, hExpected, h.all (hClients ▸ hMem)]
  | @reply y m rest hEvent hBefore hAnswered hId hRests =>
    subst hEvent
    refine h.of hRegular hStep hRests.processed hRests.clients ?_
    rw [pending_called hBefore hAnswered, pending_answered (hTasks hRests) rfl,
      forClient_ping hId, DedicatedServer.gives]
    split <;> rfl
  | @relay y m rest hEvent hBefore hAnswered hId hRests =>
    subst hEvent
    have hWhole : s.pending x = if y = x then [] else
        [relayed (s.server.objects y).connection.id m] := by
      rw [pending_called hBefore hAnswered, forClient_other hId]
      split <;> rfl
    have hPending := pending_relaying (s := { s with server := server, answered := true })
      (hTasks hRests) x
    rw [List.drop_zero, hRests.clients] at hPending
    have hExpected := hRegular.expected_step hStep true (l := [])
      (by rw [hRests.processed, List.append_nil, processed]) x
    rw [List.filterMap_nil, List.append_nil] at hExpected
    have hSent : (server.objects x).sent = (s.server.objects x).sent :=
      (hRegular.sent_step hStep x).trans (List.append_nil _)
    refine ⟨?_, fun hMem => ?_⟩
    · rw [answeredAfter, hExpected, given, hSent, hPending]
      refine List.Sublist.trans (List.Sublist.append_left ?_ _) h.ordered
      rw [hWhole]
      by_cases hSame : y = x
      · simp [hSame]
      · rw [if_neg hSame]
        split
        · exact List.Sublist.refl _
        · exact List.nil_sublist _
    · change some x ∈ server.clients at hMem
      rw [hRests.clients] at hMem
      rw [answeredAfter, hExpected, ← h.all hMem, given, given, hSent, hPending, hWhole]
      by_cases hSame : y = x
      · simp [hSame]
      · simp [hSame, Ne.symm hSame, hMem]
  | @leave c rest hEvent hBefore hReply hRests =>
    subst hEvent
    refine h.of hRegular hStep hRests.processed hRests.clients ?_
    rw [hBefore] at hPolls
    cases hPolls with
    | called =>
      rw [pending_nil (hTasks hRests) (.inr ⟨_, _, rfl⟩)]
      rcases reply_return hReply hBefore with hAnswered | hNone
      · exact (pending_answered hBefore hAnswered x).symm
      · cases hAnswered : s.answered with
        | true => exact (pending_answered hBefore hAnswered x).symm
        | false =>
          rw [pending_called hBefore hAnswered, hNone]
          rfl
  | @release p rest hEvent hBefore hRests =>
    subst hEvent
    refine h.of hRegular hStep hRests.processed hRests.clients ?_
    rw [pending_nil hBefore (.inr ⟨_, _, rfl⟩), DedicatedServer.gives, hBefore]
    rw [hBefore] at hPolls
    cases hPolls with
    | ending => exact pending_nil (hTasks hRests) (.inl rfl) x
  | @next m ignored position stop y rest hEvent hMore hBefore hEntry hRests =>
    subst hEvent
    refine h.of hRegular hStep hRests.processed hRests.clients ?_
    rw [pending_relaying hBefore, pending_relaying (hTasks hRests), hRests.clients,
      pending_next hRegular.nodup hEntry, DedicatedServer.gives, hBefore]
    simp [hMore, hRegular.connected x]
  | @finish m ignored position rest hEvent hBefore hRests =>
    subst hEvent
    refine h.of hRegular hStep hRests.processed hRests.clients ?_
    have hGives : s.server.gives x (.run .polling) = [] := by
      rw [DedicatedServer.gives, hBefore]
      exact if_neg fun hAll => hAll.1 rfl
    rw [hGives, pending_relaying hBefore]
    rw [hBefore] at hPolls
    cases hPolls with
    | relaying _ _ hAnswered _ _ hStop =>
      have hAfter := pending_answered
        (s := { s with server := server, answered := s.answered }) (hTasks hRests) hAnswered x
      rw [List.drop_eq_nil_of_le hStop, answeredAfter, hAfter]
      rfl

/-! ## What an honest client does with a message -/

theorem pop_uint64 {m : Message} (h : 8 ≤ m.body.length) :
    ∃ m', m.pop .uint64 = .ok (m', m.body.drop (m.body.length - 8)) := by
  rw [Message.pop_eq, if_pos (show ObjectSize.uint64.val ≤ m.body.length from h)]
  exact ⟨_, rfl⟩

/-- `operator>>` finds a value in a body that is long enough. -/
theorem onMessage_safe {m : Message} (h : 8 ≤ m.body.length) :
    ∃ printed, Client.onMessage m = .ok printed := by
  obtain ⟨m', hPop⟩ := pop_uint64 h
  unfold Client.onMessage
  rw [hPop]
  split
  · exact ⟨_, rfl⟩
  · split <;> exact ⟨_, rfl⟩

/-- The client prints the identifier that the server has appended. -/
theorem onMessage_relayed {m : Message} (id : UInt64)
    (hId : m.header.id = MessageType.clientMessageOtherClients.id) :
    Client.onMessage (relayed id m) = .ok (some (.received id)) := by
  have hPing : (relayed id m).header.id ≠ MessageType.clientPingServer.id := by
    rw [relayed, hId]
    decide
  have hLast : (relayed id m).body.drop ((relayed id m).body.length - 8) = encode64 id := by
    simp [relayed]
  obtain ⟨m', hPop⟩ := pop_uint64 (m := relayed id m) (by simp [relayed])
  rw [hLast] at hPop
  have hOther : (relayed id m).header.id = MessageType.clientMessageOtherClients.id := hId
  rw [Client.onMessage, if_neg hPing, if_pos hOther, hPop]
  simp [Except.map]

/-! ## Runs -/

/-- The invariant of a relay. -/
structure Sound (honest : Nat → Bool) (s : Relay) : Prop where
  regular : Regular s.server s.answered
  conveyed : ∀ x, Conveyed s x
  linked : ∀ x, honest x = true → Linked s x
  spared : s.server.Spared

theorem Sound.step {honest : Nat → Bool} {s' : Relay} {event : Event} (h : Sound honest s)
    (hOk : s.Careful event) (hStep : s.step honest event = some s') : Sound honest s' := by
  have hLinked : ∀ x, honest x = true → Linked s' x := fun x hHonest =>
    (h.linked x hHonest).step h.regular hHonest hOk hStep
  have hClient : ∀ y e, s' = s.setClient y e → Sound honest s' := by
    rintro y e rfl
    exact ⟨h.regular, fun x => ⟨(h.conveyed x).ordered, (h.conveyed x).all⟩, hLinked, h.spared⟩
  cases step_cases hStep with
  | server hPerforms _ hServer =>
    have hTurn := h.regular.turn hPerforms hServer
    exact ⟨h.regular.step hOk hPerforms hServer,
      fun x => (h.conveyed x).step h.regular hOk hTurn hServer, hLinked,
      h.spared.step h.regular.framed hOk.spares hServer⟩
  | pingServer | messageOtherClients | transfer | complete => exact hClient _ _ rfl

theorem sound_init {honest : Nat → Bool} (h : (system honest).init s) : Sound honest s := by
  obtain ⟨opened, rfl⟩ := h
  exact ⟨regular_init, fun x => ⟨List.Sublist.refl _, fun _ => rfl⟩, fun x _ => linked_init opened x,
    DedicatedServer.spared_init⟩

/-- What an honest client decodes has an origin. -/
theorem Sound.origin {honest : Nat → Bool} (h : Sound honest s) (hHonest : honest x = true)
    {m : Message} (hMem : m ∈ s.expected x) : 8 ≤ m.body.length ∧
      (m.header.id = MessageType.clientMessageOtherClients.id → ∃ p ∈ s.processed, p.1 ≠ x ∧
        Client.onMessage m = .ok (some (.received (s.server.objects p.1).connection.id))) := by
  obtain ⟨p, hProcessed, hFor⟩ := List.mem_filterMap.mp hMem
  by_cases hPing : p.2.header.id = MessageType.clientPingServer.id
  · rw [forClient_ping hPing] at hFor
    split at hFor
    · rename_i hOwn
      obtain rfl := Option.some.inj hFor
      have hRead := h.regular.read p (h.regular.processed hProcessed)
      rw [hOwn] at hRead
      have hSends := (h.linked x hHonest).received_up (h.regular.made x) p.2 hRead
      refine ⟨(hSends.ping hPing).ge, fun hOther => ?_⟩
      rw [hPing] at hOther
      cases hOther
    · cases hFor
  · by_cases hId : p.2.header.id = MessageType.clientMessageOtherClients.id
    · rw [forClient_other hId] at hFor
      split at hFor
      · cases hFor
      · rename_i hOther
        obtain rfl := Option.some.inj hFor
        refine ⟨by simp [relayed], fun _ => ⟨p, hProcessed, hOther, ?_⟩⟩
        exact onMessage_relayed _ hId
    · rw [forClient, if_neg hPing, if_neg hId] at hFor
      cases hFor

/-- **In a careful run an honest client decodes the messages of the other clients and its own
pings, and nothing else**, and the server runs no handler of a connection that is destroyed. -/
theorem faithful_of_reach {honest : Nat → Bool} (h : Reach (system honest) Careful s)
    (hHonest : honest x = true) :
    Faithful s x ∧ ∀ y, (s.server.objects y).HasPending → y ∈ s.server.owners := by
  have hSound : Sound honest s := h.invariant (fun s => sound_init)
    fun s event s' hSound hOk hStep => hSound.step hOk hStep
  have hLinked := hSound.linked x hHonest
  have hSent := hLinked.received_down (hSound.regular.made x)
  have hGiven : (s.clients x).received <+: s.given x := hSent.trans (List.prefix_append _ _)
  have hOrdered := hGiven.sublist.trans (hSound.conveyed x).ordered
  refine ⟨⟨hOrdered, fun hMem => ?_, fun hMem hSettled => ?_, fun m hMem => ?_, fun m hMem => ?_⟩,
    fun y hPending => hSound.spared.owned hSound.regular.framed.sound hPending⟩
  · rw [← (hSound.conveyed x).all hMem]
    exact hGiven
  · rw [← (hSound.conveyed x).all hMem, given, pending_nil (hSettled.idle .polling) (.inl rfl),
      List.append_nil]
    exact hLinked.received_settled hSound.regular hSettled
  · exact onMessage_safe (hSound.origin hHonest (hOrdered.subset hMem)).1
  · exact (hSound.origin hHonest (hOrdered.subset hMem)).2

/-- Everybody but the first client is honest. -/
def innocent (x : Nat) : Bool := x != 0

/-- Two clients are admitted, and shake hands. -/
def admission : List Event :=
  let answer := Endpoint.respond 0
  let reply := encode64 (Endpoint.respond answer)
  let first x : List DedicatedServer.Event :=
    [.transfer x .validation1 8, .complete x (.written .validation1)]
  let rest x : List DedicatedServer.Event :=
    [.complete x (.read .validation2 (encode64 answer)), .leave .context, .run .context,
      .transfer x .validation3 8, .complete x (.written .validation3),
      .transfer x .validation4 8, .complete x (.written .validation4)]
  let accept : List DedicatedServer.Event := [.accept, .allow 0, .leave .context]
  (accept ++ accept ++ first 0 ++ rest 0 ++ first 1).map .server ++
    [.complete 1 .connected, .complete 1 (.read .validation1 (encode64 0)),
      .transfer 1 .validation2 8, .complete 1 (.written .validation2)] ++
    (rest 1).map .server ++
    [.complete 1 (.read .validation3 reply), .complete 1 (.read .validation4 (encode64 2))]

/-- A message that is to be relayed. -/
def shout : Message where
  header := { id := MessageType.clientMessageOtherClients.id, size := 1 }
  body := [7]

/-- The first client has a message relayed to the second. -/
def relaying : List Event :=
  let relay : List DedicatedServer.Event :=
    [.complete 0 (.read .header shout.header.bytes), .complete 0 (.read .body shout.body),
      .poll (.call 5 false), .poll .test, .poll .pop,
      .app .polling (.messageAll (relayed 1 shout) (some 0)), .run .polling, .run .polling,
      .run .polling, .leave .polling, .run .polling, .complete 1 .lambda,
      .transfer 1 .header 8, .complete 1 (.written .header), .transfer 1 .body 9,
      .complete 1 (.written .body)]
  relay.map .server ++ [.complete 1 (.read .header (relayed 1 shout).header.bytes),
    .complete 1 (.read .body (relayed 1 shout).body)]

theorem faithful_relaying : ∃ s, Reach (system innocent) Careful s ∧
    (s.clients 1).received = [relayed 1 shout] ∧ Faithful s 1 := by
  obtain ⟨s, hReach, hEnd⟩ := Reach.exists_of_checked (M := system innocent) Careful
    ⟨fun _ => true, rfl⟩ (admission ++ relaying)
    (fun s => decide ((s.clients 1).received = [relayed 1 shout])) (by decide)
  exact ⟨s, hReach, of_decide_eq_true hEnd, (faithful_of_reach hReach rfl).1⟩

end Relay

end MinecraftNetwork
