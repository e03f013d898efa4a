import MinecraftNetwork.DedicatedServer.Incoming

/-!
# One queue, many connections

All connections of a server write into one `m_IncomingMessages`, and their callbacks come on
one thread in whatever order the handlers run. What the application is told of one
connection is nevertheless a matter of that connection alone: its verdict and its messages
are those that the bytes read from its socket ask for, in their order
(`demultiplexed_of_reach`), whatever the other connections and the application do.

Every step records what it tells (`records_step`): the log grows by notices of a connection
exactly as the connection's own history of effects grows, and the queue grows and shrinks by
the messages in the log. A message is handed over after the connection was validated, and
a connection that was found invalid hands over nothing (`validated_of_reach`).
-/

namespace MinecraftNetwork

open Runs LittleEndian

/-- What an effect of a connection tells the application. -/
def Effect.notice? (x : Nat) : Effect → Option Notice
  | .onValidate _ => some (.call (.onValidate x))
  | .onInvalidate => some (.call (.onInvalidate x))
  | .emplaceBack _ m => some (.enqueued x m)
  | .asyncConnect | .asyncRead _ _ | .asyncWrite _ _ | .disconnect | .postClose | .emptyDeque =>
    none

namespace Notice

/-- A verdict on a connection, or one of its messages. -/
def tellsOf (x : Nat) : Notice → Bool
  | .call (.onValidate y) | .call (.onInvalidate y) | .enqueued y _ => y == x
  | .call (.allowConnection _) | .call (.onConnect _) | .call (.onDisconnect _)
  | .call (.onMessage _ _) => false

/-- What is put into the queue. -/
def enqueued? : Notice → Option (Nat × Message)
  | .enqueued x m => some (x, m)
  | .call _ => none

/-- What is handed to `OnMessage`. -/
def handed? : Notice → Option (Nat × Message)
  | .call (.onMessage x m) => some (x, m)
  | .call (.allowConnection _) | .call (.onConnect _) | .call (.onDisconnect _)
  | .call (.onValidate _) | .call (.onInvalidate _) | .enqueued _ _ => none

end Notice

namespace DedicatedServer

/-- The verdict on a connection and its messages, in order. -/
def told (log : List Notice) (x : Nat) : List Notice := log.filter (Notice.tellsOf x)

/-- What a connection has told by its effects. -/
def telling (e : Endpoint) (x : Nat) : List Notice := e.history.filterMap (Effect.notice? x)

/-- The messages of one connection. -/
def messagesOf (x : Nat) (queue : List (Nat × Message)) : List Message :=
  queue.filterMap fun p => if p.1 = x then some p.2 else none

variable {s s' : DedicatedServer} {x : Nat}

theorem told_append (log new : List Notice) (x : Nat) :
    told (log ++ new) x = told log x ++ told new x := List.filter_append ..

/-! ## Every step records what it tells -/

/-- The log, the connections and the queue grow by the same notices. -/
def Records (s s' : DedicatedServer) : Prop :=
  ∃ new, s'.log = s.log ++ new ∧
    (∀ x, telling (s'.objects x) x = telling (s.objects x) x ++ told new x) ∧
    s'.incoming.enqueued = s.incoming.enqueued ++ new.filterMap Notice.enqueued? ∧
    s'.incoming.processed = s.incoming.processed ++ new.filterMap Notice.handed? ∧
    (s.incoming.Sound → s'.incoming.Sound)

theorem Records.trans {s₁ : DedicatedServer} (h : Records s s₁) (h' : Records s₁ s') :
    Records s s' := by
  obtain ⟨new, hLog, hTelling, hEnqueued, hProcessed, hSound⟩ := h
  obtain ⟨new', hLog', hTelling', hEnqueued', hProcessed', hSound'⟩ := h'
  refine ⟨new ++ new', ?_, fun x => ?_, ?_, ?_, fun hs => hSound' (hSound hs)⟩
  · rw [hLog', hLog, List.append_assoc]
  · rw [hTelling', hTelling, told_append, List.append_assoc]
  · rw [hEnqueued', hEnqueued, List.filterMap_append, List.append_assoc]
  · rw [hProcessed', hProcessed, List.filterMap_append, List.append_assoc]

/-- A step that tells nothing of a verdict or a message. -/
theorem records_silent (new : List Notice) (hLog : s'.log = s.log ++ new)
    (hNew : ∀ n ∈ new, (∀ x, n.tellsOf x = false) ∧ n.handed? = none ∧ n.enqueued? = none)
    (hTelling : ∀ x, telling (s'.objects x) x = telling (s.objects x) x)
    (hIncoming : s'.incoming = s.incoming) : Records s s' := by
  have hTold : ∀ x, told new x = [] := by
    intro x
    rw [told, List.filter_eq_nil_iff]
    intro n hn
    rw [(hNew n hn).1 x]
    exact Bool.false_ne_true
  have hEnqueued : new.filterMap Notice.enqueued? = [] :=
    List.filterMap_eq_nil_iff.mpr fun n hn => (hNew n hn).2.2
  have hHanded : new.filterMap Notice.handed? = [] :=
    List.filterMap_eq_nil_iff.mpr fun n hn => (hNew n hn).2.1
  refine ⟨new, hLog, fun x => ?_, ?_, ?_, ?_⟩
  · rw [hTelling, hTold, List.append_nil]
  · rw [hIncoming, hEnqueued, List.append_nil]
  · rw [hIncoming, hHanded, List.append_nil]
  · rw [hIncoming]
    exact id

theorem records_quiet (hLog : s'.log = s.log) (hObjects : s'.objects = s.objects)
    (hIncoming : s'.incoming = s.incoming) : Records s s' :=
  records_silent [] (by rw [hLog, List.append_nil]) (fun _ hn => by cases hn)
    (fun x => by rw [hObjects]) hIncoming

theorem telling_perform (e : Endpoint) (effect : Effect) (x : Nat) :
    telling (e.perform effect) x = telling e x ++ (effect.notice? x).toList := by
  have hHistory : (e.perform effect).history = e.history ++ [effect] := by
    have hOne := e.performAll_history [effect]
    exact hOne
  rw [telling, hHistory, List.filterMap_append, telling]
  cases hNotice : effect.notice? x <;> simp [hNotice]

/-- An object with the same tellings is stored. -/
theorem records_setObject {e : Endpoint} (h : telling e x = telling (s.objects x) x) :
    Records s (s.setObject x e) := by
  refine records_silent [] (List.append_nil _).symm (fun _ hn => by cases hn) ?_ rfl
  intro y
  by_cases hSame : y = x
  · subst hSame
    simpa [setObject] using h
  · simp [setObject, hSame]

/-- A verdict is given, or a message is read: the application is told. -/
theorem records_told (effect : Effect) {n : Notice} (hNotice : effect.notice? x = some n)
    (hTells : ∀ y, n.tellsOf y = (x == y)) (hHanded : n.handed? = none)
    (hLog : s'.log = s.log ++ [n])
    (hObjects : s'.objects = (s.setObject x ((s.objects x).perform effect)).objects)
    (hEnqueued : s'.incoming.enqueued = s.incoming.enqueued ++ n.enqueued?.toList)
    (hProcessed : s'.incoming.processed = s.incoming.processed)
    (hSound : s.incoming.Sound → s'.incoming.Sound) : Records s s' := by
  refine ⟨[n], hLog, fun y => ?_, ?_, ?_, hSound⟩
  · rw [hObjects]
    by_cases hSame : y = x
    · subst hSame
      simp [setObject, telling_perform, hNotice, told, hTells]
    · simp [setObject, hSame, told, hTells, Ne.symm hSame]
  · rw [hEnqueued]
    cases hQueued : n.enqueued? <;> simp [hQueued]
  · rw [hProcessed]
    simp [hHanded]

/-- A member function of a connection, up to its next callback. -/
theorem records_advance (s : DedicatedServer) (x : Nat) (effects : List Effect) :
    Records s (s.advance x effects) := by
  induction effects generalizing s with
  | nil => exact records_quiet rfl rfl rfl
  | cons effect effects ih =>
    have hSilent : effect.notice? x = none →
        Records s (s.setObject x ((s.objects x).perform effect)) := by
      intro hNone
      apply records_setObject
      rw [telling_perform, hNone, Option.toList_none, List.append_nil]
    cases effect with
    | onValidate number =>
      exact records_told (.onValidate number) rfl (fun y => rfl) rfl rfl rfl
        (List.append_nil _).symm rfl id
    | onInvalidate =>
      exact records_told .onInvalidate rfl (fun y => rfl) rfl rfl rfl (List.append_nil _).symm rfl
        id
    | emplaceBack tagged m =>
      refine Records.trans ?_ (ih ((s.setObject x ((s.objects x).perform _)).enqueue x m))
      exact records_told (.emplaceBack tagged m) rfl (fun y => rfl) rfl rfl rfl rfl rfl
        fun hs => hs.emplaceBack (x, m)
    | disconnect =>
      refine (hSilent rfl).trans ?_
      refine records_silent [.call (.onDisconnect (some x))] rfl ?_ (fun y => rfl) rfl
      simp [Notice.tellsOf, Notice.handed?, Notice.enqueued?]
    | asyncConnect | asyncRead | asyncWrite | postClose | emptyDeque =>
      exact (hSilent rfl).trans (ih _)

/-- Disconnections tell nothing of a verdict or a message. -/
theorem Parts.records (h : Parts s s')
    (hTelling : ∀ x, telling (s'.objects x) x = telling (s.objects x) x)
    (hIncoming : s'.incoming = s.incoming) : Records s s' := by
  obtain ⟨new, hLog, hNew⟩ := h.log
  refine records_silent new hLog ?_ hTelling hIncoming
  intro n hn
  obtain ⟨p, rfl⟩ := hNew n hn
  exact ⟨fun _ => rfl, rfl, rfl⟩

/-- The calls of the application and the network tell nothing. -/
theorem telling_outside {e e' : Endpoint} {event : Endpoint.Event}
    (hOutside : ∀ c, event ≠ .complete c) (h : e.step event = some e') (x : Nat) :
    telling e' x = telling e x := by
  rw [telling, (Endpoint.outside_frame hOutside h).history, telling]

/-- No connection gives a verdict or a message in a step without a handler. -/
theorem Steps.telling {event : Event} (h : Steps s s' event)
    (hHandler : ∀ y c, event ≠ .complete y c)
    (hResume : ∀ y effects rest, s.tasks .context = .resume y effects :: rest →
      event ≠ .run .context)
    (hAccept : event ≠ .accept) (hAllow : ∀ now, event ≠ .allow now) (x : Nat) :
    telling (s'.objects x) x = telling (s.objects x) x := by
  cases h with
  | idle hObjects => rw [hObjects]
  | @outside y e action _ hOutside hAction hObjects =>
    rw [hObjects]
    by_cases hSame : x = y
    · subst hSame
      rw [Function.update_self]
      exact telling_outside hOutside hAction x
    · rw [Function.update_of_ne hSame]
  | handler hEvent => exact absurd hEvent (hHandler _ _)
  | resume hEvent hTasks => exact absurd hEvent (hResume _ _ _ hTasks)
  | accept hEvent => exact absurd hEvent hAccept
  | allow hEvent => exact absurd hEvent (hAllow _)
  | deny _ _ hNext => rw [hNext, setTasks]

/-- `ConnectToClient` tells nothing. -/
theorem telling_register (e : Endpoint) (now number : UInt64) (x : Nat) :
    telling (e.run (e.connection.connectToClient now number)) x = telling e x := by
  have hNone : (e.connection.connectToClient now number).2.filterMap (Effect.notice? x) = [] := by
    unfold Connection.connectToClient
    split
    · split
      · simp only [Connection.writeValidation1, Connection.writeValidation]
        split <;> rfl
      · rfl
    · rfl
  rw [Endpoint.run, telling, Endpoint.performAll_history, List.filterMap_append, hNone,
    List.append_nil, telling]

/-- **A step of the server records what it tells.** -/
theorem records_step {event : Event} (hFramed : Framed s) (h : s.step event = some s') :
    Records s s' := by
  have hSteps := steps_of_step h
  cases step_cases h with
  | accept =>
    refine records_silent [.call (.allowConnection s.allocated)] rfl ?_ ?_ rfl
    · simp [Notice.tellsOf, Notice.handed?, Notice.enqueued?]
    · intro x
      by_cases hSame : x = s.allocated
      · -- nobody has used the object that is made
        subst hSame
        have hFresh := hFramed.fresh s.allocated (Nat.le_refl _)
        have hNothing : (s.objects s.allocated).history = [] := by
          have hHistory : ((s.objects s.allocated).performAll (s.rest s.allocated)).history = [] :=
            congrArg Endpoint.history hFresh
          rw [Endpoint.performAll_history] at hHistory
          exact (List.append_eq_nil_iff.mp hHistory).1
        simp [telling, call, setTasks, setObject, hNothing, Endpoint.create]
      · simp [call, setTasks, setObject, hSame]
  | @complete x c e effects _ _ hHandle =>
    obtain ⟨-, -, hHistory⟩ := Endpoint.handle_keeps hHandle
    have hKept : telling e x = telling (s.objects x) x := by
      rw [telling, hHistory, telling]
    exact (records_setObject hKept).trans (records_advance _ x effects)
  | transfer =>
    exact records_silent [] (List.append_nil _).symm (fun _ hn => by cases hn)
      (hSteps.telling (by simp) (by simp) (by simp) (by simp)) rfl
  | app _ hAct =>
    refine (parts_act hAct).records (hSteps.telling (by simp) (by simp) (by simp) (by simp)) ?_
    cases act_cases hAct <;> rfl
  | leave | deny => exact records_quiet rfl rfl rfl
  | @allow now x rest hTasks =>
    refine records_silent [.call (.onConnect x)] rfl ?_ ?_ rfl
    · simp [Notice.tellsOf, Notice.handed?, Notice.enqueued?]
    · intro y
      by_cases hSame : y = x
      · subst hSame
        simpa [register, call, setTasks, setObject] using telling_register _ now s.nextClientID y
      · simp [register, call, setTasks, setObject, hSame]
  | @resume x effects rest hTasks =>
    have hPop : Records s (s.setTasks .context rest) := records_quiet rfl rfl rfl
    exact hPop.trans (records_advance _ x effects)
  | @iterate t m ignored position stop clientsRemoved rest _ hTasks hIterate =>
    have hNot : ∀ y effects rest, s.tasks .context = .resume y effects :: rest →
        Event.run t ≠ .run .context := by
      rintro y effects rest' hResume hRun
      cases hRun
      rw [hTasks] at hResume
      cases hResume
    refine (parts_iterate hIterate).records (hSteps.telling (by simp) hNot (by simp) (by simp)) ?_
    cases iterate_cases hIterate with
    | finish | next => split <;> rfl
    | remove => rfl
  | erase | reset | release => exact records_quiet rfl rfl rfl
  | @pop x m queue q _ hQueue hPop =>
    refine ⟨[.call (.onMessage x m)], rfl, fun y => ?_, ?_, ?_, ?_⟩
    · simp [call, setTasks, told, Notice.tellsOf]
    · cases Polling.step_cases hPop
      simp [call, setTasks, Notice.enqueued?]
    · obtain ⟨hNot, -⟩ | ⟨-, hProcessed⟩ := Polling.step_processed hPop
      · exact absurd rfl hNot
      · exact hProcessed (x, m) queue hQueue
    · exact fun hs => (hs.step hPop).1
  | @poll event q _ hNot hPoll =>
    refine ⟨[], (List.append_nil _).symm, fun y => (List.append_nil _).symm, ?_, ?_, ?_⟩
    · cases Polling.step_cases hPoll <;> exact (List.append_nil _).symm
    · obtain ⟨-, hProcessed⟩ | ⟨hPop, -⟩ := Polling.step_processed hPoll
      · rw [hProcessed]
        exact (List.append_nil _).symm
      · exact absurd hPop hNot
    · exact fun hs => (hs.step hPoll).1

/-! ## In every run -/

/-- The log of a run is the record of what its connections and its queue have done. -/
structure Recorded (s : DedicatedServer) : Prop where
  framed : Framed s
  told : ∀ x, told s.log x = telling (s.objects x) x
  enqueued : s.incoming.enqueued = s.log.filterMap Notice.enqueued?
  processed : s.incoming.processed = s.log.filterMap Notice.handed?
  queue : s.incoming.Sound

theorem recorded_init : Recorded {} :=
  ⟨framed_init, fun _ => rfl, rfl, rfl, ⟨rfl, fun _ hPoll => by cases hPoll⟩⟩

theorem Recorded.step {event : Event} (h : Recorded s) (hStep : s.step event = some s') :
    Recorded s' := by
  obtain ⟨new, hLog, hTelling, hEnqueued, hProcessed, hSound⟩ := records_step h.framed hStep
  refine ⟨h.framed.step hStep, fun x => ?_, ?_, ?_, hSound h.queue⟩
  · rw [hLog, told_append, h.told, hTelling]
  · rw [hEnqueued, h.enqueued, hLog, List.filterMap_append]
  · rw [hProcessed, h.processed, hLog, List.filterMap_append]

theorem recorded_of_reach {ok : DedicatedServer → Event → Prop} (h : Reach system ok s) :
    Recorded s := by
  refine h.invariant (I := Recorded) ?_ fun _ _ _ hs _ hStep => hs.step hStep
  rintro _ rfl
  exact recorded_init

/-- A connection tells its reports and nothing else. -/
theorem telling_reports {start : Endpoint.Start} {e : Endpoint} (h : Endpoint.InStage start e)
    (x : Nat) : telling e x = (start.reports e.consumed).filterMap (Effect.notice? x) := by
  obtain ⟨k, -, hStage⟩ := h
  have hReports : e.reports = start.reports e.consumed := by
    rw [← Endpoint.dialogue_reports]
    exact hStage.reports_eq
  rw [← hReports, Endpoint.reports, List.filterMap_filter, telling]
  congr 1
  funext effect
  cases effect <;> rfl

theorem telling_endpoint (s : DedicatedServer) (x : Nat) : telling (s.endpoint x) x =
    telling (s.objects x) x ++ (s.rest x).filterMap (Effect.notice? x) := by
  rw [telling, endpoint, Endpoint.performAll_history, List.filterMap_append, telling]

/-- The stage of a connection of the server. -/
theorem Alive.inStage {e : Endpoint} (h : Alive e) :
    ∃ start : Endpoint.Start, start.owner = .dedicatedServer ∧ Endpoint.InStage start e := by
  cases h with
  | created hStage => exact ⟨_, rfl, hStage⟩
  | admitted hStage => exact ⟨_, rfl, hStage⟩

/-- The messages of a connection that `OnMessage` was called with. -/
def handed (log : List Notice) (x : Nat) : List Message :=
  messagesOf x (log.filterMap Notice.handed?)

/-- The messages among what was told of a connection. -/
theorem messagesOf_enqueued (log : List Notice) (x : Nat) :
    messagesOf x (log.filterMap Notice.enqueued?) =
      messagesOf x ((told log x).filterMap Notice.enqueued?) := by
  simp only [messagesOf, told, List.filterMap_filterMap, List.filterMap_filter]
  congr 1
  funext n
  cases n with
  | call c => cases c <;> simp [Notice.enqueued?]
  | enqueued y m =>
    by_cases hSame : y = x <;> simp [Notice.enqueued?, Notice.tellsOf, hSame]

/-- **Every connection is served as if it were alone**: the verdict and the messages that the
application has been told of a connection, with those that the member function in progress
is still to tell it, are what the bytes read from its socket ask for, in order; and the
calls of `OnMessage` for it are for the first of these messages, in order. -/
theorem demultiplexed_of_reach {ok : DedicatedServer → Event → Prop} (h : Reach system ok s)
    (x : Nat) : (∃ start : Endpoint.Start, start.owner = .dedicatedServer ∧
      Endpoint.InStage start (s.endpoint x) ∧
      told s.log x ++ (s.rest x).filterMap (Effect.notice? x) =
        (start.reports (s.endpoint x).consumed).filterMap (Effect.notice? x)) ∧
    handed s.log x <+: messagesOf x ((told s.log x).filterMap Notice.enqueued?) := by
  have hRecorded := recorded_of_reach h
  refine ⟨?_, ?_⟩
  · obtain ⟨start, hOwner, hStage⟩ := (hRecorded.framed.sound.alive x).inStage
    refine ⟨start, hOwner, hStage, ?_⟩
    rw [← telling_reports hStage, telling_endpoint, hRecorded.told]
  · rw [← messagesOf_enqueued, handed, ← hRecorded.enqueued, ← hRecorded.processed,
      ← hRecorded.queue.queue]
    exact (List.prefix_append _ _).filterMap _

/-- A message with no body. -/
def bare (n : UInt32) : Message where
  header := { id := n, size := 0 }
  body := []

/-- Two connections are accepted, shake hands in the opposite order, and send one message
each; both messages are handed over. -/
def twoClients : List Event :=
  let accept : List Event := [.accept, .allow 0, .leave .context]
  let greet x : List Event :=
    [.transfer x .validation1 8, .complete x (.written .validation1),
      .complete x (.read .validation2 (encode64 (Endpoint.respond 0))), .leave .context,
      .run .context, .transfer x .validation3 8, .complete x (.written .validation3),
      .transfer x .validation4 8, .complete x (.written .validation4)]
  accept ++ accept ++ greet 1 ++ greet 0 ++
    [.complete 0 (.read .header (bare 3).header.bytes),
      .complete 1 (.read .header (bare 4).header.bytes), .poll (.call 2 false), .poll .test,
      .poll .pop, .leave .polling, .run .polling, .poll .test, .poll .pop]

/-- The notices of this run. -/
def twoClientsLog : List Notice :=
  [.call (.allowConnection 0), .call (.onConnect 0), .call (.allowConnection 1),
    .call (.onConnect 1), .call (.onValidate 1), .call (.onValidate 0), .enqueued 0 (bare 3),
    .enqueued 1 (bare 4), .call (.onMessage 0 (bare 3)), .call (.onMessage 1 (bare 4))]

theorem exists_twoClients : ∃ s, Reach system Free s ∧ s.log = twoClientsLog := by
  obtain ⟨s, hReach, hLog⟩ := Reach.exists_of_free (M := system) rfl twoClients
    (fun s => decide (s.log = twoClientsLog)) (by decide)
  exact ⟨s, hReach, of_decide_eq_true hLog⟩

theorem demultiplexed_twoClients : ∃ s, Reach system Free s ∧ handed s.log 1 = [bare 4] ∧
    (∃ start : Endpoint.Start, start.owner = .dedicatedServer ∧
      Endpoint.InStage start (s.endpoint 1) ∧
      told s.log 1 ++ (s.rest 1).filterMap (Effect.notice? 1) =
        (start.reports (s.endpoint 1).consumed).filterMap (Effect.notice? 1)) := by
  obtain ⟨s, hReach, hLog⟩ := exists_twoClients
  refine ⟨s, hReach, ?_, (demultiplexed_of_reach hReach 1).1⟩
  rw [hLog]
  decide

/-! ## Messages come from validated connections -/

/-- Who asks for a message has been found valid, and asks for nothing but messages. -/
theorem reports_of_message {start : Endpoint.Start} {b : List UInt8} {tagged : Bool} {m : Message}
    (h : .emplaceBack tagged m ∈ start.reports b) :
    (∃ id rest, start.reports b = .onValidate id :: rest) ∧ .onInvalidate ∉ start.reports b := by
  have hNot : ∀ (id : UInt64) (tag : Bool) (ms : List Message),
      .onInvalidate ∉ Effect.onValidate id :: ms.map (Effect.emplaceBack tag) := by
    intro id tag ms
    simp
  cases start with
  | created => cases h
  | server now id =>
    simp only [Endpoint.Start.reports] at h ⊢
    split at h
    · cases h
    · split at h
      · simp at h
      · rename_i hLong hAccepted
        rw [if_neg hLong, if_neg hAccepted]
        exact ⟨⟨_, _, rfl⟩, hNot _ _ _⟩
  | client opened =>
    simp only [Endpoint.Start.reports] at h ⊢
    split at h
    · cases h
    · split at h
      · simp at h
      · split at h
        · cases h
        · rename_i hLong hAccepted hNamed
          rw [if_neg hLong, if_neg hAccepted, if_neg hNamed]
          exact ⟨⟨_, _, rfl⟩, hNot _ _ _⟩

/-- A connection that has a message in the log was validated before, and not found invalid. -/
theorem validated_of_enqueued (h : Recorded s) {m : Message} (hMem : .enqueued x m ∈ s.log) :
    .call (.onValidate x) ∈ s.log ∧ .call (.onInvalidate x) ∉ s.log := by
  obtain ⟨start, -, hStage⟩ := (h.framed.sound.alive x).inStage
  have hPrefix : told s.log x <+: (start.reports (s.endpoint x).consumed).filterMap
      (Effect.notice? x) := by
    rw [← telling_reports hStage, telling_endpoint, h.told]
    exact List.prefix_append _ _
  have hTold : .enqueued x m ∈ told s.log x := List.mem_filter.mpr ⟨hMem, by simp [Notice.tellsOf]⟩
  obtain ⟨effect, hEffect, hNotice⟩ := List.mem_filterMap.mp (hPrefix.subset hTold)
  obtain ⟨tagged, rfl⟩ : ∃ tagged, effect = .emplaceBack tagged m := by
    cases effect <;> simp_all [Effect.notice?]
  obtain ⟨⟨id, rest, hReports⟩, hNever⟩ := reports_of_message hEffect
  refine ⟨?_, fun hInvalid => hNever ?_⟩
  · -- what was told is not nothing, and begins with the verdict
    rw [hReports, List.filterMap_cons_some (by rfl)] at hPrefix
    cases hList : told s.log x with
    | nil =>
      rw [hList] at hTold
      cases hTold
    | cons first more =>
      rw [hList] at hPrefix
      have hFirst := (List.cons_prefix_cons.mp hPrefix).1
      have hHead : first ∈ told s.log x := by
        rw [hList]
        exact List.mem_cons_self
      rw [hFirst] at hHead
      exact List.mem_of_mem_filter hHead
  · have hTold' : .call (.onInvalidate x) ∈ told s.log x :=
      List.mem_filter.mpr ⟨hInvalid, by simp [Notice.tellsOf]⟩
    obtain ⟨effect, hEffect', hNotice'⟩ := List.mem_filterMap.mp (hPrefix.subset hTold')
    have hSame : effect = .onInvalidate := by
      cases effect <;> simp_all [Effect.notice?]
    exact hSame ▸ hEffect'

/-- Only `PopFront` in `PollMessages` hands a message over. -/
theorem processed_advance (s : DedicatedServer) (x : Nat) (effects : List Effect) :
    (s.advance x effects).incoming.processed = s.incoming.processed := by
  induction effects generalizing s with
  | nil => rfl
  | cons effect effects ih =>
    cases effect with
    | onValidate | onInvalidate | disconnect => rfl
    | emplaceBack tagged m => exact ih ((s.setObject x ((s.objects x).perform _)).enqueue x m)
    | asyncConnect | asyncRead | asyncWrite | postClose | emptyDeque => exact ih _

theorem processed_step {event : Event} (h : s.step event = some s') (hNot : event ≠ .poll .pop) :
    s'.incoming.processed = s.incoming.processed := by
  cases step_cases h with
  | complete => exact processed_advance _ _ _
  | resume => exact processed_advance _ _ _
  | app _ hAct => cases act_cases hAct <;> rfl
  | iterate _ hIterate =>
    cases iterate_cases hIterate with
    | finish | next => split <;> rfl
    | remove => rfl
  | pop => exact absurd rfl hNot
  | @poll _ _ _ hNotPop hPoll =>
    obtain ⟨-, hProcessed⟩ | ⟨hPop, -⟩ := Polling.step_processed hPoll
    · exact hProcessed
    · exact absurd hPop hNotPop
  | accept | transfer | leave | allow | deny | erase | reset | release => rfl

/-- What stands in a list that has grown, and is not new, stands where it stood. -/
theorem split_of_append {α : Type} {l new before after : List α} {a : α}
    (h : l ++ new = before ++ a :: after) (hNot : a ∉ new) :
    ∃ rest, l = before ++ a :: rest := by
  rcases List.append_eq_append_iff.mp h with ⟨c, rfl, hNew⟩ | ⟨c, rfl, hRest⟩
  · exact absurd (by rw [hNew]; simp) hNot
  · cases c with
    | nil => exact absurd (by rw [List.nil_append] at hRest; rw [← hRest]; simp) hNot
    | cons b c =>
      obtain ⟨rfl, -⟩ := List.cons.inj hRest
      exact ⟨c, rfl⟩

/-- Whose message `OnMessage` is called with has been validated. -/
def Vetted (log : List Notice) : Prop :=
  ∀ x before m after, log = before ++ .call (.onMessage x m) :: after →
    .call (.onValidate x) ∈ before ∧ .enqueued x m ∈ before

theorem Vetted.step {event : Event} (h : Vetted s.log) (hRecorded : Recorded s)
    (hStep : s.step event = some s') : Vetted s'.log := by
  by_cases hPop : event = .poll .pop
  · subst hPop
    cases step_cases hStep with
    | poll _ hNot => exact absurd rfl hNot
    | @pop y m queue q _ hQueue _ =>
      intro x before m' after hLog
      change s.log ++ [.call (.onMessage y m)] = before ++ .call (.onMessage x m') :: after at hLog
      by_cases hSame : (Notice.call (.onMessage x m')) = .call (.onMessage y m)
      · obtain ⟨rfl, rfl⟩ : x = y ∧ m' = m := by simpa using hSame
        rcases List.eq_nil_or_concat after with rfl | ⟨after, last, rfl⟩
        · -- the message was in the queue
          obtain ⟨rfl, -⟩ := List.append_inj' hLog rfl
          have hEnqueued : (x, m') ∈ s.incoming.enqueued := by
            rw [← hRecorded.queue.queue, hQueue]
            simp
          rw [hRecorded.enqueued] at hEnqueued
          obtain ⟨n, hn, hNotice⟩ := List.mem_filterMap.mp hEnqueued
          obtain rfl : n = .enqueued x m' := by
            cases n with
            | enqueued => simpa [Notice.enqueued?] using hNotice
            | call => cases hNotice
          exact ⟨(validated_of_enqueued hRecorded hn).1, hn⟩
        · have hFront : s.log ++ [.call (.onMessage x m')] =
              (before ++ .call (.onMessage x m') :: after) ++ [last] := by
            rw [hLog]
            simp
          exact h x before m' after (List.append_inj' hFront rfl).1
      · obtain ⟨rest, hBefore⟩ := split_of_append hLog (by simpa using hSame)
        exact h x before m' rest hBefore
  · obtain ⟨new, hLog, -, -, hProcessed, -⟩ := records_step hRecorded.framed hStep
    rw [processed_step hStep hPop] at hProcessed
    have hNone : new.filterMap Notice.handed? = [] := List.append_right_eq_self.mp hProcessed.symm
    intro x before m after hSplit
    rw [hLog] at hSplit
    have hNot : .call (.onMessage x m) ∉ new := by
      intro hMem
      have hHanded := List.filterMap_eq_nil_iff.mp hNone _ hMem
      cases hHanded
    obtain ⟨rest, hBefore⟩ := split_of_append hSplit hNot
    exact h x before m rest hBefore

/-- **No message of a stranger**: a message is handed to `OnMessage` only after `OnValidate`
was called for its connection, and `OnInvalidate` never is. -/
theorem vetted_of_reach {ok : DedicatedServer → Event → Prop} (h : Reach system ok s)
    {x : Nat} {m : Message} {before after : List Notice}
    (hLog : s.log = before ++ .call (.onMessage x m) :: after) :
    .call (.onValidate x) ∈ before ∧ .call (.onInvalidate x) ∉ s.log := by
  have hBoth : Recorded s ∧ Vetted s.log := by
    refine h.invariant (I := fun s => Recorded s ∧ Vetted s.log) ?_ ?_
    · rintro _ rfl
      refine ⟨recorded_init, fun x before m after hSplit => ?_⟩
      simp at hSplit
    · rintro s event s' ⟨hRecorded, hVetted⟩ _ hStep
      exact ⟨hRecorded.step hStep, hVetted.step hRecorded hStep⟩
  obtain ⟨hRecorded, hVetted⟩ := hBoth
  obtain ⟨hValidated, hEnqueued⟩ := hVetted x before m after hLog
  have hMem : .enqueued x m ∈ s.log := by
    rw [hLog]
    exact List.mem_append_left _ hEnqueued
  exact ⟨hValidated, (validated_of_enqueued hRecorded hMem).2⟩

theorem vetted_twoClients : ∃ s, Reach system Free s ∧
    .call (.onMessage 0 (bare 3)) ∈ s.log ∧ .call (.onValidate 0) ∈ twoClientsLog.take 8 ∧
      .call (.onInvalidate 0) ∉ s.log := by
  obtain ⟨s, hReach, hLog⟩ := exists_twoClients
  have hSplit : s.log = twoClientsLog.take 8 ++
      .call (.onMessage 0 (bare 3)) :: [.call (.onMessage 1 (bare 4))] := by
    rw [hLog]
    rfl
  obtain ⟨hBefore, hNever⟩ := vetted_of_reach hReach hSplit
  exact ⟨s, hReach, by rw [hSplit]; simp, hBefore, hNever⟩

end DedicatedServer

end MinecraftNetwork
