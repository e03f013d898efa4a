import MinecraftNetwork.DedicatedClient.Reconnect
import MinecraftNetwork.DedicatedClient.Turns
import MinecraftNetwork.DedicatedServer.Demultiplexing

/-!
# One queue, one connection after another

The connections of a client write into one `m_IncomingMessages` too, and their messages
carry no owner: the queue is not cleared when `Disconnect` gives a connection up, and what
`OnMessage` is called with does not say which connection it came from. Still every message
has an origin. In every run the messages handed over and those in the queue, in order, are
a merging of the messages that the bytes read by each connection ask for, and each is
handed over after `OnValidate` was called for the connection it came from
(`merged_of_reach`).

Where handlers of the connection of `m_pConnection` run only (`Quiet`), the merging is a
concatenation: the messages of a connection come before those of the next one, and none
that was received is lost by connecting again (`serial_of_reach`).
-/

namespace MinecraftNetwork

open Runs LittleEndian
open DedicatedServer (messagesOf)

namespace DedicatedClient

/-- What is handed to `OnMessage`. -/
def Notice.handed? : Notice → Option Message
  | .call (.onMessage m) => some m
  | .call (.allowConnection _) | .call (.onConnect _) | .call (.onDisconnect _)
  | .call (.onValidate _) | .call (.onInvalidate _) | .started _ _ | .assigned _ _
  | .entered _ _ _ | .connected _ | .failed _ => none

/-- The connection that is stored in `m_pConnection`. -/
def Notice.stored? : Notice → Option Nat
  | .started x _ => some x
  | .call _ | .assigned _ _ | .entered _ _ _ | .connected _ | .failed _ => none

/-- The messages that `OnMessage` was called with. -/
def handed (log : List Notice) : List Message := log.filterMap Notice.handed?

/-- The connections that were stored in `m_pConnection`, in order. -/
def stored (log : List Notice) : List Nat := log.filterMap Notice.stored?

variable {s s' : DedicatedClient}

theorem handed_append (log new : List Notice) : handed (log ++ new) = handed log ++ handed new :=
  List.filterMap_append

theorem stored_append (log new : List Notice) : stored (log ++ new) = stored log ++ stored new :=
  List.filterMap_append

/-! ## What a step says -/

/-- The log grows by notices that are no message and no connection. -/
def Mute (s s' : DedicatedClient) : Prop :=
  ∃ new, s'.log = s.log ++ new ∧ handed new = [] ∧ stored new = []

theorem mute_of_eq (h : s'.log = s.log) : Mute s s' := ⟨[], by rw [h, List.append_nil], rfl, rfl⟩

theorem mute_setTasks (s : DedicatedClient) (t : Thread) (tasks : List Task) :
    Mute s (s.setTasks t tasks) := mute_of_eq rfl

theorem mute_setObject (s : DedicatedClient) (x : Nat) (e : Endpoint) :
    Mute s (s.setObject x e) := mute_of_eq rfl

theorem mute_notify (n : Notice) (hLog : s'.log = s.log ++ [n]) (hHanded : n.handed? = none)
    (hStored : n.stored? = none) : Mute s s' := by
  refine ⟨[n], hLog, ?_, ?_⟩
  · rw [handed, List.filterMap_cons_none hHanded]
    rfl
  · rw [stored, List.filterMap_cons_none hStored]
    rfl

theorem Mute.trans {s₁ : DedicatedClient} (h : Mute s s₁) (h' : Mute s₁ s') : Mute s s' := by
  obtain ⟨new, hLog, hHanded, hStored⟩ := h
  obtain ⟨new', hLog', hHanded', hStored'⟩ := h'
  refine ⟨new ++ new', ?_, ?_, ?_⟩
  · rw [hLog', hLog, List.append_assoc]
  · rw [handed_append, hHanded, hHanded', List.append_nil]
  · rw [stored_append, hStored, hStored', List.append_nil]

theorem mute_advance (s : DedicatedClient) (x : Nat) (effects : List Effect) :
    Mute s (s.advance x effects) := by
  induction effects generalizing s with
  | nil => exact mute_of_eq rfl
  | cons effect effects ih =>
    have hSame : ∀ {s₁ : DedicatedClient}, s₁.log = s.log → Mute s (s₁.advance x effects) :=
      fun hLog => (mute_of_eq hLog).trans (ih _)
    cases effect with
    | onValidate | onInvalidate => exact mute_notify _ rfl rfl rfl
    | disconnect | emplaceBack | asyncConnect | asyncRead | asyncWrite | postClose | emptyDeque =>
      exact hSame rfl

theorem mute_act {t : Thread} {action : Action} (h : s.act t action = some s') : Mute s s' := by
  have hFrom : ∀ x, (s.disconnectFrom x).log = s.log := fun x => (s.disconnectFrom_eq x).2.2.1
  have hDisconnect : ∀ rest, (s.disconnect t rest).log = s.log := by
    intro rest
    simp only [disconnect]
    split
    · exact hFrom _
    · rfl
  cases act_cases h with
  | connect | send | sendNothing | sendTo | keep | drop => exact mute_of_eq rfl
  | reconnect | disconnect => exact mute_of_eq (hDisconnect _)
  | @disconnectFrom _ x => exact mute_of_eq (hFrom x)

/-- `Connect` stores its connection. -/
theorem log_start (s : DedicatedClient) (x : Nat) (opened spawned : Bool) (rest : List Task) :
    ∃ new, (s.start x opened spawned rest).log = s.log ++ .started x opened :: new ∧
      handed new = [] ∧ stored new = [] := by
  have hMute : Mute ((s.setTasks .application rest).store x opened)
      (s.start x opened spawned rest) := by
    simp only [DedicatedClient.start]
    split
    · simp only [assign]
      split <;> exact mute_notify _ rfl rfl rfl
    · exact mute_notify _ rfl rfl rfl
  obtain ⟨new, hLog, hHanded, hStored⟩ := hMute
  have hStore : ((s.setTasks .application rest).store x opened).log = s.log ++ [.started x opened] :=
    rfl
  exact ⟨new, by rw [hLog, hStore, List.append_assoc]; rfl, hHanded, hStored⟩

/-- Only `PollMessages` hands a message over, and only `Connect` stores a connection. -/
theorem log_next {event : Event} (h : s.next event = some s') (hPop : event ≠ .poll .pop) :
    ∃ new, s'.log = s.log ++ new ∧ handed new = [] ∧ (event.stores = false → stored new = []) := by
  have hMute : Mute s s' →
      ∃ new, s'.log = s.log ++ new ∧ handed new = [] ∧ (event.stores = false → stored new = []) := by
    rintro ⟨new, hLog, hHanded, hStored⟩
    exact ⟨new, hLog, hHanded, fun _ => hStored⟩
  cases next_cases h with
  | app _ hAct => exact hMute (mute_act hAct)
  | leave | stop | join | poll | closeSocket | runOut | finish | restart | transfer =>
    exact hMute (mute_of_eq rfl)
  | deny | throwMake | throwAllow | throwGreet | create | greet | connected | enter =>
    exact hMute (mute_notify _ rfl rfl rfl)
  | @start x opened spawned rest =>
    obtain ⟨new, hLog, hHanded, -⟩ := log_start s x opened spawned rest
    exact ⟨_, hLog, hHanded, fun hNot => by cases hNot⟩
  | resume => exact hMute ((mute_setTasks s .context _).trans (mute_advance _ _ _))
  | pop => exact absurd rfl hPop
  | complete => exact hMute ((mute_setObject s _ _).trans (mute_advance _ _ _))

/-! ## What a step puts into the queue -/

theorem received_performAll (e : Endpoint) (effects : List Effect) :
    (e.performAll effects).received = e.received ++ effects.filterMap Effect.message? := by
  rw [Endpoint.received, Endpoint.performAll_history, List.filterMap_append, Endpoint.received]

theorem messagesOf_origin (x y : Nat) (ms : List Message) :
    messagesOf x (ms.map (Prod.mk y)) = if y = x then ms else [] := by
  rw [messagesOf, List.filterMap_map]
  by_cases hSame : y = x
  · rw [if_pos hSame]
    simp [hSame]
  · rw [if_neg hSame]
    simp [hSame]

/-- The queue and the connections grow by the same messages, and none is handed over. -/
structure Deposits (s s' : DedicatedClient) (x : Nat) (ms : List Message) : Prop where
  enqueued : s'.incoming.enqueued = s.incoming.enqueued ++ ms
  received : ∀ y, (s'.objects y).received =
    (s.objects y).received ++ if x = y then ms else []
  processed : s'.incoming.processed = s.incoming.processed
  queue : s.incoming.Sound → s'.incoming.Sound

/-- Nothing is put into the queue. -/
theorem deposits_nothing (x : Nat) (hIncoming : s'.incoming = s.incoming)
    (hReceived : ∀ y, (s'.objects y).received = (s.objects y).received) : Deposits s s' x [] := by
  refine ⟨?_, fun y => ?_, by rw [hIncoming], by rw [hIncoming]; exact id⟩
  · rw [hIncoming, List.append_nil]
  · rw [hReceived, ite_self, List.append_nil]

theorem Deposits.trans {s₁ : DedicatedClient} {x : Nat} {ms ms' : List Message}
    (h : Deposits s s₁ x ms) (h' : Deposits s₁ s' x ms') : Deposits s s' x (ms ++ ms') := by
  refine ⟨?_, fun y => ?_, h'.processed.trans h.processed, fun hSound => h'.queue (h.queue hSound)⟩
  · rw [h'.enqueued, h.enqueued, List.append_assoc]
  · rw [h'.received, h.received, List.append_assoc]
    split <;> rfl

theorem deposits_setObject {x : Nat} {e : Endpoint} (h : e.received = (s.objects x).received) :
    Deposits s (s.setObject x e) x [] := by
  refine deposits_nothing x rfl fun y => ?_
  by_cases hSame : y = x
  · subst hSame
    simpa [setObject] using h
  · simp [setObject, hSame]

/-- A member function of a connection, up to its next callback. -/
theorem deposits_advance (s : DedicatedClient) (x : Nat) (effects : List Effect) :
    ∃ ms, Deposits s (s.advance x effects) x ms := by
  induction effects generalizing s with
  | nil => exact ⟨[], deposits_nothing x rfl fun _ => rfl⟩
  | cons effect effects ih =>
    have hSilent : effect.message? = none →
        Deposits s (s.setObject x ((s.objects x).perform effect)) x [] := by
      intro hNone
      apply deposits_setObject
      have hOne := received_performAll (s.objects x) [effect]
      rwa [List.filterMap_cons_none hNone, List.filterMap_nil, List.append_nil] at hOne
    have hRest : ∀ {s₁ : DedicatedClient} {ms : List Message}, Deposits s s₁ x ms →
        ∃ ms, Deposits s (s₁.advance x effects) x ms := by
      intro s₁ ms hFirst
      obtain ⟨ms', hOthers⟩ := ih s₁
      exact ⟨ms ++ ms', hFirst.trans hOthers⟩
    cases effect with
    | onValidate | onInvalidate =>
      have hObject := hSilent rfl
      exact ⟨[], ⟨hObject.enqueued, hObject.received, hObject.processed, hObject.queue⟩⟩
    | disconnect =>
      have hObject := hSilent rfl
      exact hRest ⟨hObject.enqueued, hObject.received, hObject.processed, hObject.queue⟩
    | asyncConnect | asyncRead | asyncWrite | postClose | emptyDeque => exact hRest (hSilent rfl)
    | emplaceBack tagged m =>
      have hMessage : ((s.objects x).perform (.emplaceBack tagged m)).received =
          (s.objects x).received ++ [m] := received_performAll (s.objects x) [.emplaceBack tagged m]
      have hReceived : ∀ y, ((s.setObject x ((s.objects x).perform
          (.emplaceBack tagged m))).objects y).received =
            (s.objects y).received ++ if x = y then [m] else [] := by
        intro y
        by_cases hSame : x = y
        · subst hSame
          simpa [setObject] using hMessage
        · simp [setObject, hSame, Ne.symm hSame]
      exact hRest ⟨rfl, hReceived, rfl, fun hSound => hSound.emplaceBack m⟩

theorem received_congr {e e' : Endpoint} (h : e'.history = e.history) : e'.received = e.received :=
  congrArg (List.filterMap Effect.message?) h

/-- The calls of the application and the network put nothing into the queue. -/
theorem received_outside (event : Endpoint.Event) {e e' : Endpoint}
    (hOutside : ∀ c, event ≠ .complete c) (h : e.step event = some e') :
    e'.received = e.received := received_congr (Endpoint.outside_frame hOutside h).history

/-- `ConnectToServer` puts nothing into the queue. -/
theorem received_connectToServer (e : Endpoint) (opened : Bool) :
    (e.run (e.connection.connectToServer opened)).received = e.received := by
  have hNone : (e.connection.connectToServer opened).2.filterMap Effect.message? = [] := by
    simp only [Connection.connectToServer]
    split <;> rfl
  rw [Endpoint.run, received_performAll, hNone, List.append_nil]
  rfl

/-- A connection without an owner has received nothing. -/
theorem Heard.received_unknown (h : Heard s) {x : Nat}
    (hNot : (s.objects x).connection.hasConnectable = false) : (s.objects x).received = [] := by
  have hAlive := h.alive x
  rw [endpoint, (h.unknown hNot).2] at hAlive
  change Alive (s.objects x) at hAlive
  cases hAlive with
  | created _ hDialogue =>
    rw [Endpoint.received_eq, hDialogue]
    rfl
  | admitted _ hOwner =>
    rw [hNot] at hOwner
    cases hOwner

/-- The step runs a handler of the connection, or the rest of one. -/
def Handles (s : DedicatedClient) (event : Event) (x : Nat) : Prop :=
  (∃ c, event = .complete x c) ∨
    event = .run .context ∧ ∃ effects rest, s.tasks .context = .resume x effects :: rest

theorem received_update {objects : Nat → Endpoint} {x : Nat} {e : Endpoint}
    (h : e.received = (objects x).received) (y : Nat) :
    (Function.update objects x e y).received = (objects y).received := by
  by_cases hSame : y = x
  · subst hSame
    rw [Function.update_self]
    exact h
  · rw [Function.update_of_ne hSame]

/-- A call of the application puts nothing into the queue. -/
theorem deposits_act {t : Thread} {action : Action} (x : Nat) (h : s.act t action = some s') :
    Deposits s s' x [] := by
  have hSend : ∀ y m z, ((s.setObject y ((s.objects y).send m)).objects z).received =
      (s.objects z).received :=
    fun y m => received_update (received_outside (.send m) (by simp) rfl)
  have hFrom : ∀ y z, ((s.disconnectFrom y).objects z).received = (s.objects z).received := by
    intro y z
    rw [(s.disconnectFrom_eq y).1]
    exact received_update (received_outside .disconnect (by simp) rfl) z
  have hDisconnect : ∀ rest z,
      ((s.disconnect .application rest).objects z).received = (s.objects z).received := by
    intro rest z
    simp only [disconnect]
    split
    · exact hFrom _ z
    · rfl
  refine deposits_nothing x (incoming_act h) fun z => ?_
  cases act_cases h with
  | connect | sendNothing | keep | drop => rfl
  | reconnect | disconnect => exact hDisconnect _ z
  | @send _ y m | @sendTo _ y m => exact hSend y m z
  | @disconnectFrom _ y => exact hFrom y z

/-- **What is put into the queue in a step comes from one connection**, whose handler runs. -/
theorem deposits_next {event : Event} (hHeard : Heard s) (h : s.next event = some s')
    (hPop : event ≠ .poll .pop) : ∃ x ms, Deposits s s' x ms ∧ (ms ≠ [] → s.Handles event x) := by
  have hNone : Deposits s s' 0 [] → ∃ x ms, Deposits s s' x ms ∧ (ms ≠ [] → s.Handles event x) :=
    fun hNothing => ⟨0, [], hNothing, fun hSome => absurd rfl hSome⟩
  cases next_cases h with
  | app _ hAct => exact hNone (deposits_act 0 hAct)
  | leave | deny | throwMake | throwAllow | throwGreet | greet | connected | stop | join | enter
  | closeSocket | runOut | finish | restart => exact hNone (deposits_nothing 0 rfl fun _ => rfl)
  | create =>
    refine hNone (deposits_nothing 0 rfl fun y => ?_)
    have hFresh : (Endpoint.create .dedicatedClient false).received =
        (s.objects s.allocated).received := (hHeard.received_unknown hHeard.new).symm
    exact received_update hFresh y
  | @start x opened spawned rest hTasks =>
    refine hNone (deposits_nothing 0 (incoming_start s x opened spawned rest) fun y => ?_)
    rw [(start_frame s x opened spawned rest).1]
    exact received_update (received_connectToServer _ opened) y
  | @resume x effects rest hTasks =>
    obtain ⟨ms, hDeposits⟩ := deposits_advance (s.setTasks .context rest) x effects
    exact ⟨x, ms, ⟨hDeposits.enqueued, hDeposits.received, hDeposits.processed, hDeposits.queue⟩,
      fun _ => .inr ⟨rfl, effects, rest, hTasks⟩⟩
  | pop => exact absurd rfl hPop
  | @poll event q _ hNot hPoll =>
    refine hNone ⟨?_, fun y => ?_, ?_, fun hQueue => (hQueue.step hPoll).1⟩
    · cases Polling.step_cases hPoll <;> exact (List.append_nil _).symm
    · rw [ite_self, List.append_nil]
    · obtain ⟨-, hProcessed⟩ | ⟨hEvent, -⟩ := Polling.step_processed hPoll
      · exact hProcessed
      · exact absurd hEvent hNot
  | @complete x c e effects _ _ hHandle =>
    have hObject : Deposits s (s.setObject x e) x [] :=
      deposits_setObject (received_congr (Endpoint.handle_keeps hHandle).2.2)
    obtain ⟨ms, hDeposits⟩ := deposits_advance (s.setObject x e) x effects
    exact ⟨x, [] ++ ms, hObject.trans hDeposits, fun _ => .inl ⟨c, rfl⟩⟩
  | @transfer x op n e _ hTransfer =>
    refine hNone (deposits_nothing 0 rfl ?_)
    exact received_update (received_outside (.transfer op n) (by simp) hTransfer)

/-! ## What a connection asks for -/

/-- What was told of a connection is what the bytes it has read ask for, so far. -/
def Follows (e : Endpoint) : Prop :=
  e.dialogue.reports <+: Endpoint.Start.reports (.client false) e.dialogue.consumed

section

variable {e e' : Endpoint}

theorem follows_created (h : e.dialogue = (Endpoint.create .dedicatedClient false).dialogue) :
    Follows e := by
  rw [Follows, h]
  exact List.nil_prefix

theorem follows_admitted {opened : Bool} (h : Endpoint.InStage (.client opened) e) : Follows e := by
  obtain ⟨k, -, hStage⟩ := h
  have hReports := hStage.reports_eq
  exact ⟨[], by rw [List.append_nil, hReports]; rfl⟩

theorem Follows.step {event : Endpoint.Event} (h : Follows e) (hAlive : Alive e)
    (hStep : e.step event = some e') : Follows e' := by
  cases hAlive with
  | created hWaits hDialogue =>
    exact follows_created ((dialogue_idle hWaits hStep).2.trans hDialogue)
  | admitted hStage => exact follows_admitted (hStage.step hStep)

end

theorem Heard.follows_change (h : Heard s) (hSound : Sound s) {x : Nat}
    (hFollows : Follows (s.endpoint x)) (hChange : Change s s' x) : Follows (s'.endpoint x) := by
  cases hChange with
  | same hSame =>
    rw [hSame]
    exact hFollows
  | moved action hMove => exact hFollows.step (h.alive x) hMove
  | create hNew hObject =>
    subst hNew
    rw [hObject, (h.unknown h.new).2]
    exact follows_created rfl
  | start opened hMem hObject =>
    obtain ⟨e, he, hStage, -, -⟩ := h.connectToServer opened hSound hMem
    rw [hObject, (h.unknown (hSound.unowned hMem)).2, ← he]
    exact follows_admitted hStage

/-- What was told of a connection so far, the callbacks in progress left out. -/
theorem Follows.object {x : Nat} (h : Follows (s.endpoint x)) :
    (s.objects x).reports <+: Endpoint.Start.reports (.client false) (s.endpoint x).consumed := by
  refine List.IsPrefix.trans ?_ h
  rw [Endpoint.dialogue_reports, endpoint, Endpoint.reports, Endpoint.reports,
    Endpoint.performAll_history, List.filter_append]
  exact List.prefix_append _ _

theorem received_reports (e : Endpoint) : e.received = e.reports.filterMap Effect.message? := by
  rw [Endpoint.received_eq, Endpoint.dialogue_reports]

theorem mem_history_of_reports {e : Endpoint} {effect : Effect} (h : effect ∈ e.reports) :
    effect ∈ e.history := List.mem_of_mem_filter h

/-- A connection that has received a message was validated before, and not found invalid. -/
theorem Heard.validated_of_received (h : Heard s) {x : Nat} (hFollows : Follows (s.endpoint x))
    {m : Message} (hMem : m ∈ (s.objects x).received) :
    .call (.onValidate x) ∈ s.log ∧ .call (.onInvalidate x) ∉ s.log := by
  have hPrefix := hFollows.object
  rw [received_reports] at hMem
  obtain ⟨effect, hEffect, hMessage⟩ := List.mem_filterMap.mp hMem
  obtain ⟨tagged, rfl⟩ : ∃ tagged, effect = .emplaceBack tagged m := by
    cases effect <;> simp_all [Effect.message?]
  obtain ⟨⟨id, rest, hReports⟩, hNever⟩ :=
    DedicatedServer.reports_of_message (hPrefix.subset hEffect)
  have hVerdict : ∀ moment, moment ∈ (s.objects x).verdicts ↔
      moment ∈ moments s.log x ∧ moment.isVerdict = true := by
    intro moment
    rw [← h.heard, List.mem_filter]
  constructor
  · -- what was told is not nothing, and begins with the verdict
    have hFirst : .onValidate id ∈ (s.objects x).reports := by
      rw [hReports] at hPrefix
      cases hList : (s.objects x).reports with
      | nil =>
        rw [hList] at hEffect
        cases hEffect
      | cons first more =>
        rw [hList] at hPrefix
        rw [(List.cons_prefix_cons.mp hPrefix).1]
        exact List.mem_cons_self
    have hGiven : Moment.validate ∈ (s.objects x).verdicts :=
      List.mem_filterMap.mpr ⟨_, mem_history_of_reports hFirst, rfl⟩
    obtain ⟨n, hn, hMoment⟩ := List.mem_filterMap.mp ((hVerdict _).mp hGiven).1
    obtain rfl : n = .call (.onValidate x) := by
      cases n with
      | call c => cases c <;> simp_all [Notice.moment?]
      | started | assigned | entered | connected | failed => cases hMoment
    exact hn
  · intro hInvalid
    have hGiven : Moment.invalidate ∈ (s.objects x).verdicts :=
      (hVerdict _).mpr ⟨List.mem_filterMap.mpr ⟨_, hInvalid, by simp [Notice.moment?]⟩, rfl⟩
    obtain ⟨effect, hEffect, hMoment⟩ := List.mem_filterMap.mp hGiven
    obtain rfl : effect = .onInvalidate := by
      cases effect <;> simp_all [Effect.moment?]
    exact hNever (hPrefix.subset (List.mem_filter.mpr ⟨hEffect, rfl⟩))

/-! ## In every run -/

/-- A message was handed over after `OnValidate` was called for the connection it came from. -/
def Vetted (log : List Notice) (origin : List (Nat × Message)) : Prop :=
  ∀ before m after, log = before ++ .call (.onMessage m) :: after →
    ∃ x, origin[(handed before).length]? = some (x, m) ∧ .call (.onValidate x) ∈ before

/-- The origin of every message that was put into the queue. -/
structure Traced (s : DedicatedClient) (origin : List (Nat × Message)) : Prop where
  sound : Sound s
  heard : Heard s
  follows : ∀ x, Follows (s.endpoint x)
  queue : s.incoming.Sound
  handed : handed s.log = s.incoming.processed
  enqueued : origin.map Prod.snd = s.incoming.enqueued
  received : ∀ x, messagesOf x origin = (s.objects x).received
  vetted : Vetted s.log origin

theorem traced_init : Traced {} [] := by
  refine ⟨sound_init, heard_init, fun _ => follows_created rfl, ⟨rfl, fun _ hPoll => by cases hPoll⟩,
    rfl, rfl, fun _ => rfl, fun before m after hLog => ?_⟩
  simp at hLog

/-- Where the first message of the queue came from. -/
theorem Traced.front {origin : List (Nat × Message)} (h : Traced s origin) {m : Message}
    {rest : List Message} (hQueue : s.incoming.incomingMessages = m :: rest) :
    ∃ x, origin[(DedicatedClient.handed s.log).length]? = some (x, m) ∧
      .call (.onValidate x) ∈ s.log := by
  have hOrigin : origin.map Prod.snd = DedicatedClient.handed s.log ++ m :: rest := by
    rw [h.enqueued, ← h.queue.queue, h.handed, hQueue]
  have hAt : (origin.map Prod.snd)[(DedicatedClient.handed s.log).length]? = some m := by
    rw [hOrigin]
    simp
  rw [List.getElem?_map, Option.map_eq_some_iff] at hAt
  obtain ⟨⟨x, m'⟩, hAt, rfl⟩ := hAt
  refine ⟨x, hAt, (h.heard.validated_of_received (h.follows x) (m := m') ?_).1⟩
  rw [← h.received, messagesOf, List.mem_filterMap]
  exact ⟨(x, m'), List.mem_of_getElem? hAt, if_pos rfl⟩

theorem Vetted.grow {log new : List Notice} {origin more : List (Nat × Message)}
    (h : Vetted log origin) (hNew : handed new = []) : Vetted (log ++ new) (origin ++ more) := by
  intro before m after hLog
  have hNot : .call (.onMessage m) ∉ new := by
    intro hMem
    have hHanded := List.filterMap_eq_nil_iff.mp hNew _ hMem
    cases hHanded
  obtain ⟨rest, hBefore⟩ := DedicatedServer.split_of_append hLog hNot
  obtain ⟨x, hAt, hValidated⟩ := h before m rest hBefore
  obtain ⟨hLess, -⟩ := List.getElem?_eq_some_iff.mp hAt
  exact ⟨x, by rw [List.getElem?_append_left hLess, hAt], hValidated⟩

/-- `PopFront` hands the first message of the queue over. -/
theorem Traced.pop {origin : List (Nat × Message)} (h : Traced s origin)
    (hStep : s.step (.poll .pop) = some s') : Traced s' origin := by
  have hNext := next_of_step hStep
  have hSound := h.sound.next hNext
  have hHeard := h.heard.step h.sound hStep
  have hFollows : ∀ x, Follows (s'.endpoint x) := fun x =>
    h.heard.follows_change h.sound (h.follows x) ((steps_of_next hNext).change h.sound x)
  cases next_cases hNext with
  | poll _ hNot => exact absurd rfl hNot
  | @pop m rest q _ hQueue hPop =>
    obtain ⟨hQ, hEnqueued⟩ := h.queue.step hPop
    refine ⟨hSound, hHeard, hFollows, hQ, ?_, h.enqueued.trans hEnqueued.symm, h.received, ?_⟩
    · obtain ⟨hNot, -⟩ | ⟨-, hProcessed⟩ := Polling.step_processed hPop
      · exact absurd rfl hNot
      · refine (handed_append s.log [.call (.onMessage m)]).trans ?_
        rw [h.handed]
        exact (hProcessed m rest hQueue).symm
    · intro before m' after hLog
      change s.log ++ [.call (.onMessage m)] = before ++ .call (.onMessage m') :: after at hLog
      rcases List.eq_nil_or_concat after with rfl | ⟨after, last, rfl⟩
      · -- the message was at the front of the queue
        obtain ⟨rfl, hLast⟩ := List.append_inj' hLog rfl
        obtain rfl : m = m' := by simpa using hLast
        exact h.front hQueue
      · have hFront : s.log ++ [.call (.onMessage m)] =
            (before ++ .call (.onMessage m') :: after) ++ [last] := by
          rw [hLog]
          simp
        exact h.vetted before m' after (List.append_inj' hFront rfl).1

theorem Traced.step {event : Event} {origin : List (Nat × Message)} (h : Traced s origin)
    (hStep : s.step event = some s') : ∃ more, Traced s' (origin ++ more) := by
  by_cases hPop : event = .poll .pop
  · subst hPop
    exact ⟨[], by rw [List.append_nil]; exact h.pop hStep⟩
  · have hNext := next_of_step hStep
    obtain ⟨new, hLog, hHanded, -⟩ := log_next hNext hPop
    obtain ⟨x, ms, hDeposits, -⟩ := deposits_next h.heard hNext hPop
    refine ⟨ms.map (Prod.mk x), h.sound.next hNext, h.heard.step h.sound hStep, fun y => ?_,
      hDeposits.queue h.queue, ?_, ?_, fun y => ?_, ?_⟩
    · exact h.heard.follows_change h.sound (h.follows y) ((steps_of_next hNext).change h.sound y)
    · rw [hLog, handed_append, hHanded, List.append_nil, h.handed, hDeposits.processed]
    · rw [List.map_append, h.enqueued, hDeposits.enqueued, List.map_map]
      congr 1
      exact List.map_id ms
    · have hBoth : messagesOf y (origin ++ ms.map (Prod.mk x)) =
          messagesOf y origin ++ messagesOf y (ms.map (Prod.mk x)) := List.filterMap_append
      rw [hBoth, h.received, messagesOf_origin, hDeposits.received]
    · rw [hLog]
      exact h.vetted.grow hHanded

theorem traced_of_reach {ok : DedicatedClient → Event → Prop} (h : Reach system ok s) :
    ∃ origin, Traced s origin := by
  refine h.invariant (I := fun s => ∃ origin, Traced s origin) ?_ ?_
  · rintro _ rfl
    exact ⟨[], traced_init⟩
  · rintro s event s' ⟨origin, hTraced⟩ _ hStep
    obtain ⟨more, hMore⟩ := hTraced.step hStep
    exact ⟨origin ++ more, hMore⟩

/-- Every message that has been handed over or is in the queue comes from one of the
connections: those of each connection are the first that the bytes it has read ask for. -/
structure Merged (s : DedicatedClient) (origin : List (Nat × Message)) : Prop where
  queue : handed s.log ++ s.incoming.incomingMessages = origin.map Prod.snd
  asked : ∀ x, messagesOf x origin <+:
    (Endpoint.Start.reports (.client false) (s.endpoint x).consumed).filterMap Effect.message?
  /-- A message is handed over when its connection was validated, and was never invalid. -/
  vetted : ∀ before m after, s.log = before ++ .call (.onMessage m) :: after →
    ∃ x, origin[(handed before).length]? = some (x, m) ∧ .call (.onValidate x) ∈ before ∧
      .call (.onInvalidate x) ∉ s.log

/-- **The queue of a client is a merging of its connections**, in every run. -/
theorem merged_of_reach {ok : DedicatedClient → Event → Prop} (h : Reach system ok s) :
    ∃ origin, Merged s origin := by
  obtain ⟨origin, hTraced⟩ := traced_of_reach h
  refine ⟨origin, ?_, fun x => ?_, fun before m after hLog => ?_⟩
  · rw [hTraced.enqueued, hTraced.handed, hTraced.queue.queue]
  · rw [hTraced.received, received_reports]
    exact (hTraced.follows x).object.filterMap _
  · obtain ⟨x, hAt, hValidated⟩ := hTraced.vetted before m after hLog
    refine ⟨x, hAt, hValidated, ?_⟩
    refine (hTraced.heard.validated_of_received (hTraced.follows x) (m := m) ?_).2
    rw [← hTraced.received, messagesOf, List.mem_filterMap]
    exact ⟨(x, m), List.mem_of_getElem? hAt, if_pos rfl⟩

/-! ## One connection after another -/

/-- The connection of `m_pConnection` was stored last, and every one once. -/
structure Succession (s : DedicatedClient) : Prop where
  last : ∀ x, s.connection = some x → (stored s.log).getLast? = some x
  once : (stored s.log).Nodup
  /-- The connection of `m_pConnection` has an owner, and its chain goes on. -/
  stage : ∀ x, s.connection = some x → ∃ opened, Endpoint.InStage (.client opened) (s.endpoint x)

theorem succession_init : Succession {} := by
  refine ⟨fun x hSome => ?_, List.nodup_nil, fun x hSome => ?_⟩
  · cases hSome
  · cases hSome

/-- A connection that was stored has an owner. -/
theorem Sound.stored (h : Sound s) {x : Nat} (hMem : x ∈ stored s.log) :
    x < s.allocated ∧ (s.objects x).connection.hasConnectable = true := by
  obtain ⟨n, hn, hStored⟩ := List.mem_filterMap.mp hMem
  have hFine := h.log n hn
  cases n with
  | started y opened =>
    obtain rfl : y = x := by simpa [Notice.stored?] using hStored
    exact ⟨hFine.1, hFine.2.1⟩
  | call | assigned | entered | connected | failed => cases hStored

/-- Only `Connect` gives `m_pConnection` a value. -/
theorem connection_next {event : Event} (h : s.next event = some s') (hNot : event.stores = false)
    {x : Nat} (hSome : s'.connection = some x) : s.connection = some x := by
  cases next_cases h with
  | app _ hAct => rwa [(beside_act hAct).connection] at hSome
  | resume | complete => rwa [(beside_advance _ _ _).connection] at hSome
  | start => cases hNot
  | join => cases hSome
  | leave | deny | throwMake | throwAllow | throwGreet | create | greet | connected | stop | pop
  | poll | enter | closeSocket | runOut | finish | restart | transfer => exact hSome

theorem stored_next {event : Event} (h : s.next event = some s') (hNot : event.stores = false) :
    stored s'.log = stored s.log := by
  by_cases hPop : event = .poll .pop
  · subst hPop
    cases next_cases h with
    | pop => exact (stored_append _ _).trans (List.append_nil _)
    | poll => rfl
  · obtain ⟨new, hLog, -, hStored⟩ := log_next h hPop
    rw [hLog, stored_append, hStored hNot, List.append_nil]

/-- `Connect` stores a connection that it has made. -/
theorem start_next {event : Event} (h : s.next event = some s') (hStores : event.stores = true) :
    ∃ x opened spawned rest, event = .start opened spawned ∧
      s.tasks .application = .start x :: rest ∧ s' = s.start x opened spawned rest := by
  cases next_cases h with
  | @start x opened spawned rest hTasks => exact ⟨x, opened, spawned, rest, rfl, hTasks, rfl⟩
  | _ => cases hStores

theorem stored_start (s : DedicatedClient) (x : Nat) (opened spawned : Bool) (rest : List Task) :
    stored (s.start x opened spawned rest).log = stored s.log ++ [x] := by
  obtain ⟨new, hLog, -, hStored⟩ := log_start s x opened spawned rest
  rw [hLog, stored_append]
  exact congrArg (fun l => stored s.log ++ x :: l) hStored

/-- The connection that `Connect` is about to store was not stored before. -/
theorem Sound.unstored (h : Sound s) {x : Nat} (hMem : .start x ∈ s.tasks .application) :
    x ∉ DedicatedClient.stored s.log := by
  intro hStored
  have hYes := (h.stored hStored).2
  rw [h.unowned hMem] at hYes
  cases hYes

theorem Succession.step {event : Event} (h : Succession s) (hSound : Sound s) (hHeard : Heard s)
    (hStep : s.step event = some s') : Succession s' := by
  have hNext := next_of_step hStep
  cases hStores : event.stores with
  | false =>
    have hBefore : ∀ {x}, s'.connection = some x → s.connection = some x :=
      connection_next hNext hStores
    have hStored := stored_next hNext hStores
    refine ⟨fun x hSome => ?_, ?_, fun x hSome => ?_⟩
    · rw [hStored]
      exact h.last x (hBefore hSome)
    · rw [hStored]
      exact h.once
    · obtain ⟨opened, hStage⟩ := h.stage x (hBefore hSome)
      cases (steps_of_next hNext).change hSound x with
      | same hSame => exact ⟨opened, by rwa [hSame]⟩
      | moved action hMove => exact ⟨opened, hStage.step hMove⟩
      | create hNew =>
        have hKnown := (hSound.stored (List.mem_of_getLast? (h.last x (hBefore hSome)))).1
        omega
      | start opened' hMem hObject =>
        obtain ⟨e, he, hStage', -, -⟩ := hHeard.connectToServer opened' hSound hMem
        rw [hObject, (hHeard.unknown (hSound.unowned hMem)).2, ← he]
        exact ⟨opened', hStage'⟩
  | true =>
    obtain ⟨x, opened, spawned, rest, rfl, hTasks, rfl⟩ := start_next hNext hStores
    have hMem : .start x ∈ s.tasks .application := by simp [hTasks]
    obtain ⟨hObjects, hContext, -, hConnection, -⟩ := start_frame s x opened spawned rest
    refine ⟨fun y hSome => ?_, ?_, fun y hSome => ?_⟩
    · obtain rfl : x = y := Option.some.inj (hConnection.symm.trans hSome)
      rw [stored_start, List.getLast?_concat]
    · rw [stored_start, List.nodup_append]
      refine ⟨h.once, List.nodup_singleton x, fun y hy z hz => ?_⟩
      rintro rfl
      obtain rfl : y = x := by simpa using hz
      exact hSound.unstored hMem hy
    · obtain rfl : x = y := Option.some.inj (hConnection.symm.trans hSome)
      obtain ⟨e, he, hStage, -, -⟩ := hHeard.connectToServer opened hSound hMem
      refine ⟨opened, ?_⟩
      have hRest : (s.start x opened spawned rest).rest x = s.rest x := by
        rw [DedicatedClient.rest, hContext, DedicatedClient.rest]
      rw [endpoint, hRest, (hHeard.unknown (hSound.unowned hMem)).2, hObjects,
        Function.update_self, ← he]
      exact hStage

/-- The messages stand in the queue one connection after another. -/
structure Serial (s : DedicatedClient) : Prop where
  order : s.incoming.enqueued = (stored s.log).flatMap fun x => (s.objects x).received
  others : ∀ x, x ∉ stored s.log → (s.objects x).received = []

theorem serial_init : Serial {} := ⟨rfl, fun _ _ => rfl⟩

theorem OwnHandlers.handles {event : Event} {x : Nat} (h : OwnHandlers s)
    (hStep : s.step event = some s') (hHandles : s.Handles event x) :
    s.connection = some x ∧ event.stores = false := by
  rcases hHandles with ⟨c, rfl⟩ | ⟨rfl, effects, rest, hTasks⟩
  · exact ⟨h.runs x c (takes_of_step hStep), rfl⟩
  · exact ⟨h.resumes x effects rest hTasks, rfl⟩

/-- Nothing is received, and no connection or a new one is stored. -/
theorem Serial.still (h : Serial s) (hEnqueued : s'.incoming.enqueued = s.incoming.enqueued)
    (hReceived : ∀ y, (s'.objects y).received = (s.objects y).received)
    (hStored : stored s'.log = stored s.log ∨
      ∃ x, x ∉ stored s.log ∧ stored s'.log = stored s.log ++ [x]) : Serial s' := by
  have hSame : (fun x => (s'.objects x).received) = fun x => (s.objects x).received :=
    funext hReceived
  rcases hStored with hStored | ⟨x, hNew, hStored⟩
  · refine ⟨?_, fun y hNot => ?_⟩
    · rw [hEnqueued, hStored, hSame]
      exact h.order
    · rw [hReceived]
      exact h.others y (by rwa [hStored] at hNot)
  · refine ⟨?_, fun y hNot => ?_⟩
    · rw [hEnqueued, hStored, hSame, List.flatMap_append, List.flatMap_singleton, h.others x hNew,
        List.append_nil]
      exact h.order
    · rw [hReceived]
      refine h.others y fun hMem => hNot ?_
      rw [hStored]
      exact List.mem_append_left _ hMem

/-- The connection that was stored last receives messages. -/
theorem Serial.receive {x : Nat} {ms : List Message} (h : Serial s) (hSuccession : Succession s)
    (hOwn : s.connection = some x) (hDeposits : Deposits s s' x ms)
    (hStored : stored s'.log = stored s.log) : Serial s' := by
  obtain ⟨former, hFormer⟩ := List.getLast?_eq_some_iff.mp (hSuccession.last x hOwn)
  have hNotBefore : x ∉ former := by
    have hOnce := hSuccession.once
    rw [hFormer, List.nodup_append] at hOnce
    exact fun hMem => hOnce.2.2 x hMem x (List.mem_singleton_self x) rfl
  have hOthers : ∀ y, y ≠ x → (s'.objects y).received = (s.objects y).received := by
    intro y hNe
    rw [hDeposits.received, if_neg (Ne.symm hNe), List.append_nil]
  refine ⟨?_, fun y hNot => ?_⟩
  · have hFront : (former.flatMap fun y => (s'.objects y).received) =
        former.flatMap fun y => (s.objects y).received := by
      refine List.flatMap_congr fun y hMem => hOthers y ?_
      rintro rfl
      exact hNotBefore hMem
    rw [hDeposits.enqueued, h.order, hStored, hFormer, List.flatMap_append, List.flatMap_append,
      hFront, List.flatMap_singleton, List.flatMap_singleton, hDeposits.received, if_pos rfl,
      List.append_assoc]
  · rw [hStored] at hNot
    rw [hOthers y ?_]
    · exact h.others y hNot
    · rintro rfl
      exact hNot (by simp [hFormer])

theorem Serial.step {event : Event} (h : Serial s) (hSuccession : Succession s) (hSound : Sound s)
    (hHeard : Heard s) (hOwn : OwnHandlers s) (hStep : s.step event = some s') : Serial s' := by
  have hNext := next_of_step hStep
  have hStored : stored s'.log = stored s.log ∨
      ∃ x, x ∉ stored s.log ∧ stored s'.log = stored s.log ++ [x] := by
    cases hStores : event.stores with
    | false => exact .inl (stored_next hNext hStores)
    | true =>
      obtain ⟨x, opened, spawned, rest, -, hTasks, rfl⟩ := start_next hNext hStores
      exact .inr ⟨x, hSound.unstored (by simp [hTasks]), stored_start s x opened spawned rest⟩
  by_cases hPop : event = .poll .pop
  · subst hPop
    cases next_cases hNext with
    | poll _ hNot => exact absurd rfl hNot
    | @pop m rest q _ _ hPop =>
      refine h.still ?_ (fun _ => rfl) hStored
      cases Polling.step_cases hPop
      rfl
  · obtain ⟨x, ms, hDeposits, hHandles⟩ := deposits_next hHeard hNext hPop
    by_cases hNone : ms = []
    · subst hNone
      refine h.still (hDeposits.enqueued.trans (List.append_nil _)) (fun y => ?_) hStored
      rw [hDeposits.received, ite_self, List.append_nil]
    · obtain ⟨hConnection, hStores⟩ := hOwn.handles hStep (hHandles hNone)
      exact h.receive hSuccession hConnection hDeposits (stored_next hNext hStores)

/-- **Connecting again mixes and loses nothing**: where handlers of the connection of
`m_pConnection` run only, the messages handed over and those in the queue are those of the
connections that were stored, one after the other and each once, and of the connection of
`m_pConnection`, the last of them, they are all that the bytes it has read ask for, but those
that a callback in progress holds back. -/
theorem serial_of_reach (h : Reach system Quiet s) :
    handed s.log ++ s.incoming.incomingMessages =
        (stored s.log).flatMap (fun x => (s.objects x).received) ∧
      (stored s.log).Nodup ∧
      ∀ x, s.connection = some x → (stored s.log).getLast? = some x ∧
        (s.objects x).received ++ (s.rest x).filterMap Effect.message? =
          (Endpoint.Start.reports (.client false) (s.endpoint x).consumed).filterMap
            Effect.message? := by
  have hAll : Serial s ∧ Succession s := by
    induction h with
    | init hInit =>
      cases hInit
      exact ⟨serial_init, succession_init⟩
    | @step s s' event prior hOk hStep ih =>
      obtain ⟨hSound, hHeard⟩ := heard_of_reach prior
      exact ⟨ih.1.step ih.2 hSound hHeard (ownHandlers_of_reach prior) hStep,
        ih.2.step hSound hHeard hStep⟩
  obtain ⟨hSerial, hSuccession⟩ := hAll
  obtain ⟨origin, hTraced⟩ := traced_of_reach h
  refine ⟨?_, hSuccession.once, fun x hSome => ⟨hSuccession.last x hSome, ?_⟩⟩
  · rw [hTraced.handed, hTraced.queue.queue]
    exact hSerial.order
  · obtain ⟨opened, k, -, hStage⟩ := hSuccession.stage x hSome
    have hReports := hStage.reports_eq
    have hEndpoint : (s.endpoint x).received =
        (s.objects x).received ++ (s.rest x).filterMap Effect.message? :=
      received_performAll _ _
    rw [← hEndpoint, Endpoint.received_eq, hReports]
    rfl

/-- The connection is lost after its first message, and the client disconnects and connects
again; the second connection receives one message too, and both are handed over. -/
def receivesTwice : List Event :=
  let connect : List Event :=
    [.app .application .connect, .create, .leave .application, .start true true, .enter,
      .run .application, .leave .application, .run .application]
  let greet x : List Event :=
    [.complete x .connected, .complete x (.read .validation1 (encode64 0)),
      .transfer x .validation2 8, .complete x (.written .validation2),
      .complete x (.read .validation3 (encode64 (Endpoint.respond (Endpoint.respond 0)))),
      .complete x (.read .validation4 (encode64 1)), .leave .context, .run .context]
  let receive x n : List Event := [.complete x (.read .header (DedicatedServer.bare n).header.bytes)]
  connect ++ greet 0 ++ receive 0 3 ++
    [.complete 0 (.readFailed .header headerSize), .app .application .disconnect,
      .run .application, .finish, .restart, .run .application] ++
    connect ++ greet 1 ++ receive 1 4 ++
    [.poll (.call 2 false), .poll .test, .poll .pop, .leave .application, .poll .test, .poll .pop]

theorem exists_receivesTwice : ∃ s, Reach system Quiet s ∧ stored s.log = [0, 1] ∧
    handed s.log = [DedicatedServer.bare 3, DedicatedServer.bare 4] := by
  obtain ⟨s, hReach, hEnd⟩ := Reach.exists_of_checked (M := system) Quiet rfl receivesTwice
    (fun s => decide (stored s.log = [0, 1] ∧
      handed s.log = [DedicatedServer.bare 3, DedicatedServer.bare 4])) (by decide)
  exact ⟨s, hReach, of_decide_eq_true hEnd⟩

theorem merged_receivesTwice : ∃ s, Reach system Quiet s ∧
    handed s.log = [DedicatedServer.bare 3, DedicatedServer.bare 4] ∧ ∃ origin, Merged s origin := by
  obtain ⟨s, hReach, -, hHanded⟩ := exists_receivesTwice
  exact ⟨s, hReach, hHanded, merged_of_reach hReach⟩

theorem serial_receivesTwice : ∃ s, Reach system Quiet s ∧ stored s.log = [0, 1] ∧
    [DedicatedServer.bare 3, DedicatedServer.bare 4] ++ s.incoming.incomingMessages =
      (s.objects 0).received ++ (s.objects 1).received := by
  obtain ⟨s, hReach, hStored, hHanded⟩ := exists_receivesTwice
  obtain ⟨hQueue, -, -⟩ := serial_of_reach hReach
  refine ⟨s, hReach, hStored, ?_⟩
  rw [hHanded, hStored] at hQueue
  simpa using hQueue

end DedicatedClient

end MinecraftNetwork
