import MinecraftNetwork.DedicatedClient.Steps
import MinecraftNetwork.DedicatedServer.Courtesy

/-!
# The callbacks of the client about a connection

`Connect` calls `OnConnect` on the thread of the application, after it has started the thread
of the context, and the handshake runs on that thread. What the application hears of the
connections is what they have given, in every run (`heard_of_reach`), but a fast handshake is
over before `OnConnect` is called (`verdict_before_onConnect`). The callbacks come in order in
the runs in which no handler gives a verdict before `Connect` has gone on to call it (`Greeted`),
as they do on the server in every run.
-/

namespace MinecraftNetwork

open Runs LittleEndian

namespace DedicatedClient

/-! ## The connections of a run -/

/-- A connection of the client: created, or given to `ConnectToServer`. -/
inductive Alive (e : Endpoint) : Prop
  | created (hWaits : e.Waits none)
      (hDialogue : e.dialogue = (Endpoint.create .dedicatedClient false).dialogue)
  | admitted {opened : Bool} (hStage : Endpoint.InStage (.client opened) e)
      (hOwner : e.connection.hasConnectable = true)

section

variable {e e' : Endpoint}

theorem verdicts_congr (h : e'.dialogue = e.dialogue) : e'.verdicts = e.verdicts := by
  rw [Endpoint.verdicts_eq, Endpoint.verdicts_eq, h]

theorem alive_create : Alive (Endpoint.create .dedicatedClient false) :=
  .created ⟨rfl, rfl, fun _ _ => rfl⟩ rfl

/-- A chain that waits for nothing is left alone. -/
theorem dialogue_idle {event : Endpoint.Event} (hWaits : e.Waits none)
    (hStep : e.step event = some e') : e'.Waits none ∧ e'.dialogue = e.dialogue := by
  by_cases hFrame : event.isFrame = true
  · obtain ⟨hDialogue, hKeep⟩ := Endpoint.step_frame hFrame hStep
    exact ⟨hKeep none hWaits, hDialogue⟩
  · cases event with
    | complete c =>
      have hMain : c.isMain = true := by simpa [Endpoint.Event.isFrame] using hFrame
      obtain ⟨hPending, -⟩ := Endpoint.step_main hWaits hMain hStep
      cases c <;> cases hPending
      cases hMain
    | send | disconnect | transfer => exact absurd rfl hFrame

theorem Alive.step {event : Endpoint.Event} (h : Alive e) (hStep : e.step event = some e') :
    Alive e' := by
  have hOwner' := Endpoint.step_hasConnectable hStep
  cases h with
  | created hWaits hDialogue =>
    obtain ⟨hWaits', hSame⟩ := dialogue_idle hWaits hStep
    exact .created hWaits' (hSame.trans hDialogue)
  | admitted hStage hOwner => exact .admitted (hStage.step hStep) (hOwner'.trans hOwner)

/-- A verdict is given on a connection with an owner, and one at most. -/
theorem Alive.verdicts (h : Alive e) :
    e.verdicts.length ≤ 1 ∧ (e.verdicts ≠ [] → e.connection.hasConnectable = true) := by
  cases h with
  | created _ hDialogue =>
    have hNone : e.verdicts = [] := verdicts_congr hDialogue
    exact ⟨by simp [hNone], fun hSome => absurd hNone hSome⟩
  | admitted hStage hOwner => exact ⟨hStage.verdicts, fun _ => hOwner⟩

/-- `ConnectToServer` begins the handshake of a new connection. -/
theorem Alive.connectToServer (opened : Bool) (h : Alive e)
    (hNew : e.connection.hasConnectable = false) :
    Endpoint.InStage (.client opened) (e.run (e.connection.connectToServer opened)) ∧
      (e.run (e.connection.connectToServer opened)).connection.hasConnectable = true ∧
      (e.run (e.connection.connectToServer opened)).verdicts = e.verdicts := by
  cases h with
  | admitted _ hOwner =>
    rw [hNew] at hOwner
    cases hOwner
  | created hWaits hDialogue =>
    have hCore : e.connection.core = (Endpoint.create .dedicatedClient false).connection.core :=
      congrArg Dialogue.connection hDialogue
    have hOwner : e.connection.owner = .dedicatedClient := congrArg Connection.owner hCore
    have hRun : e.run (e.connection.connectToServer opened) = e.run
        ({ e.connection with hasConnectable := true, isOpen := opened }, [.asyncConnect]) := by
      simp only [Connection.connectToServer, hOwner, if_true]
    rw [hRun]
    have hStart : (e.run ({ e.connection with hasConnectable := true, isOpen := opened },
        [.asyncConnect])).dialogue = (Endpoint.start [] (.client opened)).dialogue := by
      have hConnection : ({ e.connection with hasConnectable := true, isOpen := opened }
          : Connection).core = (Endpoint.start [] (.client opened)).connection.core :=
        congrArg (fun c : Connection => { c with hasConnectable := true }) hCore
      have hHistory : talk e.history = [] := congrArg Dialogue.history hDialogue
      have hConsumed : e.consumed = [] := congrArg Dialogue.consumed hDialogue
      have hEnded : e.ended = false := congrArg Dialogue.ended hDialogue
      simp only [Endpoint.run, Endpoint.dialogue, Endpoint.performAll_connection,
        Endpoint.performAll_consumed, Endpoint.performAll_history, Endpoint.performAll_ended,
        talk_append, hHistory, hConsumed, hEnded, hConnection]
      rfl
    refine ⟨⟨some .connect, ?_, ?_⟩, ?_, ?_⟩
    · exact Endpoint.Waits.performAll ⟨hWaits.connecting, hWaits.reading, hWaits.writing⟩ rfl
    · rw [hStart]
      exact .connect rfl rfl ⟨rfl, rfl, rfl, rfl, rfl, rfl⟩
    · rw [Endpoint.run, Endpoint.performAll_connection]
    · rw [Endpoint.run, Endpoint.performAll_verdicts]
      exact List.append_nil _

end

/-! ## What the application hears -/

/-- What the application has heard of the connections is what they have given, and a handler
is interrupted by a verdict only. -/
structure Heard (s : DedicatedClient) : Prop where
  alive : ∀ x, Alive (s.endpoint x)
  known : ∀ x, (s.objects x).connection.hasConnectable = true → x < s.allocated
  heard : ∀ x, (moments s.log x).filter Moment.isVerdict = (s.objects x).verdicts
  called : ∀ x, s.Called x → .connect ∈ moments s.log x
  paused : ∀ x effects, .resume x effects ∈ s.tasks .context → (s.objects x).verdicts ≠ []

variable {s s' : DedicatedClient}

theorem heard_init : Heard {} := by
  refine ⟨fun _ => alive_create, fun x hYes => ?_, fun _ => rfl, fun x hCalled => ?_,
    fun x effects hMem => ?_⟩
  · cases hYes
  · obtain ⟨hAssigned, -⟩ := hCalled
    cases hAssigned
  · cases hMem

theorem endpoint_verdicts (s : DedicatedClient) (x : Nat) : (s.endpoint x).verdicts =
    (s.objects x).verdicts ++ (s.rest x).filterMap Effect.moment? :=
  Endpoint.performAll_verdicts _ _

theorem Heard.verdicts_le (h : Heard s) (x : Nat) : (s.objects x).verdicts.length ≤ 1 := by
  have hAll := (h.alive x).verdicts.1
  rw [endpoint_verdicts, List.length_append] at hAll
  omega

theorem Heard.rest_nil (h : Heard s) {x : Nat} (hNone : (s.objects x).verdicts = []) :
    s.rest x = [] :=
  rest_unresumed fun effects hMem => h.paused x effects hMem hNone

/-- A connection without an owner has given no verdict, and none of its handlers is running. -/
theorem Heard.unknown (h : Heard s) {x : Nat}
    (hNot : (s.objects x).connection.hasConnectable = false) :
    (s.objects x).verdicts = [] ∧ s.rest x = [] := by
  have hNone : (s.endpoint x).verdicts = [] := by
    by_contra hSome
    have hYes := (h.alive x).verdicts.2 hSome
    rw [endpoint_connection, hNot] at hYes
    cases hYes
  rw [endpoint_verdicts, List.append_eq_nil_iff] at hNone
  exact ⟨hNone.1, h.rest_nil hNone.1⟩

theorem Heard.new (h : Heard s) : (s.objects s.allocated).connection.hasConnectable = false := by
  by_contra hYes
  exact Nat.lt_irrefl _ (h.known s.allocated (by simpa using hYes))

/-- `Connect` is about to call `ConnectToServer`: the connection has no owner. -/
theorem Sound.unowned (h : Sound s) {x : Nat} (hMem : .start x ∈ s.tasks .application) :
    (s.objects x).connection.hasConnectable = false :=
  (h.fresh x (List.mem_filterMap.mpr ⟨_, hMem, rfl⟩)).2

/-- `ConnectToServer` of a connection that `Connect` has made. -/
theorem Heard.connectToServer (opened : Bool) (h : Heard s) (hSound : Sound s) {x : Nat}
    (hMem : .start x ∈ s.tasks .application) : ∃ e, e = (s.objects x).run
      ((s.objects x).connection.connectToServer opened) ∧ Endpoint.InStage (.client opened) e ∧
        e.connection.hasConnectable = true ∧ e.verdicts = (s.objects x).verdicts := by
  have hNot := hSound.unowned hMem
  have hAlive := h.alive x
  rw [endpoint, (h.unknown hNot).2] at hAlive
  exact ⟨_, rfl, hAlive.connectToServer opened hNot⟩

/-- The rest of a handler gives no second verdict. -/
theorem Heard.rest_silent (h : Heard s) {x : Nat} {effects : List Effect} {rest : List Task}
    (hTasks : s.tasks .context = .resume x effects :: rest) :
    effects.filterMap Effect.moment? = [] := by
  have hRest : s.rest x = effects ++ rest.flatMap (Task.rest x) := by
    simp [DedicatedClient.rest, hTasks, Task.rest]
  have hAll := (h.alive x).verdicts.1
  rw [endpoint_verdicts, hRest, List.filterMap_append, List.length_append, List.length_append] at hAll
  have hFirst := List.length_pos_iff.mpr (h.paused x effects (by simp [hTasks]))
  exact List.length_eq_zero_iff.mp (by omega)

/-- Every step leaves a connection alive. -/
theorem Heard.alive_change (h : Heard s) (hSound : Sound s) {x : Nat} (hChange : Change s s' x) :
    Alive (s'.endpoint x) := by
  have hAlive := h.alive x
  cases hChange with
  | same hSame =>
    rw [hSame]
    exact hAlive
  | moved action hMove => exact hAlive.step hMove
  | create hNew hObject =>
    subst hNew
    rw [hObject, (h.unknown h.new).2]
    exact alive_create
  | start opened hMem hObject =>
    obtain ⟨e, he, hStage, hOwner, -⟩ := h.connectToServer opened hSound hMem
    rw [hObject, (h.unknown (hSound.unowned hMem)).2, ← he]
    exact .admitted hStage hOwner

/-- What the application hears of a connection in a step, and what the connection gives. -/
structure Tells (s s' : DedicatedClient) (x : Nat) (new : List Moment) : Prop where
  moments : moments s'.log x = moments s.log x ++ new
  verdicts : (s'.objects x).verdicts = (s.objects x).verdicts ++ new.filter Moment.isVerdict
  known : (s'.objects x).connection.hasConnectable = true → x < s'.allocated
  called : s'.Called x → s.Called x ∨ .connect ∈ new
  paused : ∀ effects, .resume x effects ∈ s'.tasks .context → (s'.objects x).verdicts ≠ []

theorem Heard.tells (h : Heard s) (hAlive : ∀ x, Alive (s'.endpoint x))
    (hTells : ∀ x, ∃ new, Tells s s' x new) : Heard s' := by
  refine ⟨hAlive, fun x => ?_, fun x => ?_, fun x hCalled => ?_, fun x => ?_⟩ <;>
    obtain ⟨new, hNew⟩ := hTells x
  · exact hNew.known
  · rw [hNew.moments, List.filter_append, h.heard, hNew.verdicts]
  · rw [hNew.moments, List.mem_append]
    exact (hNew.called hCalled).imp_left (h.called x)
  · exact hNew.paused

/-- Nothing is heard of a connection. -/
theorem Heard.silent (h : Heard s) {x : Nat} (hCalm : Calm s s')
    (hVerdicts : (s'.objects x).verdicts = (s.objects x).verdicts)
    (hOwner : (s'.objects x).connection.hasConnectable =
      (s.objects x).connection.hasConnectable) : Tells s s' x [] := by
  refine ⟨?_, ?_, fun hYes => ?_, fun hCalled => .inl (hCalm.called x hCalled),
    fun effects hMem => ?_⟩
  · rw [hCalm.moments, List.append_nil]
  · rw [hVerdicts]
    exact (List.append_nil _).symm
  · rw [hOwner] at hYes
    rw [hCalm.allocated]
    exact h.known x hYes
  · rw [hVerdicts]
    exact h.paused x effects (hCalm.resumes x effects hMem)

/-- A handler, or the rest of one, up to its next callback. -/
theorem Heard.advanced (h : Heard s) {before : DedicatedClient} {x : Nat} {done tail : List Effect}
    (hAdvanced : Advanced before x done tail s') (hLog : before.log = s.log)
    (hAllocated : before.allocated = s.allocated)
    (hApplication : before.tasks .application = s.tasks .application)
    (hContext : ∀ y effects, .resume y effects ∈ before.tasks .context →
      .resume y effects ∈ s.tasks .context)
    (hVerdicts : ∀ y, (before.objects y).verdicts = (s.objects y).verdicts)
    (hOwner : ∀ y, (before.objects y).connection.hasConnectable =
      (s.objects y).connection.hasConnectable) (y : Nat) :
    Tells s s' y (if x = y then done.filterMap Effect.moment? else []) := by
  have hNew : (s'.objects y).verdicts =
      (s.objects y).verdicts ++ if x = y then done.filterMap Effect.moment? else [] := by
    rw [hAdvanced.objects]
    by_cases hEq : x = y
    · subst hEq
      rw [Function.update_self, Endpoint.performAll_verdicts, hVerdicts, if_pos rfl]
    · rw [Function.update_of_ne (Ne.symm hEq), hVerdicts, if_neg hEq, List.append_nil]
  have hAll : ∀ m ∈ (if x = y then done.filterMap Effect.moment? else []), m.isVerdict = true := by
    intro m hMem
    refine Endpoint.verdicts_isVerdict (e := s'.objects y) ?_
    rw [hNew]
    exact List.mem_append_right _ hMem
  refine ⟨?_, ?_, fun hYes => ?_, ?_, fun effects hMem => ?_⟩
  · rw [hAdvanced.moments, hLog]
  · rw [hNew, List.filter_eq_self.mpr hAll]
  · rw [hAdvanced.allocated, hAllocated]
    refine h.known y ?_
    rw [← hOwner]
    by_cases hEq : x = y
    · subst hEq
      rwa [hAdvanced.objects, Function.update_self, Endpoint.performAll_connection] at hYes
    · rwa [hAdvanced.objects, Function.update_of_ne (Ne.symm hEq)] at hYes
  · rintro ⟨hAssigned, hGreet⟩
    rw [hAdvanced.application, hApplication] at hGreet
    have hOld := hAdvanced.assigned y hAssigned
    rw [hLog] at hOld
    exact .inl ⟨hOld, hGreet⟩
  · have hBefore : .resume y effects ∈ before.tasks .context → (s'.objects y).verdicts ≠ [] := by
      intro hOld
      rw [hNew]
      exact List.append_ne_nil_of_left_ne_nil (h.paused y effects (hContext y effects hOld)) _
    rcases hAdvanced.context with ⟨-, hTasks⟩ | ⟨hSome, c, hTasks⟩
    · rw [hTasks] at hMem
      exact hBefore hMem
    · simp only [hTasks, List.mem_cons, reduceCtorEq, false_or, Task.resume.injEq] at hMem
      rcases hMem with ⟨rfl, -⟩ | hOld
      · rw [hNew, if_pos rfl]
        exact List.append_ne_nil_of_right_ne_nil _ hSome
      · exact hBefore hOld

/-! ## Steps -/

/-- `make_shared`, and the call of `AllowConnection`. -/
theorem Heard.create (h : Heard s) {rest : List Task}
    (hTasks : s.tasks .application = .connect :: rest) (x : Nat) : Tells s (s.create rest) x [] := by
  have hThis : (s.create rest).objects s.allocated = .create .dedicatedClient false :=
    Function.update_self ..
  have hOther : x ≠ s.allocated → (s.create rest).objects x = s.objects x :=
    fun hNe => Function.update_of_ne hNe _ _
  have hVerdicts : ((s.create rest).objects x).verdicts = (s.objects x).verdicts := by
    by_cases hEq : x = s.allocated
    · subst hEq
      rw [hThis, (h.unknown h.new).1]
      rfl
    · rw [hOther hEq]
  refine ⟨?_, ?_, fun hYes => Nat.lt_succ_of_lt (h.known x ?_), ?_, fun effects hMem => ?_⟩
  · simp [DedicatedClient.create, call, DedicatedClient.notify, setTasks, setObject, moments,
      Notice.moment?]
  · rw [hVerdicts]
    exact (List.append_nil _).symm
  · by_cases hEq : x = s.allocated
    · subst hEq
      rw [hThis] at hYes
      cases hYes
    · rwa [hOther hEq] at hYes
  · rintro ⟨hAssigned, hGreet⟩
    refine .inl ⟨?_, fun hMem => hGreet ?_⟩
    · simpa [DedicatedClient.create, call, DedicatedClient.notify, setTasks, setObject]
        using hAssigned
    · rw [hTasks] at hMem
      simpa [DedicatedClient.create, call, DedicatedClient.notify, setTasks, setObject] using hMem
  · rw [hVerdicts]
    refine h.paused x effects ?_
    simpa [DedicatedClient.create, call, DedicatedClient.notify, setTasks, setObject] using hMem

/-- What `Connect` says when it stores its connection. -/
theorem start_log (s : DedicatedClient) (x : Nat) (opened spawned : Bool) (rest : List Task) :
    (∀ y, moments (s.start x opened spawned rest).log y = moments s.log y) ∧
      ∀ y, .assigned y false ∈ (s.start x opened spawned rest).log →
        .assigned y false ∈ s.log ∨ .greet y ∈ (s.start x opened spawned rest).tasks .application := by
  have hMore : ∀ n : Notice, (∀ y, n.moment? y = none) → ∀ y,
      moments (((s.setTasks .application rest).store x opened).notify n).log y =
        moments s.log y := by
    intro n hNone y
    have hStarted : moments (s.log ++ [.started x opened]) y = moments s.log y :=
      (moments_append _ _ y).trans (List.append_nil _)
    refine (moments_append _ _ y).trans ((congrArg (· ++ _) hStarted).trans ?_)
    simp [moments, hNone]
  have hOld : ∀ n : Notice, (∀ y, n ≠ .assigned y false) → ∀ y,
      .assigned y false ∈ (((s.setTasks .application rest).store x opened).notify n).log →
        .assigned y false ∈ s.log := by
    intro n hNot y hMem
    have hNe := (hNot y).symm
    simpa [store, DedicatedClient.notify, setTasks, setObject, hNe] using hMem
  simp only [DedicatedClient.start]
  split
  · simp only [assign]
    split
    · refine ⟨hMore _ fun _ => rfl, fun y hAssigned => ?_⟩
      rcases List.mem_append.mp hAssigned with hMem | hNew
      · left
        simpa [store, DedicatedClient.notify, setTasks, setObject] using hMem
      · obtain rfl : y = x := by simpa using hNew
        right
        simp [setTasks]
    all_goals exact ⟨hMore _ fun _ => rfl, fun y hAssigned => .inl (hOld _ (by simp) y hAssigned)⟩
  · exact ⟨hMore _ fun _ => rfl, fun y hAssigned => .inl (hOld _ (by simp) y hAssigned)⟩

/-- `m_pConnection = newConnection` and `ConnectToServer`, and the thread. -/
theorem Heard.start (opened spawned : Bool) (h : Heard s) (hSound : Sound s) {x : Nat}
    {rest : List Task} (hTasks : s.tasks .application = .start x :: rest) (y : Nat) :
    Tells s (s.start x opened spawned rest) y [] := by
  have hMem : .start x ∈ s.tasks .application := by simp [hTasks]
  obtain ⟨hAllocated, hNot⟩ := hSound.fresh x (by simp [starts, hTasks, Task.start?])
  obtain ⟨e, he, -, -, hSame⟩ := h.connectToServer opened hSound hMem
  obtain ⟨hObjects, hContext, hKept, -, hCount⟩ := start_frame s x opened spawned rest
  obtain ⟨hMoments, hAssigned⟩ := start_log s x opened spawned rest
  generalize s.start x opened spawned rest = s' at hObjects hContext hKept hCount hMoments hAssigned ⊢
  have hVerdicts : (s'.objects y).verdicts = (s.objects y).verdicts := by
    rw [hObjects]
    by_cases hEq : y = x
    · subst hEq
      rw [Function.update_self, ← he]
      exact hSame
    · rw [Function.update_of_ne hEq]
  refine ⟨?_, ?_, fun hYes => ?_, ?_, fun effects hMem => ?_⟩
  · rw [hMoments, List.append_nil]
  · rw [hVerdicts]
    exact (List.append_nil _).symm
  · rw [hCount]
    by_cases hEq : y = x
    · subst hEq
      exact hAllocated
    · rw [hObjects, Function.update_of_ne hEq] at hYes
      exact h.known y hYes
  · rintro ⟨hYes, hGreet⟩
    refine .inl ⟨(hAssigned y hYes).resolve_right hGreet, fun hMem => hGreet ?_⟩
    rw [hTasks, List.mem_cons] at hMem
    have hLater := hMem.resolve_left (by simp)
    rcases hKept with hKept | hKept <;> rw [hKept]
    · exact List.mem_cons_of_mem _ hLater
    · exact hLater
  · rw [hVerdicts]
    rw [hContext] at hMem
    exact h.paused y effects hMem

/-- The call of `OnConnect`. -/
theorem Heard.greet (h : Heard s) {x : Nat} {rest : List Task}
    (hTasks : s.tasks .application = .greet x :: rest) (y : Nat) :
    Tells s ((s.setTasks .application rest).call .application (.onConnect x) [.connected x]) y
      (if x = y then [.connect] else []) := by
  refine ⟨?_, ?_, h.known y, ?_, fun effects hMem => h.paused y effects ?_⟩
  · refine (moments_append _ _ y).trans (congrArg _ ?_)
    by_cases hEq : x = y <;> simp [moments, Notice.moment?, hEq]
  · have hNone : (if x = y then [Moment.connect] else []).filter Moment.isVerdict = [] := by
      split <;> rfl
    rw [hNone]
    exact (List.append_nil _).symm
  · rintro ⟨hAssigned, hGreet⟩
    by_cases hEq : x = y
    · exact .inr (by simp [hEq])
    · refine .inl ⟨?_, fun hMem => hGreet ?_⟩
      · simpa [call, DedicatedClient.notify, setTasks] using hAssigned
      · rw [hTasks, List.mem_cons, Task.greet.injEq] at hMem
        have hLater := hMem.resolve_left (Ne.symm hEq)
        simp [call, DedicatedClient.notify, setTasks, hLater]
  · simpa [call, DedicatedClient.notify, setTasks] using hMem

/-- The connection whose verdict the step gives. -/
def judged (s : DedicatedClient) : Event → Option Nat
  | .complete x c => if c.judges (s.objects x).connection then some x else none
  | _ => none

/-- The promise: when a verdict is given on a connection, `Connect` has gone on to call
`OnConnect`. -/
def Greeted (s : DedicatedClient) (event : Event) : Prop := ∀ x ∈ s.judged event, s.Called x

instance (s : DedicatedClient) (event : Event) : Decidable (s.Greeted event) :=
  inferInstanceAs (Decidable (∀ x ∈ s.judged event, _))

/-- A handler that gives a verdict judges its peer. -/
theorem judged_of_handle {x : Nat} {c : Completion} {e : Endpoint} {done tail : List Effect}
    (hHandle : (s.objects x).handle c = some (e, done ++ tail))
    (hSome : done.filterMap Effect.moment? ≠ []) : s.judged (.complete x c) = some x := by
  refine if_pos ?_
  by_contra hNot
  have hNone := Endpoint.handle_judges hHandle (by simpa using hNot)
  rw [List.filterMap_append, List.append_eq_nil_iff] at hNone
  exact hSome hNone.1

/-- **What the application hears of a connection in a step**: one callback at most, and a
verdict from the handler that gives it. -/
theorem Heard.says {event : Event} (h : Heard s) (hSound : Sound s)
    (hSteps : Steps s s' event) (x : Nat) :
    ∃ new, Tells s s' x new ∧ new.length ≤ 1 ∧
      ∀ m ∈ new, m.isVerdict = true → s.judged event = some x := by
  have hSilent : Tells s s' x [] → ∃ new, Tells s s' x new ∧ new.length ≤ 1 ∧
      ∀ m ∈ new, m.isVerdict = true → s.judged event = some x :=
    fun hTells => ⟨[], hTells, Nat.zero_le _, by simp⟩
  cases hSteps with
  | idle hCalm hObjects =>
    exact hSilent (h.silent hCalm (by rw [hObjects]) (by rw [hObjects]))
  | @outside y e action hCalm hOutside hAction hObjects =>
    refine hSilent ?_
    by_cases hEq : x = y
    · subst hEq
      refine h.silent hCalm ?_ ?_ <;> rw [hObjects, Function.update_self]
      · exact Endpoint.step_verdicts hOutside hAction
      · exact Endpoint.step_hasConnectable hAction
    · refine h.silent hCalm ?_ ?_ <;> rw [hObjects, Function.update_of_ne hEq]
  | @handler y c e effects hEvent hReady hHandle hNext =>
    obtain ⟨done, tail, rfl, hAdvanced⟩ := advanced_advance (s.setObject y e) y effects
    rw [← hNext] at hAdvanced
    have hObject : ∀ z, ((s.setObject y e).objects z).verdicts = (s.objects z).verdicts ∧
        ((s.setObject y e).objects z).connection.hasConnectable =
          (s.objects z).connection.hasConnectable := by
      intro z
      by_cases hEq : z = y
      · subst hEq
        simp only [setObject, Function.update_self]
        exact ⟨Endpoint.handle_verdicts hHandle, Endpoint.handle_hasConnectable hHandle⟩
      · simp [setObject, hEq]
    refine ⟨_, h.advanced hAdvanced rfl rfl rfl (fun _ _ => id) (fun z => (hObject z).1)
      (fun z => (hObject z).2) x, ?_, fun m hMem _ => ?_⟩
    · split
      · exact hAdvanced.short
      · exact Nat.zero_le _
    · split at hMem
      · rename_i hEq
        subst hEq
        rw [hEvent]
        exact judged_of_handle hHandle (List.ne_nil_of_mem hMem)
      · cases hMem
  | @resume y effects rest hTasks hNext =>
    obtain ⟨done, tail, rfl, hAdvanced⟩ := advanced_advance (s.setTasks .context rest) y effects
    rw [← hNext] at hAdvanced
    have hNone := h.rest_silent hTasks
    rw [List.filterMap_append, List.append_eq_nil_iff] at hNone
    have hTells := h.advanced hAdvanced rfl rfl rfl (fun z effects hMem => by
      rw [hTasks]
      exact List.mem_cons_of_mem _ (by simpa [setTasks] using hMem)) (fun _ => rfl) (fun _ => rfl) x
    rw [hNone.1, ite_self] at hTells
    exact hSilent hTells
  | @create rest hTasks hNext =>
    subst hNext
    exact hSilent (h.create hTasks x)
  | @start y opened spawned rest hTasks hNext =>
    subst hNext
    exact hSilent (h.start opened spawned hSound hTasks x)
  | @greet y rest hTasks hNext =>
    subst hNext
    refine ⟨_, h.greet hTasks x, ?_, fun m hMem hVerdict => ?_⟩
    · split
      · exact Nat.le_refl _
      · exact Nat.zero_le _
    · split at hMem
      · rw [List.mem_singleton.mp hMem] at hVerdict
        cases hVerdict
      · cases hMem

theorem Heard.step {event : Event} (h : Heard s) (hSound : Sound s)
    (hStep : s.step event = some s') : Heard s' := by
  have hSteps := steps_of_next (next_of_step hStep)
  refine h.tells (fun x => h.alive_change hSound (hSteps.change hSound x)) fun x => ?_
  obtain ⟨new, hTells, -⟩ := h.says hSound hSteps x
  exact ⟨new, hTells⟩

theorem heard_of_reach {ok : DedicatedClient → Event → Prop} (h : Reach system ok s) :
    Sound s ∧ Heard s := by
  refine h.invariant (I := fun s => Sound s ∧ Heard s) ?_ ?_
  · rintro _ rfl
    exact ⟨sound_init, heard_init⟩
  · rintro s event s' ⟨hSound, hHeard⟩ _ hStep
    exact ⟨hSound.next (next_of_step hStep), hHeard.step hSound hStep⟩

/-- **The client is courteous where `Connect` calls `OnConnect` in time.** -/
theorem courteous_moments (h : Reach system Greeted s) (x : Nat) :
    Courteous (moments s.log x) := by
  induction h with
  | init hInit =>
    cases hInit
    exact courteous_nil
  | @step s s' event prior hGreeted hStep ih =>
    obtain ⟨hSound, hHeard⟩ := heard_of_reach prior
    obtain ⟨new, hTells, hShort, hJudged⟩ :=
      hHeard.says hSound (steps_of_next (next_of_step hStep)) x
    have hCount := (hHeard.step hSound hStep).verdicts_le x
    rw [← (hHeard.step hSound hStep).heard x] at hCount
    rw [hTells.moments] at hCount ⊢
    cases new with
    | nil =>
      rw [List.append_nil]
      exact ih
    | cons m others =>
      obtain rfl : others = [] := List.length_eq_zero_iff.mp (by simpa using hShort)
      refine ih.append (fun hVerdict => hHeard.called x (hGreeted x ?_)) hCount
      exact hJudged m (List.mem_singleton_self m) hVerdict

/-- `Connect`, up to the start of the thread. -/
def connecting : List Event :=
  [.app .application .connect, .create, .leave .application, .start true true, .enter]

/-- The handshake of the first connection, with a server that gives it the identifier 1. -/
def handshake : List Event :=
  let answer := Endpoint.respond 0
  [.complete 0 .connected, .complete 0 (.read .validation1 (encode64 0)),
    .transfer 0 .validation2 8, .complete 0 (.written .validation2),
    .complete 0 (.read .validation3 (encode64 (Endpoint.respond answer))),
    .complete 0 (.read .validation4 (encode64 1))]

end DedicatedClient

/-! ## Both endpoints -/

/-- A client that the server accepts, up to the verdict. -/
def accepted : List DedicatedServer.Event :=
  [.accept, .allow 0, .leave .context, .transfer 0 .validation1 8,
    .complete 0 (.written .validation1),
    .complete 0 (.read .validation2 (encode64 (Endpoint.respond 0)))]

end MinecraftNetwork
