import MinecraftNetwork.DedicatedClient.Objects
import MinecraftNetwork.Endpoint.Verdict

/-!
# What a step of the client does to a connection

As for the server, `endpoint` is a connection with the rest of its running member function
performed, and `Steps` lists what a step can do: nothing to the connections, a call or a
transfer on one of them, a handler up to the callback that gives a verdict, the rest of a
handler, or a part of `Connect`. A handler of a connection that has been destroyed does
nothing.
-/

namespace MinecraftNetwork

open Runs

namespace DedicatedClient

@[simp] theorem setTasks_tasks (s : DedicatedClient) (t : Thread) (tasks : List Task) :
    (s.setTasks t tasks).tasks t = tasks := Function.update_self ..

/-- What a notice says about a connection. -/
def Notice.moment? (x : Nat) : Notice → Option Moment
  | .call (.onConnect y) => if y = x then some .connect else none
  | .call (.onValidate y) => if y = x then some .validate else none
  | .call (.onInvalidate y) => if y = x then some .invalidate else none
  | .call (.allowConnection _) | .call (.onDisconnect _) | .call (.onMessage _) | .started _ _
  | .assigned _ _ | .entered _ _ _ | .connected _ | .failed _ => none

/-- The callbacks about a connection, in order. -/
def moments (log : List Notice) (x : Nat) : List Moment := log.filterMap (Notice.moment? x)

theorem moments_append (log new : List Notice) (x : Nat) :
    moments (log ++ new) x = moments log x ++ moments new x := List.filterMap_append

/-- What a task leaves to be done by a member function of a connection. -/
def Task.rest (x : Nat) : Task → List Effect
  | .resume y effects => if y = x then effects else []
  | .callback _ | .connect | .start _ | .greet _ | .connected _ | .stop | .join => []

def rest (s : DedicatedClient) (x : Nat) : List Effect :=
  (s.tasks .context).flatMap (Task.rest x)

/-- A connection, with the rest of its running member function performed. -/
def endpoint (s : DedicatedClient) (x : Nat) : Endpoint := (s.objects x).performAll (s.rest x)

theorem endpoint_connection (s : DedicatedClient) (x : Nat) :
    (s.endpoint x).connection = (s.objects x).connection :=
  Endpoint.performAll_connection _ _

/-- No member function of the connection is interrupted. -/
theorem rest_unresumed {s : DedicatedClient} {x : Nat}
    (h : ∀ effects, .resume x effects ∉ s.tasks .context) : s.rest x = [] := by
  rw [rest, List.flatMap_eq_nil_iff]
  intro task hMem
  cases task with
  | resume y effects =>
    refine if_neg ?_
    rintro rfl
    exact h effects hMem
  | callback | connect | start | greet | connected | stop | join => rfl

theorem rest_idle {s : DedicatedClient} (h : s.tasks .context = []) (x : Nat) : s.rest x = [] :=
  rest_unresumed fun effects hMem => by simp [h] at hMem

/-! ## A member function up to its next callback -/

/-- The effects `done` have been performed, and `tail` is left after a verdict. -/
structure Advanced (s : DedicatedClient) (x : Nat) (done tail : List Effect)
    (s' : DedicatedClient) : Prop where
  objects : s'.objects = Function.update s.objects x ((s.objects x).performAll done)
  context : (tail = [] ∧ s'.tasks .context = s.tasks .context) ∨
    (done.filterMap Effect.moment? ≠ [] ∧
      ∃ c, s'.tasks .context = .callback c :: .resume x tail :: s.tasks .context)
  moments : ∀ y, moments s'.log y =
    moments s.log y ++ if x = y then done.filterMap Effect.moment? else []
  short : (done.filterMap Effect.moment?).length ≤ 1
  assigned : ∀ y, .assigned y false ∈ s'.log → .assigned y false ∈ s.log
  application : s'.tasks .application = s.tasks .application
  connection : s'.connection = s.connection
  allocated : s'.allocated = s.allocated

section

variable {s s' : DedicatedClient} {x : Nat} {done tail : List Effect}

theorem Advanced.rest (h : Advanced s x done tail s') (y : Nat) :
    s'.rest y = (if x = y then tail else []) ++ s.rest y := by
  rcases h.context with ⟨rfl, hTasks⟩ | ⟨-, c, hTasks⟩
  · rw [ite_self, List.nil_append, DedicatedClient.rest, hTasks, DedicatedClient.rest]
  · simp [DedicatedClient.rest, hTasks, Task.rest]

/-- An effect before the others, which gives no verdict. -/
theorem Advanced.cons {s₁ : DedicatedClient} {effect : Effect} (h : Advanced s₁ x done tail s')
    (hNone : effect.moment? = none)
    (hObjects : s₁.objects = Function.update s.objects x ((s.objects x).perform effect))
    (hTasks : s₁.tasks = s.tasks) (hLog : s₁.log = s.log)
    (hConnection : s₁.connection = s.connection) (hAllocated : s₁.allocated = s.allocated) :
    Advanced s x (effect :: done) tail s' := by
  have hMoments : (effect :: done).filterMap Effect.moment? = done.filterMap Effect.moment? :=
    List.filterMap_cons_none hNone
  refine ⟨?_, ?_, fun y => ?_, ?_, ?_, ?_, h.connection.trans hConnection,
    h.allocated.trans hAllocated⟩
  · rw [h.objects, hObjects, Function.update_self, Function.update_idem]
    rfl
  · rw [hMoments, ← hTasks]
    exact h.context
  · rw [h.moments, hLog, hMoments]
  · rw [hMoments]
    exact h.short
  · rw [← hLog]
    exact h.assigned
  · rw [h.application, hTasks]

/-- A verdict, of which the application is told. -/
theorem advanced_verdict {effect : Effect} {m : Moment} {c : Callback} (tail : List Effect)
    (hEffect : effect.moment? = some m)
    (hNotice : ∀ y, (Notice.call c).moment? y = if x = y then some m else none) :
    Advanced s x [effect] tail ((s.setObject x ((s.objects x).perform effect)).call .context c
      [.resume x tail]) := by
  have hMoments : [effect].filterMap Effect.moment? = [m] := List.filterMap_cons_some hEffect
  refine ⟨rfl, .inr ⟨?_, c, ?_⟩, fun y => ?_, ?_, fun y hMem => ?_, ?_, rfl, rfl⟩
  · rw [hMoments]
    exact List.cons_ne_nil _ _
  · simp [call, DedicatedClient.notify, setTasks, setObject]
  · rw [hMoments]
    refine (moments_append _ _ y).trans (congrArg _ ?_)
    by_cases hSame : x = y <;> simp [DedicatedClient.moments, hNotice, hSame]
  · rw [hMoments, List.length_singleton]
  · simpa [call, DedicatedClient.notify, setTasks, setObject] using hMem
  · simp [call, DedicatedClient.notify, setTasks, setObject]

theorem advanced_advance (s : DedicatedClient) (x : Nat) (effects : List Effect) :
    ∃ done tail, effects = done ++ tail ∧ Advanced s x done tail (s.advance x effects) := by
  induction effects generalizing s with
  | nil =>
    refine ⟨[], [], rfl, ?_, .inl ⟨rfl, rfl⟩, fun y => ?_, Nat.zero_le _, fun _ => id, rfl, rfl, rfl⟩
    · exact (Function.update_eq_self x s.objects).symm
    · simp [advance]
  | cons effect effects ih =>
    cases effect with
    | onValidate | onInvalidate =>
      exact ⟨[_], effects, rfl, advanced_verdict effects rfl fun _ => rfl⟩
    | disconnect | emplaceBack | asyncConnect | asyncRead | asyncWrite | postClose | emptyDeque =>
      obtain ⟨done, tail, hSplit, hRest⟩ := ih _
      exact ⟨_ :: done, tail, congrArg _ hSplit, hRest.cons rfl rfl rfl rfl rfl rfl⟩

end

/-! ## Steps -/

/-- `Connect` has started the thread of the connection, and has gone on to call `OnConnect`. -/
def Called (s : DedicatedClient) (x : Nat) : Prop :=
  .assigned x false ∈ s.log ∧ .greet x ∉ s.tasks .application

instance (s : DedicatedClient) (x : Nat) : Decidable (s.Called x) :=
  inferInstanceAs (Decidable (_ ∧ _))

/-- Nothing is said about a connection, and no thread has been started. -/
def Hushed (news : List Notice) : Prop :=
  ∀ n ∈ news, (∀ x, n.moment? x = none) ∧ ∀ x, n ≠ .assigned x false

/-- `Connect` is about to call `OnConnect`, or in the call. -/
def greets (s : DedicatedClient) (x : Nat) : Prop :=
  .greet x ∈ s.tasks .application ∨ .callback (.onConnect x) ∈ s.tasks .application

/-- The task is no rest of a handler, and has nothing to do with `OnConnect`. -/
def Task.isPlain : Task → Prop
  | .resume _ _ | .greet _ | .callback (.onConnect _) => False
  | .callback (.allowConnection _) | .callback (.onDisconnect _) | .callback (.onValidate _)
  | .callback (.onInvalidate _) | .callback (.onMessage _) | .connect | .start _ | .connected _
  | .stop | .join => True

/-- No connection is made, and the application is told of none. -/
structure Calm (s s' : DedicatedClient) : Prop where
  rest : ∀ x, s'.rest x = s.rest x
  resumes : ∀ x effects, .resume x effects ∈ s'.tasks .context →
    .resume x effects ∈ s.tasks .context
  moments : ∀ x, moments s'.log x = moments s.log x
  called : ∀ x, s'.Called x → s.Called x
  greets : ∀ x, s'.greets x → s.greets x
  connection : ∀ x, s'.connection = some x → s.connection = some x
  allocated : s'.allocated = s.allocated

/-- What a step does to the connections. -/
inductive Steps (s s' : DedicatedClient) (event : Event) : Prop
  | idle (hCalm : Calm s s') (hObjects : s'.objects = s.objects)
  | outside {x : Nat} {e : Endpoint} (action : Endpoint.Event) (hCalm : Calm s s')
      (hOutside : ∀ c, action ≠ .complete c) (hAction : (s.objects x).step action = some e)
      (hObjects : s'.objects = Function.update s.objects x e)
  | handler {x : Nat} {c : Completion} {e : Endpoint} {effects : List Effect}
      (hEvent : event = .complete x c) (hReady : s.tasks .context = [])
      (hHandle : (s.objects x).handle c = some (e, effects))
      (hNext : s' = (s.setObject x e).advance x effects)
  | resume {x : Nat} {effects : List Effect} {rest : List Task}
      (hTasks : s.tasks .context = .resume x effects :: rest)
      (hNext : s' = (s.setTasks .context rest).advance x effects)
  | create {rest : List Task} (hTasks : s.tasks .application = .connect :: rest)
      (hNext : s' = s.create rest)
  | start {x : Nat} {opened spawned : Bool} {rest : List Task}
      (hTasks : s.tasks .application = .start x :: rest)
      (hNext : s' = s.start x opened spawned rest)
  | greet {x : Nat} {rest : List Task} (hTasks : s.tasks .application = .greet x :: rest)
      (hNext : s' = (s.setTasks .application rest).call .application (.onConnect x) [.connected x])

section

variable {s s' : DedicatedClient}

/-- A thread exchanges its first tasks for others, and the log grows by what is no callback
about a connection. -/
theorem Calm.exchange (t : Thread) (old new rest : List Task) (news : List Notice)
    (hTasks : s.tasks t = old ++ rest) (hOld : ∀ task ∈ old, ∀ x, task ≠ .greet x)
    (hRest : ∀ x, old.flatMap (Task.rest x) = []) (hNew : ∀ task ∈ new, task.isPlain)
    (hTasks' : s'.tasks = Function.update s.tasks t (new ++ rest)) (hLog : s'.log = s.log ++ news)
    (hNews : Hushed news) (hConnection : ∀ x, s'.connection = some x → s.connection = some x)
    (hAllocated : s'.allocated = s.allocated) : Calm s s' := by
  have hPlain : ∀ x, new.flatMap (Task.rest x) = [] := by
    intro x
    rw [List.flatMap_eq_nil_iff]
    intro task hMem
    have hFine := hNew task hMem
    cases task with
    | resume => exact hFine.elim
    | callback | connect | start | greet | connected | stop | join => rfl
  have hKept : ∀ {task : Task}, ¬ task.isPlain → task ∈ new ++ rest → task ∈ s.tasks t := by
    intro task hNot hMem
    rw [hTasks]
    exact List.mem_append_right _ ((List.mem_append.mp hMem).resolve_left fun h => hNot (hNew _ h))
  refine ⟨fun x => ?_, fun x effects hResume => ?_, fun x => ?_, ?_, fun x hGreets => ?_, hConnection,
    hAllocated⟩
  · cases t with
    | application => simp [DedicatedClient.rest, hTasks']
    | context => simp [DedicatedClient.rest, hTasks', hTasks, hRest, hPlain]
  · cases t with
    | application => simpa [hTasks'] using hResume
    | context =>
      rw [hTasks', Function.update_self] at hResume
      exact hKept id hResume
  · rw [hLog, moments_append]
    have hNone : DedicatedClient.moments news x = [] :=
      List.filterMap_eq_nil_iff.mpr fun n hMem => (hNews n hMem).1 x
    rw [hNone, List.append_nil]
  · rintro x ⟨hAssigned, hNot⟩
    constructor
    · rw [hLog, List.mem_append] at hAssigned
      exact hAssigned.resolve_right fun hMem => (hNews _ hMem).2 x rfl
    · intro hGreet
      refine hNot ?_
      cases t with
      | context => simpa [hTasks'] using hGreet
      | application =>
        rw [hTasks, List.mem_append] at hGreet
        have hLater := hGreet.resolve_left fun hMem => hOld _ hMem x rfl
        simp [hTasks', hLater]
  · cases t with
    | context => simpa [DedicatedClient.greets, hTasks'] using hGreets
    | application =>
      rw [DedicatedClient.greets, hTasks', Function.update_self] at hGreets
      exact hGreets.imp (hKept id) (hKept id)

/-- The tasks are left alone. -/
theorem Calm.keep (news : List Notice) (hTasks : s'.tasks = s.tasks) (hLog : s'.log = s.log ++ news)
    (hNews : Hushed news) (hConnection : s'.connection = s.connection)
    (hAllocated : s'.allocated = s.allocated) : Calm s s' := by
  refine .exchange .context [] [] (s.tasks .context) news rfl (by simp) (fun _ => rfl) (by simp) ?_
    hLog hNews (fun x hSome => ?_) hAllocated
  · rw [hTasks]
    exact (Function.update_eq_self _ _).symm
  · rwa [hConnection] at hSome

theorem disconnectFrom_eq (s : DedicatedClient) (x : Nat) :
    (s.disconnectFrom x).objects = Function.update s.objects x (s.objects x).disconnect ∧
      (s.disconnectFrom x).tasks = s.tasks ∧ (s.disconnectFrom x).log = s.log ∧
      (s.disconnectFrom x).connection = s.connection ∧
      (s.disconnectFrom x).allocated = s.allocated := by
  simp only [disconnectFrom]
  split <;> exact ⟨rfl, rfl, rfl, rfl, rfl⟩

/-- `Disconnect()` reaches the connection of `m_pConnection`, if any. -/
theorem steps_disconnect {event : Event} {rest : List Task}
    (hRest : ∀ task ∈ rest, task.isPlain) : Steps s (s.disconnect .application rest) event := by
  have hNews : Hushed [] := by simp [Hushed]
  simp only [disconnect]
  split
  · rename_i x _
    obtain ⟨hObjects, hTasks, hLog, hConnection, hAllocated⟩ := s.disconnectFrom_eq x
    refine .outside .disconnect ?_ (by simp) rfl hObjects
    refine .exchange .application [] (.stop :: .join :: rest) (s.tasks .application) [] rfl (by simp)
      (fun _ => rfl) ?_ ?_ ?_ hNews (fun y hSome => hConnection.symm.trans hSome) hAllocated
    · simpa [Task.isPlain] using hRest
    · simp only [setTasks, hTasks]
      rfl
    · exact hLog.trans (List.append_nil _).symm
  · refine .idle (.exchange .application [] rest (s.tasks .application) [] rfl (by simp)
      (fun _ => rfl) hRest rfl ?_ hNews (fun _ hSome => hSome) rfl) rfl
    exact (List.append_nil _).symm

theorem steps_act {t : Thread} {action : Action} {event : Event}
    (hStep : s.act t action = some s') : Steps s s' event := by
  have hNews : Hushed [] := by simp [Hushed]
  have hKeep : ∀ {s' : DedicatedClient}, s'.tasks = s.tasks → s'.log = s.log →
      s'.connection = s.connection → s'.allocated = s.allocated → Calm s s' :=
    fun hTasks hLog hConnection hAllocated =>
      .keep [] hTasks (hLog.trans (List.append_nil _).symm) hNews hConnection hAllocated
  cases act_cases hStep with
  | connect =>
    refine .idle (.exchange .application [] [.connect] (s.tasks .application) [] rfl (by simp)
      (fun _ => rfl) (by simp [Task.isPlain]) rfl ?_ hNews (fun _ hSome => hSome) rfl) rfl
    exact (List.append_nil _).symm
  | reconnect => exact steps_disconnect (by simp [Task.isPlain])
  | disconnect => exact steps_disconnect (by simp)
  | @send _ _ m | @sendTo _ _ m =>
    exact .outside (.send m) (hKeep rfl rfl rfl rfl) (by simp) rfl rfl
  | @disconnectFrom _ x =>
    obtain ⟨hObjects, hTasks, hLog, hConnection, hAllocated⟩ := s.disconnectFrom_eq x
    exact .outside .disconnect (hKeep hTasks hLog hConnection hAllocated) (by simp) rfl hObjects
  | sendNothing | keep | drop => exact .idle (hKeep rfl rfl rfl rfl) rfl

theorem isReady_idle (h : s.isReady = true) : s.tasks .context = [] := by
  simp only [isReady, Bool.and_eq_true, List.isEmpty_iff] at h
  exact h.2

/-- **Every step of the client is one of these.** -/
theorem steps_of_next {event : Event} (hStep : s.next event = some s') : Steps s s' event := by
  have hNews : Hushed [] := by simp [Hushed]
  -- tasks that are no part of `Connect` or of a handler are taken off, and what happens is noted
  have hPop : ∀ {s' : DedicatedClient} {t : Thread} (old rest : List Task) (news : List Notice),
      s.tasks t = old ++ rest → (∀ task ∈ old, ∀ x, task ≠ .greet x) →
      (∀ x, old.flatMap (Task.rest x) = []) → s'.tasks = Function.update s.tasks t rest →
      s'.log = s.log ++ news → Hushed news →
      (∀ x, s'.connection = some x → s.connection = some x) →
      s'.allocated = s.allocated → s'.objects = s.objects → Steps s s' event := by
    intro s' t old rest news hTasks hOld hRest hTasks' hLog hNews hConnection hAllocated hObjects
    exact .idle (.exchange t old [] rest news hTasks hOld hRest (by simp) hTasks' hLog hNews
      hConnection hAllocated) hObjects
  have hKeep : ∀ {s' : DedicatedClient} (news : List Notice), s'.tasks = s.tasks →
      s'.log = s.log ++ news → Hushed news → s'.connection = s.connection →
      s'.allocated = s.allocated → s'.objects = s.objects → Steps s s' event :=
    fun news hTasks hLog hNews hConnection hAllocated hObjects =>
      .idle (.keep news hTasks hLog hNews hConnection hAllocated) hObjects
  cases next_cases hStep with
  | app _ hAct => exact steps_act hAct
  | @leave t c rest hTasks =>
    exact hPop [.callback c] rest [] hTasks (by simp) (by simp [Task.rest]) rfl (by simp [setTasks])
      hNews (fun _ hSome => hSome) rfl rfl
  | @deny x y rest hTasks | @throwAllow x y rest hTasks =>
    exact hPop [.callback (.allowConnection x), .start y] rest [.failed (some x)] hTasks (by simp)
      (by simp [Task.rest]) rfl rfl (by simp [Hushed, Notice.moment?]) (fun _ hSome => hSome) rfl rfl
  | @throwMake rest hTasks =>
    exact hPop [.connect] rest [.failed none] hTasks (by simp) (by simp [Task.rest]) rfl rfl
      (by simp [Hushed, Notice.moment?]) (fun _ hSome => hSome) rfl rfl
  | @throwGreet x y rest hTasks =>
    exact hPop [.callback (.onConnect x), .connected y] rest [.failed (some x)] hTasks (by simp)
      (by simp [Task.rest]) rfl rfl (by simp [Hushed, Notice.moment?]) (fun _ hSome => hSome) rfl rfl
  | create hTasks => exact .create hTasks rfl
  | start hTasks => exact .start hTasks rfl
  | resume hTasks => exact .resume hTasks rfl
  | greet hTasks => exact .greet hTasks rfl
  | @connected x rest hTasks =>
    exact hPop [.connected x] rest [.connected x] hTasks (by simp) (by simp [Task.rest]) rfl rfl
      (by simp [Hushed, Notice.moment?]) (fun _ hSome => hSome) rfl rfl
  | @stop rest hTasks =>
    exact hPop [.stop] rest [] hTasks (by simp) (by simp [Task.rest]) rfl (by simp [setTasks])
      hNews (fun _ hSome => hSome) rfl rfl
  | @join rest hTasks =>
    exact hPop [.join] rest [] hTasks (by simp) (by simp [Task.rest]) rfl (by simp [setTasks])
      hNews (by simp) rfl rfl
  | @pop m rest q hIdle =>
    refine .idle (.exchange .application [] [.callback (.onMessage m)] [] [.call (.onMessage m)]
      hIdle (by simp) (fun _ => rfl) (by simp [Task.isPlain]) ?_ rfl
      (by simp [Hushed, Notice.moment?]) (fun _ hSome => hSome) rfl) rfl
    simp [call, setTasks, DedicatedClient.notify, hIdle]
  | @enter x =>
    exact hKeep [.entered x s.stopped s.hasWork] rfl rfl (by simp [Hushed, Notice.moment?]) rfl rfl
      rfl
  | complete hReady _ hHandle => exact .handler rfl (isReady_idle hReady) hHandle rfl
  | poll | closeSocket | runOut | finish | restart =>
    exact hKeep [] rfl (by simp) hNews rfl rfl rfl
  | @transfer x op n e _ hTransfer =>
    exact .outside (.transfer op n) (.keep [] rfl (List.append_nil _).symm hNews rfl rfl)
      (by simp) hTransfer rfl

/-! ## One connection in a step -/

/-- What is left of a handler posts nothing. -/
theorem Sound.rest_post (h : Sound s) (x : Nat) : (s.rest x).filterMap Effect.post? = [] := by
  rw [List.filterMap_eq_nil_iff]
  intro effect hMem
  obtain ⟨task, hTask, hEffect⟩ := List.mem_flatMap.mp hMem
  cases task with
  | resume y effects =>
    simp only [Task.rest] at hEffect
    split at hEffect
    · have hNot := h.resumes .context y effects hTask
      cases effect with
      | postClose => exact absurd hEffect hNot
      | asyncConnect | asyncRead | asyncWrite | onValidate | onInvalidate | disconnect
      | emplaceBack | emptyDeque => rfl
    · cases hEffect
  | callback | connect | start | greet | connected | stop | join => cases hEffect

/-- What `Connect` leaves as it was when it stores its connection. -/
theorem start_frame (s : DedicatedClient) (x : Nat) (opened spawned : Bool) (rest : List Task) :
    (s.start x opened spawned rest).objects = Function.update s.objects x
        ((s.objects x).run ((s.objects x).connection.connectToServer opened)) ∧
      (s.start x opened spawned rest).tasks .context = s.tasks .context ∧
      ((s.start x opened spawned rest).tasks .application = .greet x :: rest ∨
        (s.start x opened spawned rest).tasks .application = rest) ∧
      (s.start x opened spawned rest).connection = some x ∧
      (s.start x opened spawned rest).allocated = s.allocated := by
  simp only [DedicatedClient.start]
  split
  · simp only [assign]
    split
    · exact ⟨rfl, rfl, .inl rfl, rfl, rfl⟩
    all_goals exact ⟨rfl, rfl, .inr rfl, rfl, rfl⟩
  · exact ⟨rfl, rfl, .inr rfl, rfl, rfl⟩

/-- What a step does to one connection. -/
inductive Change (s s' : DedicatedClient) (x : Nat) : Prop
  | same (hSame : s'.endpoint x = s.endpoint x)
  | moved (action : Endpoint.Event) (hMove : (s.endpoint x).step action = some (s'.endpoint x))
  | create (hNew : x = s.allocated)
      (hObject : s'.endpoint x = (Endpoint.create .dedicatedClient false).performAll (s.rest x))
  | start (opened : Bool) (hMem : .start x ∈ s.tasks .application)
      (hObject : s'.endpoint x =
        ((s.objects x).run ((s.objects x).connection.connectToServer opened)).performAll (s.rest x))

theorem Change.of_eq {x : Nat} (hObject : s'.objects x = s.objects x)
    (hRest : s'.rest x = s.rest x) : Change s s' x := by
  refine .same ?_
  rw [endpoint, endpoint, hObject, hRest]

/-- The effects up to a callback, and then the others. -/
theorem Advanced.endpoint {x : Nat} {done tail : List Effect} {rest : List Task}
    {before : DedicatedClient} (hAdvanced : Advanced before x done tail s')
    (hBefore : before.tasks .context = rest) (y : Nat) : s'.endpoint y =
      ((before.objects y).performAll (if x = y then done ++ tail else [])).performAll
        (rest.flatMap (Task.rest y)) := by
  have hRest : before.rest y = rest.flatMap (Task.rest y) := by rw [DedicatedClient.rest, hBefore]
  rw [DedicatedClient.endpoint, hAdvanced.objects, hAdvanced.rest, hRest,
    Endpoint.performAll_append]
  by_cases hEq : x = y
  · subst hEq
    rw [if_pos rfl, if_pos rfl, Function.update_self, Endpoint.performAll_append]
  · rw [if_neg hEq, if_neg hEq, Function.update_of_ne (Ne.symm hEq)]

/-- **Every step changes a connection in one of these ways.** -/
theorem Steps.change {event : Event} (h : Steps s s' event) (hSound : Sound s) (x : Nat) :
    Change s s' x := by
  cases h with
  | idle hCalm hObjects => exact .of_eq (by rw [hObjects]) (hCalm.rest x)
  | @outside y e action hCalm hOutside hAction hObjects =>
    by_cases hEq : x = y
    · subst hEq
      refine .moved action ?_
      rw [endpoint, endpoint, hCalm.rest, hObjects, Function.update_self]
      exact Endpoint.step_performAll hOutside (hSound.rest_post x) hAction
    · refine .of_eq ?_ (hCalm.rest x)
      rw [hObjects, Function.update_of_ne hEq]
  | @handler y c e effects hEvent hReady hHandle hNext =>
    obtain ⟨done, tail, rfl, hAdvanced⟩ := advanced_advance (s.setObject y e) y effects
    rw [← hNext] at hAdvanced
    have hEndpoint := hAdvanced.endpoint hReady x
    by_cases hEq : y = x
    · subst hEq
      rw [if_pos rfl] at hEndpoint
      refine .moved (.complete c) ?_
      rw [hEndpoint, endpoint, rest_idle hReady]
      simp only [Endpoint.step, Option.map_eq_some_iff]
      refine ⟨_, hHandle, ?_⟩
      simp [setObject, Endpoint.performAll]
    · refine .same ?_
      rw [hEndpoint, if_neg hEq, endpoint, rest_idle hReady]
      simp [setObject, Ne.symm hEq, Endpoint.performAll]
  | @resume y effects rest hTasks hNext =>
    obtain ⟨done, tail, rfl, hAdvanced⟩ := advanced_advance (s.setTasks .context rest) y effects
    rw [← hNext] at hAdvanced
    have hEndpoint := hAdvanced.endpoint (setTasks_tasks ..) x
    refine .same (hEndpoint.trans ?_)
    rw [endpoint, DedicatedClient.rest, hTasks, List.flatMap_cons, Endpoint.performAll_append]
    rfl
  | @create rest hTasks hNext =>
    subst hNext
    have hRest : (s.create rest).rest x = s.rest x := by
      simp [DedicatedClient.rest, DedicatedClient.create, call, DedicatedClient.notify, setTasks,
        setObject]
    by_cases hEq : x = s.allocated
    · refine .create hEq ?_
      subst hEq
      have hObject : (s.create rest).objects s.allocated = .create .dedicatedClient false :=
        Function.update_self ..
      rw [endpoint, hRest, hObject]
    · exact .of_eq (Function.update_of_ne hEq _ _) hRest
  | @start y opened spawned rest hTasks hNext =>
    subst hNext
    obtain ⟨hObjects, hContext, -⟩ := start_frame s y opened spawned rest
    have hRest : (s.start y opened spawned rest).rest x = s.rest x := by
      rw [DedicatedClient.rest, hContext, DedicatedClient.rest]
    by_cases hEq : x = y
    · subst hEq
      refine .start opened ?_ ?_
      · rw [hTasks]
        exact List.mem_cons_self
      · rw [endpoint, hRest, hObjects, Function.update_self]
    · refine .of_eq ?_ hRest
      rw [hObjects, Function.update_of_ne hEq]
  | @greet y rest hTasks hNext =>
    subst hNext
    refine .of_eq rfl ?_
    simp [DedicatedClient.rest, call, DedicatedClient.notify, setTasks]

end

end DedicatedClient

end MinecraftNetwork
