import MinecraftNetwork.DedicatedServer.Basic
import MinecraftNetwork.Endpoint.Interleaving

/-!
# What a step of the server does to a connection

While a callback of a connection is running, the rest of the member function that made it
waits on the stack. `endpoint` is the connection with this rest performed: in these terms
every step of the server is a step of `Endpoint` on one connection and leaves the others
alone (`Change`), so the invariants of `Endpoint` hold of every connection (`Alive`).
-/

namespace MinecraftNetwork

/-! ## The connection behind a running callback -/

/-- What a task leaves to be done by a member function of a connection. -/
def Task.rest (x : Nat) : Task → List Effect
  | .resume y effects => if y = x then effects else []
  | .callback _ | .erase _ | .messageAll _ _ _ _ _ | .reset _ _ | .release _ => []

/-- The connection whose `AllowConnection` a task is in. -/
def Task.opening? : Task → Option Nat
  | .callback (.allowConnection x) => some x
  | .callback (.onConnect _) | .callback (.onDisconnect _) | .callback (.onValidate _)
  | .callback (.onInvalidate _) | .callback (.onMessage _ _) | .resume _ _ | .erase _
  | .messageAll _ _ _ _ _ | .reset _ _ | .release _ => none

namespace Task

/-- A task that is neither the rest of a member function nor an `AllowConnection`. -/
def isPlain : Task → Bool
  | .resume _ _ | .callback (.allowConnection _) => false
  | .callback (.onConnect _) | .callback (.onDisconnect _) | .callback (.onValidate _)
  | .callback (.onInvalidate _) | .callback (.onMessage _ _) | .erase _
  | .messageAll _ _ _ _ _ | .reset _ _ | .release _ => true

theorem rest_plain {task : Task} (h : task.isPlain = true) (x : Nat) : task.rest x = [] := by
  cases task with
  | resume => cases h
  | callback | erase | messageAll | reset | release => rfl

theorem opening_plain {task : Task} (h : task.isPlain = true) : task.opening? = none := by
  cases task with
  | callback c => cases c <;> first | rfl | cases h
  | resume | erase | messageAll | reset | release => rfl

end Task

namespace DedicatedServer

def rest (s : DedicatedServer) (x : Nat) : List Effect :=
  (s.tasks .context).flatMap (Task.rest x)

/-- A connection, with the rest of its running member function performed. -/
def endpoint (s : DedicatedServer) (x : Nat) : Endpoint := (s.objects x).performAll (s.rest x)

/-- The connections whose `AllowConnection` is running. -/
def openings (s : DedicatedServer) : List Nat := (s.tasks .context).filterMap Task.opening?

section

variable {s : DedicatedServer} {x : Nat} {rest : List Task}

theorem openings_cons (hTasks : s.tasks .context = .callback (.allowConnection x) :: rest) :
    s.openings = x :: (s.setTasks .context rest).openings := by
  simp [openings, setTasks, hTasks, Task.opening?]

theorem mem_openings (hTasks : s.tasks .context = .callback (.allowConnection x) :: rest) :
    x ∈ s.openings := by
  rw [openings_cons hTasks]
  exact List.mem_cons_self

/-- A connection that is registered is asked about no more. -/
theorem openings_register (s : DedicatedServer) (x : Nat) (now : UInt64) (rest : List Task) :
    (s.register x now rest).openings = (s.setTasks .context rest).openings := by
  simp [openings, register, call, setTasks, setObject, Task.opening?, List.filterMap_cons]

end

section

variable (s : DedicatedServer) (x : Nat)

theorem rest_call_context (c : Callback) (tasks : List Task) :
    (s.call .context c tasks).rest x = tasks.flatMap (Task.rest x) ++ s.rest x := by
  simp [rest, call, setTasks, Task.rest]

theorem endpoint_setObject (y : Nat) (e : Endpoint) : (s.setObject y e).endpoint x =
    if x = y then e.performAll (s.rest x) else s.endpoint x := by
  simp only [endpoint, setObject, Function.update_apply]
  split <;> rfl

/-- A member function that goes on does what is left of it. -/
theorem endpoint_advance (effects : List Effect) : (s.advance x effects).endpoint =
    Function.update s.endpoint x ((s.objects x).performAll (effects ++ s.rest x)) := by
  induction effects generalizing s with
  | nil =>
    rw [advance, List.nil_append]
    exact (Function.update_eq_self x s.endpoint).symm
  | cons effect effects ih =>
    have hObject : (s.setObject x ((s.objects x).perform effect)).objects x =
        (s.objects x).perform effect := Function.update_self ..
    have hOthers : ∀ f : Endpoint, Function.update
        (s.setObject x ((s.objects x).perform effect)).endpoint x f =
          Function.update s.endpoint x f := by
      intro f
      funext y
      by_cases hSame : y = x
      · subst hSame
        simp
      · simp [hSame, endpoint_setObject]
    have hCall : ∀ (c : Callback) (tasks : List Task),
        (∀ y, tasks.flatMap (Task.rest y) = if y = x then effects else []) →
        ((s.setObject x ((s.objects x).perform effect)).call .context c tasks).endpoint =
          Function.update s.endpoint x
            ((s.objects x).performAll (effect :: effects ++ s.rest x)) := by
      intro c tasks hTasks
      rw [← hOthers]
      funext y
      by_cases hSame : y = x
      · subst hSame
        rw [endpoint, rest_call_context, hTasks, if_pos rfl, Function.update_self]
        exact congrArg (Endpoint.performAll · _) hObject
      · rw [Function.update_of_ne hSame, endpoint, rest_call_context, hTasks, if_neg hSame]
        rfl
    have hResume : ∀ y, [Task.resume x effects].flatMap (Task.rest y) =
        if y = x then effects else [] := by
      intro y
      simp [Task.rest, eq_comm]
    cases effect with
    | onValidate id => exact hCall _ _ hResume
    | onInvalidate => exact hCall _ _ hResume
    | disconnect => exact hCall _ _ hResume
    | emplaceBack tagged m =>
      refine (ih _).trans ?_
      rw [← hOthers]
      exact congrArg (Function.update _ x) (congrArg (Endpoint.performAll · _) hObject)
    | asyncConnect | asyncRead | asyncWrite | postClose | emptyDeque =>
      refine (ih _).trans ?_
      rw [← hOthers]
      exact congrArg (Function.update _ x) (congrArg (Endpoint.performAll · _) hObject)

/-- What is left of a member function comes after its first callback, if it makes one. -/
theorem rest_advance (effects : List Effect) : ∃ tail, tail <:+ effects.tail ∧
    ((∀ e ∈ effects, e.isCall = false) → tail = []) ∧
      ∀ y, (s.advance x effects).rest y = (if y = x then tail else []) ++ s.rest y := by
  induction effects generalizing s with
  | nil => exact ⟨[], List.suffix_rfl, fun _ => rfl, fun y => by simp [advance]⟩
  | cons effect effects ih =>
    have hCall : effect.isCall = true → ∀ (c : Callback) (tasks : List Task),
        (∀ y, tasks.flatMap (Task.rest y) = if y = x then effects else []) →
        ∃ tail, tail <:+ effects ∧
          ((∀ e ∈ effect :: effects, e.isCall = false) → tail = []) ∧
          ∀ y, ((s.setObject x ((s.objects x).perform effect)).call .context c tasks).rest y =
            (if y = x then tail else []) ++ s.rest y := by
      intro hYes c tasks hTasks
      refine ⟨effects, List.suffix_rfl, fun hNone => ?_, fun y => ?_⟩
      · rw [hNone effect List.mem_cons_self] at hYes
        cases hYes
      · rw [rest_call_context, hTasks]
        rfl
    have hOn : ∀ s' : DedicatedServer, s'.tasks = s.tasks → ∃ tail, tail <:+ effects ∧
        ((∀ e ∈ effect :: effects, e.isCall = false) → tail = []) ∧
        ∀ y, (s'.advance x effects).rest y = (if y = x then tail else []) ++ s.rest y := by
      intro s' hTasks
      obtain ⟨tail, hSuffix, hNone, hRest⟩ := ih s'
      refine ⟨tail, hSuffix.trans (List.tail_suffix _), fun hQuiet => hNone fun e he =>
        hQuiet e (List.mem_cons_of_mem _ he), fun y => ?_⟩
      rw [hRest, rest, hTasks, rest]
    have hResume : ∀ y, [Task.resume x effects].flatMap (Task.rest y) =
        if y = x then effects else [] := by
      intro y
      simp [Task.rest, eq_comm]
    cases effect with
    | onValidate id => exact hCall rfl _ _ hResume
    | onInvalidate => exact hCall rfl _ _ hResume
    | disconnect => exact hCall rfl _ _ hResume
    | emplaceBack | asyncConnect | asyncRead | asyncWrite | postClose | emptyDeque =>
      exact hOn _ rfl

/-- A member function of a connection leaves the registry and the polling thread alone, and
opens no connection. -/
theorem advance_frame (effects : List Effect) : (s.advance x effects).clients = s.clients ∧
    (s.advance x effects).kept = s.kept ∧ (s.advance x effects).allocated = s.allocated ∧
      (s.advance x effects).tasks .polling = s.tasks .polling ∧
        (s.advance x effects).openings = s.openings := by
  induction effects generalizing s with
  | nil => exact ⟨rfl, rfl, rfl, rfl, rfl⟩
  | cons effect effects ih =>
    cases effect with
    | onValidate | onInvalidate | disconnect =>
      refine ⟨rfl, rfl, rfl, rfl, ?_⟩
      simp [advance, disconnect, call, setTasks, setObject, openings, Task.opening?,
        List.filterMap_cons]
    | emplaceBack | asyncConnect | asyncRead | asyncWrite | postClose | emptyDeque => exact ih _

end

/-! ## What a step can do -/

/-- A step that neither goes on with a member function nor opens a connection. -/
structure Quiet (s s' : DedicatedServer) : Prop where
  rest : ∀ x, s'.rest x = s.rest x
  openings : s'.openings = s.openings

inductive Steps (s s' : DedicatedServer) (event : Event) : Prop
  | idle (hObjects : s'.objects = s.objects) (hQuiet : Quiet s s')
  /-- A call of the application, or the network, acts on a connection. -/
  | outside {x : Nat} {e : Endpoint} {action : Endpoint.Event} (hOwned : x ∈ s.owners)
      (hOutside : ∀ c, action ≠ .complete c)
      (hStep : (s.objects x).step action = some e)
      (hObjects : s'.objects = Function.update s.objects x e) (hQuiet : Quiet s s')
  | handler {x : Nat} {c : Completion} {e : Endpoint} {effects : List Effect}
      (hEvent : event = .complete x c) (hIdle : s.tasks .context = []) (hOwned : x ∈ s.owners)
      (hHandle : (s.objects x).handle c = some (e, effects))
      (hNext : s' = (s.setObject x e).advance x effects)
  | resume {x : Nat} {effects : List Effect} {rest : List Task} (hEvent : event = .run .context)
      (hTasks : s.tasks .context = .resume x effects :: rest)
      (hOwned : effects = [] ∨ x ∈ s.owners)
      (hNext : s' = (s.setTasks .context rest).advance x effects)
  | accept (hEvent : event = .accept) (hIdle : s.tasks .context = [])
      (hObjects : s'.objects =
        Function.update s.objects s.allocated (Endpoint.create .dedicatedServer true))
      (hTasks : s'.tasks .context = [.callback (.allowConnection s.allocated)])
  | allow {now : UInt64} {x : Nat} {rest : List Task} (hEvent : event = .allow now)
      (hTasks : s.tasks .context = .callback (.allowConnection x) :: rest)
      (hNext : s' = s.register x now rest)
  | deny {x : Nat} {rest : List Task} (hEvent : event = .deny)
      (hTasks : s.tasks .context = .callback (.allowConnection x) :: rest)
      (hNext : s' = s.setTasks .context rest)

theorem plain_append {tasks : List Task} (h : ∀ task ∈ tasks, task.isPlain = true) (x : Nat) :
    tasks.flatMap (Task.rest x) = [] ∧ tasks.filterMap Task.opening? = [] := by
  constructor
  · rw [List.flatMap_eq_nil_iff]
    exact fun task hTask => Task.rest_plain (h task hTask) x
  · rw [List.filterMap_eq_nil_iff]
    exact fun task hTask => Task.opening_plain (h task hTask)

/-- Plain tasks may be exchanged on a stack. -/
theorem quiet_of_tasks {s s' : DedicatedServer} (old new : List Task) {t : Thread} {tail : List Task}
    (hOld : ∀ task ∈ old, task.isPlain = true) (hNew : ∀ task ∈ new, task.isPlain = true)
    (h : s.tasks t = old ++ tail) (h' : s'.tasks = Function.update s.tasks t (new ++ tail)) :
    Quiet s s' := by
  cases t with
  | polling => exact ⟨fun x => by simp [rest, h'], by simp [openings, h']⟩
  | context =>
    refine ⟨fun x => ?_, ?_⟩
    · simp [rest, h, h', (plain_append hOld x).1, (plain_append hNew x).1]
    · simp [openings, h, h', (plain_append hOld 0).2, (plain_append hNew 0).2]

theorem quiet_of_same {s s' : DedicatedServer} (h : s'.tasks = s.tasks) : Quiet s s' :=
  ⟨fun x => by rw [rest, rest, h], by rw [openings, openings, h]⟩

theorem owned_of_client {s : DedicatedServer} {x : Nat} (h : some x ∈ s.clients) :
    x ∈ s.owners := by
  simp [owners, h]

/-- Calling `Disconnect` puts plain tasks on a stack. -/
theorem quiet_disconnect {s s' : DedicatedServer} {t : Thread} {p : Option Nat} {rest : List Task}
    (hRest : ∀ task ∈ rest, task.isPlain = true) (h : s'.tasks = s.tasks) :
    Quiet s (s'.disconnect t p rest) := by
  refine quiet_of_tasks (t := t) [] (.callback (.onDisconnect p) :: .erase p :: rest) (by simp) ?_
    rfl ?_
  · intro task hTask
    rcases List.mem_cons.mp hTask with rfl | hTask
    · rfl
    · rcases List.mem_cons.mp hTask with rfl | hTask
      · rfl
      · exact hRest task hTask
  · simp [disconnect, call, setTasks, h]

theorem steps_of_act {s s' : DedicatedServer} {t : Thread} {action : Action}
    (h : s.act t action = some s') : Steps s s' (.app t action) := by
  cases act_cases h with
  | @send x m hOwned | @messageOne x m hOwned =>
    exact .outside hOwned (by simp) (show (s.objects x).step (.send m) = _ from rfl) rfl
      (quiet_of_same rfl)
  | @disconnect x hOwned =>
    exact .outside hOwned (by simp) (show (s.objects x).step .disconnect = _ from rfl) rfl
      (quiet_disconnect (by simp) rfl)
  | @disconnectSilent x hOwned =>
    exact .outside hOwned (by simp) (show (s.objects x).step .disconnect = _ from rfl) rfl
      (quiet_of_same rfl)
  | messageNone | messageDead => exact .idle rfl (quiet_disconnect (by simp [Task.isPlain]) rfl)
  | @messageAll m ignored =>
    refine .idle rfl (quiet_of_tasks (t := t) []
      [.messageAll m ignored 0 s.clients.length false] (by simp) (by simp [Task.isPlain]) rfl ?_)
    rfl
  | keep | drop => exact .idle rfl (quiet_of_same rfl)

/-- A thread that leaves a plain task, and touches no connection. -/
theorem steps_of_pop {s s' : DedicatedServer} {event : Event} {t : Thread} {task : Task}
    {tail : List Task} (hTasks : s.tasks t = task :: tail) (hPlain : task.isPlain = true)
    (hObjects : s'.objects = s.objects) (h' : s'.tasks = Function.update s.tasks t tail) :
    Steps s s' event :=
  .idle hObjects (quiet_of_tasks (t := t) [task] [] (by simpa using hPlain)
    (by simp) hTasks h')

theorem steps_of_iterate {s s' : DedicatedServer} {t : Thread} {m : Message}
    {ignored : Option Nat} {position stop : Nat} {clientsRemoved : Bool} {tail : List Task}
    (hTasks : s.tasks t = .messageAll m ignored position stop clientsRemoved :: tail)
    (h : s.iterate t m ignored position stop clientsRemoved tail = some s') :
    Steps s s' (.run t) := by
  have hExchange : ∀ (new : List Task) (s'' : DedicatedServer),
      (∀ task ∈ new, task.isPlain = true) →
      s''.tasks = Function.update s.tasks t (new ++ tail) → Quiet s s'' := by
    intro new s'' hNew hTasks''
    exact quiet_of_tasks (t := t) [.messageAll m ignored position stop clientsRemoved] _
      (by simp [Task.isPlain]) hNew hTasks hTasks''
  cases iterate_cases h with
  | finish =>
    refine steps_of_pop hTasks rfl ?_ ?_
    · split <;> rfl
    · split <;> rfl
  | @next x _ hEntry =>
    have hNew : ∀ task ∈ [Task.messageAll m ignored (position + 1) stop clientsRemoved],
        task.isPlain = true := by simp [Task.isPlain]
    split
    · exact .outside (owned_of_client (List.mem_of_getElem? hEntry)) (by simp)
        (show (s.objects x).step (.send m) = _ from rfl) rfl (hExchange _ _ hNew rfl)
    · exact .idle rfl (hExchange _ _ hNew rfl)
  | @remove p =>
    refine .idle rfl (hExchange [.callback (.onDisconnect p), .reset position p,
      .messageAll m ignored (position + 1) stop true] _ (by simp [Task.isPlain]) ?_)
    simp [call, setTasks]

/-- **What a step of the server can do to its connections.** -/
theorem steps_of_step {s s' : DedicatedServer} {event : Event} (h : s.step event = some s') :
    Steps s s' event := by
  cases step_cases h with
  | accept hIdle =>
    refine .accept rfl hIdle rfl ?_
    simp [call, setTasks, setObject, hIdle]
  | complete hIdle hOwned hHandle => exact .handler rfl hIdle hOwned hHandle rfl
  | @transfer x op n e hOwned hTransfer =>
    exact .outside hOwned (by simp) (show (s.objects x).step (.transfer op n) = _ from hTransfer)
      rfl (quiet_of_same rfl)
  | app _ hAct => exact steps_of_act hAct
  | @leave t c rest hTasks hNot =>
    refine steps_of_pop hTasks ?_ rfl rfl
    cases c with
    | allowConnection x => exact absurd rfl (hNot x)
    | _ => rfl
  | allow hTasks => exact .allow rfl hTasks rfl
  | deny hTasks => exact .deny rfl hTasks rfl
  | resume hTasks hOwned => exact .resume rfl hTasks hOwned rfl
  | erase hTasks | reset hTasks | release hTasks => exact steps_of_pop hTasks rfl rfl rfl
  | iterate hTasks hIterate => exact steps_of_iterate hTasks hIterate
  | @pop x m rest q =>
    refine .idle rfl (quiet_of_tasks (t := .polling) []
      [.callback (.onMessage x m), .release (some x)] (by simp) (by simp [Task.isPlain]) rfl ?_)
    rfl
  | poll => exact .idle rfl (quiet_of_same rfl)

/-! ## The connections of a run -/

/-- A connection as the server makes it: created, or admitted with an identifier. -/
inductive Alive (e : Endpoint) : Prop
  | created (hStage : Endpoint.InStage (.created .dedicatedServer true) e)
      (hOwner : e.connection.hasConnectable = false) (hChain : ∃ done, e.WriteChain done)
  | admitted {now id : UInt64} (hStage : Endpoint.InStage (.server now id) e)
      (hOwner : e.connection.hasConnectable = true) (hChain : ∃ done, e.WriteChain done)

theorem Alive.step {e e' : Endpoint} {event : Endpoint.Event} (h : Alive e)
    (hStep : e.step event = some e') : Alive e' := by
  have hOwner' := Endpoint.step_hasConnectable hStep
  cases h with
  | created hStage hOwner hChain =>
    obtain ⟨done, hChain⟩ := hChain
    exact .created (hStage.step hStep) (hOwner'.trans hOwner) (hChain.step hStep)
  | admitted hStage hOwner hChain =>
    obtain ⟨done, hChain⟩ := hChain
    exact .admitted (hStage.step hStep) (hOwner'.trans hOwner) (hChain.step hStep)

theorem alive_create : Alive (Endpoint.create .dedicatedServer true) :=
  .created (Endpoint.inStage_start [] (.created .dedicatedServer true)) rfl
    ⟨[], Endpoint.WriteChain.start [] (.created .dedicatedServer true)⟩

theorem alive_start (lambdas : List Lambda) (now id : UInt64) :
    Alive (Endpoint.start lambdas (.server now id)) :=
  .admitted (Endpoint.inStage_start lambdas _) rfl ⟨[], Endpoint.WriteChain.start lambdas _⟩

/-- What a handler of a connection leaves for after a callback posts nothing. -/
theorem Alive.post {e e' : Endpoint} {effects tail : List Effect} {c : Completion} (h : Alive e)
    (hHandle : e.handle c = some (e', effects)) (hSuffix : tail <:+ effects.tail)
    (hNone : (∀ x ∈ effects, x.isCall = false) → tail = []) :
    tail.filterMap Effect.post? = [] := by
  cases h with
  | admitted _ hOwner _ =>
    have hPosts := Endpoint.handle_post (fun _ => hOwner) hHandle
    rw [List.filterMap_eq_nil_iff] at hPosts ⊢
    exact fun x hx => hPosts x (List.mem_of_mem_tail (hSuffix.subset hx))
  | created hStage hOwner _ =>
    obtain ⟨k, hWaits, hStage⟩ := hStage
    have hIdle := hStage.created_none
    by_cases hMain : c.isMain = true
    · obtain ⟨hPending, -⟩ := hWaits.handle hMain hHandle
      rw [hIdle] at hPending
      cases c with
      | lambda => cases hMain
      | _ => cases hPending
    · rw [hNone (Endpoint.handle_calls hOwner (by simpa using hMain) hHandle)]
      rfl

/-- The connection `x` before and after a step of the server. -/
inductive Change (s s' : DedicatedServer) (event : Event) (x : Nat) : Prop
  | same (hSame : s'.endpoint x = s.endpoint x)
  | handler {c : Completion} (hEvent : event = .complete x c) (hOwned : x ∈ s.owners)
      (hStep : (s.endpoint x).step (.complete c) = some (s'.endpoint x))
  | outside {action : Endpoint.Event} (hOwned : x ∈ s.owners)
      (hOutside : ∀ c, action ≠ .complete c)
      (hStep : (s.endpoint x).step action = some (s'.endpoint x))
  | create (hEvent : event = .accept) (hFresh : x = s.allocated)
      (hCreate : s'.endpoint x = Endpoint.create .dedicatedServer true)
  | register {now id : UInt64} {lambdas : List Lambda} {rest : List Task} (hEvent : event = .allow now)
      (hTasks : s.tasks .context = .callback (.allowConnection x) :: rest)
      (hRegister : s'.endpoint x = Endpoint.start lambdas (.server now id))

/-- A connection whose `AllowConnection` is running. -/
def Opening (e : Endpoint) : Prop :=
  ∃ lambdas, e = (Endpoint.create .dedicatedServer true).postAll lambdas

/-- The invariant of the connections of a server. -/
structure Sound (s : DedicatedServer) : Prop where
  alive : ∀ x, Alive (s.endpoint x)
  posts : ∀ x, (s.rest x).filterMap Effect.post? = []
  opening : ∀ x ∈ s.openings, s.openings = [x] ∧ Opening (s.objects x) ∧ ∀ y, s.rest y = []

/-- `AllowConnection` is asked about one connection at a time. -/
theorem Sound.openings_answered {s : DedicatedServer} (h : Sound s) {x : Nat} {rest : List Task}
    (hTasks : s.tasks .context = .callback (.allowConnection x) :: rest) :
    (s.setTasks .context rest).openings = [] := by
  obtain ⟨hOne, -⟩ := h.opening x (mem_openings hTasks)
  rw [openings_cons hTasks, List.cons.injEq] at hOne
  exact hOne.2

theorem rest_idle {s : DedicatedServer} (h : s.tasks .context = []) (x : Nat) : s.rest x = [] := by
  rw [rest, h]
  rfl

/-- **Every step of the server is a step of one connection, or of none.** -/
theorem Sound.change {s s' : DedicatedServer} {event : Event} (h : Sound s)
    (hStep : s.step event = some s') (x : Nat) : Change s s' event x := by
  cases steps_of_step hStep with
  | idle hObjects hQuiet => exact .same (by rw [endpoint, endpoint, hObjects, hQuiet.rest])
  | @outside y e action hOwned hOutside hAction hObjects hQuiet =>
    by_cases hSame : x = y
    · subst hSame
      refine .outside hOwned hOutside ?_
      rw [endpoint, endpoint, hObjects, hQuiet.rest, Function.update_self]
      exact Endpoint.step_performAll hOutside (h.posts x) hAction
    · refine .same ?_
      rw [endpoint, endpoint, hObjects, hQuiet.rest, Function.update_of_ne hSame]
  | @handler y c e effects hEvent hIdle hOwned hHandle hNext =>
    have hNone := rest_idle hIdle
    have hNone' : (s.setObject y e).rest y = [] := hNone y
    rw [hNext]
    by_cases hSame : x = y
    · subst hSame
      refine .handler hEvent hOwned ?_
      rw [endpoint_advance, Function.update_self, hNone', List.append_nil]
      simp only [endpoint, hNone, Endpoint.performAll, List.foldl_nil, Endpoint.step, hHandle,
        Option.map_some, setObject, Function.update_self]
    · refine .same ?_
      rw [endpoint_advance, Function.update_of_ne hSame, endpoint_setObject, if_neg hSame]
  | @resume y effects rest _ hTasks _ hNext =>
    have hRest : ∀ z, s.rest z = (if z = y then effects else []) ++
        (s.setTasks .context rest).rest z := by
      intro z
      simp [DedicatedServer.rest, hTasks, setTasks, Task.rest, eq_comm]
    refine .same ?_
    rw [hNext, endpoint_advance]
    by_cases hSame : x = y
    · subst hSame
      rw [Function.update_self, endpoint, hRest, if_pos rfl]
      rfl
    · rw [Function.update_of_ne hSame, endpoint, endpoint, hRest, if_neg hSame]
      rfl
  | accept hEvent hIdle hObjects hTasks =>
    have hRest : s'.rest x = [] := by simp [rest, hTasks, Task.rest]
    by_cases hSame : x = s.allocated
    · refine .create hEvent hSame ?_
      rw [endpoint, hRest, hObjects, hSame, Function.update_self]
      rfl
    · refine .same ?_
      rw [endpoint, endpoint, hRest, rest_idle hIdle, hObjects, Function.update_of_ne hSame]
  | @allow now y rest hEvent hTasks hNext =>
    obtain ⟨-, ⟨lambdas, hLambdas⟩, hNone⟩ := h.opening y (mem_openings hTasks)
    have hRest : s'.rest x = s.rest x := by
      rw [hNext]
      simp [DedicatedServer.rest, register, call, setTasks, setObject, hTasks, Task.rest]
    by_cases hSame : x = y
    · subst hSame
      have hRegister : s'.endpoint x = Endpoint.start lambdas (.server now s.nextClientID) := by
        rw [endpoint, hRest, hNone, hNext]
        simp only [register, call, setTasks, setObject, Function.update_self, hLambdas]
        rfl
      exact .register hEvent hTasks hRegister
    · refine .same ?_
      rw [endpoint, endpoint, hRest, hNext]
      simp only [register, call, setTasks, setObject, Function.update_of_ne hSame]
  | @deny y rest _ hTasks hNext =>
    refine .same ?_
    rw [hNext]
    simp [endpoint, DedicatedServer.rest, setTasks, hTasks, Task.rest]

/-- Before its handshake a connection only has lambdas posted. -/
theorem Opening.step {e e' : Endpoint} {action : Endpoint.Event} (h : Opening e)
    (hOutside : ∀ c, action ≠ .complete c) (hStep : e.step action = some e') : Opening e' := by
  obtain ⟨lambdas, rfl⟩ := h
  cases action with
  | send m =>
    cases hStep
    refine ⟨lambdas ++ [.send m], ?_⟩
    simp [Endpoint.send, Endpoint.postAll, Lambda.message?, List.filterMap_append]
  | disconnect =>
    cases hStep
    refine ⟨lambdas ++ [.close], ?_⟩
    simp [Endpoint.disconnect, Endpoint.postAll, Endpoint.create, Connection.disconnect,
      Connection.isConnected, Effect.post?, Lambda.message?, List.filterMap_append]
  | transfer op n => cases hStep
  | complete c => exact absurd rfl (hOutside c)

theorem Sound.alive_step {s s' : DedicatedServer} {event : Event} (h : Sound s)
    (hStep : s.step event = some s') (x : Nat) : Alive (s'.endpoint x) := by
  cases h.change hStep x with
  | same hSame =>
    rw [hSame]
    exact h.alive x
  | handler _ _ hMove | outside _ _ hMove => exact (h.alive x).step hMove
  | create _ _ hCreate =>
    rw [hCreate]
    exact alive_create
  | register _ _ hRegister =>
    rw [hRegister]
    exact alive_start _ _ _

theorem Sound.posts_step {s s' : DedicatedServer} {event : Event} (h : Sound s)
    (hStep : s.step event = some s') (x : Nat) : (s'.rest x).filterMap Effect.post? = [] := by
  cases steps_of_step hStep with
  | idle _ hQuiet | outside _ _ _ _ hQuiet =>
    rw [hQuiet.rest]
    exact h.posts x
  | @handler y c e effects _ hIdle _ hHandle hNext =>
    obtain ⟨tail, hSuffix, hNone, hRest⟩ := rest_advance (s.setObject y e) y effects
    have hEmpty : (s.setObject y e).rest x = [] := rest_idle hIdle x
    have hAlive : Alive (s.objects y) := by
      have hThis := h.alive y
      rwa [endpoint, rest_idle hIdle] at hThis
    rw [hNext, hRest, hEmpty, List.append_nil]
    split
    · exact hAlive.post hHandle hSuffix hNone
    · rfl
  | @resume y effects rest _ hTasks _ hNext =>
    obtain ⟨tail, hSuffix, -, hRest⟩ := rest_advance (s.setTasks .context rest) y effects
    have hBefore : ∀ z, s.rest z = (if z = y then effects else []) ++
        (s.setTasks .context rest).rest z := by
      intro z
      simp [DedicatedServer.rest, hTasks, setTasks, Task.rest, eq_comm]
    have hPosts := h.posts x
    rw [hBefore, List.filterMap_append, List.append_eq_nil_iff] at hPosts
    rw [hNext, hRest, List.filterMap_append, hPosts.2, List.append_nil]
    split
    · rename_i hSame
      have hEffects := hPosts.1
      rw [if_pos hSame, List.filterMap_eq_nil_iff] at hEffects
      rw [List.filterMap_eq_nil_iff]
      exact fun effect hMem => hEffects effect (List.mem_of_mem_tail (hSuffix.subset hMem))
    · rfl
  | accept _ _ _ hTasks =>
    simp [DedicatedServer.rest, hTasks, Task.rest]
  | @allow now y rest _ hTasks hNext =>
    have hPosts := h.posts x
    simp only [DedicatedServer.rest, hTasks] at hPosts
    rw [hNext]
    simpa [DedicatedServer.rest, register, call, setTasks, setObject, Task.rest] using hPosts
  | @deny y rest _ hTasks hNext =>
    have hPosts := h.posts x
    simp only [DedicatedServer.rest, hTasks] at hPosts
    rw [hNext]
    simpa [DedicatedServer.rest, setTasks, Task.rest] using hPosts

theorem Sound.opening_step {s s' : DedicatedServer} {event : Event} (h : Sound s)
    (hStep : s.step event = some s') {x : Nat} (hx : x ∈ s'.openings) :
    s'.openings = [x] ∧ Opening (s'.objects x) ∧ ∀ y, s'.rest y = [] := by
  cases steps_of_step hStep with
  | idle hObjects hQuiet =>
    rw [hQuiet.openings] at hx ⊢
    obtain ⟨hOne, hOpening, hNone⟩ := h.opening x hx
    rw [hObjects]
    exact ⟨hOne, hOpening, fun y => (hQuiet.rest y).trans (hNone y)⟩
  | @outside y e action _ hOutside hAction hObjects hQuiet =>
    rw [hQuiet.openings] at hx ⊢
    obtain ⟨hOne, hOpening, hNone⟩ := h.opening x hx
    refine ⟨hOne, ?_, fun y => (hQuiet.rest y).trans (hNone y)⟩
    rw [hObjects]
    by_cases hSame : x = y
    · subst hSame
      rw [Function.update_self]
      exact hOpening.step hOutside hAction
    · rw [Function.update_of_ne hSame]
      exact hOpening
  | @handler y c e effects _ hIdle _ _ hNext =>
    obtain ⟨-, -, -, -, hSame⟩ := advance_frame (s.setObject y e) y effects
    rw [hNext, hSame] at hx
    have hNone : (s.setObject y e).openings = [] := by
      rw [openings, setObject, hIdle]
      rfl
    rw [hNone] at hx
    cases hx
  | @resume y effects rest _ hTasks _ hNext =>
    obtain ⟨-, -, -, -, hSame⟩ := advance_frame (s.setTasks .context rest) y effects
    have hOpenings : s'.openings = s.openings := by
      rw [hNext, hSame]
      simp [openings, setTasks, hTasks, Task.opening?, List.filterMap_cons]
    rw [hOpenings] at hx ⊢
    obtain ⟨hOne, hOpening, hNone⟩ := h.opening x hx
    have hBoth := hNone y
    simp only [DedicatedServer.rest, hTasks, List.flatMap_cons, Task.rest, if_true,
      List.append_eq_nil_iff] at hBoth
    rw [hBoth.1, advance] at hNext
    rw [hNext]
    refine ⟨hOne, hOpening, fun z => ?_⟩
    have hz := hNone z
    simp only [DedicatedServer.rest, hTasks, List.flatMap_cons, List.append_eq_nil_iff] at hz
    simpa [DedicatedServer.rest, setTasks] using hz.2
  | accept _ _ hObjects hTasks =>
    have hOne : s'.openings = [s.allocated] := by simp [openings, hTasks, Task.opening?]
    rw [hOne, List.mem_singleton] at hx
    subst hx
    refine ⟨hOne, ⟨[], ?_⟩, fun y => by simp [DedicatedServer.rest, hTasks, Task.rest]⟩
    rw [hObjects, Function.update_self]
    rfl
  | @allow now y rest _ hTasks hNext =>
    rw [hNext, openings_register, h.openings_answered hTasks] at hx
    cases hx
  | @deny y rest _ hTasks hNext =>
    rw [hNext, h.openings_answered hTasks] at hx
    cases hx

theorem Sound.step {s s' : DedicatedServer} {event : Event} (h : Sound s)
    (hStep : s.step event = some s') : Sound s' :=
  ⟨h.alive_step hStep, h.posts_step hStep, fun _ hx => h.opening_step hStep hx⟩

theorem sound_init : Sound {} :=
  ⟨fun _ => alive_create, fun _ => rfl, fun x hx => by cases hx⟩

/-- **Every connection of a server is a connection as `Endpoint` describes it.** -/
theorem sound_of_reach {ok : DedicatedServer → Event → Prop} {s : DedicatedServer}
    (h : Runs.Reach system ok s) : Sound s := by
  refine h.invariant ?_ fun s event s' hSound _ hStep => hSound.step hStep
  rintro _ rfl
  exact sound_init

end DedicatedServer

end MinecraftNetwork
