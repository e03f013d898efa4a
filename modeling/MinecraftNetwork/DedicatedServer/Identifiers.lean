import MinecraftNetwork.DedicatedServer.Objects
import MinecraftNetwork.Endpoint.Opening

/-!
# Allocations and identifiers

A pointer is to a connection that has been allocated (`owner_allocated`), so a connection
that `AllowConnection` is asked about is new to everybody. `m_NextClientID` counts the
connections that were allowed, and the connection allowed as the k-th has the identifier k
from then on (`Numbered`).
-/

namespace MinecraftNetwork

open Runs

/-- The connection `OnConnect` is called with. -/
def Notice.allowed? : Notice → Option Nat
  | .call (.onConnect x) => some x
  | .call (.allowConnection _) | .call (.onDisconnect _) | .call (.onValidate _)
  | .call (.onInvalidate _) | .call (.onMessage _ _) | .enqueued _ _ => none

/-- The connections that have been allowed, in the order of their acceptance. -/
def allowed (log : List Notice) : List Nat := log.filterMap Notice.allowed?

theorem allowed_append (log new : List Notice) : allowed (log ++ new) = allowed log ++ allowed new :=
  List.filterMap_append

namespace DedicatedServer

variable {s s' : DedicatedServer}

/-! ## Every pointer is to an allocated connection -/

theorem mem_owners {x : Nat} : x ∈ s.owners ↔ some x ∈ s.clients ∨
    x ∈ s.incoming.incomingMessages.map Prod.fst ∨ x ∈ s.kept ∨
      ∃ t, ∃ task ∈ s.tasks t, x ∈ task.refs := by
  have hTasks : (∃ t, ∃ task ∈ s.tasks t, x ∈ task.refs) ↔
      x ∈ (s.tasks .context).flatMap Task.refs ∨ x ∈ (s.tasks .polling).flatMap Task.refs := by
    simp only [List.mem_flatMap]
    constructor
    · rintro ⟨t, hTask⟩
      cases t with
      | context => exact .inl hTask
      | polling => exact .inr hTask
    · rintro (hTask | hTask)
      · exact ⟨.context, hTask⟩
      · exact ⟨.polling, hTask⟩
  rw [hTasks]
  simp only [owners, List.mem_append, List.mem_filterMap, id, exists_eq_right, or_assoc]

/-- A property of all pointers survives a step that exchanges tasks, when the new pointers
have it. -/
theorem owners_exchange {P : Nat → Prop} (old new : List Task) {t : Thread} {tail : List Task}
    (h : s.tasks t = old ++ tail) (h' : s'.tasks = Function.update s.tasks t (new ++ tail))
    (hBefore : ∀ x ∈ s.owners, P x) (hClients : ∀ x, some x ∈ s'.clients → P x)
    (hIncoming : ∀ x ∈ s'.incoming.incomingMessages.map Prod.fst, P x)
    (hKept : ∀ x ∈ s'.kept, P x) (hNew : ∀ task ∈ new, ∀ x ∈ task.refs, P x) :
    ∀ x ∈ s'.owners, P x := by
  intro x hx
  rcases mem_owners.mp hx with hHere | hHere | hHere | ⟨t', task, hTask, hRef⟩
  · exact hClients x hHere
  · exact hIncoming x hHere
  · exact hKept x hHere
  · have hOld : task ∈ s.tasks t' → P x := fun hMem =>
      hBefore x (mem_owners.mpr (.inr (.inr (.inr ⟨t', task, hMem, hRef⟩))))
    rw [h'] at hTask
    by_cases hThread : t' = t
    · subst hThread
      rw [Function.update_self] at hTask
      rcases List.mem_append.mp hTask with hMem | hMem
      · exact hNew task hMem x hRef
      · exact hOld (by rw [h]; exact List.mem_append_right _ hMem)
    · rw [Function.update_of_ne hThread] at hTask
      exact hOld hTask

/-- Every pointer is to a connection that has been allocated. -/
def Allocated (s : DedicatedServer) : Prop := ∀ x ∈ s.owners, x < s.allocated

/-- A step that exchanges tasks, keeps the entries of `m_Clients` and copies no pointer. -/
theorem Allocated.exchange (h : Allocated s) (old new : List Task) {t : Thread} {tail : List Task}
    (hTasks : s.tasks t = old ++ tail)
    (hTasks' : s'.tasks = Function.update s.tasks t (new ++ tail))
    (hClients : ∀ x, some x ∈ s'.clients → some x ∈ s.clients)
    (hIncoming : s'.incoming = s.incoming) (hKept : s'.kept = s.kept)
    (hAllocated : s'.allocated = s.allocated)
    (hNew : ∀ task ∈ new, ∀ x ∈ task.refs, x ∈ s.owners) : Allocated s' := by
  rw [Allocated, hAllocated]
  refine owners_exchange old new hTasks hTasks' h ?_ ?_ ?_ ?_
  · exact fun x hMem => h x (owned_of_client (hClients x hMem))
  · rw [hIncoming]
    exact fun x hMem => h x (mem_owners.mpr (.inr (.inl hMem)))
  · rw [hKept]
    exact fun x hMem => h x (mem_owners.mpr (.inr (.inr (.inl hMem))))
  · exact fun task hTask x hRef => h x (hNew task hTask x hRef)

/-- A step that changes none of the owners. -/
theorem Allocated.same (h : Allocated s) (hOwners : s'.owners = s.owners)
    (hAllocated : s'.allocated = s.allocated) : Allocated s' := by
  rw [Allocated, hOwners, hAllocated]
  exact h

theorem Allocated.disconnect (h : Allocated s) (t : Thread) {p : Option Nat} (tasks : List Task)
    (hOwned : ∀ x ∈ p.toList, x ∈ s.owners) (hTasks : ∀ task ∈ tasks, task.refs ⊆ p.toList) :
    Allocated (s.disconnect t p tasks) := by
  refine h.exchange [] (.callback (.onDisconnect p) :: .erase p :: tasks) (t := t) rfl rfl
    (fun _ hMem => hMem) rfl rfl rfl ?_
  intro task hTask x hRef
  rcases List.mem_cons.mp hTask with rfl | hTask
  · exact hOwned x hRef
  · rcases List.mem_cons.mp hTask with rfl | hTask
    · exact hOwned x hRef
    · exact hOwned x (hTasks task hTask hRef)

/-- A member function of an owned connection makes no pointer to another one. -/
theorem Allocated.advance {x : Nat} (effects : List Effect) (h : Allocated s)
    (hOwned : effects = [] ∨ x ∈ s.owners) : Allocated (s.advance x effects) := by
  induction effects generalizing s with
  | nil => exact h
  | cons effect effects ih =>
    have hHere : x ∈ s.owners := hOwned.resolve_left (by simp)
    have hCall : ∀ c : Callback, c.refs = [x] → Allocated
        ((s.setObject x ((s.objects x).perform effect)).call .context c [.resume x effects]) := by
      intro c hRefs
      refine h.exchange [] [.callback c, .resume x effects] (t := .context) rfl rfl
        (fun _ hMem => hMem) rfl rfl rfl ?_
      simpa [Task.refs, hRefs] using hHere
    cases effect with
    | onValidate | onInvalidate => exact hCall _ rfl
    | disconnect =>
      refine Allocated.disconnect (s := s.setObject x ((s.objects x).perform _)) h .context _ ?_ ?_
      · intro y hy
        rwa [List.mem_singleton.mp hy]
      · simp [Task.refs]
    | emplaceBack tagged m =>
      have hMore : ∀ y, y ∈ ((s.setObject x ((s.objects x).perform (.emplaceBack tagged m))).enqueue
          x m).owners ↔ y ∈ s.owners ∨ y = x := by
        intro y
        simp only [mem_owners, enqueue, Polling.emplaceBack, setObject, List.map_append,
          List.map_cons, List.map_nil, List.mem_append, List.mem_singleton]
        constructor
        · rintro (hClient | (hQueued | rfl) | hRest)
          · exact .inl (.inl hClient)
          · exact .inl (.inr (.inl hQueued))
          · exact .inr rfl
          · exact .inl (.inr (.inr hRest))
        · rintro ((hClient | hQueued | hRest) | rfl)
          · exact .inl hClient
          · exact .inr (.inl (.inl hQueued))
          · exact .inr (.inr hRest)
          · exact .inr (.inl (.inr rfl))
      refine ih (s := (s.setObject x ((s.objects x).perform (.emplaceBack tagged m))).enqueue x m)
        ?_ (.inr ((hMore x).mpr (.inr rfl)))
      intro y hy
      rcases (hMore y).mp hy with hBefore | rfl
      · exact h y hBefore
      · exact h y hHere
    | asyncConnect | asyncRead | asyncWrite | postClose | emptyDeque =>
      exact ih (s := s.setObject x ((s.objects x).perform _)) h (.inr hHere)

theorem Allocated.act {t : Thread} {action : Action} (h : Allocated s)
    (hStep : s.act t action = some s') : Allocated s' := by
  cases act_cases hStep with
  | send | disconnectSilent | messageOne => exact h
  | @disconnect x hOwned =>
    refine Allocated.disconnect (s := s.setObject x (s.objects x).disconnect) h t [] ?_ (by simp)
    intro y hy
    rwa [List.mem_singleton.mp hy]
  | messageNone => exact h.disconnect t _ (by simp) (by simp [Task.refs])
  | messageDead hOwned => exact h.disconnect t _ (by simpa using hOwned) (by simp [Task.refs])
  | @messageAll m ignored hOwned =>
    refine h.exchange [] [.messageAll m ignored 0 s.clients.length false] (t := t) rfl rfl
      (fun _ hMem => hMem) rfl rfl rfl ?_
    simpa [Task.refs] using hOwned
  | @keep x hOwned =>
    refine owners_exchange [] [] (t := t) rfl (Function.update_eq_self t s.tasks).symm h
      (fun y hMem => h y (owned_of_client hMem))
      (fun y hMem => h y (mem_owners.mpr (.inr (.inl hMem)))) ?_ (by simp)
    intro y hMem
    rcases List.mem_append.mp hMem with hMem | hMem
    · exact h y (mem_owners.mpr (.inr (.inr (.inl hMem))))
    · rw [List.mem_singleton.mp hMem]
      exact h x hOwned
  | drop =>
    refine owners_exchange [] [] (t := t) rfl (Function.update_eq_self t s.tasks).symm h
      (fun y hMem => h y (owned_of_client hMem))
      (fun y hMem => h y (mem_owners.mpr (.inr (.inl hMem)))) ?_ (by simp)
    exact fun y hMem => h y (mem_owners.mpr (.inr (.inr (.inl (List.mem_of_mem_erase hMem)))))

theorem Allocated.iterate {t : Thread} {m : Message} {ignored : Option Nat} {position stop : Nat}
    {clientsRemoved : Bool} {tail : List Task} (h : Allocated s)
    (hTasks : s.tasks t = .messageAll m ignored position stop clientsRemoved :: tail)
    (hStep : s.iterate t m ignored position stop clientsRemoved tail = some s') : Allocated s' := by
  have hOld : s.tasks t = [.messageAll m ignored position stop clientsRemoved] ++ tail := hTasks
  have hHere : Task.messageAll m ignored position stop clientsRemoved ∈ s.tasks t := by
    rw [hTasks]
    exact List.mem_cons_self
  have hIgnored : ∀ x ∈ ignored.toList, x ∈ s.owners := fun x hx =>
    mem_owners.mpr (.inr (.inr (.inr ⟨t, _, hHere, hx⟩)))
  cases iterate_cases hStep with
  | finish =>
    refine h.exchange (t := t) _ [] hOld ?_ ?_ ?_ ?_ ?_ (by simp)
    · split <;> rfl
    · intro x
      split
      · exact fun hMem => List.mem_of_mem_filter hMem
      · exact fun hMem => hMem
    all_goals split <;> rfl
  | next =>
    refine h.exchange (t := t) _ [.messageAll m ignored (position + 1) stop clientsRemoved]
      hOld ?_ ?_ ?_ ?_ ?_ ?_
    · split <;> rfl
    · intro y
      split <;> exact fun hMem => hMem
    · split <;> rfl
    · split <;> rfl
    · split <;> rfl
    · simpa [Task.refs] using hIgnored
  | @remove p _ hEntry =>
    have hOwned : ∀ x ∈ p.toList, x ∈ s.owners := by
      intro x hx
      rw [Option.mem_toList.mp hx] at hEntry
      exact owned_of_client (List.mem_of_getElem? hEntry)
    refine h.exchange _ [.callback (.onDisconnect p), .reset position p,
      .messageAll m ignored (position + 1) stop true] hOld ?_ (fun _ hMem => hMem) rfl rfl rfl ?_
    · simp [call, setTasks]
    · simp only [List.forall_mem_cons, Task.refs, Callback.refs]
      exact ⟨hOwned, by simp, hIgnored, by simp⟩

/-- **A step makes no pointer to a connection that is not allocated.** -/
theorem Allocated.step {event : Event} (h : Allocated s) (hStep : s.step event = some s') :
    Allocated s' := by
  cases step_cases hStep with
  | accept =>
    have hOld : ∀ x ∈ s.owners, x < s.allocated + 1 := fun x hMem => Nat.lt_succ_of_lt (h x hMem)
    refine owners_exchange [] [.callback (.allowConnection s.allocated)] (t := .context)
      rfl rfl hOld ?_ ?_ ?_ ?_
    · exact fun x hMem => hOld x (owned_of_client hMem)
    · exact fun x hMem => hOld x (mem_owners.mpr (.inr (.inl hMem)))
    · exact fun x hMem => hOld x (mem_owners.mpr (.inr (.inr (.inl hMem))))
    · intro task hTask x hRef
      rw [List.mem_singleton.mp hTask] at hRef
      rw [List.mem_singleton.mp hRef]
      exact Nat.lt_succ_self _
  | @complete x c e effects _ hOwned =>
    exact Allocated.advance (s := s.setObject x e) effects h (.inr hOwned)
  | transfer => exact h
  | app _ hAct => exact h.act hAct
  | @leave t c rest hTasks =>
    exact h.exchange [.callback c] [] hTasks rfl (fun _ hMem => hMem) rfl rfl rfl (by simp)
  | @allow now x rest hTasks =>
    have hHere : x ∈ s.owners :=
      mem_owners.mpr (.inr (.inr (.inr ⟨.context, _, hTasks ▸ List.mem_cons_self,
        List.mem_cons_self⟩)))
    refine owners_exchange [.callback (.allowConnection x)] [.callback (.onConnect x)]
      (t := .context) hTasks ?_ h ?_ ?_ ?_ ?_
    · simp [register, call, setTasks, setObject]
    · intro y hMem
      rcases List.mem_append.mp hMem with hMem | hMem
      · exact h y (owned_of_client hMem)
      · rw [Option.some.inj (List.mem_singleton.mp hMem)]
        exact h x hHere
    · exact fun y hMem => h y (mem_owners.mpr (.inr (.inl hMem)))
    · exact fun y hMem => h y (mem_owners.mpr (.inr (.inr (.inl hMem))))
    · intro task hTask y hRef
      rw [List.mem_singleton.mp hTask] at hRef
      rw [List.mem_singleton.mp hRef]
      exact h x hHere
  | @deny x rest hTasks =>
    exact h.exchange [.callback (.allowConnection x)] [] hTasks rfl (fun _ hMem => hMem) rfl rfl
      rfl (by simp)
  | @resume x effects rest hTasks hOwned =>
    have hSame : ∀ y, y ∈ (s.setTasks .context rest).owners ↔ y ∈ s.owners := by
      intro y
      simp [owners, setTasks, hTasks, Task.refs]
    refine Allocated.advance (s := s.setTasks .context rest) effects ?_ ?_
    · exact fun y hMem => h y ((hSame y).mp hMem)
    · exact hOwned.imp_right (hSame x).mpr
  | @erase t p rest hTasks =>
    exact h.exchange [.erase p] [] hTasks rfl (fun _ hMem => List.mem_of_mem_filter hMem) rfl
      rfl rfl (by simp)
  | iterate hTasks hIterate => exact h.iterate hTasks hIterate
  | @reset t position p rest hTasks =>
    refine h.exchange [.reset position p] [] hTasks rfl (fun x hMem => ?_) rfl rfl rfl (by simp)
    rcases List.mem_or_eq_of_mem_set hMem with hMem | hNone
    · exact hMem
    · cases hNone
  | @release t p rest hTasks =>
    exact h.exchange [.release p] [] hTasks rfl (fun _ hMem => hMem) rfl rfl rfl (by simp)
  | @pop x m queue q _ hQueue hPop =>
    have hHere : x ∈ s.owners := mem_owners.mpr (.inr (.inl (by simp [hQueue])))
    have hRest : q.incomingMessages = queue := by
      rw [(Polling.step_pop hPop).2, hQueue]
      rfl
    refine owners_exchange (s := s) [] [.callback (.onMessage x m), .release (some x)]
      (t := .polling) rfl rfl h (fun y hMem => h y (owned_of_client hMem)) ?_
      (fun y hMem => h y (mem_owners.mpr (.inr (.inr (.inl hMem))))) ?_
    · intro y hMem
      change y ∈ q.incomingMessages.map Prod.fst at hMem
      rw [hRest] at hMem
      refine h y (mem_owners.mpr (.inr (.inl ?_)))
      rw [hQueue]
      exact List.mem_cons_of_mem _ hMem
    · simpa [Task.refs, Callback.refs, call, setTasks] using h x hHere
  | poll _ hNot hPoll =>
    refine h.same ?_ rfl
    simp only [owners, Polling.step_queue hNot hPoll]

theorem allocated_init : Allocated {} := fun _ hMem => by cases hMem

/-! ## Who has been allowed -/

theorem allowed_single (log : List Notice) {n : Notice} (h : n.allowed? = none) :
    allowed (log ++ [n]) = allowed log := by
  simp [allowed, h]

/-- Nobody is allowed, and no identifier given. -/
structure SameNumbers (s s' : DedicatedServer) : Prop where
  log : allowed s'.log = allowed s.log
  next : s'.nextClientID = s.nextClientID
  allocated : s.allocated ≤ s'.allocated

/-- A member function of a connection allows nobody. -/
theorem allowed_advance (s : DedicatedServer) (x : Nat) (effects : List Effect) :
    SameNumbers s (s.advance x effects) := by
  induction effects generalizing s with
  | nil => exact ⟨rfl, rfl, Nat.le_refl _⟩
  | cons effect effects ih =>
    cases effect with
    | onValidate | onInvalidate | disconnect => exact ⟨allowed_single s.log rfl, rfl, Nat.le_refl _⟩
    | emplaceBack tagged m =>
      obtain ⟨hLog, hNext, hAllocated⟩ := ih ((s.setObject x ((s.objects x).perform _)).enqueue x m)
      exact ⟨hLog.trans (allowed_single s.log rfl), hNext, hAllocated⟩
    | asyncConnect | asyncRead | asyncWrite | postClose | emptyDeque =>
      obtain ⟨hLog, hNext, hAllocated⟩ := ih (s.setObject x ((s.objects x).perform _))
      exact ⟨hLog, hNext, hAllocated⟩

/-- The application is told of disconnections only. -/
structure Parts (s s' : DedicatedServer) : Prop where
  log : ∃ new, s'.log = s.log ++ new ∧ ∀ n ∈ new, ∃ p, n = .call (.onDisconnect p)
  next : s'.nextClientID = s.nextClientID
  allocated : s'.allocated = s.allocated

theorem Parts.silent (hLog : s'.log = s.log) (hNext : s'.nextClientID = s.nextClientID)
    (hAllocated : s'.allocated = s.allocated) : Parts s s' :=
  ⟨⟨[], by rw [hLog, List.append_nil], fun _ hMem => by cases hMem⟩, hNext, hAllocated⟩

theorem Parts.told {p : Option Nat} (hLog : s'.log = s.log ++ [.call (.onDisconnect p)])
    (hNext : s'.nextClientID = s.nextClientID) (hAllocated : s'.allocated = s.allocated) :
    Parts s s' :=
  ⟨⟨_, hLog, fun _ hMem => ⟨p, List.mem_singleton.mp hMem⟩⟩, hNext, hAllocated⟩

theorem Parts.sameNumbers (h : Parts s s') : SameNumbers s s' := by
  obtain ⟨new, hLog, hNew⟩ := h.log
  refine ⟨?_, h.next, Nat.le_of_eq h.allocated.symm⟩
  have hNone : allowed new = [] := by
    rw [allowed, List.filterMap_eq_nil_iff]
    intro n hMem
    obtain ⟨p, rfl⟩ := hNew n hMem
    rfl
  rw [hLog, allowed_append, hNone, List.append_nil]

theorem parts_act {t : Thread} {action : Action} (h : s.act t action = some s') : Parts s s' := by
  cases act_cases h with
  | send | messageOne | messageAll | keep | drop | disconnectSilent => exact .silent rfl rfl rfl
  | disconnect | messageNone | messageDead => exact .told rfl rfl rfl

theorem parts_iterate {t : Thread} {m : Message} {ignored : Option Nat} {position stop : Nat}
    {clientsRemoved : Bool} {tail : List Task}
    (h : s.iterate t m ignored position stop clientsRemoved tail = some s') : Parts s s' := by
  cases iterate_cases h with
  | finish | next => split <;> exact .silent rfl rfl rfl
  | remove => exact .told rfl rfl rfl

/-- Only an `AllowConnection` that returns true allows a connection. -/
theorem allowed_step {event : Event} (h : s.step event = some s') (hNot : ∀ now, event ≠ .allow now) :
    SameNumbers s s' := by
  cases step_cases h with
  | accept => exact ⟨allowed_single s.log rfl, rfl, Nat.le_succ _⟩
  | @complete x c e effects =>
    obtain ⟨hLog, hNext, hAllocated⟩ := allowed_advance (s.setObject x e) x effects
    exact ⟨hLog, hNext, hAllocated⟩
  | app _ hAct => exact (parts_act hAct).sameNumbers
  | @allow now => exact absurd rfl (hNot now)
  | @resume x effects rest =>
    obtain ⟨hLog, hNext, hAllocated⟩ := allowed_advance (s.setTasks .context rest) x effects
    exact ⟨hLog, hNext, hAllocated⟩
  | iterate _ hIterate => exact (parts_iterate hIterate).sameNumbers
  | pop => exact ⟨allowed_single s.log rfl, rfl, Nat.le_refl _⟩
  | transfer | leave | deny | erase | reset | release | poll => exact ⟨rfl, rfl, Nat.le_refl _⟩

/-! ## The identifier of a connection -/

theorem endpoint_connection (s : DedicatedServer) (x : Nat) :
    (s.endpoint x).connection = (s.objects x).connection :=
  Endpoint.performAll_connection _ _

/-- Only `ReadValidation4`, which is for clients, changes the identifier of a connection. -/
theorem Alive.id_step {e e' : Endpoint} {event : Endpoint.Event} (h : Alive e)
    (hStep : e.step event = some e') : e'.connection.id = e.connection.id := by
  by_cases hFrame : event.isFrame = true
  · exact congrArg (fun d : Dialogue => d.connection.id) (Endpoint.step_frame hFrame hStep).1
  · cases event with
    | send | disconnect | transfer => exact absurd rfl hFrame
    | complete c =>
      have hMain : c.isMain = true := by simpa [Endpoint.Event.isFrame] using hFrame
      have hNot : ∀ bytes, c ≠ .read .validation4 bytes := by
        rintro bytes rfl
        cases h with
        | created hStage =>
          obtain ⟨k, hWaits, hStage⟩ := hStage
          rw [hStage.created_none] at hWaits
          cases (Endpoint.step_main hWaits hMain hStep).1
        | admitted hStage =>
          obtain ⟨k, hWaits, hStage⟩ := hStage
          rw [(Endpoint.step_main hWaits hMain hStep).1] at hStage
          exact hStage.read_name.2 _ _ rfl
      simp only [Endpoint.step, Option.map_eq_some_iff] at hStep
      obtain ⟨⟨e₁, effects⟩, hHandle, rfl⟩ := hStep
      rw [Endpoint.performAll_connection, (Endpoint.handle_resume hMain hHandle).1]
      rcases (e.connection.resume_id hMain).1 with hSame | ⟨bytes, rfl⟩
      · exact hSame
      · exact absurd rfl (hNot bytes)

/-- The identifiers of the connections, and those still to be given. -/
structure Numbered (s : DedicatedServer) : Prop where
  next : s.nextClientID = UInt64.ofNat ((allowed s.log).length + 1)
  given : ∀ k x, (allowed s.log)[k]? = some x →
    (s.objects x).connection.id = UInt64.ofNat (k + 1)
  unnamed : ∀ x ∉ allowed s.log, (s.objects x).connection.id = 0
  nodup : (allowed s.log).Nodup
  known : ∀ x ∈ allowed s.log, x < s.allocated
  opening : ∀ x ∈ s.openings, x ∉ allowed s.log

/-- An `AllowConnection` that is running holds the pointer to its connection. -/
theorem owned_of_opening {x : Nat} (hx : x ∈ s.openings) : x ∈ s.owners := by
  rw [openings, List.mem_filterMap] at hx
  obtain ⟨task, hTask, hOpening⟩ := hx
  refine mem_owners.mpr (.inr (.inr (.inr ⟨.context, task, hTask, ?_⟩)))
  cases task with
  | callback c =>
    cases c with
    | allowConnection y =>
      obtain rfl := Option.some.inj hOpening
      exact List.mem_cons_self
    | onConnect | onDisconnect | onValidate | onInvalidate | onMessage => cases hOpening
  | resume | erase | messageAll | reset | release => cases hOpening

theorem Allocated.opening (h : Allocated s) {x : Nat} (hx : x ∈ s.openings) : x < s.allocated :=
  h x (owned_of_opening hx)

theorem numbered_init : Numbered {} := by
  refine ⟨rfl, ?_, fun _ _ => rfl, List.nodup_nil, ?_, ?_⟩
  · intro k x hx
    simp [allowed] at hx
  · exact fun _ hMem => by cases hMem
  · exact fun _ hMem => by cases hMem

/-- Only an accept opens a connection. -/
theorem openings_step {event : Event} (hStep : s.step event = some s') {x : Nat}
    (hx : x ∈ s'.openings) : x ∈ s.openings ∨ event = .accept ∧ x = s.allocated := by
  cases steps_of_step hStep with
  | idle _ hQuiet | outside _ _ _ _ hQuiet =>
    rw [hQuiet.openings] at hx
    exact .inl hx
  | @handler y c e effects _ hIdle _ _ hNext =>
    obtain ⟨-, -, -, -, hSame⟩ := advance_frame (s.setObject y e) y effects
    rw [hNext, hSame] at hx
    exact .inl hx
  | @resume y effects rest _ hTasks _ hNext =>
    obtain ⟨-, -, -, -, hSame⟩ := advance_frame (s.setTasks .context rest) y effects
    rw [hNext, hSame] at hx
    left
    simpa [openings, setTasks, hTasks, Task.opening?, List.filterMap_cons] using hx
  | accept hEvent _ _ hTasks =>
    have hOne : s'.openings = [s.allocated] := by simp [openings, hTasks, Task.opening?]
    rw [hOne] at hx
    exact .inr ⟨hEvent, List.mem_singleton.mp hx⟩
  | @allow now y rest _ hTasks hNext =>
    rw [hNext, openings_register] at hx
    rw [openings_cons hTasks]
    exact .inl (List.mem_cons_of_mem _ hx)
  | @deny y rest _ hTasks hNext =>
    rw [hNext] at hx
    rw [openings_cons hTasks]
    exact .inl (List.mem_cons_of_mem _ hx)

/-- A connection that is not allocated or allowed in a step keeps its identifier. -/
theorem Sound.id_step {event : Event} (h : Sound s) (hStep : s.step event = some s') {x : Nat}
    (hAccept : event = .accept → x ≠ s.allocated)
    (hAllow : ∀ now rest, event = .allow now →
      s.tasks .context ≠ .callback (.allowConnection x) :: rest) :
    (s'.objects x).connection.id = (s.objects x).connection.id := by
  rw [← endpoint_connection, ← endpoint_connection]
  cases h.change hStep x with
  | same hSame => rw [hSame]
  | handler _ _ hMove | outside _ _ hMove => exact (h.alive x).id_step hMove
  | create hEvent hFresh => exact absurd hFresh (hAccept hEvent)
  | register hEvent hTasks => exact absurd hTasks (hAllow _ _ hEvent)

theorem Numbered.allow {now : UInt64} (h : Numbered s) (hSound : Sound s) (hAllocated : Allocated s)
    (hStep : s.step (.allow now) = some s') : Numbered s' := by
  have hIds := fun y => hSound.id_step hStep (x := y)
  cases step_cases hStep with
  | @allow now x rest hTasks =>
    have hOpening := mem_openings hTasks
    obtain ⟨-, ⟨lambdas, hLambdas⟩, -⟩ := hSound.opening x hOpening
    have hNew := h.opening x hOpening
    have hLog : allowed (s.register x now rest).log = allowed s.log ++ [x] := allowed_append _ _
    have hOthers : ∀ y, y ≠ x →
        ((s.register x now rest).objects y).connection.id = (s.objects y).connection.id := by
      intro y hNe
      refine hIds y (by simp) ?_
      intro _ tail _ hSame
      rw [hTasks] at hSame
      simp only [List.cons.injEq, Task.callback.injEq, Callback.allowConnection.injEq] at hSame
      exact hNe hSame.1.symm
    have hThis : ((s.register x now rest).objects x).connection.id = s.nextClientID := by
      simp only [register, call, setTasks, setObject, Function.update_self, hLambdas]
      rfl
    refine ⟨?_, ?_, ?_, ?_, ?_, ?_⟩
    · change s.nextClientID + 1 = _
      rw [h.next, hLog, List.length_append, List.length_singleton]
      exact (UInt64.ofNat_add _ 1).symm
    · intro k y hy
      rw [hLog] at hy
      by_cases hOld : k < (allowed s.log).length
      · rw [List.getElem?_append_left hOld] at hy
        rw [hOthers y (by rintro rfl; exact hNew (List.mem_of_getElem? hy))]
        exact h.given k y hy
      · rw [List.getElem?_append_right (by omega), List.getElem?_singleton] at hy
        split at hy
        · rename_i hLast
          obtain rfl := Option.some.inj hy
          rw [hThis, h.next, show k = (allowed s.log).length by omega]
        · cases hy
    · intro y hy
      rw [hLog, List.mem_append, List.mem_singleton, not_or] at hy
      rw [hOthers y hy.2]
      exact h.unnamed y hy.1
    · rw [hLog, List.nodup_append]
      refine ⟨h.nodup, List.nodup_singleton x, ?_⟩
      rintro y hy z hz rfl
      rw [List.mem_singleton.mp hz] at hy
      exact hNew hy
    · intro y hy
      rw [hLog] at hy
      change y < s.allocated
      rcases List.mem_append.mp hy with hOld | hLast
      · exact h.known y hOld
      · rw [List.mem_singleton.mp hLast]
        exact hAllocated.opening hOpening
    · intro y hy hMem
      rw [openings_register, hSound.openings_answered hTasks] at hy
      cases hy

/-- **Every step keeps the identifiers in the order of the accepts.** -/
theorem Numbered.step {event : Event} (h : Numbered s) (hSound : Sound s)
    (hAllocated : Allocated s) (hStep : s.step event = some s') : Numbered s' := by
  by_cases hAllow : ∃ now, event = .allow now
  · obtain ⟨now, rfl⟩ := hAllow
    exact h.allow hSound hAllocated hStep
  · push Not at hAllow
    have hSame := allowed_step hStep hAllow
    have hIds : ∀ x, (event = .accept → x ≠ s.allocated) →
        (s'.objects x).connection.id = (s.objects x).connection.id :=
      fun x hx => hSound.id_step hStep hx fun now _ hNow => absurd hNow (hAllow now)
    refine ⟨?_, ?_, ?_, ?_, ?_, ?_⟩
    · rw [hSame.next, hSame.log]
      exact h.next
    · intro k x hx
      rw [hSame.log] at hx
      rw [hIds x fun _ => (h.known x (List.mem_of_getElem? hx)).ne]
      exact h.given k x hx
    · intro x hx
      rw [hSame.log] at hx
      by_cases hNew : event = .accept ∧ x = s.allocated
      · obtain ⟨rfl, rfl⟩ := hNew
        cases step_cases hStep with
        | accept =>
          simp only [call, setTasks, setObject, Function.update_self]
          rfl
      · rw [hIds x fun hAccept hFresh => hNew ⟨hAccept, hFresh⟩]
        exact h.unnamed x hx
    · rw [hSame.log]
      exact h.nodup
    · rw [hSame.log]
      exact fun x hx => (h.known x hx).trans_le hSame.allocated
    · intro x hx
      rw [hSame.log]
      rcases openings_step hStep hx with hOld | ⟨-, rfl⟩
      · exact h.opening x hOld
      · exact fun hMem => (h.known _ hMem).ne rfl

/-- In every run the connections are numbered as they are allowed. -/
theorem numbered_of_reach {ok : DedicatedServer → Event → Prop} (h : Reach system ok s) :
    Sound s ∧ Allocated s ∧ Numbered s := by
  refine h.invariant (I := fun s => Sound s ∧ Allocated s ∧ Numbered s) ?_ ?_
  · rintro _ rfl
    exact ⟨sound_init, allocated_init, numbered_init⟩
  · rintro s event s' ⟨hSound, hAllocated, hNumbered⟩ - hStep
    exact ⟨hSound.step hStep, hAllocated.step hStep, hNumbered.step hSound hAllocated hStep⟩

end DedicatedServer

end MinecraftNetwork
