import MinecraftNetwork.DedicatedServer.Objects

/-!
# The registry and the calls of `OnDisconnect`

`Final` is what the callbacks of a server are to obey: `OnDisconnect` is called with a
connection that was connected, once, and then nothing more is told of that connection.
`Removes` is the promise under which they do: a removal begins only with a registered
connection that is not being removed and whose read chain has stopped, and `MessageAll`
resets the entry it has called `OnDisconnect` with. `Registered` is the invariant that
carries the promise through a run.
-/

namespace MinecraftNetwork

open Runs

/-- The notice is about a connection that is still connected: a validation, a message, or
that it is disconnected. -/
def Notice.concerns (x : Nat) : Notice → Bool
  | .call (.onDisconnect p) => p == some x
  | .call (.onValidate y) | .call (.onInvalidate y) | .enqueued y _ => y == x
  | .call (.allowConnection _) | .call (.onConnect _) | .call (.onMessage _ _) => false

/-- `OnDisconnect` has been called with a connection. -/
def Gone (log : List Notice) (x : Nat) : Prop := .call (.onDisconnect (some x)) ∈ log

/-- Every call of `OnDisconnect` is for a connection `OnConnect` was called with, and
nothing that concerns the connection follows it. -/
def Final (log : List Notice) : Prop :=
  ∀ before p after, log = before ++ .call (.onDisconnect p) :: after →
    ∃ x, p = some x ∧ .call (.onConnect x) ∈ before ∧ ∀ n ∈ after, n.concerns x = false

/-- The removal of a connection that a task has begun. -/
def Task.removes (x : Nat) : Task → Bool
  | .erase p | .reset _ p => p == some x
  | .callback _ | .resume _ _ | .messageAll _ _ _ _ _ | .release _ => false

namespace DedicatedServer

/-- A connection is being removed from `m_Clients`. -/
def Leaving (s : DedicatedServer) (x : Nat) : Prop :=
  ∃ task ∈ s.tasks .context ++ s.tasks .polling, task.removes x = true

/-- The next callback of a member function is `DedicatedServer::Disconnect`. -/
def leaves (effects : List Effect) : Bool := effects.find? Effect.isCall == some .disconnect

/-- What `OnDisconnect` is called with in a step. -/
def disconnects (s : DedicatedServer) : Event → List (Option Nat)
  | .complete x c =>
    match (s.objects x).handle c with
    | some (_, effects) => if leaves effects then [some x] else []
    | none => []
  | .app _ (.disconnect x) =>
    if .disconnect ∈ (s.objects x).connection.disconnect then [some x] else []
  | .app _ (.messageOne none _) => [none]
  | .app _ (.messageOne (some x) _) => if s.isConnected x then [] else [some x]
  | .run t =>
    match s.tasks t with
    | .resume x effects :: _ => if leaves effects then [some x] else []
    | .messageAll _ _ position stop _ :: _ =>
      if position = stop then []
      else match s.clients[position]? with
        | some (some x) => if s.isConnected x then [] else [some x]
        | some none => [none]
        | none => []
    | .callback _ :: _ | .erase _ :: _ | .reset _ _ :: _ | .release _ :: _ | [] => []
  | .app _ (.send _ _) | .app _ (.messageAll _ _) | .app _ (.keep _) | .app _ (.drop _) | .accept
  | .transfer _ _ _ | .leave _ | .allow _ | .deny | .poll _ => []

/-- The handshake and read chain of a connection has stopped, or stops in this step. -/
def Stopped (s : DedicatedServer) (event : Event) (x : Nat) : Prop :=
  (s.objects x).ended = true ∨
    match event with
    | .complete y c => y = x ∧ c.ends (s.objects x).connection = true
    | _ => False

/-- A connection that may be disconnected: it is registered, is not being removed, and reads
nothing more. -/
def Removable (s : DedicatedServer) (event : Event) : Option Nat → Prop
  | some x => some x ∈ s.clients ∧ ¬ s.Leaving x ∧ s.Stopped event x
  | none => False

/-- The position that `MessageAll` resets in a step, and what it has called `OnDisconnect`
with. -/
def resets (s : DedicatedServer) : Event → List (Nat × Option Nat)
  | .run t =>
    match s.tasks t with
    | .reset position p :: _ => [(position, p)]
    | _ => []
  | _ => []

/-- The entry that is reset is the one `OnDisconnect` was called with. -/
def InPlace (s : DedicatedServer) (event : Event) : Prop :=
  ∀ r ∈ s.resets event, s.clients[r.1]? = some r.2

/-- The promise: removals begin with removable connections, and end where they began. -/
def Removes (s : DedicatedServer) (event : Event) : Prop :=
  (∀ p ∈ s.disconnects event, s.Removable event p) ∧ s.InPlace event

instance (s : DedicatedServer) (x : Nat) : Decidable (s.Leaving x) :=
  inferInstanceAs (Decidable (∃ task ∈ _, _))

instance (s : DedicatedServer) (event : Event) (x : Nat) : Decidable (s.Stopped event x) :=
  match event with
  | .complete y c =>
    inferInstanceAs (Decidable (_ ∨ (y = x ∧ c.ends (s.objects x).connection = true)))
  | .accept | .transfer _ _ _ | .app _ _ | .leave _ | .allow _ | .deny | .run _ | .poll _ =>
    inferInstanceAs (Decidable (_ ∨ False))

instance (s : DedicatedServer) (event : Event) (p : Option Nat) :
    Decidable (s.Removable event p) :=
  match p with
  | some _ => inferInstanceAs (Decidable (_ ∧ ¬ _ ∧ _))
  | none => inferInstanceAs (Decidable False)

instance (s : DedicatedServer) (event : Event) : Decidable (s.Removes event) :=
  inferInstanceAs (Decidable ((∀ p ∈ s.disconnects event, s.Removable event p) ∧
    ∀ r ∈ s.resets event, s.clients[r.1]? = some r.2))

/-! ## What is in the log -/

theorem gone_append {log new : List Notice} {x : Nat} :
    Gone (log ++ new) x ↔ Gone log x ∨ Gone new x := List.mem_append

theorem final_append {log : List Notice} {n : Notice} (h : Final log)
    (hQuiet : ∀ x, Gone log x → n.concerns x = false)
    (hCall : ∀ p, n = .call (.onDisconnect p) → ∃ x, p = some x ∧ .call (.onConnect x) ∈ log) :
    Final (log ++ [n]) := by
  intro before p after hSplit
  rcases List.append_eq_append_iff.mp hSplit with ⟨middle, hBefore, hAfter⟩ | ⟨middle, hLog, hAfter⟩
  · rcases List.append_eq_singleton_iff.mp hAfter.symm with ⟨rfl, hOne⟩ | ⟨-, hNone⟩
    · rw [List.cons.injEq] at hOne
      obtain ⟨hN, rfl⟩ := hOne
      obtain ⟨x, hp, hConnect⟩ := hCall p hN.symm
      refine ⟨x, hp, ?_, by simp⟩
      rw [hBefore, List.append_nil]
      exact hConnect
    · cases hNone
  · cases middle with
    | nil =>
      rw [List.nil_append] at hAfter
      rw [List.append_nil] at hLog
      rw [List.cons.injEq] at hAfter
      obtain ⟨hN, rfl⟩ := hAfter
      obtain ⟨x, hp, hConnect⟩ := hCall p hN.symm
      exact ⟨x, hp, hLog ▸ hConnect, by simp⟩
    | cons first middle =>
      rw [List.cons_append, List.cons.injEq] at hAfter
      obtain ⟨rfl, rfl⟩ := hAfter
      obtain ⟨x, rfl, hConnect, hRest⟩ := h before p middle hLog
      refine ⟨x, rfl, hConnect, fun n' hMem => ?_⟩
      rcases List.mem_append.mp hMem with hMem | hMem
      · exact hRest n' hMem
      · rw [List.mem_singleton.mp hMem]
        refine hQuiet x ?_
        rw [Gone, hLog]
        simp

/-- A call that concerns nobody. -/
theorem final_plain {log : List Notice} {n : Notice} (h : Final log)
    (hPlain : ∀ x, n.concerns x = false) (hNot : ∀ p, n ≠ .call (.onDisconnect p)) :
    Final (log ++ [n]) :=
  final_append h (fun x _ => hPlain x) fun p hn => absurd hn (hNot p)

theorem final_disconnect {log : List Notice} {x : Nat} (h : Final log) (hNot : ¬ Gone log x)
    (hConnect : .call (.onConnect x) ∈ log) :
    Final (log ++ [.call (.onDisconnect (some x))]) := by
  refine final_append h (fun y hGone => ?_) fun p hp => ?_
  · simp only [Notice.concerns, Option.some_beq_some, beq_eq_false_iff_ne]
    rintro rfl
    exact hNot hGone
  · cases hp
    exact ⟨x, rfl, hConnect⟩

/-! ## A member function that goes on -/

theorem leaves_cons (effect : Effect) (effects : List Effect) : leaves (effect :: effects) =
    if effect.isCall then effect == .disconnect else leaves effects := by
  cases hCall : effect.isCall <;> simp [leaves, hCall]

section

variable (s : DedicatedServer) (x : Nat)

theorem ended_setObject (effect : Effect) (y : Nat) :
    ((s.setObject x ((s.objects x).perform effect)).objects y).ended = (s.objects y).ended := by
  by_cases hSame : y = x
  · subst hSame
    simp only [setObject, Function.update_self]
    cases effect <;> rfl
  · simp only [setObject, Function.update_of_ne hSame]

theorem ended_advance (effects : List Effect) (y : Nat) :
    ((s.advance x effects).objects y).ended = (s.objects y).ended := by
  induction effects generalizing s with
  | nil => rfl
  | cons effect effects ih =>
    rw [← ended_setObject s x effect y]
    cases effect with
    | onValidate | onInvalidate | disconnect => rfl
    | emplaceBack | asyncConnect | asyncRead | asyncWrite | postClose | emptyDeque => exact ih _

/-- A member function that goes on puts tasks on the stack, the removal of its connection
among them if it disconnects. -/
theorem tasks_advance (effects : List Effect) : ∃ new, (s.advance x effects).tasks =
    Function.update s.tasks .context (new ++ s.tasks .context) ∧
      (leaves effects = true → .erase (some x) ∈ new) := by
  induction effects generalizing s with
  | nil => exact ⟨[], (Function.update_eq_self _ _).symm, fun h => by cases h⟩
  | cons effect effects ih =>
    cases effect with
    | onValidate =>
      exact ⟨[.callback (.onValidate x), .resume x effects], rfl, fun h => by cases h⟩
    | onInvalidate =>
      exact ⟨[.callback (.onInvalidate x), .resume x effects], rfl, fun h => by cases h⟩
    | disconnect =>
      exact ⟨[.callback (.onDisconnect (some x)), .erase (some x), .resume x effects], rfl,
        by simp⟩
    | emplaceBack | asyncConnect | asyncRead | asyncWrite | postClose | emptyDeque =>
      rw [leaves_cons]
      exact ih _

theorem log_advance (effects : List Effect) : s.log <+: (s.advance x effects).log ∧
    ∀ y, Gone (s.advance x effects).log y → Gone s.log y ∨ y = x ∧ leaves effects = true := by
  induction effects generalizing s with
  | nil => exact ⟨List.prefix_rfl, fun y h => .inl h⟩
  | cons effect effects ih =>
    have hCall : ∀ c tasks, (∀ p, c = .onDisconnect p → p = some x ∧ effect = .disconnect) →
        s.log <+: ((s.setObject x ((s.objects x).perform effect)).call .context c tasks).log ∧
          ∀ y, Gone ((s.setObject x ((s.objects x).perform effect)).call .context c tasks).log y →
            Gone s.log y ∨ y = x ∧ leaves (effect :: effects) = true := by
      intro c tasks hDisconnect
      refine ⟨List.prefix_append _ _, fun y hGone => ?_⟩
      rcases gone_append.mp hGone with hGone | hGone
      · exact .inl hGone
      · obtain ⟨hp, rfl⟩ := hDisconnect (some y) (by simpa [Gone, eq_comm] using hGone)
        exact .inr ⟨Option.some.inj hp, rfl⟩
    cases effect with
    | onValidate | onInvalidate => exact hCall _ _ (by simp)
    | disconnect => exact hCall _ _ (by simp [eq_comm])
    | emplaceBack tagged m =>
      rw [leaves_cons]
      obtain ⟨hPrefix, hGone⟩ := ih ((s.setObject x ((s.objects x).perform _)).enqueue x m)
      refine ⟨(List.prefix_append _ _).trans hPrefix, fun y hy => ?_⟩
      rcases hGone y hy with hBefore | hNow
      · rcases gone_append.mp hBefore with hBefore | hNew
        · exact .inl hBefore
        · simp [Gone] at hNew
      · exact .inr hNow
    | asyncConnect | asyncRead | asyncWrite | postClose | emptyDeque =>
      rw [leaves_cons]
      exact ih (s.setObject x ((s.objects x).perform _))

/-- A member function tells nothing of a connection that is gone, and disconnects one that is
not. -/
theorem final_advance (effects : List Effect) (h : Final s.log)
    (hQuiet : Gone s.log x → ∀ e ∈ effects, e.isReport = false)
    (hCall : leaves effects = true → ¬ Gone s.log x ∧ .call (.onConnect x) ∈ s.log) :
    Final (s.advance x effects).log := by
  induction effects generalizing s with
  | nil => exact h
  | cons effect effects ih =>
    have hReport : ∀ n : Notice, effect.isReport = true →
        (∀ y, n.concerns y = true → y = x) → (∀ p, n ≠ .call (.onDisconnect p)) →
        Final (s.log ++ [n]) := by
      intro n hYes hOnly hNot
      refine final_append h (fun y hGone => ?_) fun p hp => absurd hp (hNot p)
      by_contra hConcerns
      have hSame := hOnly y (by simpa using hConcerns)
      subst hSame
      rw [hQuiet hGone effect List.mem_cons_self] at hYes
      cases hYes
    have hRest : Gone s.log x → ∀ e ∈ effects, e.isReport = false :=
      fun hGone e he => hQuiet hGone e (List.mem_cons_of_mem _ he)
    cases effect with
    | onValidate | onInvalidate =>
      exact hReport _ rfl (fun y hy => (beq_iff_eq.mp hy).symm) (by simp)
    | disconnect =>
      obtain ⟨hNot, hConnect⟩ := hCall rfl
      exact final_disconnect h hNot hConnect
    | emplaceBack tagged m =>
      rw [leaves_cons] at hCall
      have hSame : ∀ y, Gone (s.log ++ [.enqueued x m]) y ↔ Gone s.log y := by
        intro y
        simp [Gone]
      refine ih ((s.setObject x ((s.objects x).perform _)).enqueue x m) ?_ ?_ ?_
      · exact hReport _ rfl (fun y hy => (beq_iff_eq.mp hy).symm) (by simp)
      · exact fun hGone => hRest ((hSame x).mp hGone)
      · intro hLeaves
        obtain ⟨hNot, hConnect⟩ := hCall hLeaves
        exact ⟨fun hGone => hNot ((hSame x).mp hGone), List.mem_append_left _ hConnect⟩
    | asyncConnect | asyncRead | asyncWrite | postClose | emptyDeque =>
      rw [leaves_cons] at hCall
      exact ih (s.setObject x ((s.objects x).perform _)) h hRest hCall

end

/-! ## The invariant -/

/-- The registry, the removals under way and the log agree. -/
structure Registered (s : DedicatedServer) : Prop where
  final : Final s.log
  connected : ∀ x, some x ∈ s.clients → .call (.onConnect x) ∈ s.log
  once : ∀ x, s.clients.count (some x) ≤ 1
  fresh : ∀ x, some x ∈ s.clients ∨ x ∈ s.openings ∨ Gone s.log x → x < s.allocated
  opening : ∀ x ∈ s.openings, some x ∉ s.clients ∧ ¬ Gone s.log x
  ended : ∀ x, Gone s.log x → (s.objects x).ended = true
  leaving : ∀ x, Gone s.log x → some x ∈ s.clients → s.Leaving x
  rest : ∀ x, (s.objects x).ended = true → ∀ e ∈ s.rest x, e.isReport = false

/-- A step that registers no connection. -/
theorem Registered.of {s s' : DedicatedServer} (h : Registered s) (hFinal : Final s'.log)
    (hLog : s.log <+: s'.log)
    (hGone : ∀ x, Gone s'.log x → Gone s.log x ∨
      some x ∈ s.clients ∧ (s'.objects x).ended = true ∧ s'.Leaving x)
    (hClients : ∀ x, s'.clients.count (some x) ≤ s.clients.count (some x))
    (hOpenings : ∀ x ∈ s'.openings, x ∈ s.openings) (hAllocated : s'.allocated = s.allocated)
    (hEnded : ∀ x, (s.objects x).ended = true → (s'.objects x).ended = true)
    (hRest : ∀ x, (s'.objects x).ended = true → ∀ e ∈ s'.rest x, e.isReport = false)
    (hLeaving : ∀ x, s.Leaving x → some x ∈ s'.clients → s'.Leaving x) : Registered s' := by
  have hSubset : ∀ x, some x ∈ s'.clients → some x ∈ s.clients := by
    intro x hMem
    exact List.count_pos_iff.mp (Nat.lt_of_lt_of_le (List.count_pos_iff.mpr hMem) (hClients x))
  refine ⟨hFinal, ?_, ?_, ?_, ?_, ?_, ?_, hRest⟩
  · exact fun x hMem => hLog.subset (h.connected x (hSubset x hMem))
  · exact fun x => (hClients x).trans (h.once x)
  · rw [hAllocated]
    rintro x (hMem | hMem | hMem)
    · exact h.fresh x (.inl (hSubset x hMem))
    · exact h.fresh x (.inr (.inl (hOpenings x hMem)))
    · rcases hGone x hMem with hBefore | ⟨hClient, -⟩
      · exact h.fresh x (.inr (.inr hBefore))
      · exact h.fresh x (.inl hClient)
  · intro x hMem
    obtain ⟨hNot, hHere⟩ := h.opening x (hOpenings x hMem)
    refine ⟨fun hClient => hNot (hSubset x hClient), fun hNow => ?_⟩
    rcases hGone x hNow with hBefore | ⟨hClient, -⟩
    · exact hHere hBefore
    · exact hNot hClient
  · intro x hNow
    rcases hGone x hNow with hBefore | ⟨-, hYes, -⟩
    · exact hEnded x (h.ended x hBefore)
    · exact hYes
  · intro x hNow hMem
    rcases hGone x hNow with hBefore | ⟨-, -, hYes⟩
    · exact hLeaving x (h.leaving x hBefore (hSubset x hMem)) hMem
    · exact hYes

/-- A connection that may be disconnected has been connected and is not gone. -/
theorem Registered.removable {s : DedicatedServer} {event : Event} {p : Option Nat}
    (h : Registered s) (hRemovable : s.Removable event p) : ∃ x, p = some x ∧
      some x ∈ s.clients ∧ ¬ Gone s.log x ∧ .call (.onConnect x) ∈ s.log ∧ s.Stopped event x := by
  cases p with
  | none => exact hRemovable.elim
  | some x =>
    obtain ⟨hClient, hNot, hStopped⟩ := hRemovable
    exact ⟨x, rfl, hClient, fun hGone => hNot (h.leaving x hGone hClient), h.connected x hClient,
      hStopped⟩

/-! ## The steps of the registry -/

section

variable {s s' : DedicatedServer} {event : Event}

/-- A removal that is under way goes on when other tasks are exchanged. -/
theorem leaving_exchange (old new : List Task) {t : Thread} {tail : List Task} {x : Nat}
    (h : s.tasks t = old ++ tail) (h' : s'.tasks = Function.update s.tasks t (new ++ tail))
    (hLeaving : s.Leaving x) : (∃ task ∈ old, task.removes x = true) ∨ s'.Leaving x := by
  obtain ⟨task, hMem, hRemoves⟩ := hLeaving
  have hKeep : task ∈ s.tasks t → (∃ task ∈ old, task.removes x = true) ∨ task ∈ s'.tasks t := by
    intro hHere
    rw [h] at hHere
    rcases List.mem_append.mp hHere with hOld | hTail
    · exact .inl ⟨task, hOld, hRemoves⟩
    · rw [h', Function.update_self]
      exact .inr (List.mem_append_right _ hTail)
  have hOther : ∀ t', t' ≠ t → s'.tasks t' = s.tasks t' := by
    intro t' hNe
    rw [h', Function.update_of_ne hNe]
  rcases List.mem_append.mp hMem with hContext | hPolling
  · by_cases hThread : t = .context
    · subst hThread
      exact (hKeep hContext).imp_right fun hNew => ⟨task, List.mem_append_left _ hNew, hRemoves⟩
    · refine .inr ⟨task, List.mem_append_left _ ?_, hRemoves⟩
      rwa [hOther _ (Ne.symm hThread)]
  · by_cases hThread : t = .polling
    · subst hThread
      exact (hKeep hPolling).imp_right fun hNew => ⟨task, List.mem_append_right _ hNew, hRemoves⟩
    · refine .inr ⟨task, List.mem_append_right _ ?_, hRemoves⟩
      rwa [hOther _ (Ne.symm hThread)]

theorem leaving_of_mem (task : Task) {t : Thread} {x : Nat} (hMem : task ∈ s.tasks t)
    (hRemoves : task.removes x = true) : s.Leaving x := by
  cases t with
  | context => exact ⟨task, List.mem_append_left _ hMem, hRemoves⟩
  | polling => exact ⟨task, List.mem_append_right _ hMem, hRemoves⟩

/-- A step that ends no removal keeps those under way. -/
theorem leaving_kept (old new : List Task) {t : Thread} {tail : List Task} (h : s.tasks t = old ++ tail)
    (h' : s'.tasks = Function.update s.tasks t (new ++ tail))
    (hOld : ∀ task ∈ old, ∀ x, task.removes x = false) (x : Nat) (hLeaving : s.Leaving x)
    (_ : some x ∈ s'.clients) : s'.Leaving x := by
  rcases leaving_exchange _ _ h h' hLeaving with ⟨task, hMem, hRemoves⟩ | hNow
  · rw [hOld task hMem x] at hRemoves
    cases hRemoves
  · exact hNow

/-- A step that begins a removal. -/
theorem leaving_called (old new : List Task) {t : Thread} {tail : List Task} {p : Option Nat}
    (h : s.tasks t = old ++ tail) (h' : s'.tasks = Function.update s.tasks t (new ++ tail))
    (hOld : ∀ task ∈ old, ∀ x, task.removes x = false)
    (hNew : ∃ task ∈ new, ∀ x, p = some x → task.removes x = true) (x : Nat)
    (hLeaving : s.Leaving x ∨ p = some x) : s'.Leaving x := by
  rcases hLeaving with hBefore | hThis
  · rcases leaving_exchange _ _ h h' hBefore with ⟨task, hMem, hRemoves⟩ | hNow
    · rw [hOld task hMem x] at hRemoves
      cases hRemoves
    · exact hNow
  · obtain ⟨task, hMem, hRemoves⟩ := hNew
    refine leaving_of_mem task (t := t) ?_ (hRemoves x hThis)
    rw [h', Function.update_self]
    exact List.mem_append_left _ hMem

theorem leaving_disconnect {t : Thread} {p : Option Nat} {rest : List Task} (x : Nat)
    (hLeaving : s.Leaving x ∨ p = some x) : (s.disconnect t p rest).Leaving x :=
  leaving_called (t := t) [] (.callback (.onDisconnect p) :: .erase p :: rest)
    rfl rfl (by simp) ⟨.erase p, by simp, fun y hy => by simp [Task.removes, hy]⟩ x hLeaving

/-- A step that runs no handler and opens or closes no connection. -/
theorem Steps.quiet (h : Steps s s' event) (hHandler : ∀ x c, event ≠ .complete x c)
    (hAccept : event ≠ .accept) (hAllow : ∀ now, event ≠ .allow now) (hDeny : event ≠ .deny)
    (hResume : event = .run .context → ∀ x effects rest,
      s.tasks .context ≠ .resume x effects :: rest) :
    Quiet s s' ∧ ∀ x, (s'.objects x).ended = (s.objects x).ended := by
  cases h with
  | idle hObjects hQuiet => exact ⟨hQuiet, fun x => by rw [hObjects]⟩
  | @outside y e action _ hOutside hAction hObjects hQuiet =>
    refine ⟨hQuiet, fun x => ?_⟩
    rw [hObjects]
    by_cases hSame : x = y
    · subst hSame
      rw [Function.update_self]
      exact (Endpoint.outside_frame hOutside hAction).ended
    · rw [Function.update_of_ne hSame]
  | handler hEvent => exact absurd hEvent (hHandler _ _)
  | resume hEvent hTasks => exact absurd hTasks (hResume hEvent _ _ _)
  | accept hEvent => exact absurd hEvent hAccept
  | allow hEvent => exact absurd hEvent (hAllow _)
  | deny hEvent => exact absurd hEvent hDeny

/-- A step that calls `OnDisconnect` with no connection. -/
theorem Registered.plain (h : Registered s) (hQuiet : Quiet s s')
    (hEnded : ∀ x, (s'.objects x).ended = (s.objects x).ended)
    (hLog : s'.log = s.log ∨ ∃ n, s'.log = s.log ++ [n] ∧ (∀ x, n.concerns x = false) ∧
      ∀ p, n ≠ .call (.onDisconnect p))
    (hClients : ∀ x, s'.clients.count (some x) ≤ s.clients.count (some x))
    (hAllocated : s'.allocated = s.allocated)
    (hLeaving : ∀ x, s.Leaving x → some x ∈ s'.clients → s'.Leaving x) : Registered s' := by
  have hLogs : Final s'.log ∧ s.log <+: s'.log ∧ ∀ x, Gone s'.log x → Gone s.log x := by
    rcases hLog with hSame | ⟨n, hMore, hPlain, hNot⟩
    · rw [hSame]
      exact ⟨h.final, List.prefix_rfl, fun _ hGone => hGone⟩
    · rw [hMore]
      refine ⟨final_plain h.final hPlain hNot, List.prefix_append _ _, fun x hGone => ?_⟩
      rcases gone_append.mp hGone with hBefore | hNow
      · exact hBefore
      · exact absurd (List.mem_singleton.mp hNow).symm (hNot _)
  obtain ⟨hFinal, hPrefix, hGone⟩ := hLogs
  refine h.of hFinal hPrefix (fun x hNow => .inl (hGone x hNow)) hClients ?_ hAllocated ?_ ?_
    hLeaving
  · rw [hQuiet.openings]
    exact fun _ hMem => hMem
  · exact fun x hYes => (hEnded x).trans hYes
  · intro x hYes
    rw [hQuiet.rest]
    exact h.rest x ((hEnded x).symm.trans hYes)

/-- A step that calls `OnDisconnect` with a connection that may be disconnected. -/
theorem Registered.called {p : Option Nat} (h : Registered s) (hQuiet : Quiet s s')
    (hEnded : ∀ x, (s'.objects x).ended = (s.objects x).ended)
    (hHandler : ∀ x c, event ≠ .complete x c) (hRemovable : s.Removable event p)
    (hLog : s'.log = s.log ++ [.call (.onDisconnect p)]) (hClients : s'.clients = s.clients)
    (hAllocated : s'.allocated = s.allocated)
    (hLeaving : ∀ x, s.Leaving x ∨ p = some x → s'.Leaving x) : Registered s' := by
  obtain ⟨x, rfl, hClient, hNot, hConnect, hStopped⟩ := h.removable hRemovable
  have hYes : (s.objects x).ended = true := by
    rcases hStopped with hYes | hNow
    · exact hYes
    · cases event with
      | complete y c => exact absurd rfl (hHandler y c)
      | _ => exact hNow.elim
  refine h.of ?_ ?_ ?_ ?_ ?_ hAllocated ?_ ?_ ?_
  · rw [hLog]
    exact final_disconnect h.final hNot hConnect
  · rw [hLog]
    exact List.prefix_append _ _
  · intro y hNow
    rw [hLog] at hNow
    rcases gone_append.mp hNow with hBefore | hThis
    · exact .inl hBefore
    · obtain rfl : y = x := by simpa [Gone] using hThis
      exact .inr ⟨hClient, (hEnded y).trans hYes, hLeaving y (.inr rfl)⟩
  · exact fun y => by rw [hClients]
  · rw [hQuiet.openings]
    exact fun _ hMem => hMem
  · exact fun y hBefore => (hEnded y).trans hBefore
  · intro y hNow
    rw [hQuiet.rest]
    exact h.rest y ((hEnded y).symm.trans hNow)
  · exact fun y hBefore _ => hLeaving y (.inl hBefore)

/-- A member function that goes on, from a state that differs in the connection only. -/
theorem Registered.advance (s₀ : DedicatedServer) {x : Nat} {effects : List Effect}
    (h : Registered s) (hLog : s₀.log = s.log) (hClients : s₀.clients = s.clients)
    (hAllocated : s₀.allocated = s.allocated) (hOpenings : s₀.openings = s.openings)
    (hEnded : ∀ y, (s.objects y).ended = true → (s₀.objects y).ended = true)
    (hLeaving : ∀ y, s.Leaving y → s₀.Leaving y)
    (hRest : ∀ y, (s₀.objects y).ended = true → ∀ e ∈ s₀.rest y, e.isReport = false)
    (hReports : (s.objects x).ended = true → ∀ e ∈ effects, e.isReport = false)
    (hTail : (s₀.objects x).ended = true → ∀ e ∈ effects.tail, e.isReport = false)
    (hCall : leaves effects = true → some x ∈ s.clients ∧ ¬ Gone s.log x ∧
      .call (.onConnect x) ∈ s.log ∧ (s₀.objects x).ended = true) :
    Registered (s₀.advance x effects) := by
  obtain ⟨hSame, -, hSameAllocated, -, hSameOpenings⟩ := advance_frame s₀ x effects
  obtain ⟨hPrefix, hGone⟩ := log_advance s₀ x effects
  obtain ⟨new, hTasks, hErase⟩ := tasks_advance s₀ x effects
  obtain ⟨tail, hSuffix, -, hAfter⟩ := rest_advance s₀ x effects
  refine h.of ?_ (hLog ▸ hPrefix) ?_ ?_ ?_ (hSameAllocated.trans hAllocated) ?_ ?_ ?_
  · refine final_advance s₀ x effects (hLog ▸ h.final) ?_ ?_
    · rw [hLog]
      exact fun hBefore => hReports (h.ended x hBefore)
    · rw [hLog]
      exact fun hLeaves => ⟨(hCall hLeaves).2.1, (hCall hLeaves).2.2.1⟩
  · intro y hNow
    rcases hGone y hNow with hBefore | ⟨rfl, hLeaves⟩
    · exact .inl (hLog ▸ hBefore)
    · obtain ⟨hClient, -, -, hYes⟩ := hCall hLeaves
      refine .inr ⟨hClient, (ended_advance s₀ y effects y).trans hYes, ?_⟩
      refine leaving_of_mem (.erase (some y)) (t := .context) ?_ (beq_self_eq_true _)
      rw [hTasks, Function.update_self]
      exact List.mem_append_left _ (hErase hLeaves)
  · exact fun y => by rw [hSame, hClients]
  · rw [hSameOpenings, hOpenings]
    exact fun _ hMem => hMem
  · exact fun y hBefore => (ended_advance s₀ x effects y).trans (hEnded y hBefore)
  · intro y hNow e hMem
    have hYes := (ended_advance s₀ x effects y).symm.trans hNow
    rw [hAfter] at hMem
    rcases List.mem_append.mp hMem with hNew | hOld
    · split at hNew
      · rename_i hThis
        subst hThis
        exact hTail hYes e (hSuffix.subset hNew)
      · cases hNew
    · exact hRest y hYes e hOld
  · intro y hBefore _
    rcases leaving_exchange [] new (show s₀.tasks .context = [] ++ s₀.tasks .context from rfl) hTasks
      (hLeaving y hBefore) with ⟨task, hMem, -⟩ | hNow
    · cases hMem
    · exact hNow

end

/-! ## Handlers -/

/-- The handler of a chain that has stopped, or that it stops, reports nothing but the
rejection of the peer, and that first. -/
theorem handle_reports {st : Endpoint.Start} {e e' : Endpoint} {effects : List Effect}
    {c : Completion} (hStage : Endpoint.InStage st e) (hHandle : e.handle c = some (e', effects)) :
    e'.ended = (e.ended || c.ends e.connection) ∧
      (e.ended = true → ∀ x ∈ effects, x.isReport = false) ∧
      (e'.ended = true → ∀ x ∈ effects.tail, x.isReport = false) := by
  have hTalk : ∀ x : Effect, x.isTalk = false → x.isReport = false := by
    intro x hx
    cases x with
    | onValidate | onInvalidate | emplaceBack => cases hx
    | asyncConnect | asyncRead | asyncWrite | disconnect | postClose | emptyDeque => rfl
  have hEnded := Endpoint.handle_ended hHandle
  by_cases hMain : c.isMain = true
  · obtain ⟨-, hEffects, -, -⟩ := Endpoint.handle_resume hMain hHandle
    have hRunning : e.ended = false := by
      by_contra hYes
      obtain ⟨k, hWaits, hStage⟩ := hStage
      obtain ⟨hPending, -⟩ := hWaits.handle hMain hHandle
      rw [hStage.ended_none (Bool.eq_true_of_not_eq_false hYes)] at hPending
      cases c with
      | lambda => cases hMain
      | _ => cases hPending
    refine ⟨hEnded, fun hYes => ?_, fun hYes => ?_⟩
    · rw [hRunning] at hYes
      cases hYes
    · rw [hEnded, hRunning, Bool.false_or] at hYes
      rw [hEffects]
      exact Connection.resume_ends hMain hYes
  · have hFrame : c.isMain = false := by simpa using hMain
    obtain ⟨hEffects, -⟩ := Endpoint.handle_frame hFrame hHandle
    exact ⟨hEnded, fun _ x hx => hTalk x (hEffects x hx),
      fun _ x hx => hTalk x (hEffects x (List.mem_of_mem_tail hx))⟩

theorem Alive.stage {e : Endpoint} (h : Alive e) : ∃ st, Endpoint.InStage st e := by
  cases h with
  | created hStage => exact ⟨_, hStage⟩
  | admitted hStage => exact ⟨_, hStage⟩

theorem Registered.complete {s s' : DedicatedServer} {x : Nat} {c : Completion}
    (h : Registered s) (hSound : Sound s)
    (hOk : ∀ p ∈ s.disconnects (.complete x c), s.Removable (.complete x c) p)
    (hStep : s.step (.complete x c) = some s') : Registered s' := by
  cases step_cases hStep with
  | @complete x c e effects hIdle _ hHandle =>
    obtain ⟨st, hStage⟩ := (hSound.alive x).stage
    rw [endpoint, rest_idle hIdle] at hStage
    change Endpoint.InStage st (s.objects x) at hStage
    obtain ⟨hEnded, hReports, hTail⟩ := handle_reports hStage hHandle
    have hObject : (s.setObject x e).objects x = e := Function.update_self ..
    have hKeep : ∀ y, (s.objects y).ended = true → ((s.setObject x e).objects y).ended = true := by
      intro y hYes
      by_cases hSame : y = x
      · subst hSame
        rw [hObject, hEnded, hYes, Bool.true_or]
      · simpa only [setObject, Function.update_of_ne hSame] using hYes
    refine h.advance (s.setObject x e) rfl rfl rfl rfl hKeep (fun _ hLeaving => hLeaving) ?_ hReports ?_ ?_
    · intro y _ effect hMem
      have hNone : (s.setObject x e).rest y = [] := rest_idle hIdle y
      rw [hNone] at hMem
      cases hMem
    · rw [hObject]
      exact hTail
    · intro hLeaves
      have hMem : some x ∈ s.disconnects (.complete x c) := by
        simp [disconnects, hHandle, hLeaves]
      obtain ⟨y, hy, hClient, hNot, hConnect, hStopped⟩ := h.removable (hOk _ hMem)
      obtain rfl := Option.some.inj hy
      refine ⟨hClient, hNot, hConnect, ?_⟩
      rw [hObject, hEnded]
      rcases hStopped with hYes | ⟨-, hYes⟩
      · rw [hYes, Bool.true_or]
      · rw [hYes, Bool.or_true]

end DedicatedServer

end MinecraftNetwork
