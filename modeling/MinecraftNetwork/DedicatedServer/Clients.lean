import MinecraftNetwork.DedicatedServer.Registry
import MinecraftNetwork.DedicatedServer.Identifiers

/-!
# `m_Clients` between the operations on it

`register`, `Disconnect` and `MessageAll` change `m_Clients` in several steps, with a
callback of the application in between. When each of them runs to its end before the next
one begins (`Atomic`), the list between two of them is that of the allowed connections for
which `OnDisconnect` has not been called (`live`). `Phase` says what the list is in the
middle of an operation.
-/

namespace MinecraftNetwork

open Runs

/-- The task is a part of an operation on `m_Clients`. -/
def Task.isRemoval : Task → Bool
  | .erase _ | .messageAll _ _ _ _ _ | .reset _ _ => true
  | .callback _ | .resume _ _ | .release _ => false

instance (log : List Notice) (x : Nat) : Decidable (Gone log x) :=
  inferInstanceAs (Decidable (_ ∈ _))

/-- The allowed connections for which `OnDisconnect` has not been called. -/
def live (log : List Notice) : List Nat := (allowed log).filter fun x => ¬ Gone log x

namespace DedicatedServer

/-- What a thread has still to do on `m_Clients`. -/
def removals (s : DedicatedServer) (t : Thread) : List Task := (s.tasks t).filter Task.isRemoval

/-- An operation on `m_Clients` has begun and has not come to its end. -/
def Underway (s : DedicatedServer) : Prop :=
  s.removals .context ≠ [] ∨ s.removals .polling ≠ []

/-- A step that begins an operation on `m_Clients`: it registers a connection, or calls
`DedicatedServer::Disconnect` or `MessageAll`. -/
def begins (s : DedicatedServer) : Event → Bool
  | .allow _ | .app _ (.messageAll _ _) => true
  | .run t =>
    match s.tasks t with
    | .resume _ effects :: _ => leaves effects
    | .callback _ :: _ | .erase _ :: _ | .messageAll _ _ _ _ _ :: _ | .reset _ _ :: _
    | .release _ :: _ | [] => false
  | .complete x c => s.disconnects (.complete x c) != []
  | .app t (.disconnect x) => s.disconnects (.app t (.disconnect x)) != []
  | .app t (.messageOne p m) => s.disconnects (.app t (.messageOne p m)) != []
  | .app _ (.send _ _) | .app _ (.keep _) | .app _ (.drop _) | .accept | .transfer _ _ _
  | .leave _ | .deny | .poll _ => false

/-- An operation on `m_Clients` begins when none is under way. -/
def Atomic (s : DedicatedServer) (event : Event) : Prop := s.begins event = true → ¬ s.Underway

instance (s : DedicatedServer) : Decidable s.Underway := inferInstanceAs (Decidable (_ ∨ _))

instance (s : DedicatedServer) (event : Event) : Decidable (s.Atomic event) :=
  inferInstanceAs (Decidable (_ → _))

variable {s s' : DedicatedServer}

theorem not_underway : ¬ s.Underway ↔ ∀ t, s.removals t = [] := by
  rw [Underway, not_or, not_not, not_not]
  constructor
  · rintro ⟨hContext, hPolling⟩ t
    cases t with
    | context => exact hContext
    | polling => exact hPolling
  · exact fun hNone => ⟨hNone _, hNone _⟩

/-! ## What a step does to the list -/

/-- Tasks are exchanged on the stack of a thread. -/
theorem removals_exchange {s : DedicatedServer} (s' : DedicatedServer) (old new : List Task)
    {t : Thread} {tail : List Task} (h : s.tasks t = old ++ tail)
    (h' : s'.tasks = Function.update s.tasks t (new ++ tail)) :
    ∃ below, s.removals t = old.filter Task.isRemoval ++ below ∧
      s'.removals = Function.update s.removals t (new.filter Task.isRemoval ++ below) := by
  refine ⟨tail.filter Task.isRemoval, ?_, ?_⟩
  · rw [removals, h, List.filter_append]
  · funext t'
    by_cases hThread : t' = t
    · subst hThread
      rw [removals, h', Function.update_self, Function.update_self, List.filter_append]
    · rw [removals, h', Function.update_of_ne hThread, Function.update_of_ne hThread, removals]

/-- An exchange of tasks that are no part of an operation. -/
theorem removals_kept (old new : List Task) {t : Thread} {tail : List Task}
    (h : s.tasks t = old ++ tail) (h' : s'.tasks = Function.update s.tasks t (new ++ tail))
    (hOld : old.filter Task.isRemoval = []) (hNew : new.filter Task.isRemoval = []) :
    s'.removals = s.removals := by
  obtain ⟨below, hBefore, hAfter⟩ := removals_exchange s' old new h h'
  rw [hOld, List.nil_append] at hBefore
  rw [hAfter, hNew, List.nil_append, ← hBefore]
  exact Function.update_eq_self t s.removals

/-- A step as the list and its operations see it. -/
inductive Entry (s s' : DedicatedServer) (event : Event) : Prop
  | idle (hGone : ∀ x, Gone s'.log x ↔ Gone s.log x) (hClients : s'.clients = s.clients)
      (hRemovals : s'.removals = s.removals)
  | allow {now : UInt64} {x : Nat} {rest : List Task} (hEvent : event = .allow now)
      (hTasks : s.tasks .context = .callback (.allowConnection x) :: rest)
      (hNext : s' = s.register x now rest)
  | disconnect {t : Thread} {p : Option Nat} (hBegins : s.begins event = true)
      (hOwned : ∀ x, p = some x → x ∈ s.owners ∧ x ∉ s.openings)
      (hGone : ∀ x, Gone s'.log x ↔ Gone s.log x ∨ p = some x) (hClients : s'.clients = s.clients)
      (hRemovals : s'.removals = Function.update s.removals t (.erase p :: s.removals t))
      (hCalls : p ∈ s.disconnects event)
  | messageAll {t : Thread} {m : Message} {ignored : Option Nat} (hBegins : s.begins event = true)
      (hGone : ∀ x, Gone s'.log x ↔ Gone s.log x) (hClients : s'.clients = s.clients)
      (hRemovals : s'.removals = Function.update s.removals t
        (.messageAll m ignored 0 s.clients.length false :: s.removals t))
  | erase {t : Thread} {p : Option Nat} {below : List Task} (hBefore : s.removals t = .erase p :: below)
      (hGone : ∀ x, Gone s'.log x ↔ Gone s.log x)
      (hClients : s'.clients = s.clients.filter fun q => q ≠ none ∧ q ≠ p)
      (hRemovals : s'.removals = Function.update s.removals t below)
  | next {t : Thread} {m : Message} {ignored : Option Nat} {position stop : Nat}
      {clientsRemoved : Bool} {below : List Task}
      (hBefore : s.removals t = .messageAll m ignored position stop clientsRemoved :: below)
      (hGone : ∀ x, Gone s'.log x ↔ Gone s.log x) (hClients : s'.clients = s.clients)
      (hRemovals : s'.removals = Function.update s.removals t
        (.messageAll m ignored (position + 1) stop clientsRemoved :: below))
  | remove {t : Thread} {m : Message} {ignored : Option Nat} {position stop : Nat}
      {clientsRemoved : Bool} {below : List Task} {p : Option Nat}
      (hBefore : s.removals t = .messageAll m ignored position stop clientsRemoved :: below)
      (hEntry : s.clients[position]? = some p)
      (hGone : ∀ x, Gone s'.log x ↔ Gone s.log x ∨ p = some x) (hClients : s'.clients = s.clients)
      (hRemovals : s'.removals = Function.update s.removals t
        (.reset position p :: .messageAll m ignored (position + 1) stop true :: below))
      (hCalls : p ∈ s.disconnects event)
      (hOwned : ∀ x, p = some x → x ∈ s.owners ∧ x ∉ s.openings)
  | reset {t : Thread} {position : Nat} {p : Option Nat} {below : List Task}
      (hBefore : s.removals t = .reset position p :: below)
      (hGone : ∀ x, Gone s'.log x ↔ Gone s.log x) (hClients : s'.clients = s.clients.set position none)
      (hRemovals : s'.removals = Function.update s.removals t below)
      (hResets : (position, p) ∈ s.resets event)
  | finish {t : Thread} {m : Message} {ignored : Option Nat} {position stop : Nat}
      {clientsRemoved : Bool} {below : List Task}
      (hBefore : s.removals t = .messageAll m ignored position stop clientsRemoved :: below)
      (hGone : ∀ x, Gone s'.log x ↔ Gone s.log x)
      (hClients : s'.clients =
        if clientsRemoved then s.clients.filter (· ≠ none) else s.clients)
      (hRemovals : s'.removals = Function.update s.removals t below)

/-- `DedicatedServer::Disconnect` is called, in a state that differs in a connection only. -/
theorem entry_disconnect {event : Event} {t : Thread} {p : Option Nat} {rest : List Task}
    (s₀ : DedicatedServer) (hBegins : s.begins event = true) (hCalls : p ∈ s.disconnects event)
    (hOwned : ∀ x, p = some x → x ∈ s.owners ∧ x ∉ s.openings) (hLog : s₀.log = s.log)
    (hClients : s₀.clients = s.clients) (hTasks : s₀.tasks = s.tasks)
    (hRest : rest.filter Task.isRemoval = []) : Entry s (s₀.disconnect t p rest) event := by
  refine .disconnect (t := t) (p := p) hBegins hOwned (fun x => ?_) hClients ?_ hCalls
  · change Gone (s₀.log ++ _) x ↔ _
    rw [gone_append, hLog]
    simp [Gone, eq_comm]
  · have hNext : (s₀.disconnect t p rest).tasks = Function.update s.tasks t
        ((.callback (.onDisconnect p) :: .erase p :: rest) ++ s.tasks t) := by
      simp [DedicatedServer.disconnect, call, setTasks, hTasks]
    obtain ⟨below, hBefore, hAfter⟩ := removals_exchange _ [] _ (t := t) rfl hNext
    rw [hAfter, hBefore]
    simp [List.filter_cons, Task.isRemoval, hRest]

/-- A member function of a connection goes on, in a state that differs in a connection only. -/
theorem entry_advance {event : Event} {x : Nat} (effects : List Effect) (s₀ : DedicatedServer)
    (hBegins : leaves effects = true → s.begins event = true ∧ some x ∈ s.disconnects event ∧
      x ∈ s.owners ∧ x ∉ s.openings)
    (hGone : ∀ y, Gone s₀.log y ↔ Gone s.log y) (hClients : s₀.clients = s.clients)
    (hRemovals : s₀.removals = s.removals) : Entry s (s₀.advance x effects) event := by
  induction effects generalizing s₀ with
  | nil => exact .idle hGone hClients hRemovals
  | cons effect effects ih =>
    have hPlain : ∀ c : Callback, (∀ p, c ≠ .onDisconnect p) →
        Entry s ((s₀.setObject x ((s₀.objects x).perform effect)).call .context c
          [.resume x effects]) event := by
      intro c hNot
      refine .idle (fun y => ?_) hClients ?_
      · refine Iff.trans (@gone_append s₀.log _ _) ?_
        rw [← hGone y]
        refine or_iff_left fun hNew => hNot (some y) ?_
        simpa [Gone, eq_comm] using hNew
      · refine Eq.trans ?_ hRemovals
        exact removals_kept (s := s₀) [] [.callback c, .resume x effects] (t := .context) rfl rfl rfl rfl
    cases effect with
    | onValidate | onInvalidate => exact hPlain _ (by simp)
    | disconnect =>
      obtain ⟨hYes, hCalls, hOwned⟩ := hBegins rfl
      refine .disconnect (t := .context) (p := some x) hYes
        (fun y hy => Option.some.inj hy ▸ hOwned) (fun y => ?_) hClients ?_ hCalls
      · refine Iff.trans (@gone_append s₀.log _ _) ?_
        rw [← hGone y]
        simp [Gone, eq_comm]
      · obtain ⟨below, hBefore, hAfter⟩ := removals_exchange (s := s₀)
          (s₀.advance x (.disconnect :: effects)) []
          [.callback (.onDisconnect (some x)), .erase (some x), .resume x effects] (t := .context)
          rfl rfl
        rw [hAfter, ← hRemovals, hBefore]
        rfl
    | emplaceBack tagged m =>
      rw [leaves_cons] at hBegins
      refine ih ((s₀.setObject x ((s₀.objects x).perform _)).enqueue x m) hBegins (fun y => ?_)
        hClients hRemovals
      refine Iff.trans ?_ (hGone y)
      refine Iff.trans (@gone_append s₀.log _ _) (or_iff_left ?_)
      simp [Gone]
    | asyncConnect | asyncRead | asyncWrite | postClose | emptyDeque =>
      rw [leaves_cons] at hBegins
      exact ih (s₀.setObject x ((s₀.objects x).perform _)) hBegins hGone hClients hRemovals

/-- A connection that is being asked about is open and is not yet anybody's. -/
theorem Sound.fresh (h : Sound s) {x : Nat} (hx : x ∈ s.openings) :
    (s.objects x).connection.isOpen = true ∧ (s.objects x).connection.hasConnectable = false := by
  obtain ⟨-, ⟨lambdas, hLambdas⟩, -⟩ := h.opening x hx
  rw [hLambdas]
  exact ⟨rfl, rfl⟩

theorem entry_act {t : Thread} {action : Action} (hSound : Sound s)
    (hStep : s.act t action = some s') : Entry s s' (.app t action) := by
  cases act_cases hStep with
  | send | messageOne | disconnectSilent | keep | drop => exact .idle (fun _ => Iff.rfl) rfl rfl
  | @disconnect x hOwned hCalls =>
    refine entry_disconnect _ ?_ ?_ (fun y hy => ?_) rfl rfl rfl rfl
    · simp [begins, disconnects, hCalls]
    · simp [disconnects, hCalls]
    · obtain rfl := Option.some.inj hy
      refine ⟨hOwned, fun hOpening => ?_⟩
      rw [Connection.disconnect, (hSound.fresh hOpening).2] at hCalls
      simp at hCalls
  | messageNone => exact entry_disconnect s rfl (by simp [disconnects]) (by simp) rfl rfl rfl rfl
  | @messageDead x m hOwned hDead =>
    refine entry_disconnect s ?_ ?_ (fun y hy => ?_) rfl rfl rfl rfl
    · simp [begins, disconnects, hDead]
    · simp [disconnects, hDead]
    · obtain rfl := Option.some.inj hy
      exact ⟨hOwned, fun hOpening => hDead (hSound.fresh hOpening).1⟩
  | @messageAll m ignored =>
    have hRemovals : (s.setTasks t (.messageAll m ignored 0 s.clients.length false ::
        s.tasks t)).removals = Function.update s.removals t
          (.messageAll m ignored 0 s.clients.length false :: s.removals t) := by
      obtain ⟨below, hBefore, hAfter⟩ := removals_exchange (s := s)
        (s.setTasks t (.messageAll m ignored 0 s.clients.length false :: s.tasks t)) []
        [.messageAll m ignored 0 s.clients.length false] (t := t) rfl rfl
      rw [hAfter, hBefore]
      rfl
    exact .messageAll rfl (fun _ => Iff.rfl) rfl hRemovals

theorem entry_iterate (hSound : Sound s) {t : Thread} {m : Message} {ignored : Option Nat} {position stop : Nat}
    {clientsRemoved : Bool} {tail : List Task}
    (hTasks : s.tasks t = .messageAll m ignored position stop clientsRemoved :: tail)
    (hStep : s.iterate t m ignored position stop clientsRemoved tail = some s') :
    Entry s s' (.run t) := by
  have hOld : s.tasks t = [.messageAll m ignored position stop clientsRemoved] ++ tail := hTasks
  cases iterate_cases hStep with
  | finish =>
    obtain ⟨below, hBefore, hAfter⟩ := removals_exchange (t := t)
      (if clientsRemoved then { s.setTasks t tail with clients := s.clients.filter (· ≠ none) }
        else s.setTasks t tail) _ [] hOld (by split <;> rfl)
    refine .finish (t := t) hBefore (fun x => ?_) ?_ hAfter
    · split <;> rfl
    · split <;> rfl
  | @next x =>
    obtain ⟨below, hBefore, hAfter⟩ := removals_exchange (t := t)
      (if some x ≠ ignored then
        (s.setTasks t (.messageAll m ignored (position + 1) stop clientsRemoved :: tail)).setObject x
          ((s.objects x).send m)
        else s.setTasks t (.messageAll m ignored (position + 1) stop clientsRemoved :: tail))
      _ [.messageAll m ignored (position + 1) stop clientsRemoved] hOld (by split <;> rfl)
    refine .next (t := t) hBefore (fun x => ?_) ?_ hAfter
    · split <;> rfl
    · split <;> rfl
  | @remove p hMore hEntry hDead =>
    have hCalls : p ∈ s.disconnects (.run t) := by
      cases p with
      | none => simp [disconnects, hTasks, hMore, hEntry]
      | some x => simp [disconnects, hTasks, hMore, hEntry, hDead x rfl]
    have hOwned : ∀ x, p = some x → x ∈ s.owners ∧ x ∉ s.openings := by
      rintro x rfl
      exact ⟨owned_of_client (List.mem_of_getElem? hEntry),
        fun hOpening => hDead x rfl (hSound.fresh hOpening).1⟩
    obtain ⟨below, hBefore, hAfter⟩ := removals_exchange (s.setTasks t tail |>.call t
      (.onDisconnect p) [.reset position p, .messageAll m ignored (position + 1) stop true]) _
      [.callback (.onDisconnect p), .reset position p,
        .messageAll m ignored (position + 1) stop true] hOld (by simp [call, setTasks])
    refine .remove (t := t) hBefore hEntry (fun x => ?_) rfl hAfter hCalls hOwned
    refine Iff.trans (@gone_append s.log _ _) ?_
    simp [Gone, eq_comm]

/-- **What a step does to the list and to the operations on it.** -/
theorem entry_of_step {event : Event} (hSound : Sound s) (hStep : s.step event = some s') :
    Entry s s' event := by
  cases step_cases hStep with
  | accept =>
    refine .idle (fun x => ?_) rfl ?_
    · refine Iff.trans (@gone_append s.log _ _) (or_iff_left ?_)
      simp [Gone]
    · exact removals_kept [] [.callback (.allowConnection s.allocated)] (t := .context) rfl rfl rfl
        rfl
  | @complete x c e effects hIdle hOwned hHandle =>
    refine entry_advance effects (s.setObject x e) (fun hLeaves => ⟨?_, ?_, hOwned, ?_⟩)
      (fun _ => Iff.rfl) rfl rfl
    · simp [begins, disconnects, hHandle, hLeaves]
    · simp [disconnects, hHandle, hLeaves]
    · simp [openings, hIdle]
  | transfer => exact .idle (fun _ => Iff.rfl) rfl rfl
  | app _ hAct => exact entry_act hSound hAct
  | @leave t c rest hTasks =>
    exact .idle (fun _ => Iff.rfl) rfl (removals_kept [.callback c] [] hTasks rfl rfl rfl)
  | allow hTasks => exact .allow rfl hTasks rfl
  | @deny x rest hTasks =>
    exact .idle (fun _ => Iff.rfl) rfl
      (removals_kept [.callback (.allowConnection x)] [] hTasks rfl rfl rfl)
  | @resume x effects rest hTasks hOwned =>
    refine entry_advance effects (s.setTasks .context rest) (fun hLeaves => ⟨?_, ?_, ?_, ?_⟩)
      (fun _ => Iff.rfl) rfl (removals_kept [.resume x effects] [] hTasks rfl rfl rfl)
    · simp [begins, hTasks, hLeaves]
    · simp [disconnects, hTasks, hLeaves]
    · refine hOwned.resolve_left ?_
      rintro rfl
      cases hLeaves
    · intro hOpening
      have hNone := (hSound.opening x hOpening).2.2 x
      simp only [DedicatedServer.rest, hTasks, List.flatMap_cons, Task.rest, if_true,
        List.append_eq_nil_iff] at hNone
      rw [hNone.1] at hLeaves
      cases hLeaves
  | @erase t p rest hTasks =>
    obtain ⟨below, hBefore, hAfter⟩ := removals_exchange ({ s.setTasks t rest with
      clients := s.clients.filter fun q => q ≠ none ∧ q ≠ p }) [.erase p] [] hTasks rfl
    exact .erase (t := t) hBefore (fun _ => Iff.rfl) rfl hAfter
  | iterate hTasks hIterate => exact entry_iterate hSound hTasks hIterate
  | @reset t position p rest hTasks =>
    obtain ⟨below, hBefore, hAfter⟩ := removals_exchange ({ s.setTasks t rest with
      clients := s.clients.set position none }) [.reset position p] [] hTasks rfl
    exact .reset (t := t) hBefore (fun _ => Iff.rfl) rfl hAfter (by simp [resets, hTasks])
  | @release t p rest hTasks =>
    exact .idle (fun _ => Iff.rfl) rfl (removals_kept [.release p] [] hTasks rfl rfl rfl)
  | @pop x m =>
    refine .idle (fun y => ?_) rfl ?_
    · refine Iff.trans (@gone_append s.log _ _) (or_iff_left ?_)
      simp [Gone]
    · exact removals_kept (s := s) [] [.callback (.onMessage x m), .release (some x)]
        (t := .polling) rfl rfl rfl rfl
  | poll => exact .idle (fun _ => Iff.rfl) rfl rfl

/-! ## The list in the middle of an operation -/

/-- `MessageAll` takes the connection of an entry out of a list without duplicates. -/
theorem filterMap_set_none {clients : List (Option Nat)} {position : Nat} {p : Option Nat}
    (hNodup : (clients.filterMap id).Nodup) (hEntry : clients[position]? = some p) :
    (clients.set position none).filterMap id =
      (clients.filterMap id).filter fun x => some x ≠ p := by
  induction clients generalizing position with
  | nil => simp at hEntry
  | cons q clients ih =>
    cases position with
    | zero =>
      obtain rfl : q = p := by simpa using hEntry
      cases q with
      | none => simp
      | some y =>
        have hNew : y ∉ clients.filterMap id := by
          simp only [List.filterMap_cons_some (f := id) rfl, List.nodup_cons] at hNodup
          exact hNodup.1
        simp only [List.set_cons_zero, List.filterMap_cons_none (f := id) rfl,
          List.filterMap_cons_some (f := id) rfl, List.filter_cons]
        rw [if_neg (by simp), List.filter_eq_self.mpr]
        intro x hx
        simp only [ne_eq, Option.some.injEq, decide_not, Bool.not_eq_true', decide_eq_false_iff_not]
        rintro rfl
        exact hNew hx
    | succ position =>
      have hTail : clients[position]? = some p := by simpa using hEntry
      cases q with
      | none => exact ih hNodup hTail
      | some y =>
        simp only [List.filterMap_cons_some (f := id) rfl, List.nodup_cons] at hNodup
        have hOther : some y ≠ p := by
          rintro rfl
          exact hNodup.1 (List.mem_filterMap.mpr ⟨some y, List.mem_of_getElem? hTail, rfl⟩)
        simp only [List.set_cons_succ, List.filterMap_cons_some (f := id) rfl, List.filter_cons]
        rw [if_pos (by simpa using hOther), ih hNodup.2 hTail]

theorem filter_ne_none (clients : List (Option Nat)) :
    clients.filter (· ≠ none) = (clients.filterMap id).map some := by
  induction clients with
  | nil => rfl
  | cons q clients ih =>
    cases q with
    | none => simpa using ih
    | some x => simpa using ih

theorem live_same {log log' : List Notice} (hAllowed : allowed log' = allowed log)
    (hGone : ∀ x, Gone log' x ↔ Gone log x) : live log' = live log := by
  simp only [live, hAllowed, hGone]

theorem live_gone {log log' : List Notice} {p : Option Nat} (hAllowed : allowed log' = allowed log)
    (hGone : ∀ x, Gone log' x ↔ Gone log x ∨ p = some x) :
    live log' = (live log).filter fun x => some x ≠ p := by
  simp only [live, hAllowed, hGone, List.filter_filter]
  refine List.filter_congr fun x _ => ?_
  by_cases hSame : p = some x
  · simp [hSame]
  · simp [hSame, Ne.symm hSame]

/-- What `m_Clients` is, in terms of the live connections, between the operations and in
the middle of one. -/
inductive Phase (clients : List (Option Nat)) (live : List Nat) : List Task → Prop
  | idle (hClients : clients = live.map some) : Phase clients live []
  | erase {p : Option Nat} (hKept : (clients.filter fun q => q ≠ none ∧ q ≠ p) = live.map some) :
      Phase clients live [.erase p]
  | messageAll {m : Message} {ignored : Option Nat} {position stop : Nat} {clientsRemoved : Bool}
      (hEntries : clients.filterMap id = live) (hNone : clientsRemoved = false → none ∉ clients) :
      Phase clients live [.messageAll m ignored position stop clientsRemoved]
  | reset {m : Message} {ignored : Option Nat} {position next stop : Nat} {p : Option Nat}
      (hEntries : (clients.set position none).filterMap id = live) :
      Phase clients live [.reset position p, .messageAll m ignored next stop true]

/-- The list, the operation on it that is under way and the log agree. -/
structure Ordered (s : DedicatedServer) : Prop where
  phase : ∃ t removals, s.removals = Function.update (fun _ => []) t removals ∧
    Phase s.clients (live s.log) removals
  allowed : ∀ x, some x ∈ s.clients → x ∈ allowed s.log
  known : ∀ x, Gone s.log x → x < s.allocated
  opening : ∀ x ∈ s.openings, ¬ Gone s.log x

/-- The operation whose next task is known is the only one under way. -/
theorem Ordered.running (h : Ordered s) {t : Thread} {task : Task} {below : List Task}
    (hBefore : s.removals t = task :: below) :
    Phase s.clients (live s.log) (task :: below) ∧
      ∀ tasks, Function.update s.removals t tasks = Function.update (fun _ => []) t tasks := by
  obtain ⟨t', removals, hRemovals, hPhase⟩ := h.phase
  obtain rfl : t = t' := by
    by_contra hOther
    rw [hRemovals, Function.update_of_ne hOther] at hBefore
    cases hBefore
  have hHere : removals = task :: below := by
    rw [← hBefore, hRemovals, Function.update_self]
  refine ⟨hHere ▸ hPhase, fun tasks => ?_⟩
  rw [hRemovals, Function.update_idem]

/-- Between the operations the list is that of the live connections. -/
theorem Ordered.idle (h : Ordered s) (hIdle : ¬ s.Underway) :
    s.removals = (fun _ => []) ∧ s.clients = (live s.log).map some := by
  have hNone : s.removals = fun _ => [] := funext (not_underway.mp hIdle)
  refine ⟨hNone, ?_⟩
  obtain ⟨t, removals, hRemovals, hPhase⟩ := h.phase
  have hHere : removals = [] := by
    rw [hNone] at hRemovals
    have hSame := congrFun hRemovals t
    rw [Function.update_self] at hSame
    exact hSame.symm
  subst hHere
  cases hPhase with
  | idle hClients => exact hClients

/-- A step that registers no connection. -/
theorem Ordered.other {event : Event} (h : Ordered s) (hStep : s.step event = some s')
    (hAllow : ∀ now, event ≠ .allow now) (gone : Nat → Prop)
    (hGone : ∀ x, Gone s'.log x ↔ Gone s.log x ∨ gone x)
    (hKnown : ∀ x, gone x → x < s.allocated ∧ x ∉ s.openings)
    (hClients : ∀ x, some x ∈ s'.clients → some x ∈ s.clients)
    (hPhase : ∃ t removals, s'.removals = Function.update (fun _ => []) t removals ∧
      Phase s'.clients (live s'.log) removals) : Ordered s' := by
  have hSame := allowed_step hStep hAllow
  refine ⟨hPhase, ?_, ?_, ?_⟩
  · rw [hSame.log]
    exact fun x hMem => h.allowed x (hClients x hMem)
  · intro x hNow
    refine Nat.lt_of_lt_of_le ?_ hSame.allocated
    rcases (hGone x).mp hNow with hBefore | hThis
    · exact h.known x hBefore
    · exact (hKnown x hThis).1
  · intro x hx hNow
    rcases openings_step hStep hx with hOld | ⟨-, rfl⟩
    · rcases (hGone x).mp hNow with hBefore | hThis
      · exact h.opening x hOld hBefore
      · exact (hKnown x hThis).2 hOld
    · rcases (hGone _).mp hNow with hBefore | hThis
      · exact (h.known _ hBefore).ne rfl
      · exact (hKnown _ hThis).1.ne rfl

theorem Ordered.allow {now : UInt64} {x : Nat} {rest : List Task} (h : Ordered s)
    (hIdle : ¬ s.Underway)
    (hTasks : s.tasks .context = .callback (.allowConnection x) :: rest)
    (hStep : s.step (.allow now) = some (s.register x now rest)) :
    Ordered (s.register x now rest) := by
  have hOpening := mem_openings hTasks
  have hNot := h.opening x hOpening
  obtain ⟨hNone, hClients⟩ := h.idle hIdle
  have hGone : ∀ y, Gone (s.register x now rest).log y ↔ Gone s.log y := by
    intro y
    refine Iff.trans (@gone_append s.log _ _) (or_iff_left ?_)
    simp [Gone]
  have hAllowed : MinecraftNetwork.allowed (s.register x now rest).log =
      MinecraftNetwork.allowed s.log ++ [x] := allowed_append _ _
  have hRemovals : (s.register x now rest).removals = s.removals := by
    refine removals_kept [.callback (.allowConnection x)] [.callback (.onConnect x)] hTasks ?_ rfl rfl
    simp [register, call, setTasks, setObject]
  have hLive : live (s.register x now rest).log = live s.log ++ [x] := by
    simp [live, hAllowed, hGone, List.filter_append, hNot]
  refine ⟨⟨.context, [], ?_, .idle ?_⟩, ?_, ?_, ?_⟩
  · rw [hRemovals, hNone]
    exact (Function.update_eq_self _ _).symm
  · change s.clients ++ [some x] = _
    rw [hLive, hClients, List.map_append, List.map_singleton]
  · intro y hMem
    rw [hAllowed]
    rcases List.mem_append.mp hMem with hOld | hNew
    · exact List.mem_append_left _ (h.allowed y hOld)
    · rw [Option.some.inj (List.mem_singleton.mp hNew)]
      exact List.mem_append_right _ (List.mem_singleton_self x)
  · exact fun y hNow => h.known y ((hGone y).mp hNow)
  · intro y hy hNow
    rcases openings_step hStep hy with hOld | ⟨hEvent, -⟩
    · exact h.opening y hOld ((hGone y).mp hNow)
    · cases hEvent

/-- **Every step of operations that do not overlap keeps the list in order.** -/
theorem Ordered.step {event : Event} (h : Ordered s) (hSound : Sound s) (hAllocated : Allocated s)
    (hNumbered : Numbered s) (hOk : Atomic s event) (hStep : s.step event = some s') :
    Ordered s' := by
  by_cases hAllow : ∃ now, event = .allow now
  · obtain ⟨now, rfl⟩ := hAllow
    cases step_cases hStep with
    | allow hTasks => exact h.allow (hOk rfl) hTasks hStep
  · push Not at hAllow
    have hAllowed := (allowed_step hStep hAllow).log
    have hNodup : (live s.log).Nodup := hNumbered.nodup.filter _
    -- a step that calls `OnDisconnect` with nobody
    have hSilent : (∀ x, Gone s'.log x ↔ Gone s.log x) →
        (∀ x, some x ∈ s'.clients → some x ∈ s.clients) →
        (∃ t removals, s'.removals = Function.update (fun _ => []) t removals ∧
          Phase s'.clients (live s.log) removals) → Ordered s' := by
      intro hGone hClients hPhase
      refine h.other hStep hAllow (fun _ => False) (fun x => ?_) (fun _ hx => hx.elim)
        hClients ?_
      · rw [hGone, or_false]
      · rwa [live_same hAllowed hGone]
    cases entry_of_step hSound hStep with
    | idle hGone hClients hRemovals =>
      refine hSilent hGone (fun x => by rw [hClients]; exact id) ?_
      rw [hRemovals, hClients]
      exact h.phase
    | allow hEvent => exact absurd hEvent (hAllow _)
    | @disconnect t p hBegins hOwned hGone hClients hRemovals =>
      obtain ⟨hNone, hList⟩ := h.idle (hOk hBegins)
      refine h.other hStep hAllow _ hGone (fun x hx => ?_) (fun x => by rw [hClients]; exact id)
        ⟨t, [.erase p], ?_, .erase ?_⟩
      · exact ⟨hAllocated x (hOwned x hx).1, (hOwned x hx).2⟩
      · rw [hRemovals, hNone]
      · rw [hClients, hList, live_gone hAllowed hGone, List.filter_map]
        refine congrArg _ (List.filter_congr fun x _ => ?_)
        simp
    | @messageAll t m ignored hBegins hGone hClients hRemovals =>
      obtain ⟨hNone, hList⟩ := h.idle (hOk hBegins)
      refine hSilent hGone (fun x => by rw [hClients]; exact id) ?_
      rw [hRemovals, hNone]
      refine ⟨t, _, rfl, .messageAll ?_ ?_⟩
      · rw [hClients, hList, List.filterMap_map]
        exact List.filterMap_some
      · rw [hClients, hList]
        simp
    | @erase t p below hBefore hGone hClients hRemovals =>
      obtain ⟨hPhase, hUpdate⟩ := h.running hBefore
      cases hPhase with
      | erase hKept =>
        refine hSilent hGone (fun x => ?_) ⟨t, [], ?_, .idle ?_⟩
        · rw [hClients]
          exact List.mem_of_mem_filter
        · rw [hRemovals, hUpdate]
        · rw [hClients, hKept]
    | @next t m ignored position stop clientsRemoved below hBefore hGone hClients hRemovals =>
      obtain ⟨hPhase, hUpdate⟩ := h.running hBefore
      cases hPhase with
      | messageAll hEntries hNone =>
        refine hSilent hGone (fun x => by rw [hClients]; exact id) ?_
        rw [hRemovals, hUpdate]
        refine ⟨t, _, rfl, .messageAll ?_ ?_⟩
        · rw [hClients, hEntries]
        · rw [hClients]
          exact hNone
    | @remove t m ignored position stop clientsRemoved below p hBefore hEntry hGone hClients
        hRemovals =>
      obtain ⟨hPhase, hUpdate⟩ := h.running hBefore
      cases hPhase with
      | messageAll hEntries hNone =>
        refine h.other hStep hAllow _ hGone (fun x hx => ?_) (fun x => by rw [hClients]; exact id)
          ?_
        · subst hx
          have hClient := List.mem_of_getElem? hEntry
          exact ⟨hAllocated x (owned_of_client hClient),
            fun hOpening => hNumbered.opening x hOpening (h.allowed x hClient)⟩
        · rw [hRemovals, hUpdate, hClients, live_gone hAllowed hGone, ← hEntries]
          exact ⟨t, _, rfl, .reset (filterMap_set_none (hEntries ▸ hNodup) hEntry)⟩
    | @reset t position p below hBefore hGone hClients hRemovals =>
      obtain ⟨hPhase, hUpdate⟩ := h.running hBefore
      cases hPhase with
      | reset hEntries =>
        refine hSilent hGone (fun x hMem => ?_) ?_
        · rw [hClients] at hMem
          rcases List.mem_or_eq_of_mem_set hMem with hOld | hNew
          · exact hOld
          · cases hNew
        · rw [hRemovals, hUpdate, hClients, ← hEntries]
          exact ⟨t, _, rfl, .messageAll rfl fun hNot => by cases hNot⟩
    | @finish t m ignored position stop clientsRemoved below hBefore hGone hClients hRemovals =>
      obtain ⟨hPhase, hUpdate⟩ := h.running hBefore
      cases hPhase with
      | messageAll hEntries hNone =>
        have hList : s'.clients = (live s.log).map some := by
          rw [hClients, ← hEntries, ← filter_ne_none]
          split
          · rfl
          · rename_i hNot
            refine (List.filter_eq_self.mpr fun q hq => ?_).symm
            have hThere := hNone (by simpa using hNot)
            simp only [ne_eq, decide_not, Bool.not_eq_true', decide_eq_false_iff_not]
            rintro rfl
            exact hThere hq
        refine hSilent hGone (fun x hMem => ?_) ⟨t, [], ?_, .idle hList⟩
        · rw [hClients] at hMem
          split at hMem
          · exact List.mem_of_mem_filter hMem
          · exact hMem
        · rw [hRemovals, hUpdate]

theorem ordered_init : Ordered {} := by
  refine ⟨⟨.context, [], ?_, .idle rfl⟩, ?_, ?_, ?_⟩
  · exact (Function.update_eq_self _ _).symm
  · exact fun _ hMem => by cases hMem
  · exact fun _ hMem => by cases hMem
  · exact fun _ hMem => by cases hMem

/-! ## The registry of a run -/

/-- The registry agrees with the callbacks: the clients are those that were allowed and for
which `OnDisconnect` has not been called, and the identifiers count the allowed ones. -/
structure Registry (s : DedicatedServer) : Prop where
  clients : s.clients = (live s.log).map some
  nodup : s.clients.Nodup
  id : ∀ k x, (allowed s.log)[k]? = some x → (s.objects x).connection.id.toNat = k + 1
  next : s.nextClientID.toNat = (allowed s.log).length + 1
  increasing : ((live s.log).map fun x => (s.objects x).connection.id).Pairwise (· < ·)
  bounds : ∀ x, some x ∈ s.clients →
    0 < (s.objects x).connection.id ∧ (s.objects x).connection.id < s.nextClientID
  unshared : ∀ x ∈ allowed s.log, ∀ y,
    (s.objects y).connection.id = (s.objects x).connection.id → y = x
  kept : ∀ event s', s.step event = some s' → ∀ x ∈ allowed s.log, x ∈ allowed s'.log ∧
    (s'.objects x).connection.id = (s.objects x).connection.id

/-- No more connections have been allowed than accepted. -/
theorem Numbered.length_le (h : Numbered s) : (allowed s.log).length ≤ s.allocated := by
  have hSubset : allowed s.log ⊆ List.range s.allocated :=
    fun x hx => List.mem_range.mpr (h.known x hx)
  have hLength := (List.subperm_of_subset h.nodup hSubset).length_le
  rwa [List.length_range] at hLength

/-- As long as `m_NextClientID` does not wrap around, the identifiers count. -/
theorem Numbered.toNat (h : Numbered s) (hAccepts : s.allocated < 2 ^ 64 - 1) :
    s.nextClientID.toNat = (allowed s.log).length + 1 ∧ ∀ k x, (allowed s.log)[k]? = some x →
      (s.objects x).connection.id.toNat = k + 1 := by
  have hLength := h.length_le
  refine ⟨?_, fun k x hx => ?_⟩
  · rw [h.next, UInt64.toNat_ofNat']
    exact Nat.mod_eq_of_lt (by omega)
  · have hBound := (List.getElem?_eq_some_iff.mp hx).1
    rw [h.given k x hx, UInt64.toNat_ofNat']
    exact Nat.mod_eq_of_lt (by omega)

/-- A step changes the identifier of no connection that has one. -/
theorem Numbered.kept {event : Event} (h : Numbered s) (hSound : Sound s)
    (hStep : s.step event = some s') {x : Nat} (hx : x ∈ allowed s.log) :
    x ∈ allowed s'.log ∧ (s'.objects x).connection.id = (s.objects x).connection.id := by
  constructor
  · by_cases hAllow : ∃ now, event = .allow now
    · obtain ⟨now, rfl⟩ := hAllow
      cases step_cases hStep with
      | @allow _ y rest hTasks =>
        have hLog : allowed (s.register y now rest).log = allowed s.log ++ [y] :=
          allowed_append _ _
        rw [hLog]
        exact List.mem_append_left _ hx
    · push Not at hAllow
      rwa [(allowed_step hStep hAllow).log]
  · refine hSound.id_step hStep (fun _ => (h.known x hx).ne) fun now rest _ hTasks => ?_
    exact h.opening x (mem_openings hTasks) hx

theorem ordered_of_reach (h : Reach system Atomic s) :
    Sound s ∧ Allocated s ∧ Numbered s ∧ Ordered s := by
  refine h.invariant (I := fun s => Sound s ∧ Allocated s ∧ Numbered s ∧ Ordered s) ?_ ?_
  · rintro _ rfl
    exact ⟨sound_init, allocated_init, numbered_init, ordered_init⟩
  · rintro s event s' ⟨hSound, hAllocated, hNumbered, hOrdered⟩ hOk hStep
    exact ⟨hSound.step hStep, hAllocated.step hStep, hNumbered.step hSound hAllocated hStep,
      hOrdered.step hSound hAllocated hNumbered hOk hStep⟩

/-- **Between the operations on it the registry agrees with the callbacks.** -/
theorem registry_of_reach (h : Reach system Atomic s) (hAccepts : s.allocated < 2 ^ 64 - 1)
    (hIdle : ¬ s.Underway) : s.Registry := by
  obtain ⟨hSound, -, hNumbered, hOrdered⟩ := ordered_of_reach h
  obtain ⟨hNext, hIds⟩ := hNumbered.toNat hAccepts
  have hClients := (hOrdered.idle hIdle).2
  have hLess : (allowed s.log).Pairwise fun x y =>
      (s.objects x).connection.id < (s.objects y).connection.id := by
    refine List.pairwise_iff_getElem.mpr fun i j hi hj hij => ?_
    rw [UInt64.lt_iff_toNat_lt, hIds i _ (List.getElem?_eq_getElem hi),
      hIds j _ (List.getElem?_eq_getElem hj)]
    omega
  refine ⟨hClients, ?_, hIds, hNext, ?_, ?_, ?_, ?_⟩
  · rw [hClients]
    exact (hNumbered.nodup.filter _).map (Option.some_injective _)
  · exact List.pairwise_map.mpr (hLess.filter _)
  · intro x hMem
    obtain ⟨k, hk⟩ := List.mem_iff_getElem?.mp (hOrdered.allowed x hMem)
    have hId := hIds k x hk
    have hBound := (List.getElem?_eq_some_iff.mp hk).1
    constructor
    · rw [UInt64.lt_iff_toNat_lt, hId]
      exact Nat.succ_pos k
    · rw [UInt64.lt_iff_toNat_lt, hId, hNext]
      omega
  · intro x hx y hSame
    obtain ⟨k, hk⟩ := List.mem_iff_getElem?.mp hx
    have hId := hIds k x hk
    have hy : y ∈ allowed s.log := by
      by_contra hNot
      rw [← hSame, hNumbered.unnamed y hNot] at hId
      cases hId
    obtain ⟨j, hj⟩ := List.mem_iff_getElem?.mp hy
    have hOther := hIds j y hj
    rw [hSame, hId] at hOther
    obtain rfl : k = j := by omega
    rw [hk] at hj
    exact (Option.some.inj hj).symm
  · exact fun event s' hStep x hx => hNumbered.kept hSound hStep hx

/-- Three clients come, one of them in vain, one is disconnected by the application, and one
that has closed its connection by a broadcast. -/
def comingAndGoing : List Event :=
  [.accept, .app .context (.keep 0), .app .context (.disconnect 0), .allow 0, .leave .context,
    .accept, .deny, .accept, .app .context (.keep 2), .allow 0, .leave .context,
    .accept, .allow 0, .leave .context, .complete 0 .lambda,
    .app .polling (.messageAll {} none), .run .polling, .leave .polling, .run .polling,
    .run .polling, .run .polling, .run .polling,
    .app .polling (.disconnect 2), .leave .polling, .run .polling]

theorem registry_of_comingAndGoing : ∃ s, Reach system Atomic s ∧ ¬ s.Underway ∧
    allowed s.log = [0, 2, 3] ∧ s.clients = [some 3] ∧ s.Registry := by
  obtain ⟨s, hReach, hEnd⟩ := Reach.exists_of_checked (M := system) Atomic rfl comingAndGoing
    (fun s => decide (¬ s.Underway) && (allowed s.log == [0, 2, 3] && s.clients == [some 3] &&
      s.allocated == 4)) (by decide)
  simp only [Bool.and_eq_true, decide_eq_true_eq, beq_iff_eq] at hEnd
  obtain ⟨hIdle, ⟨hAllowed, hClients⟩, hAllocated⟩ := hEnd
  exact ⟨s, hReach, hIdle, hAllowed, hClients,
    registry_of_reach hReach (by rw [hAllocated]; decide) hIdle⟩

end DedicatedServer

end MinecraftNetwork
