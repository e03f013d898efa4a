import MinecraftNetwork.DedicatedServer.Clients

/-!
# A broadcast while clients come and go

`MessageAll` runs on the polling thread, while accepts append to `m_Clients` and `Disconnect`
erases from it on the context thread. Here each of these, and each iteration of the loop of
`MessageAll`, is one move, with callbacks that do nothing, and the iterator is a position.

An erase behind the loop moves the entry it stands at to a position it has passed, so a client
is skipped (`skipped_client`). Where no such erase happens, everybody who stays is served once
(`served_of_reach`).
-/

namespace MinecraftNetwork

open Runs

namespace DedicatedServer

/-- Some steps one after the other. -/
def runAll (s : DedicatedServer) (events : List Event) : Option DedicatedServer :=
  events.foldlM step s

/-- The position of the running `MessageAll` on the polling thread, and the end it has taken. -/
def progress (s : DedicatedServer) : Option (Nat × Nat) :=
  match s.tasks .polling with
  | .messageAll _ _ position stop _ :: _ => some (position, stop)
  | _ => none

/-- The entry of a dead connection is reset when `OnDisconnect` has returned. -/
def settle (s : DedicatedServer) : Option DedicatedServer :=
  match s.tasks .polling with
  | .callback (.onDisconnect _) :: _ => s.runAll [.leave .polling, .run .polling]
  | _ => some s

inductive Move
  /-- One iteration of the loop of `MessageAll`, or its end. -/
  | iterate
  /-- The accept handler; `AllowConnection` returns true, or false. -/
  | accept (now : UInt64)
  | deny
  /-- `DedicatedServer::Disconnect` on the context thread. -/
  | disconnect (p : Option Nat)
  /-- A handler of a connection that makes no callback. -/
  | complete (x : Nat) (c : Completion)
  deriving DecidableEq, Repr

def move (s : DedicatedServer) : Move → Option DedicatedServer
  | .iterate =>
    match s.progress with
    | some (position, stop) =>
      if position = stop then s.step (.run .polling) else (s.step (.run .polling)).bind settle
    | none => none
  | .accept now => s.runAll [.accept, .allow now, .leave .context]
  | .deny => s.runAll [.accept, .deny]
  | .disconnect p =>
    if s.tasks .context = [] ∧ ∀ x ∈ p, x ∈ s.owners then
      (s.disconnect .context p []).runAll [.leave .context, .run .context]
    else none
  | .complete x c => (s.step (.complete x c)).filter fun s => s.tasks .context = []

end DedicatedServer

/-- A server on which `MessageAll` has been called. -/
structure Broadcast where
  server : DedicatedServer
  /-- The clients that have been registered and connected since the call. -/
  stayed : List Nat

namespace Broadcast

open DedicatedServer

/-- The connection is a client and connected. -/
def present (s : DedicatedServer) (x : Nat) : Bool := s.clients.contains (some x) && s.isConnected x

def step (b : Broadcast) (m : Move) : Option Broadcast :=
  (b.server.move m).map fun s => ⟨s, b.stayed.filter (present s)⟩

/-- Whoever calls `MessageAll` is the application on the polling thread, the context thread is
between two handlers, and what holds of `m_Clients` in every run does: it lists no connection
twice, and pointers are to allocated connections. -/
structure Calls (s : DedicatedServer) (m : Message) (ignored : Option Nat) (b : Broadcast) :
    Prop where
  idle : s.tasks .context = []
  application : s.inApplication .polling = true
  nodup : (s.clients.filterMap id).Nodup
  allocated : s.Allocated
  call : s.act .polling (.messageAll m ignored) = some b.server
  stayed : b.stayed = (s.clients.filterMap id).filter fun x => s.isConnected x

def system (s : DedicatedServer) (m : Message) (ignored : Option Nat) : System Broadcast Move where
  init := Calls s m ignored
  step := step

/-- Until the loop is at its end `Disconnect` erases no entry the loop has passed, and leaves
as many entries as there were at the call. -/
def Undisturbed (b : Broadcast) : Move → Prop
  | .disconnect p =>
    ∀ place ∈ b.server.progress, place.1 = place.2 ∨
      (∀ q ∈ b.server.clients.take place.1, q ≠ none ∧ q ≠ p) ∧
        place.2 ≤ (b.server.clients.filter fun q => q ≠ none ∧ q ≠ p).length
  | .iterate | .accept _ | .deny | .complete _ _ => True

instance (b : Broadcast) (m : Move) : Decidable (b.Undisturbed m) :=
  match m with
  | .disconnect _ => inferInstanceAs (Decidable (∀ place ∈ b.server.progress, _))
  | .iterate | .accept _ | .deny | .complete _ _ => inferInstanceAs (Decidable True)

/-- The messages given to `Send` of a connection before the call. -/
def before (s : DedicatedServer) (x : Nat) : List Message :=
  if x < s.allocated then (s.objects x).sent else []

/-- Everybody is sent the message at most once. When `MessageAll` has returned, who has stayed
has been sent it, and until then the loop goes on. -/
structure Served (s : DedicatedServer) (m : Message) (ignored : Option Nat) (b : Broadcast) :
    Prop where
  once : ∀ x < b.server.allocated, (b.server.objects x).sent = before s x ∨
    (b.server.objects x).sent = before s x ++ [m]
  stayed : b.server.progress = none →
    ∀ x ∈ b.stayed, some x ≠ ignored → (b.server.objects x).sent = before s x ++ [m]
  goes : ∀ place ∈ b.server.progress, ∃ b', b.step .iterate = some b' ∧
    b'.server.progress = if place.1 = place.2 then none else some (place.1 + 1, place.2)

/-! ## What a move does -/

/-- A move on the context thread. -/
structure Aside (s s' : DedicatedServer) : Prop where
  polling : s'.tasks .polling = s.tasks .polling
  allocated : s.allocated ≤ s'.allocated
  sent : ∀ x < s.allocated, (s'.objects x).sent = (s.objects x).sent
  new : ∀ x, s.allocated ≤ x → x < s'.allocated → (s'.objects x).sent = []

variable {s s' : DedicatedServer}

theorem runAll_cons {event : Event} {events : List Event} : s.runAll (event :: events) = some s' ↔
    ∃ s₁, s.step event = some s₁ ∧ s₁.runAll events = some s' := by
  rw [runAll, List.foldlM_cons]
  exact Option.bind_eq_some_iff

theorem sent_advance (s : DedicatedServer) (x : Nat) (effects : List Effect) (y : Nat) :
    ((s.advance x effects).objects y).sent = (s.objects y).sent := by
  have hOne : ∀ (s : DedicatedServer) (effect : Effect),
      ((s.setObject x ((s.objects x).perform effect)).objects y).sent = (s.objects y).sent := by
    intro s effect
    by_cases hSame : y = x
    · subst hSame
      simp only [setObject, Function.update_self]
      cases effect <;> rfl
    · simp only [setObject, Function.update_of_ne hSame]
  induction effects generalizing s with
  | nil => rfl
  | cons effect effects ih =>
    rw [← hOne s effect]
    cases effect with
    | onValidate | onInvalidate | disconnect => rfl
    | emplaceBack | asyncConnect | asyncRead | asyncWrite | postClose | emptyDeque => exact ih _

theorem runAll_nil : s.runAll [] = some s' ↔ s = s' := by
  rw [runAll, List.foldlM_nil]
  exact Option.some_inj

theorem move_accept {now : UInt64} (h : s.move (.accept now) = some s') :
    Aside s s' ∧ s'.clients = s.clients ++ [some s.allocated] := by
  obtain ⟨s₁, hAccept, h⟩ := runAll_cons.mp h
  obtain ⟨s₂, hAllow, h⟩ := runAll_cons.mp h
  obtain ⟨s₃, hLeave, h⟩ := runAll_cons.mp h
  obtain rfl := runAll_nil.mp h
  cases step_cases hAccept with
  | accept hIdle =>
    simp only [DedicatedServer.step, call, setTasks, setObject, Function.update_self, hIdle,
      List.append_nil, Option.some.injEq] at hAllow
    subst hAllow
    simp only [DedicatedServer.step, register, call, setTasks, setObject, Function.update_self,
      List.append_nil, Option.some.injEq] at hLeave
    subst hLeave
    refine ⟨⟨?_, Nat.le_succ _, ?_, ?_⟩, rfl⟩
    · simp
    · intro x hx
      simp [hx.ne]
    · intro x hx hNew
      obtain rfl : x = s.allocated := Nat.le_antisymm (Nat.lt_succ_iff.mp hNew) hx
      simp [Endpoint.run, Endpoint.create]

theorem move_deny (h : s.move .deny = some s') : Aside s s' ∧ s'.clients = s.clients := by
  obtain ⟨s₁, hAccept, h⟩ := runAll_cons.mp h
  obtain ⟨s₂, hDeny, h⟩ := runAll_cons.mp h
  obtain rfl := runAll_nil.mp h
  cases step_cases hAccept with
  | accept hIdle =>
    simp only [DedicatedServer.step, call, setTasks, setObject, Function.update_self, hIdle,
      List.append_nil, Option.some.injEq] at hDeny
    subst hDeny
    refine ⟨⟨?_, Nat.le_succ _, ?_, ?_⟩, rfl⟩
    · simp
    · intro x hx
      simp [hx.ne]
    · intro x hx hNew
      obtain rfl : x = s.allocated := Nat.le_antisymm (Nat.lt_succ_iff.mp hNew) hx
      simp [Endpoint.create]

theorem move_disconnect {p : Option Nat} (h : s.move (.disconnect p) = some s') :
    Aside s s' ∧ s'.clients = s.clients.filter fun q => q ≠ none ∧ q ≠ p := by
  simp only [DedicatedServer.move] at h
  split at h
  · rename_i hCan
    obtain ⟨s₁, hLeave, h⟩ := runAll_cons.mp h
    obtain ⟨s₂, hErase, h⟩ := runAll_cons.mp h
    obtain rfl := runAll_nil.mp h
    simp only [DedicatedServer.step, DedicatedServer.disconnect, call, setTasks,
      Function.update_self, hCan.1, List.append_nil, Option.some.injEq] at hLeave
    subst hLeave
    simp only [DedicatedServer.step, setTasks, Function.update_self, Option.some.injEq] at hErase
    subst hErase
    refine ⟨⟨?_, Nat.le_refl _, fun _ _ => rfl, fun x hx hNew => ?_⟩, rfl⟩
    · simp
    · exact absurd hNew (Nat.not_lt.mpr hx)
  · cases h

theorem move_complete {x : Nat} {c : Completion} (h : s.move (.complete x c) = some s') :
    Aside s s' ∧ s'.clients = s.clients := by
  simp only [DedicatedServer.move, Option.filter_eq_some_iff] at h
  obtain ⟨hStep, -⟩ := h
  cases step_cases hStep with
  | @complete _ _ e effects _ _ hHandle =>
    obtain ⟨hClients, -, hAllocated, hPolling, -⟩ := advance_frame (s.setObject x e) x effects
    refine ⟨⟨hPolling, hAllocated.ge, fun y _ => ?_, fun y hy hNew => ?_⟩, hClients⟩
    · rw [sent_advance]
      by_cases hSame : y = x
      · subst hSame
        simp only [setObject, Function.update_self]
        exact (Endpoint.handle_keeps hHandle).1
      · simp only [setObject, Function.update_of_ne hSame]
    · rw [hAllocated] at hNew
      exact absurd hNew (Nat.not_lt.mpr hy)

/-- An iteration of the loop serves a connected client, or resets a dead entry. -/
theorem move_iterate {m : Message} {ignored : Option Nat} {position stop : Nat}
    {clientsRemoved : Bool} {rest : List Task} (hMore : position ≠ stop)
    (hTasks : s.tasks .polling = .messageAll m ignored position stop clientsRemoved :: rest)
    (h : s.move .iterate = some s') : s'.allocated = s.allocated ∧ ∃ clientsRemoved',
      s'.tasks .polling = .messageAll m ignored (position + 1) stop clientsRemoved' :: rest ∧
      ((∃ x, s.clients[position]? = some (some x) ∧ s.isConnected x = true ∧
          s'.clients = s.clients ∧ ∀ y, (s'.objects y).sent =
            if y = x ∧ some x ≠ ignored then (s.objects y).sent ++ [m] else (s.objects y).sent) ∨
        ∃ p, s.clients[position]? = some p ∧ (∀ x, p = some x → s.isConnected x = false) ∧
          s'.clients = s.clients.set position none ∧ s'.objects = s.objects) := by
  have hProgress : s.progress = some (position, stop) := by rw [progress, hTasks]
  simp only [DedicatedServer.move, hProgress, if_neg hMore, Option.bind_eq_some_iff,
    DedicatedServer.step, hTasks] at h
  obtain ⟨s₁, hRun, hSettle⟩ := h
  cases iterate_cases hRun with
  | finish hEnd => exact absurd hEnd hMore
  | @next x _ hEntry hConnected =>
    by_cases hIgnored : some x ≠ ignored
    · rw [if_pos hIgnored] at hSettle
      simp only [settle, setTasks, setObject, Function.update_self, Option.some.injEq] at hSettle
      subst hSettle
      refine ⟨rfl, clientsRemoved, by simp, .inl ⟨x, hEntry, hConnected, rfl, fun y => ?_⟩⟩
      by_cases hSame : y = x
      · subst hSame
        simp [hIgnored, Endpoint.send]
      · simp [hSame]
    · rw [if_neg hIgnored] at hSettle
      simp only [settle, setTasks, Function.update_self, Option.some.injEq] at hSettle
      subst hSettle
      refine ⟨rfl, clientsRemoved, by simp, .inl ⟨x, hEntry, hConnected, rfl, fun y => ?_⟩⟩
      simp [hIgnored]
  | @remove p _ hEntry hDead =>
    have hBound := (List.getElem?_eq_some_iff.mp hEntry).1
    simp only [settle, call, setTasks, Function.update_self, List.cons_append, List.nil_append]
      at hSettle
    -- `OnDisconnect` returns, and the entry is reset
    obtain ⟨s₂, hLeave, hSettle⟩ := runAll_cons.mp hSettle
    obtain ⟨s₃, hReset, hSettle⟩ := runAll_cons.mp hSettle
    obtain rfl := runAll_nil.mp hSettle
    simp only [DedicatedServer.step, setTasks, Function.update_self, Option.some.injEq] at hLeave
    subst hLeave
    simp only [DedicatedServer.step, setTasks, Function.update_self, if_pos hBound,
      Option.some.injEq] at hReset
    subst hReset
    refine ⟨rfl, true, by simp, .inr ⟨p, hEntry, fun x hx => ?_, rfl, rfl⟩⟩
    exact Bool.eq_false_iff.mpr (hDead x hx)

/-- At its end `MessageAll` returns. -/
theorem move_end {m : Message} {ignored : Option Nat} {stop : Nat} {clientsRemoved : Bool}
    {rest : List Task}
    (hTasks : s.tasks .polling = .messageAll m ignored stop stop clientsRemoved :: rest)
    (h : s.move .iterate = some s') :
    s'.tasks .polling = rest ∧ s'.objects = s.objects ∧ s'.allocated = s.allocated := by
  have hProgress : s.progress = some (stop, stop) := by rw [progress, hTasks]
  simp only [DedicatedServer.move, hProgress, if_true, DedicatedServer.step, hTasks, iterate,
    Option.some.injEq] at h
  subst h
  split <;> simp [setTasks]

theorem allocated_runAll {events : List Event} (h : s.Allocated)
    (hRun : s.runAll events = some s') : s'.Allocated := by
  induction events generalizing s with
  | nil => exact runAll_nil.mp hRun ▸ h
  | cons event events ih =>
    obtain ⟨s₁, hStep, hRun⟩ := runAll_cons.mp hRun
    exact ih (h.step hStep) hRun

theorem allocated_settle (h : s.Allocated) (hSettle : s.settle = some s') : s'.Allocated := by
  simp only [settle] at hSettle
  split at hSettle
  · exact allocated_runAll h hSettle
  · cases hSettle
    exact h

theorem allocated_move {m : Move} (h : s.Allocated) (hMove : s.move m = some s') :
    s'.Allocated := by
  cases m with
  | iterate =>
    simp only [DedicatedServer.move] at hMove
    split at hMove
    · split at hMove
      · exact h.step hMove
      · obtain ⟨s₁, hStep, hSettle⟩ := Option.bind_eq_some_iff.mp hMove
        exact allocated_settle (h.step hStep) hSettle
    · cases hMove
  | accept | deny => exact allocated_runAll h hMove
  | disconnect p =>
    simp only [DedicatedServer.move] at hMove
    split at hMove
    · rename_i hCan
      refine allocated_runAll (h.disconnect .context [] ?_ (by simp)) hMove
      simpa using hCan.2
    · cases hMove
  | complete x c =>
    simp only [DedicatedServer.move, Option.filter_eq_some_iff] at hMove
    exact h.step hMove.1

/-! ## The loop among the other moves -/

/-- The part of `m_Clients` the loop has passed, and the part before it. -/
structure Split (s : DedicatedServer) (m : Message) (ignored : Option Nat) (stop : Nat)
    (b : Broadcast) (passed coming : List (Option Nat)) : Prop where
  clients : b.server.clients = passed ++ coming
  short : passed.length < stop
  long : stop ≤ passed.length + coming.length
  nodup : (coming.filterMap id).Nodup
  unserved : ∀ x, some x ∈ coming → (b.server.objects x).sent = before s x
  stayed : ∀ x ∈ b.stayed, (some x ≠ ignored → (b.server.objects x).sent = before s x ++ [m]) ∨
    some x ∈ coming.take (stop - passed.length)

/-- Where the loop is: before its end, at its end, or behind it. -/
inductive Phase (s : DedicatedServer) (m : Message) (ignored : Option Nat) (b : Broadcast) : Prop
  | running {stop : Nat} {clientsRemoved : Bool} {passed coming : List (Option Nat)}
      (hTasks : b.server.tasks .polling =
        .messageAll m ignored passed.length stop clientsRemoved :: s.tasks .polling)
      (hSplit : Split s m ignored stop b passed coming)
  | atEnd {stop : Nat} {clientsRemoved : Bool}
      (hTasks : b.server.tasks .polling =
        .messageAll m ignored stop stop clientsRemoved :: s.tasks .polling)
      (hStayed : ∀ x ∈ b.stayed, some x ≠ ignored →
        (b.server.objects x).sent = before s x ++ [m])
  | returned (hTasks : b.server.tasks .polling = s.tasks .polling)
      (hStayed : ∀ x ∈ b.stayed, some x ≠ ignored →
        (b.server.objects x).sent = before s x ++ [m])

/-- The invariant of a call of `MessageAll`. -/
structure Serving (s : DedicatedServer) (m : Message) (ignored : Option Nat) (b : Broadcast) :
    Prop where
  phase : Phase s m ignored b
  once : ∀ x < b.server.allocated, (b.server.objects x).sent = before s x ∨
    (b.server.objects x).sent = before s x ++ [m]
  allocated : b.server.Allocated
  more : s.allocated ≤ b.server.allocated
  here : ∀ x ∈ b.stayed, some x ∈ b.server.clients ∧ b.server.isConnected x = true

/-- Erasing entries brings what is left nearer to the loop. -/
theorem mem_take_filter {α : Type} {l : List α} {n : Nat} {a : α} (p : α → Bool)
    (hMem : a ∈ l.take n) (hKept : p a = true) : a ∈ (l.filter p).take n := by
  have hPrefix : (l.take n).filter p <+: l.filter p := (List.take_prefix n l).filter p
  have hLength : ((l.take n).filter p).length ≤ n :=
    (List.length_filter_le p _).trans (List.length_take_le n l)
  exact (List.prefix_take_iff.mpr ⟨hPrefix, hLength⟩).subset (List.mem_filter.mpr ⟨hMem, hKept⟩)

section

variable {m : Message} {ignored : Option Nat} {b : Broadcast}

theorem before_new {x : Nat} (h : s.allocated ≤ x) : before s x = [] := if_neg (Nat.not_lt.mpr h)

theorem mem_present {x : Nat} {stayed : List Nat} (h : x ∈ stayed.filter (present s)) :
    x ∈ stayed ∧ some x ∈ s.clients ∧ s.isConnected x = true := by
  obtain ⟨hStayed, hPresent⟩ := List.mem_filter.mp h
  rw [present, Bool.and_eq_true, List.contains_iff_mem] at hPresent
  exact ⟨hStayed, hPresent⟩

/-- The loop stands still while the context thread makes a move, which changes only the
entries before it. -/
theorem Serving.aside (h : Serving s m ignored b) (hAside : Aside b.server s')
    (hAllocated : s'.Allocated)
    (hComing : ∀ passed coming stop, b.server.clients = passed ++ coming →
      (coming.filterMap id).Nodup → b.server.progress = some (passed.length, stop) →
      passed.length < stop → stop ≤ passed.length + coming.length →
      ∃ coming', s'.clients = passed ++ coming' ∧ stop ≤ passed.length + coming'.length ∧
        (coming'.filterMap id).Nodup ∧
          (∀ x, some x ∈ coming' → some x ∈ coming ∨ b.server.allocated ≤ x) ∧
            ∀ n x, some x ∈ coming.take n → some x ∈ s'.clients → some x ∈ coming'.take n) :
    Serving s m ignored ⟨s', b.stayed.filter (present s')⟩ := by
  have hKnown : ∀ x ∈ b.stayed, (s'.objects x).sent = (b.server.objects x).sent := fun x hx =>
    hAside.sent x (h.allocated x (owned_of_client (h.here x hx).1))
  have hNew : ∀ x, b.server.allocated ≤ x → x < s'.allocated →
      (s'.objects x).sent = before s x := by
    intro x hx hLess
    rw [hAside.new x hx hLess, before_new (h.more.trans hx)]
  have hServed : (∀ x ∈ b.stayed, some x ≠ ignored →
      (b.server.objects x).sent = before s x ++ [m]) →
        ∀ x ∈ b.stayed.filter (present s'), some x ≠ ignored →
          (s'.objects x).sent = before s x ++ [m] := by
    intro hStayed x hx hIgnored
    have hBefore := (mem_present hx).1
    rw [hKnown x hBefore]
    exact hStayed x hBefore hIgnored
  refine ⟨?_, ?_, hAllocated, h.more.trans hAside.allocated, fun x hx => (mem_present hx).2⟩
  · cases h.phase with
    | @running stop clientsRemoved passed coming hTasks hSplit =>
      have hProgress : b.server.progress = some (passed.length, stop) := by rw [progress, hTasks]
      obtain ⟨coming', hClients, hLong, hNodup, hOld, hTake⟩ :=
        hComing passed coming stop hSplit.clients hSplit.nodup hProgress hSplit.short hSplit.long
      refine .running (hAside.polling.trans hTasks) ⟨hClients, hSplit.short, hLong, hNodup, ?_, ?_⟩
      · intro x hx
        rcases hOld x hx with hThere | hFresh
        · have hClient : some x ∈ b.server.clients := by
            rw [hSplit.clients]
            exact List.mem_append_right _ hThere
          exact (hAside.sent x (h.allocated x (owned_of_client hClient))).trans
            (hSplit.unserved x hThere)
        · refine hNew x hFresh (hAllocated x (owned_of_client ?_))
          rw [hClients]
          exact List.mem_append_right _ hx
      · intro x hx
        obtain ⟨hBefore, hClient, -⟩ := mem_present hx
        rcases hSplit.stayed x hBefore with hDone | hAhead
        · exact .inl fun hIgnored => (hKnown x hBefore).trans (hDone hIgnored)
        · exact .inr (hTake _ x hAhead hClient)
    | atEnd hTasks hStayed => exact .atEnd (hAside.polling.trans hTasks) (hServed hStayed)
    | returned hTasks hStayed => exact .returned (hAside.polling.trans hTasks) (hServed hStayed)
  · intro x hx
    by_cases hOld : x < b.server.allocated
    · have hSame := hAside.sent x hOld
      exact (h.once x hOld).imp hSame.trans hSame.trans
    · exact .inl (hNew x (Nat.le_of_not_lt hOld) hx)

theorem Serving.accept {now : UInt64} (h : Serving s m ignored b)
    (hMove : b.server.move (.accept now) = some s') :
    Serving s m ignored ⟨s', b.stayed.filter (present s')⟩ := by
  obtain ⟨hAside, hClients⟩ := move_accept hMove
  refine h.aside hAside (allocated_move h.allocated hMove)
    fun passed coming stop hSplit hNodup _ _ hLong => ?_
  have hFresh : b.server.allocated ∉ coming.filterMap id := by
    intro hMem
    obtain ⟨q, hq, hSame⟩ := List.mem_filterMap.mp hMem
    obtain rfl : q = some b.server.allocated := hSame
    refine absurd (h.allocated _ (owned_of_client ?_)) (Nat.lt_irrefl _)
    rw [hSplit]
    exact List.mem_append_right _ hq
  refine ⟨coming ++ [some b.server.allocated], ?_, ?_, ?_, ?_, ?_⟩
  · rw [hClients, hSplit, List.append_assoc]
  · rw [List.length_append]
    omega
  · rw [List.filterMap_append]
    refine List.nodup_append.mpr ⟨hNodup, List.nodup_singleton _, ?_⟩
    rintro x hx y hy rfl
    exact hFresh (List.mem_singleton.mp hy ▸ hx)
  · intro x hx
    rcases List.mem_append.mp hx with hOld | hNew
    · exact .inl hOld
    · exact .inr (Option.some.inj (List.mem_singleton.mp hNew)).ge
  · intro n x hx _
    rw [List.take_append]
    exact List.mem_append_left _ hx

theorem Serving.disconnect {p : Option Nat} (h : Serving s m ignored b)
    (hOk : b.Undisturbed (.disconnect p)) (hMove : b.server.move (.disconnect p) = some s') :
    Serving s m ignored ⟨s', b.stayed.filter (present s')⟩ := by
  obtain ⟨hAside, hClients⟩ := move_disconnect hMove
  refine h.aside hAside (allocated_move h.allocated hMove)
    fun passed coming stop hSplit hNodup hProgress hShort _ => ?_
  obtain ⟨hKept, hLeft⟩ := (hOk _ hProgress).resolve_left hShort.ne
  have hPassed : (passed.filter fun q => q ≠ none ∧ q ≠ p) = passed := by
    refine List.filter_eq_self.mpr fun q hq => decide_eq_true (hKept q ?_)
    rw [hSplit, List.take_left]
    exact hq
  refine ⟨coming.filter fun q => q ≠ none ∧ q ≠ p, ?_, ?_, ?_, ?_, ?_⟩
  · rw [hClients, hSplit, List.filter_append, hPassed]
  · rw [hSplit, List.filter_append, hPassed, List.length_append] at hLeft
    exact hLeft
  · exact hNodup.sublist (List.filter_sublist.filterMap id)
  · exact fun x hx => .inl (List.mem_of_mem_filter hx)
  · intro n x hx hStill
    rw [hClients] at hStill
    exact mem_take_filter _ hx (List.mem_filter.mp hStill).2

/-- A move that changes no entry. -/
theorem Serving.same (h : Serving s m ignored b) (hAside : Aside b.server s')
    (hAllocated : s'.Allocated) (hClients : s'.clients = b.server.clients) :
    Serving s m ignored ⟨s', b.stayed.filter (present s')⟩ :=
  h.aside hAside hAllocated fun _ coming _ hSplit hNodup _ _ hLong =>
    ⟨coming, hClients.trans hSplit, hLong, hNodup, fun _ hx => .inl hx, fun _ _ hx _ => hx⟩

/-- The loop goes one position further. -/
theorem Phase.next (passed coming : List (Option Nat)) {stop : Nat} {clientsRemoved : Bool}
    (hTasks : b.server.tasks .polling =
      .messageAll m ignored passed.length stop clientsRemoved :: s.tasks .polling)
    (hClients : b.server.clients = passed ++ coming) (hNear : passed.length ≤ stop)
    (hLong : stop ≤ passed.length + coming.length) (hNodup : (coming.filterMap id).Nodup)
    (hUnserved : ∀ x, some x ∈ coming → (b.server.objects x).sent = before s x)
    (hStayed : ∀ x ∈ b.stayed,
      (some x ≠ ignored → (b.server.objects x).sent = before s x ++ [m]) ∨
        some x ∈ coming.take (stop - passed.length)) : Phase s m ignored b := by
  by_cases hEnd : passed.length = stop
  · refine .atEnd (hEnd ▸ hTasks) fun x hx hIgnored => ?_
    rcases hStayed x hx with hDone | hAhead
    · exact hDone hIgnored
    · rw [hEnd, Nat.sub_self] at hAhead
      cases hAhead
  · exact .running hTasks ⟨hClients, by omega, hLong, hNodup, hUnserved, hStayed⟩

theorem Serving.running {stop : Nat} {clientsRemoved : Bool} {passed coming : List (Option Nat)}
    (h : Serving s m ignored b)
    (hTasks : b.server.tasks .polling =
      .messageAll m ignored passed.length stop clientsRemoved :: s.tasks .polling)
    (hSplit : Split s m ignored stop b passed coming) (hMove : b.server.move .iterate = some s') :
    Serving s m ignored ⟨s', b.stayed.filter (present s')⟩ := by
  obtain ⟨hAllocated, clientsRemoved', hTasks', hCases⟩ :=
    move_iterate hSplit.short.ne hTasks hMove
  have hShort := hSplit.short
  have hLong := hSplit.long
  obtain ⟨q, tail, rfl⟩ : ∃ q tail, coming = q :: tail := by
    refine List.exists_cons_of_length_pos ?_
    omega
  have hEntry : b.server.clients[passed.length]? = some q := by
    rw [hSplit.clients, List.getElem?_append_right (Nat.le_refl _), Nat.sub_self]
    rfl
  have hTail : (tail.filterMap id).Nodup :=
    hSplit.nodup.sublist ((List.sublist_cons_self q tail).filterMap id)
  have hTake : (q :: tail).take (stop - passed.length) =
      q :: tail.take (stop - (passed.length + 1)) := by
    rw [show stop - passed.length = stop - (passed.length + 1) + 1 by omega]
    rfl
  rw [List.length_cons] at hLong
  rcases hCases with ⟨x, hThis, hConnected, hClients, hSent⟩ | ⟨p, hThis, hDead, hClients, hObjects⟩
  · -- a connected client, which is served unless it is ignored
    obtain rfl : q = some x := Option.some.inj (hEntry.symm.trans hThis)
    have hNotAhead : some x ∉ tail := by
      have hNodup := hSplit.nodup
      rw [List.filterMap_cons_some (f := id) rfl, List.nodup_cons] at hNodup
      exact fun hMem => hNodup.1 (List.mem_filterMap.mpr ⟨some x, hMem, rfl⟩)
    have hUnserved : (b.server.objects x).sent = before s x :=
      hSplit.unserved x List.mem_cons_self
    have hLength : (passed ++ [some x]).length = passed.length + 1 := by simp
    refine ⟨Phase.next (passed ++ [some x]) tail (hLength ▸ hTasks') ?_ ?_ ?_
      hTail ?_ ?_, ?_, allocated_move h.allocated hMove, hAllocated ▸ h.more, ?_⟩
    · rw [hClients, hSplit.clients]
      simp
    · omega
    · omega
    · intro y hy
      have hOther : y ≠ x := by
        rintro rfl
        exact hNotAhead hy
      rw [hSent, if_neg fun hBoth => hOther hBoth.1]
      exact hSplit.unserved y (List.mem_cons_of_mem _ hy)
    · intro y hy
      rw [hSent, hLength]
      by_cases hSame : y = x
      · subst hSame
        left
        intro hIgnored
        rw [if_pos ⟨rfl, hIgnored⟩, hUnserved]
      · rw [if_neg fun hBoth => hSame hBoth.1]
        rcases hSplit.stayed y (mem_present hy).1 with hDone | hAhead
        · exact .inl hDone
        · rw [hTake] at hAhead
          rcases List.mem_cons.mp hAhead with hHead | hAhead
          · exact absurd (Option.some.inj hHead) hSame
          · exact .inr hAhead
    · intro y hy
      rw [hSent]
      split
      · rename_i hBoth
        rw [hBoth.1, hUnserved]
        exact .inr rfl
      · exact h.once y (hAllocated ▸ hy)
    · exact fun y hy => (mem_present hy).2
  · -- a dead entry, which nobody who stayed has
    obtain rfl : q = p := Option.some.inj (hEntry.symm.trans hThis)
    have hLength : (passed ++ [none]).length = passed.length + 1 := by simp
    refine ⟨Phase.next (passed ++ [none]) tail (hLength ▸ hTasks') ?_ ?_ ?_
      hTail ?_ ?_, ?_, allocated_move h.allocated hMove, hAllocated ▸ h.more, ?_⟩
    · rw [hClients, hSplit.clients]
      simp
    · omega
    · omega
    · rw [hObjects]
      exact fun y hy => hSplit.unserved y (List.mem_cons_of_mem _ hy)
    · intro y hy
      rw [hObjects, hLength]
      rcases hSplit.stayed y (mem_present hy).1 with hDone | hAhead
      · exact .inl hDone
      · rw [hTake] at hAhead
        rcases List.mem_cons.mp hAhead with hHead | hAhead
        · have hLive := (h.here y (mem_present hy).1).2
          rw [hDead y hHead.symm] at hLive
          cases hLive
        · exact .inr hAhead
    · rw [hObjects, hAllocated]
      exact h.once
    · exact fun y hy => (mem_present hy).2

/-- Behind the loop there is no position. -/
theorem progress_application (hApplication : s.inApplication .polling = true)
    (hTasks : s'.tasks .polling = s.tasks .polling) : s'.progress = none := by
  rw [progress, hTasks]
  rw [inApplication] at hApplication
  split at hApplication
  · rename_i hCallback
    rw [hCallback]
  · rename_i hNone
    rw [hNone]
  · cases hApplication

/-- **Every move keeps the loop in order.** -/
theorem Serving.step {mv : Move} {b' : Broadcast} (h : Serving s m ignored b)
    (hApplication : s.inApplication .polling = true) (hOk : b.Undisturbed mv)
    (hStep : b.step mv = some b') : Serving s m ignored b' := by
  simp only [Broadcast.step, Option.map_eq_some_iff] at hStep
  obtain ⟨s', hMove, rfl⟩ := hStep
  cases mv with
  | accept now => exact h.accept hMove
  | deny =>
    obtain ⟨hAside, hClients⟩ := move_deny hMove
    exact h.same hAside (allocated_move h.allocated hMove) hClients
  | disconnect p => exact h.disconnect hOk hMove
  | complete x c =>
    obtain ⟨hAside, hClients⟩ := move_complete hMove
    exact h.same hAside (allocated_move h.allocated hMove) hClients
  | iterate =>
    cases h.phase with
    | running hTasks hSplit => exact h.running hTasks hSplit hMove
    | atEnd hTasks hStayed =>
      obtain ⟨hReturned, hObjects, hAllocated⟩ := move_end hTasks hMove
      refine ⟨.returned hReturned fun x hx => ?_, ?_, allocated_move h.allocated hMove,
        hAllocated ▸ h.more, fun x hx => (mem_present hx).2⟩
      · rw [hObjects]
        exact hStayed x (mem_present hx).1
      · rw [hObjects, hAllocated]
        exact h.once
    | returned hTasks hStayed =>
      simp [DedicatedServer.move, progress_application hApplication hTasks] at hMove

theorem serving_of_calls (h : Calls s m ignored b) : Serving s m ignored b := by
  obtain ⟨-, -, hNodup, hAllocated, hCall, hStayed⟩ := h
  have hNext := hAllocated.act hCall
  have hNow : b.server = s.setTasks .polling
      (.messageAll m ignored 0 s.clients.length false :: s.tasks .polling) := by
    generalize b.server = server at hCall
    cases act_cases hCall with
    | messageAll => rfl
  have hClients : b.server.clients = s.clients := by rw [hNow]; rfl
  have hObjects : b.server.objects = s.objects := by rw [hNow]; rfl
  have hSame : b.server.allocated = s.allocated := by rw [hNow]; rfl
  have hTasks : b.server.tasks .polling =
      .messageAll m ignored 0 s.clients.length false :: s.tasks .polling := by
    rw [hNow]
    simp [setTasks]
  have hBefore : ∀ x < s.allocated, (b.server.objects x).sent = before s x := by
    intro x hx
    rw [hObjects, before, if_pos hx]
  have hHere : ∀ x ∈ b.stayed, some x ∈ s.clients ∧ s.isConnected x = true := by
    intro x hx
    rw [hStayed, List.mem_filter, List.mem_filterMap] at hx
    obtain ⟨⟨q, hq, rfl⟩, hConnected⟩ := hx
    exact ⟨hq, hConnected⟩
  refine ⟨Phase.next [] s.clients hTasks hClients (Nat.zero_le _) ?_ hNodup ?_ ?_, ?_, hNext,
    hSame.ge, ?_⟩
  · simp
  · exact fun x hx => hBefore x (hAllocated x (owned_of_client hx))
  · intro x hx
    right
    simpa using (hHere x hx).1
  · rw [hSame]
    exact fun x hx => .inl (hBefore x hx)
  · intro x hx
    rw [hClients, isConnected, hObjects]
    exact hHere x hx

theorem serving_of_reach (h : Reach (system s m ignored) Undisturbed b) :
    s.inApplication .polling = true ∧ Serving s m ignored b := by
  refine h.invariant (I := fun b => s.inApplication .polling = true ∧ Serving s m ignored b) ?_ ?_
  · exact fun _ hCalls => ⟨hCalls.application, serving_of_calls hCalls⟩
  · rintro b mv b' ⟨hApplication, hServing⟩ hOk hStep
    exact ⟨hApplication, hServing.step hApplication hOk hStep⟩

/-! ## The iteration is defined -/

/-- Where there is an entry the loop goes on. -/
theorem iterate_defined {position stop : Nat} {clientsRemoved : Bool} {rest : List Task}
    {q : Option Nat} (hMore : position ≠ stop)
    (hTasks : s.tasks .polling = .messageAll m ignored position stop clientsRemoved :: rest)
    (hEntry : s.clients[position]? = some q) : ∃ s', s.move .iterate = some s' := by
  have hBound := (List.getElem?_eq_some_iff.mp hEntry).1
  have hProgress : s.progress = some (position, stop) := by rw [progress, hTasks]
  have hRemoved : ∀ p, ∃ s', settle (s.setTasks .polling rest |>.call .polling (.onDisconnect p)
      [.reset position p, .messageAll m ignored (position + 1) stop true]) = some s' := by
    intro p
    simp [settle, call, setTasks, runAll, DedicatedServer.step, hBound]
  simp only [DedicatedServer.move, hProgress, if_neg hMore, DedicatedServer.step, hTasks, iterate,
    hEntry]
  cases q with
  | none => exact hRemoved none
  | some x =>
    by_cases hConnected : s.isConnected x = true
    · simp only [hConnected, if_true, Option.bind_some]
      by_cases hIgnored : some x ≠ ignored
      · simp [hIgnored, settle, setTasks, setObject]
      · simp [hIgnored, settle, setTasks]
    · simp only [hConnected, Bool.false_eq_true, if_false, Option.bind_some]
      exact hRemoved (some x)

theorem Serving.goes (h : Serving s m ignored b) (hApplication : s.inApplication .polling = true) :
    ∀ place ∈ b.server.progress, ∃ b', b.step .iterate = some b' ∧
      b'.server.progress = if place.1 = place.2 then none else some (place.1 + 1, place.2) := by
  intro place hPlace
  cases h.phase with
  | @running stop clientsRemoved passed coming hTasks hSplit =>
    have hProgress : b.server.progress = some (passed.length, stop) := by rw [progress, hTasks]
    obtain rfl : (passed.length, stop) = place := Option.some.inj (hProgress.symm.trans hPlace)
    have hShort := hSplit.short
    have hLong := hSplit.long
    obtain ⟨q, tail, rfl⟩ : ∃ q tail, coming = q :: tail := by
      refine List.exists_cons_of_length_pos ?_
      omega
    have hEntry : b.server.clients[passed.length]? = some q := by
      rw [hSplit.clients, List.getElem?_append_right (Nat.le_refl _), Nat.sub_self]
      rfl
    obtain ⟨s', hMove⟩ := iterate_defined hShort.ne hTasks hEntry
    obtain ⟨-, clientsRemoved', hTasks', -⟩ := move_iterate hShort.ne hTasks hMove
    refine ⟨⟨s', b.stayed.filter (present s')⟩, ?_, ?_⟩
    · rw [Broadcast.step, hMove]
      rfl
    · rw [if_neg hShort.ne, progress, hTasks']
  | @atEnd stop clientsRemoved hTasks hStayed =>
    have hProgress : b.server.progress = some (stop, stop) := by rw [progress, hTasks]
    obtain rfl : (stop, stop) = place := Option.some.inj (hProgress.symm.trans hPlace)
    obtain ⟨s', hMove⟩ : ∃ s', b.server.move .iterate = some s' := by
      simp [DedicatedServer.move, hProgress, DedicatedServer.step, hTasks, iterate]
    refine ⟨⟨s', b.stayed.filter (present s')⟩, ?_, ?_⟩
    · rw [Broadcast.step, hMove]
      rfl
    · rw [if_pos rfl]
      exact progress_application hApplication (move_end hTasks hMove).1
  | returned hTasks hStayed =>
    rw [progress_application hApplication hTasks] at hPlace
    cases hPlace

/-- **Where nothing is erased behind the loop, a broadcast reaches everybody who stays.** -/
theorem served_of_reach (h : Reach (system s m ignored) Undisturbed b) :
    Served s m ignored b := by
  obtain ⟨hApplication, hServing⟩ := serving_of_reach h
  refine ⟨hServing.once, fun hOver => ?_, hServing.goes hApplication⟩
  cases hServing.phase with
  | running hTasks | atEnd hTasks =>
    rw [progress, hTasks] at hOver
    cases hOver
  | returned _ hStayed => exact hStayed

end

/-! ## A client that is skipped -/

/-- A server with two clients. -/
def twoClients : DedicatedServer :=
  (runAll {} [.accept, .allow 0, .leave .context, .accept, .allow 0, .leave .context]).getD {}

/-- `MessageAll` has just been called. -/
def called : Broadcast :=
  ⟨(twoClients.act .polling (.messageAll {} none)).getD twoClients, [0, 1]⟩

theorem calls_called : Calls twoClients {} none called := by
  refine ⟨by decide, by decide, by decide, ?_, rfl, by decide⟩
  unfold Allocated
  decide

/-- The second client leaves while the first is served, and a third has come. -/
def leavesAhead : List Move := [.iterate, .accept 0, .disconnect (some 1), .iterate, .iterate]

theorem served_of_leavesAhead : ∃ b, Reach (system twoClients {} none) Undisturbed b ∧
    b.server.progress = none ∧ b.stayed = [0] ∧ Served twoClients {} none b := by
  obtain ⟨b, hReach, hEnd⟩ := Reach.exists_of_checked (M := system twoClients {} none) Undisturbed
    calls_called leavesAhead (fun b => b.server.progress == none && b.stayed == [0]) (by decide)
  simp only [Bool.and_eq_true, beq_iff_eq] at hEnd
  exact ⟨b, hReach, hEnd.1, hEnd.2, served_of_reach hReach⟩

/-- The first client leaves when it has been served, and a third has come. -/
def leavesBehind : List Move := [.iterate, .accept 0, .disconnect (some 0), .iterate, .iterate]

/-- **The client behind the one that leaves is not sent the message.** -/
theorem skipped_client : ∃ b, Reach (system twoClients {} none) Free b ∧
    b.server.progress = none ∧ 1 ∈ b.stayed ∧ (b.server.objects 1).sent = [] ∧
      ¬ Served twoClients {} none b := by
  obtain ⟨b, hReach, hEnd⟩ := Reach.exists_of_free (M := system twoClients {} none)
    calls_called leavesBehind (fun b => b.server.progress == none && b.stayed == [1] &&
      (b.server.objects 1).sent == []) (by decide)
  simp only [Bool.and_eq_true, beq_iff_eq] at hEnd
  obtain ⟨⟨hOver, hStayed⟩, hSent⟩ := hEnd
  have hMem : 1 ∈ b.stayed := by simp [hStayed]
  refine ⟨b, hReach, hOver, hMem, hSent, fun hServed => ?_⟩
  have hOne := hServed.stayed hOver 1 hMem (by simp)
  rw [hSent] at hOne
  simp at hOne

end Broadcast

end MinecraftNetwork
