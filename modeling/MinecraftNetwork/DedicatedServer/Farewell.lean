import MinecraftNetwork.DedicatedServer.Ownership

/-!
# Messages sent in `OnInvalidate`

A connection that does not pass the validation is handed to `OnInvalidate`, which may send
messages on it, and is disconnected. `Send` only posts a lambda, while `Disconnect` is called
in the same handler and takes the connection out of `m_Clients`: without another pointer to
it the connection is destroyed before the lambda runs (`farewell_unsent`).

The messages go out when `OnInvalidate` keeps a copy of the pointer before it sends, on a
connection that `Disconnect` was not called of before it had an owner, and the copy is kept
until everything is written (`Attends`, `parted_of_reach`).
-/

namespace MinecraftNetwork

open Runs

/-- The socket is open and the connection has its owner, and no lambda will close it. -/
def Endpoint.Lasts (e : Endpoint) : Prop :=
  e.connection.isOpen = true ∧ e.connection.hasConnectable = true ∧ .close ∉ e.posted

instance (e : Endpoint) : Decidable e.Lasts := inferInstanceAs (Decidable (_ ∧ _ ∧ ¬ _))

/-- A server, and what has been given to `Send` on its connections. -/
structure Farewell where
  server : DedicatedServer := {}
  /-- The messages given to `Send` on a connection, and whether from within its
  `OnInvalidate`. -/
  given : Nat → List (Message × Bool) := fun _ => []

namespace DedicatedServer

/-- The step is one of the `OnInvalidate` of a connection. -/
def rejecting (s : DedicatedServer) (x : Nat) : Event → Bool
  | .app .context _ | .run .context => (s.tasks .context).contains (.callback (.onInvalidate x))
  | .app .polling _ | .run .polling | .accept | .complete _ _ | .transfer _ _ _ | .leave _
  | .allow _ | .deny | .poll _ => false

end DedicatedServer

namespace Farewell

def step (s : Farewell) (event : DedicatedServer.Event) : Option Farewell :=
  (s.server.step event).map fun server =>
    { server := server
      given := fun x => s.given x ++
        ((server.objects x).sent.drop (s.server.objects x).sent.length).map
          fun m => (m, s.server.rejecting x event) }

def system : System Farewell DedicatedServer.Event where
  init s := s = {}
  step := step

/-- The messages that `OnInvalidate` has sent on its connection. -/
def farewells (s : Farewell) (x : Nat) : List Message := ((s.given x).filter Prod.snd).map Prod.fst

/-- What has been given to `Send` and is not written completely. -/
def unwritten (s : Farewell) (x : Nat) : List (Message × Bool) :=
  (s.given x).drop ((s.given x).length - (s.server.objects x).waiting.length)

/-- A message that `OnInvalidate` has sent waits in a lambda or in `m_OutgoingMessages`, and
no write has failed. -/
def Waits (s : Farewell) (x : Nat) : Prop :=
  (s.server.objects x).writeFailed = false ∧ (s.unwritten x).any Prod.snd = true

/-- The connection is destroyed, or its socket is closed. -/
def Gone (s : Farewell) (x : Nat) : Prop :=
  x ∉ s.server.owners ∨ s.server.isConnected x = false

/-- When the connection is gone and no write has failed, the messages that `OnInvalidate` has
sent on it are written completely, each at its place among those given to `Send`. -/
def Parted (s : Farewell) (x : Nat) : Prop :=
  s.Gone x → (s.server.objects x).writeFailed = false →
    ∃ done : List Message, (s.server.objects x).Written done ∧
      ∀ (i : Nat) (m : Message), (s.given x)[i]? = some (m, true) → done[i]? = some m

/-- The promise, about the connections on which no write has failed. -/
structure Attends (s : Farewell) (event : DedicatedServer.Event) : Prop where
  /-- `OnInvalidate` sends on a connection of which a copy is kept, and that will not be
  closed. -/
  sends : ∀ x ∈ s.server.owners, s.server.rejecting x event = true → s.server.gives x event ≠ [] →
    (s.server.objects x).writeFailed = true ∨ x ∈ s.server.kept ∧ (s.server.objects x).Lasts
  /-- The last copy is kept until everything is written. -/
  forgets : ∀ x ∈ event.forgets, s.farewells x ≠ [] →
    (s.server.objects x).writeFailed = true ∨ 2 ≤ s.server.kept.count x ∨
      (s.server.objects x).Drained

instance (s : Farewell) (event : DedicatedServer.Event) : Decidable (s.Attends event) :=
  decidable_of_iff ((∀ x ∈ s.server.owners, s.server.rejecting x event = true →
      s.server.gives x event ≠ [] →
        (s.server.objects x).writeFailed = true ∨ x ∈ s.server.kept ∧ (s.server.objects x).Lasts) ∧
      ∀ x ∈ event.forgets, s.farewells x ≠ [] →
        (s.server.objects x).writeFailed = true ∨ 2 ≤ s.server.kept.count x ∨
          (s.server.objects x).Drained)
    ⟨fun ⟨hSends, hForgets⟩ => ⟨hSends, hForgets⟩, fun ⟨hSends, hForgets⟩ => ⟨hSends, hForgets⟩⟩

end Farewell

/-- Nothing closes a connection with an owner but a lambda that is posted already. -/
theorem DedicatedServer.Framed.lasts_step {s s' : DedicatedServer} {event : Event}
    (h : Framed s) (hStep : s.step event = some s') {x : Nat} (hOwned : x ∈ s.owners)
    (hLasts : (s.objects x).Lasts) : (s'.objects x).Lasts := by
  obtain ⟨hOpen, hOwner, hStays⟩ := hLasts
  cases touch_step hStep x with
  | same _ hSame =>
    rw [hSame]
    exact ⟨hOpen, hOwner, hStays⟩
  | given _ hSend =>
    rw [hSend]
    exact ⟨hOpen, hOwner, by simpa [Endpoint.send] using hStays⟩
  | called _ hCall =>
    rw [hCall]
    refine ⟨hOpen, hOwner, ?_⟩
    rw [Endpoint.disconnect, Connection.disconnect_post fun _ => hOwner, List.append_nil]
    exact hStays
  | network _ hTransfer =>
    obtain ⟨hConnection, -, hPosted, -⟩ := Endpoint.transfer_frame hTransfer
    rw [Endpoint.Lasts, hConnection, hPosted]
    exact ⟨hOpen, hOwner, hStays⟩
  | @handler c e effects done _ hHandle hDone hNext =>
    have hNone : done.filterMap Effect.post? = [] := by
      have hPosts := Endpoint.handle_post (fun _ => hOwner) hHandle
      rw [List.filterMap_eq_nil_iff] at hPosts ⊢
      exact fun effect hMem => hPosts effect (hDone.subset hMem)
    rw [hNext, Endpoint.Lasts, Endpoint.performAll_connection, Endpoint.performAll_posted, hNone,
      List.append_nil, Endpoint.handle_hasConnectable hHandle]
    refine ⟨?_, hOwner, fun hClose => hStays (Endpoint.handle_posted hHandle hClose)⟩
    by_contra hClosed
    obtain ⟨-, hHead⟩ := Endpoint.handle_closes hHandle hOpen (by simpa using hClosed)
    exact hStays (List.mem_of_head? hHead)
  | @resume effects _ hRest hNext =>
    have hNone : effects.filterMap Effect.post? = [] := by
      have hPosts := h.sound.posts x
      rw [List.filterMap_eq_nil_iff] at hPosts ⊢
      exact fun effect hMem => hPosts effect (hRest.subset hMem)
    rw [hNext, Endpoint.Lasts, Endpoint.performAll_connection, Endpoint.performAll_posted, hNone,
      List.append_nil]
    exact ⟨hOpen, hOwner, hStays⟩
  | accept _ hFresh => exact absurd hFresh (h.allocated x hOwned).ne
  | @allow now hEvent =>
    subst hEvent
    cases step_cases hStep with
    | @allow _ y rest hTasks =>
      by_cases hSame : x = y
      · subst hSame
        rw [(h.sound.fresh (mem_openings hTasks)).2] at hOwner
        cases hOwner
      · have hObject : (s.register y now rest).objects x = s.objects x :=
          Function.update_of_ne hSame ..
        rw [hObject]
        exact ⟨hOpen, hOwner, hStays⟩

namespace Farewell

variable {s s' : Farewell}

/-! ## What waits and what is gone -/

/-- The invariant of a run that keeps the promise. -/
structure Attended (s : Farewell) : Prop where
  framed : s.server.Framed
  given : ∀ x, (s.given x).map Prod.fst = (s.server.objects x).sent
  waits : ∀ x, s.Waits x → x ∈ s.server.kept ∧ (s.server.objects x).Lasts

theorem step_server {event : DedicatedServer.Event} (h : s.step event = some s') :
    s.server.step event = some s'.server ∧ ∀ x, s'.given x = s.given x ++
      ((s'.server.objects x).sent.drop (s.server.objects x).sent.length).map
        fun m => (m, s.server.rejecting x event) := by
  simp only [step, Option.map_eq_some_iff] at h
  obtain ⟨server, hServer, rfl⟩ := h
  exact ⟨hServer, fun _ => rfl⟩

/-- What is given to `Send` and is not written completely is what waits. -/
theorem Attended.length_le (h : Attended s) (x : Nat) :
    (s.server.objects x).waiting.length ≤ (s.given x).length := by
  obtain ⟨done, hChain⟩ := (h.framed.sound.alive x).writeChain
  have hSent := congrArg List.length hChain.waiting
  have hGiven := congrArg List.length (h.given x)
  simp only [DedicatedServer.endpoint_sent, DedicatedServer.endpoint_waiting, List.length_append,
    List.length_map] at hSent hGiven
  omega

/-- A message that waits is one that was given, and is not written. -/
theorem Waits.farewells {x : Nat} (h : s.Waits x) : s.farewells x ≠ [] := by
  obtain ⟨p, hMem, hFlag⟩ := List.any_eq_true.mp h.2
  have hGiven : p ∈ s.given x := (List.drop_sublist _ _).subset hMem
  exact List.ne_nil_of_mem (List.mem_map_of_mem (List.mem_filter.mpr ⟨hGiven, hFlag⟩))

theorem Waits.not_drained {x : Nat} (h : s.Waits x) : ¬ (s.server.objects x).Drained := by
  rintro ⟨hQueue, hPosted⟩
  have hNone : (s.server.objects x).waiting = [] := by
    rw [Endpoint.waiting, hQueue, hPosted]
    rfl
  have hAny := h.2
  rw [unwritten, hNone, List.length_nil, Nat.sub_zero, List.drop_length] at hAny
  cases hAny

/-- The last entries of a list that grows by `new` and of which `k` more are left out. -/
theorem mem_unwritten {α : Type} {given new : List α} {waiting k : Nat} {p : α}
    (hLe : waiting ≤ given.length)
    (h : p ∈ (given ++ new).drop ((given ++ new).length - (waiting + new.length - k))) :
    p ∈ given.drop (given.length - waiting) ∨ p ∈ new := by
  have hMore : p ∈ (given ++ new).drop (given.length - waiting) := by
    refine (List.drop_sublist_drop_left (given ++ new) ?_).subset h
    rw [List.length_append]
    omega
  rw [List.drop_append_of_le_length (by omega)] at hMore
  exact List.mem_append.mp hMore

/-- A message of `OnInvalidate` that waits after a step has waited before it, or is sent by
it. -/
theorem Attended.waits_step {event : DedicatedServer.Event} (h : Attended s)
    (hStep : s.step event = some s') {x : Nat} (hWaits : s'.Waits x) :
    (s.server.objects x).writeFailed = false ∧
      (s.Waits x ∨ s.server.rejecting x event = true ∧ s.server.gives x event ≠ []) := by
  obtain ⟨hServer, hGiven⟩ := step_server hStep
  obtain ⟨⟨new, k, hSent, hWaiting, -⟩, -, hFailed⟩ := h.framed.moves hServer x
  obtain ⟨hSound', hAny⟩ := hWaits
  have hSound : (s.server.objects x).writeFailed = false := by
    by_contra hYes
    rw [hFailed (by simpa using hYes)] at hSound'
    cases hSound'
  obtain ⟨p, hMem, hFlag⟩ := List.any_eq_true.mp hAny
  have hLength : (s'.server.objects x).waiting.length = (s.server.objects x).waiting.length +
      (new.map fun m => (m, s.server.rejecting x event)).length - k := by
    rw [hWaiting, List.length_drop, List.length_append, List.length_map]
  rw [unwritten, hLength, hGiven, hSent, List.drop_left] at hMem
  refine ⟨hSound, ?_⟩
  rcases mem_unwritten (h.length_le x) hMem with hOld | hMore
  · exact .inl ⟨hSound, List.any_eq_true.mpr ⟨p, hOld, hFlag⟩⟩
  · obtain ⟨m, hm, rfl⟩ := List.mem_map.mp hMore
    refine .inr ⟨hFlag, ?_⟩
    have hAccept : event = .accept → x ≠ s.server.allocated := by
      rintro rfl
      cases hFlag
    rw [DedicatedServer.sent_step hServer hAccept, List.append_cancel_left_eq] at hSent
    rw [hSent]
    exact List.ne_nil_of_mem hm

/-- **Every step that keeps the promise leaves a message of `OnInvalidate` waiting only on a
connection that lasts.** -/
theorem Attended.step {event : DedicatedServer.Event} (h : Attended s) (hOk : s.Attends event)
    (hStep : s.step event = some s') : Attended s' := by
  obtain ⟨hServer, hGiven⟩ := step_server hStep
  refine ⟨h.framed.step hServer, fun x => ?_, fun x hWaits => ?_⟩
  · obtain ⟨⟨new, k, hSent, -⟩, -, -⟩ := h.framed.moves hServer x
    rw [hGiven, List.map_append, h.given, hSent, List.drop_left, List.map_map]
    exact congrArg _ (List.map_id _)
  obtain ⟨hSound, hBefore⟩ := h.waits_step hStep hWaits
  rw [← Bool.not_eq_true] at hSound
  have hHere : x ∈ s.server.kept ∧ (s.server.objects x).Lasts := by
    rcases hBefore with hBefore | ⟨hRejecting, hGives⟩
    · exact h.waits x hBefore
    · have hOwned := h.framed.owned_of_posts hServer (DedicatedServer.posts_of_gives hGives)
      exact (hOk.sends x hOwned hRejecting hGives).resolve_left hSound
  obtain ⟨hKept, hLasts⟩ := hHere
  have hOwned : x ∈ s.server.owners :=
    DedicatedServer.mem_owners.mpr (.inr (.inr (.inl hKept)))
  refine ⟨?_, h.framed.lasts_step hServer hOwned hLasts⟩
  rcases DedicatedServer.kept_step hServer hKept with hStill | ⟨t, rfl, hLast, -⟩
  · exact hStill
  · -- the last copy is destroyed: nothing has waited
    rcases hBefore with hBefore | ⟨-, hGives⟩
    · have hForgets := hOk.forgets x (List.mem_singleton_self x) hBefore.farewells
      rcases hForgets.resolve_left hSound with hMore | hDrained
      · omega
      · exact absurd hDrained hBefore.not_drained
    · exact absurd rfl hGives

theorem attended_of_reach (h : Reach system Attends s) : Attended s := by
  refine h.invariant (I := Attended) ?_ fun _ _ _ hAttended hOk hStep => hAttended.step hOk hStep
  rintro _ rfl
  refine ⟨DedicatedServer.framed_init, fun x => rfl, fun x hWaits => ?_⟩
  cases hWaits.2

/-- On a connection that is gone nothing waits. -/
theorem Attended.gone (h : Attended s) {x : Nat} (hGone : s.Gone x) : ¬ s.Waits x := by
  intro hWaits
  obtain ⟨hKept, hOpen, -⟩ := h.waits x hWaits
  rcases hGone with hLost | hClosed
  · exact hLost (DedicatedServer.mem_owners.mpr (.inr (.inr (.inl hKept))))
  · exact Bool.false_ne_true (hClosed.symm.trans hOpen)

/-- **The messages of `OnInvalidate` go out before the connection is closed or destroyed**, in
a run that keeps the promise. -/
theorem parted_of_reach (h : Reach system Attends s) (x : Nat) : s.Parted x := by
  intro hGone hSound
  have hAttended := attended_of_reach h
  obtain ⟨done, hChain⟩ := (hAttended.framed.sound.alive x).writeChain
  obtain ⟨hFronted, hPassed⟩ := hAttended.framed.frames x
  have hWritten := Endpoint.WriteChain.written hChain hFronted hPassed hSound
  refine ⟨done, hWritten, fun i m hGiven => ?_⟩
  -- what is given to `Send` is what is written, and what waits
  have hLength : (s.given x).length - (s.server.objects x).waiting.length = done.length := by
    have hSent := congrArg List.length hWritten.sent
    have hAll := congrArg List.length (hAttended.given x)
    rw [List.length_append] at hSent
    rw [List.length_map] at hAll
    omega
  have hHere : i < done.length := by
    by_contra hBehind
    refine hAttended.gone hGone ⟨hSound, List.any_eq_true.mpr ⟨(m, true), ?_, rfl⟩⟩
    refine List.mem_iff_getElem?.mpr ⟨i - done.length, ?_⟩
    rw [unwritten, hLength, List.getElem?_drop, Nat.add_sub_cancel' (Nat.le_of_not_lt hBehind)]
    exact hGiven
  have hSame : (s.server.objects x).sent[i]? = some m := by
    rw [← hAttended.given, List.getElem?_map, hGiven]
    rfl
  rwa [hWritten.sent, List.getElem?_append_left hHere] at hSame

/-- A client answers the challenge with zeros, up to the call of `OnInvalidate`. -/
def challenged : List DedicatedServer.Event :=
  [.transfer 0 .validation1 8, .complete 0 (.written .validation1),
    .complete 0 (.read .validation2 (List.replicate 8 0))]

/-- The first message of the deque is written. -/
def writes : List DedicatedServer.Event :=
  [.transfer 0 .header headerSize, .complete 0 (.written .header)]

/-- `OnConnect` sends a message, and `OnInvalidate` the same one twice and keeps the pointer
until everything is written. -/
def kept : List DedicatedServer.Event :=
  [.accept, .allow 0, .app .context (.send 0 (Message.new none)), .leave .context,
    .complete 0 .lambda] ++ writes ++ challenged ++
  [.app .context (.keep 0), .app .context (.send 0 (Message.new none)),
    .app .context (.send 0 (Message.new none)), .leave .context, .run .context, .leave .context,
    .run .context, .run .context, .complete 0 .lambda, .complete 0 .lambda] ++ writes ++ writes ++
  [.app .polling (.drop 0)]

theorem parted_of_kept : ∃ s, Reach system Attends s ∧ s.Gone 0 ∧
    (s.server.objects 0).writeFailed = false ∧
    s.given 0 = [(Message.new none, false), (Message.new none, true), (Message.new none, true)] ∧
      s.Parted 0 := by
  obtain ⟨s, hReach, hEnd⟩ := Reach.exists_of_checked (M := system) Attends rfl kept
    (fun s => decide (0 ∉ s.server.owners ∧ (s.server.objects 0).writeFailed = false ∧
      s.given 0 = [(Message.new none, false), (Message.new none, true), (Message.new none, true)]))
    (by decide)
  obtain ⟨hLost, hSound, hGiven⟩ := of_decide_eq_true hEnd
  exact ⟨s, hReach, .inl hLost, hSound, hGiven, parted_of_reach hReach 0⟩

/-! ## Without a copy of the pointer -/

/-- `OnInvalidate` sends a message, and `Disconnect` erases the connection. -/
def erased : List DedicatedServer.Event :=
  [.accept, .allow 0, .leave .context] ++ challenged ++
  [.app .context (.send 0 (Message.new none)), .leave .context, .run .context, .leave .context,
    .run .context, .run .context]

/-- **The connection is destroyed while the lambda of its message is posted.** -/
theorem farewell_unsent : ∃ s, Reach system Free s ∧ s.Gone 0 ∧
    (s.server.objects 0).writeFailed = false ∧ s.given 0 = [(Message.new none, true)] ∧
      ¬ s.Parted 0 := by
  obtain ⟨s, hReach, hEnd⟩ := Reach.exists_of_free (M := system) rfl erased
    (fun s => decide (0 ∉ s.server.owners ∧ (s.server.objects 0).writeFailed = false ∧
      s.given 0 = [(Message.new none, true)] ∧
      (s.server.objects 0).waiting.length = (s.server.objects 0).sent.length)) (by decide)
  obtain ⟨hLost, hSound, hGiven, hAll⟩ := of_decide_eq_true hEnd
  refine ⟨s, hReach, .inl hLost, hSound, hGiven, fun hParted => ?_⟩
  obtain ⟨done, hWritten, hDone⟩ := hParted (.inl hLost) hSound
  have hFirst := hDone 0 (Message.new none) (by rw [hGiven]; rfl)
  have hSent := congrArg List.length hWritten.sent
  rw [List.length_append] at hSent
  obtain rfl : done = [] := List.eq_nil_of_length_eq_zero (by omega)
  cases hFirst

end Farewell

end MinecraftNetwork
